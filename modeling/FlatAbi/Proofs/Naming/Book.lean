import FlatAbi.Proofs.Emission.Members
import FlatAbi.Proofs.Emission.Offers

/-!
The names on file. A symbol that is new has the name that its callable would get from an empty file.
-/

namespace FlatAbi

open Emit FlatAbi.Module Draft Wrapper List NameBook Members

variable {job : Job} {sites : List Site} {before after : Draft} {c : Callable}

/-- A callable is offered by the class that it is a member of, or else by its own declaration. -/
theorem Module.Offers.owner_cases {site : Site} {owner : Option Site} (offers : Offers job site owner c) :
    c.owner = none ∧ c.site = site ∨ c.owner = some site := by
  cases offers with
  | function => exact .inl ⟨rfl, rfl⟩
  | accessor isVariable found listed =>
    have place := (accessors_regular none found c listed).2
    exact .inl ⟨congrArg (·.2.1) place, congrArg Prod.fst place⟩
  | member cxx isClass writes found listed =>
    obtain ⟨owned, owning, found⟩ := bind_eq_ok found
    obtain ⟨inherited, inheriting, found⟩ := bind_eq_ok found
    cases found
    rcases (inOrder_place owning inheriting listed).2 with ⟨_, _, place⟩ | ⟨_, _, place⟩ | implicit
    · exact .inr (congrArg (·.2.1) place)
    · exact .inr (congrArg (·.2.1) place)
    · exact .inr (implicit_place c implicit).1

theorem NameBook.mem_name {book : NameBook} {config : Config} {codes : List String} {entry : NameKey × String}
    (listed : entry ∈ (book.name config c codes).2) :
    entry ∈ book ∨ entry = (c.key, (book.name config c codes).1) :=
  (mem_cons.mp listed).symm

theorem Draft.isDefined_append {draft : Draft} {name : String} (more : List Symbol) (defined : draft.isDefined name) :
    { draft with symbols := draft.symbols ++ more }.isDefined name := by
  unfold isDefined at defined ⊢
  rw [any_append, defined, Bool.true_or]

/-- The symbol of a function, recorded for a callable that one of the sites offers. -/
def Module.Records (job : Job) (sites : List Site) (s : Symbol) : Prop :=
  ∃ site ∈ sites, ∃ owner c codes, Offers job site owner c ∧ Text.isSymbolName c.symName ∧
    codes? job (resolver job) c = some codes ∧
    s = symbolOf .function (.string (Naming.wrapperName job.config c codes)) c.site

/-- The names on file are those of symbols, they were filed for what the sites offer, and so were the functions. -/
structure Draft.Named (job : Job) (sites : List Site) (draft : Draft) : Prop where
  filed : ∀ entry ∈ draft.names, draft.isDefined entry.2
  keyed : ∀ entry ∈ draft.names, ∃ site ∈ sites, ∃ owner c, Offers job site owner c ∧ entry.1 = c.key
  recorded : ∀ s ∈ draft.symbols, s.kind = .function → Records job sites s

namespace Draft.Named

theorem unfiled {move : Move} (permitted : move.Unfiled) (moves : Step job move before after)
    (named : before.Named job sites) : after.Named job sites := by
  cases moves with
  | append | tell | learn => exact ⟨named.filed, named.keyed, named.recorded⟩
  | record _ symbol =>
    refine ⟨fun entry listed => isDefined_append [symbol] (named.filed entry listed), named.keyed, ?_⟩
    intro s listed function
    rcases mem_append.mp listed with earlier | last
    · exact named.recorded s earlier function
    · obtain rfl := mem_singleton.mp last
      exact (permitted function).elim
  | name | wrap => exact permitted.elim

theorem write {site : Site} {owner : Option Site} {outcome : Except Halt (Option Written)} (visits : site ∈ sites)
    (offers : Offers job site owner c) (valid : Text.isSymbolName c.symName)
    (settled : before.IsSetFor job) (ends : Ends (Wrapper.write job c) before outcome after)
    (survives : Survives outcome) (named : before.Named job sites) : after.Named job sites := by
  have keyed {codes : List String} : ∀ entry ∈ (before.names.name job.config c codes).2,
      ∃ site ∈ sites, ∃ owner c, Offers job site owner c ∧ entry.1 = c.key := by
    intro entry listed
    rcases mem_name listed with earlier | rfl
    · exact named.keyed entry earlier
    · exact ⟨site, visits, owner, c, offers, rfl⟩
  cases writeEnd_of_ends ends survives with
  | @published symbol rendering renders same fresh =>
    subst same
    rw [settled.resolver_eq] at renders
    refine ⟨fun entry listed => ?_, keyed, fun s listed function => ?_⟩
    · rcases mem_name listed with earlier | rfl
      · exact isDefined_append [_] (named.filed entry earlier)
      · simp [isDefined, Rendering.publishedIn, symbolOf, Value.asString?]
    · rcases mem_append.mp listed with earlier | last
      · exact named.recorded s earlier function
      · obtain rfl := mem_singleton.mp last
        refine ⟨site, visits, owner, c, rendering.codes, offers, valid, renders.codes, ?_⟩
        rw [name_eq named.filed fresh]
  | unconverted => exact ⟨named.filed, named.keyed, named.recorded⟩
  | @taken codes defined coded =>
    refine ⟨fun entry listed => ?_, keyed, named.recorded⟩
    rcases mem_name listed with earlier | rfl
    · exact named.filed entry earlier
    · exact defined
  | rejected => exact named

theorem steady {site : Site} (visits : site ∈ sites) : Steady job (Offers job site) (Named job sites) :=
  .of_write unfiled fun offers valid settled ends survives named =>
    named.write visits offers valid settled ends survives

end Draft.Named

theorem Module.prepared_named (job : Job) (sites : List Site) : (prepared job).Named job sites where
  filed _ listed := nomatch listed
  keyed _ listed := nomatch listed
  recorded _ listed := nomatch listed

theorem Visits.named {visits : List Visit} (chain : Visits job visits (Module.prepared job) after) :
    after.IsSetFor job ∧ after.Named job (visits.map (·.site)) :=
  chain.keeps (prepared_isSetFor job) (fun _ listed => Named.steady listed) (prepared_named job _)

end FlatAbi
