import FlatAbi.Proofs.Emission.Members
import FlatAbi.Proofs.Naming.Book
import FlatAbi.Proofs.Wrapper.AllOrNothing
import FlatAbi.Proofs.Wrapper.Coverage

/-!
Sets of overloaded functions. They are wrapped without loss exactly if the joined codes of their types differ.
-/

namespace FlatAbi

open Emit Naming Wrapper List Site Text Value

variable {job : Job} {r : Resolver} {c : Callable} {before after draft : Draft} {site : Site}

/-! ### The visit of a function -/

/-- The symbols that a visit recorded. -/
def Visit.recorded (visit : Visit) : List Symbol :=
  visit.after.symbols.drop visit.before.symbols.length

namespace Visits

variable {visits : List Visit} {visit : Visit}

theorem split (chain : Visits job visits before after) (listed : visit ∈ visits) :
    ∃ front back, visits = front ++ visit :: back ∧ Visits job front before visit.before ∧
      Ends (Module.declaration job visit.site) visit.before (.ok ()) visit.after := by
  induction chain with
  | nil => cases listed
  | @cons site rest before middle after first others ih =>
    rcases mem_cons.mp listed with rfl | later
    · exact ⟨[], rest, rfl, .nil, first⟩
    · obtain ⟨front, back, rfl, chain, ends⟩ := ih later
      exact ⟨⟨site, before, middle⟩ :: front, back, rfl, .cons first chain, ends⟩

theorem symbols_eq (chain : Visits job visits before after) :
    after.symbols = before.symbols ++ visits.flatMap (·.recorded) := by
  induction chain with
  | nil => simp
  | @cons site rest before middle after first others ih =>
    obtain ⟨added, grown⟩ := ((declaration_within site).goes first survives_ok).extended.symbols
    rw [ih, flatMap_cons, ← append_assoc]
    simp [Visit.recorded, ← grown]

end Visits

namespace Module

/-- The codes of the types that a function is declared with. -/
def overloadCodes (job : Job) (site : Site) : List String :=
  typeCodes (resolver job).table (freeCallable job site)

/-- The name that a function gets from an empty file. -/
def overloadName (job : Job) (site : Site) : String :=
  wrapperName job.config (freeCallable job site) (overloadCodes job site)

theorem write_of_visit (function : site.kind = .functionDecl) (free : site.decl.isFriend = false)
    (valid : isSymbolName (freeCallable job site).symName) (settled : before.IsSetFor job)
    (visit : Ends (declaration job site) before (.ok ()) after) :
    ∃ outcome written, Ends (write job (freeCallable job site)) before outcome written ∧ Survives outcome ∧
      after.symbols = written.symbols := by
  have wrote {outcome : Except Halt Unit} {last : Draft} (ends : Ends (freeFunction job site) before outcome last)
      (survives : Survives outcome) : ∃ outcome,
        Ends (write job (freeCallable job site)) before outcome last ∧ Survives outcome := by
    unfold freeFunction at ends
    simp only [free, Bool.not_false, if_true] at ends
    obtain ⟨_, ends⟩ := ends.check_bind survives
    rw [ends_get_bind, settled.freeFunctions] at ends
    have wrapped : ∃ outcome, Ends (wrap job none (freeCallable job site)) before outcome last ∧ Survives outcome := by
      rcases ends.bind_survived survives with ⟨_, _, wrapped, ended⟩ | ⟨_, _, wrapped, _⟩
      · obtain ⟨_, rfl⟩ := ended.of_pure
        exact ⟨_, wrapped, survives_ok⟩
      · exact ⟨_, wrapped, survives_rejected⟩
    obtain ⟨_, wrapped, survivesToo⟩ := wrapped
    cases wrapping_of_ends wrapped survivesToo with
    | refused invalid =>
      rw [valid] at invalid
      cases invalid
    | wrote _ wrote survives => exact ⟨_, wrote, survives⟩
    | added _ isOpened => cases isOpened
  unfold declaration at visit
  rw [function] at visit
  rcases visit.guarded_cases survives_ok with ended | ⟨_, _, middle, began, rfl⟩
  · obtain ⟨outcome, ends, survives⟩ := wrote ended survives_ok
    exact ⟨outcome, after, ends, survives, rfl⟩
  · obtain ⟨outcome, ends, survives⟩ := wrote began survives_rejected
    exact ⟨outcome, middle, ends, survives, rfl⟩

end Module

theorem NameBook.name_of_unfiled {book : NameBook} (unfiled : ∀ entry ∈ book, entry.1 ≠ c.key) (config : Config)
    (codes : List String) : (book.name config c codes).1 = wrapperName config c codes := by
  have absent : book.lookup c.key = none := by
    rw [lookup_eq_none_iff]
    intro entry listed
    simpa using (unfiled entry listed).symm
  unfold name give
  rw [absent]
  rfl

theorem Wrapper.typedParameters_ne_rejected {message : String} {place : Option Site}
    (fixed : ∀ t ∈ c.parameters.filterMap (·.type), t.isEllipsis = false) :
    typedParameters c ≠ .error (.rejected message place) := by
  intro rejected
  obtain ⟨p, listed, failed⟩ := exists_of_mapM_error rejected
  split at failed
  · cases failed
  next t written =>
    rw [fixed t (mem_filterMap.mpr ⟨p, listed, written⟩)] at failed
    cases failed

namespace Module

/-- A function that has a symbol, that a run comes to, and whose parameters are not variadic. -/
structure IsFreeFunction (job : Job) (symbol : String) (f : Site) : Prop where
  reached : Reached isOpenGroup job.root f
  function : f.kind = .functionDecl
  shown : f.decl.isIgnored = false
  free : f.decl.isFriend = false
  named : f.decl.givenSymbol = .string symbol
  fixed : ∀ t ∈ f.decl.parameters.filterMap (·.type), t.isEllipsis = false

/-- A function of a scope that has a symbol, that a run comes to, and whose parameters are neither variadic nor
`void`. -/
structure IsOverload (job : Job) (scope : Option Site) (symbol : String) (f : Site) : Prop where
  reached : Reached isOpenGroup job.root f
  function : f.kind = .functionDecl
  shown : f.decl.isIgnored = false
  free : f.decl.isFriend = false
  within : f.scope? = scope
  named : f.decl.givenSymbol = .string symbol
  fixed : ∀ t ∈ f.decl.parameters.filterMap (·.type), t.isEllipsis = false
  solid : ∀ t ∈ f.decl.parameters.filterMap (·.type), ((resolver job).table.resolve t f.scopeName).isVoid = false

variable {scope : Option Site} {symbol : String} {f : Site}

theorem truthy_of_isSymbolName (valid : isSymbolName symbol) : (string symbol).truthy := by
  by_contra empty
  have same : symbol = "" := by simpa [truthy] using empty
  rw [same] at valid
  cases valid

namespace IsFreeFunction

section

variable (isFree : IsFreeFunction job symbol f)

include isFree

theorem symbolValue (valid : isSymbolName symbol) : f.decl.symbolValue = .string symbol := by
  unfold Declaration.symbolValue
  rw [isFree.named, truthy_of_isSymbolName valid, if_pos rfl]

theorem symName (valid : isSymbolName symbol) : (freeCallable job f).symName = symbol :=
  congrArg display (isFree.symbolValue valid)

theorem overloadKey (valid : isSymbolName symbol) : overloadKey f = (f.scope?.map (·.id), (string symbol).atom?) := by
  unfold Module.overloadKey overloadSymbol
  rw [isFree.named, truthy_of_isSymbolName valid, if_pos rfl]

theorem mem_freeFunctions : f ∈ job.root.freeFunctions := by
  have groups {found : Site} (reached : Reached isOpenGroup job.root found) : Reached isGroup job.root found := by
    induction reached with
    | child listed => exact .child listed
    | through _ passed listed ih =>
      simp only [isOpenGroup, Bool.and_eq_true] at passed
      exact .through ih passed.1 listed
  have function : f.decl.kind = .functionDecl := isFree.function
  unfold freeFunctions
  rw [mem_filter, mem_reach_iff]
  exact ⟨⟨groups isFree.reached, by simp [isGroup, function]⟩, by simp [isFree.function, isFree.shown]⟩

theorem mem_visited : f ∈ visited job := by
  have function : f.decl.kind = .functionDecl := isFree.function
  have stops : isOpenGroup f.decl = false := by simp [isOpenGroup, isGroup, function]
  exact mem_append_right _ (mem_emitted_iff.mpr ⟨isFree.reached, stops, isFree.shown⟩)

theorem overloadName_eq (valid : isSymbolName symbol) :
    overloadName job f = freePart job.config f ++ "_" ++ symbol ++
      suffixOf (freeCallable job f) (overloadCodes job f) := by
  rw [← isFree.symName valid]
  rfl

end

end IsFreeFunction

theorem visit_function (cxx : job.config.cplusplus) (defaults : job.typemaps.useDefaults)
    (valid : isSymbolName symbol) (isFree : IsFreeFunction job symbol f) (settled : before.IsSetFor job)
    (unfiled : ∀ entry ∈ before.names, entry.1 ≠ (freeCallable job f).key)
    (visit : Ends (declaration job f) before (.ok ()) after) :
    (isConvertible job (resolver job) (freeCallable job f) ∧
        after.symbols = before.symbols ++ [symbolOf .function (.string (overloadName job f)) f]) ∨
      (after.symbols = before.symbols ∧
        (isConvertible job (resolver job) (freeCallable job f) = false ∨
          before.isDefined (overloadName job f))) := by
  obtain ⟨outcome, written, ends, survives, same⟩ :=
    write_of_visit isFree.function isFree.free (by rwa [isFree.symName valid]) settled visit
  have named {codes : List String} (coded : codes? job (resolver job) (freeCallable job f) = some codes) :
      (before.names.name job.config (freeCallable job f) codes).1 = overloadName job f := by
    rw [NameBook.name_of_unfiled unfiled, codes_eq_typeCodes cxx coded]
    rfl
  rw [same]
  cases writeEnd_of_ends ends survives with
  | @published symbol rendering renders given fresh =>
    rw [settled.resolver_eq] at renders
    rw [named renders.codes] at given
    subst given
    refine .inl ⟨?_, rfl⟩
    cases renders with
    | converted _ typed planned => exact isConvertible_of_plan typed planned
    | direct plain =>
      rw [cxx] at plain
      cases plain
  | unconverted _ typed planned =>
    rw [settled.resolver_eq] at planned
    exact .inr ⟨rfl, .inl (not_isConvertible_of_skipped defaults typed planned)⟩
  | taken defined coded =>
    rw [settled.resolver_eq] at coded
    rw [named coded] at defined
    exact .inr ⟨rfl, .inr defined⟩
  | rejected typed => exact absurd typed (typedParameters_ne_rejected isFree.fixed)

namespace IsOverload

theorem isFreeFunction (overload : IsOverload job scope symbol f) : IsFreeFunction job symbol f :=
  ⟨overload.reached, overload.function, overload.shown, overload.free, overload.named, overload.fixed⟩

theorem mem_visited (overload : IsOverload job scope symbol f) : f ∈ visited job :=
  overload.isFreeFunction.mem_visited

/-- An overload can lose its result only. -/
theorem isConvertible_eq (overload : IsOverload job scope symbol f) :
    isConvertible job (resolver job) (freeCallable job f) =
      !losesResult job (resolver job) (freeCallable job f) := by
  have kept : ((freeCallable job f).parameters.filterMap (·.type)).all
      (fun t => !losesParameter job (resolver job) (freeCallable job f) t) := by
    refine all_eq_true.mpr fun t listed => ?_
    have solid : ((resolver job).table.resolve t (freeCallable job f).site.scopeName).isVoid = false :=
      overload.solid t listed
    simp [losesParameter, solid]
  rw [isConvertible, kept, Bool.true_and]

end IsOverload

/-! ### Names of overloads -/

section

variable {functions : List Site} (valid : isSymbolName symbol) (distinct : functions.Nodup)
  (each : ∀ f ∈ functions, IsOverload job scope symbol f)

include valid distinct each

theorem IsOverload.overloaded (several : 1 < functions.length) (listed : f ∈ functions) :
    (freeCallable job f).overloaded := by
  have same : functions.countP (Module.overloadKey · == Module.overloadKey f) = functions.length := by
    rw [countP_eq_length]
    intro g member
    have same : g.scope? = f.scope? := (each g member).within.trans (each f listed).within.symm
    rw [(each g member).isFreeFunction.overloadKey valid, (each f listed).isFreeFunction.overloadKey valid, same]
    exact beq_self_eq_true _
  have counted := (subperm_of_subset distinct fun g member =>
      (each g member).isFreeFunction.mem_freeFunctions).countP_le
    (Module.overloadKey · == Module.overloadKey f)
  have grouped : (prepared job).freeFunctions.count (Module.overloadKey f) =
      job.root.freeFunctions.countP (Module.overloadKey · == Module.overloadKey f) := countP_map
  exact decide_eq_true (by omega)

theorem overloadNames_nodup_iff :
    (functions.map (overloadName job)).Nodup ↔
      (functions.map fun f => overloadSuffix (overloadCodes job f) false).Nodup := by
  cases functions with
  | nil => simp
  | cons first rest =>
    by_cases several : 1 < (first :: rest).length
    · have starts (f : Site) (overload : IsOverload job scope symbol f) :
          freePart job.config f = freePart job.config first := by
        unfold freePart scopePart?
        rw [overload.within, (each first (by simp)).within]
      have parts : ∀ f ∈ first :: rest, overloadName job f = freePart job.config first ++ "_" ++ symbol ++
          overloadSuffix (overloadCodes job f) false := by
        intro f listed
        have overload := each f listed
        have suffix : suffixOf (freeCallable job f) (overloadCodes job f) =
            overloadSuffix (overloadCodes job f) false := by
          unfold suffixOf
          rw [IsOverload.overloaded valid distinct each several listed]
          rfl
        rw [← starts f overload, ← suffix]
        exact overload.isFreeFunction.overloadName_eq valid
      have names : (first :: rest).map (overloadName job) =
          ((first :: rest).map fun f => overloadSuffix (overloadCodes job f) false).map
            (freePart job.config first ++ "_" ++ symbol ++ ·) := by
        rw [map_map]
        exact map_congr_left parts
      rw [names, nodup_map_iff]
      exact fun _ _ same => (String.append_right_inj _).mp same
    · have single : rest = [] := by simpa using several
      simp [single]

end

/-! ### Runs -/

theorem unfiled_of_named {sites : List Site} (named : draft.Named job sites) (absent : f.id ∉ sites.map (·.id)) :
    ∀ entry ∈ draft.names, entry.1 ≠ (freeCallable job f).key := by
  intro entry listed same
  obtain ⟨site, visited, owner, c, offers, filed⟩ := named.keyed entry listed
  rw [filed] at same
  simp only [Callable.key, NameKey.mk.injEq, freeCallable, Option.map_none, Option.map_eq_none_iff] at same
  rcases offers.owner_cases with ⟨_, rfl⟩ | owned
  · exact absent (same.1 ▸ mem_map_of_mem visited)
  · cases owned.symm.trans same.2.1

section

variable {visits : List Visit} {visit : Visit} (cxx : job.config.cplusplus) (defaults : job.typemaps.useDefaults)
  (valid : isSymbolName symbol) (chain : Visits job visits (prepared job) draft)
  (once : (visits.map (·.site.id)).Nodup) (listed : visit ∈ visits)

include cxx defaults valid chain once listed

/-- A function is recorded, or it is not converted, or its name was recorded by a visit before. -/
theorem recorded_of_function (isFree : IsFreeFunction job symbol visit.site) :
    (isConvertible job (resolver job) (freeCallable job visit.site) ∧
        visit.recorded = [symbolOf .function (.string (overloadName job visit.site)) visit.site]) ∨
      (visit.recorded = [] ∧
        (isConvertible job (resolver job) (freeCallable job visit.site) = false ∨
          ∃ other ∈ visits, other.site ≠ visit.site ∧ ∃ s ∈ other.recorded,
            s.name = .string (overloadName job visit.site))) := by
  obtain ⟨front, back, rfl, earlier, ends⟩ := chain.split listed
  obtain ⟨settled, named⟩ := earlier.named
  rw [map_append, map_cons, nodup_append] at once
  have absent : visit.site.id ∉ front.map (·.site.id) := fun member => once.2.2 _ member _ (by simp) rfl
  have unfiled := unfiled_of_named named (by rwa [map_map])
  rcases visit_function cxx defaults valid isFree settled unfiled ends with ⟨kept, symbols⟩ | ⟨symbols, lost⟩
  · exact .inl ⟨kept, by simp [Visit.recorded, symbols]⟩
  · refine .inr ⟨by simp [Visit.recorded, symbols], lost.imp_right fun defined => ?_⟩
    obtain ⟨s, recorded, same⟩ := any_eq_true.mp defined
    rw [earlier.symbols_eq] at recorded
    obtain ⟨other, member, recorded⟩ := mem_flatMap.mp recorded
    refine ⟨other, mem_append_left _ member, fun same => ?_, s, recorded, ?_⟩
    · exact absent (same ▸ mem_map_of_mem member)
    · exact eq_string (beq_iff_eq.mp same)

theorem recorded_of_visit (overload : IsOverload job scope symbol visit.site) :
    (losesResult job (resolver job) (freeCallable job visit.site) = false ∧
        visit.recorded = [symbolOf .function (.string (overloadName job visit.site)) visit.site]) ∨
      (visit.recorded = [] ∧
        (losesResult job (resolver job) (freeCallable job visit.site) ∨
          ∃ other ∈ visits, other.site ≠ visit.site ∧ ∃ s ∈ other.recorded,
            s.name = .string (overloadName job visit.site))) := by
  have outcome := recorded_of_function cxx defaults valid chain once listed overload.isFreeFunction
  rwa [overload.isConvertible_eq, Bool.not_eq_true', Bool.not_eq_false'] at outcome

end

/-- A set of overloads is wrapped without loss, if no other declaration records one of their names: each of them has one
symbol, and the names of these symbols differ. This holds exactly if the joined codes of their parameter types differ
and none of their results is `void` under another name. -/
theorem overloads_recorded_iff {tree : Node} {functions : List Site} (rooted : job.root = .root tree)
    (cxx : job.config.cplusplus = true) (defaults : job.typemaps.useDefaults = true) (ran : run job = .ok draft)
    (valid : isSymbolName symbol = true) (distinct : functions.Nodup)
    (each : ∀ f ∈ functions, IsOverload job scope symbol f) :
    ∃ visits, Visits job visits (prepared job) draft ∧ visits.map (·.site) = visited job ∧
      ((∀ visit ∈ visits, visit.site ∉ functions → ∀ s ∈ visit.recorded, ∀ f ∈ functions,
          s.name ≠ .string (overloadName job f)) →
        ((∀ f ∈ functions, ∃ visit ∈ visits, visit.site = f ∧
            visit.recorded = [symbolOf .function (.string (overloadName job f)) f]) ∧
          (functions.map (overloadName job)).Nodup ↔
        (∀ f ∈ functions, Wrapper.losesResult job (resolver job) (freeCallable job f) = false) ∧
          (functions.map fun f => Naming.overloadSuffix (overloadCodes job f) false).Nodup)) := by
  obtain ⟨visits, chain, sites⟩ := exists_visits ran
  have once : (visits.map (·.site.id)).Nodup := by
    have ids := visited_ids_nodup rooted
    rwa [← sites, map_map] at ids
  refine ⟨visits, chain, sites, fun uncontested => ?_⟩
  rw [overloadNames_nodup_iff valid distinct each]
  refine and_congr_left fun differ => ⟨fun recorded f listed => ?_, fun kept f listed => ?_⟩
  · obtain ⟨visit, member, rfl, symbols⟩ := recorded f listed
    rcases recorded_of_visit cxx defaults valid chain once member (each _ listed) with ⟨kept, _⟩ | ⟨empty, _⟩
    · exact kept
    · rw [empty] at symbols
      cases symbols
  · have visits : f ∈ visits.map (·.site) := sites ▸ (each f listed).mem_visited
    obtain ⟨visit, member, rfl⟩ := mem_map.mp visits
    rcases recorded_of_visit cxx defaults valid chain once member (each _ listed) with ⟨_, symbols⟩ | ⟨_, lost | taken⟩
    · exact ⟨visit, member, rfl, symbols⟩
    · rw [kept _ listed] at lost
      cases lost
    · obtain ⟨other, also, apart, s, held, named⟩ := taken
      -- The name was recorded by another overload, so that two of them share it.
      by_cases overload : other.site ∈ functions
      · rcases recorded_of_visit cxx defaults valid chain once also (each _ overload) with ⟨_, symbols⟩ | ⟨empty, _⟩
        · rw [symbols, mem_singleton] at held
          rw [held] at named
          have names := (overloadNames_nodup_iff valid distinct each).mpr differ
          exact absurd (inj_on_of_nodup_map names overload listed (string.inj named)) apart
        · rw [empty] at held
          cases held
      · exact absurd named (uncontested other also overload s held _ listed)

end Module

/-- A module with two functions `f`. One takes a `long`, the other one a builtin type that is given. -/
def pairModule (other : String) : Job :=
  .ofNodes
    [ .mk
        { Declaration.named .functionDecl "f" with
          parameters := [{ name := .string "x", type := some ⟨"long", []⟩ }] } [],
      .mk
        { Declaration.named .functionDecl "f" with
          parameters := [{ name := .string "x", type := some ⟨other, []⟩ }] } [] ]

theorem pairModule_isOverload :
    ∀ f ∈ (pairModule "int64_t").root.children, Module.IsOverload (pairModule "int64_t") none "f" f := by
  intro f listed
  have reached : Reached isOpenGroup (pairModule "int64_t").root f := .child listed
  rcases mem_cons.mp listed with rfl | last
  · exact ⟨reached, rfl, rfl, rfl, rfl, rfl, by decide, by decide +kernel⟩
  · obtain rfl := mem_singleton.mp last
    exact ⟨reached, rfl, rfl, rfl, rfl, rfl, by decide, by decide +kernel⟩

theorem Module.overloads_recorded_of_pairModule :
    ∃ draft visits, Module.run (pairModule "int64_t") = .ok draft ∧
      Visits (pairModule "int64_t") visits (prepared (pairModule "int64_t")) draft ∧
      (pairModule "int64_t").root.children.map (overloadName (pairModule "int64_t")) = ["m_f_l", "m_f_int64_t"] ∧
      ∀ f ∈ (pairModule "int64_t").root.children, ∃ visit ∈ visits, visit.site = f ∧
        visit.recorded = [symbolOf .function (.string (overloadName (pairModule "int64_t") f)) f] := by
  have completes : (Module.run (pairModule "int64_t")).isOk := by decide +kernel
  obtain ⟨draft, ran⟩ := ok_of_isOk completes
  have distinct : (pairModule "int64_t").root.children.Nodup := .of_map (·.id) (by decide)
  have differ : ((pairModule "int64_t").root.children.map fun f =>
      Naming.overloadSuffix (overloadCodes (pairModule "int64_t") f) false).Nodup := by
    decide +kernel
  have kept : ∀ f ∈ (pairModule "int64_t").root.children, Wrapper.losesResult (pairModule "int64_t")
      (resolver (pairModule "int64_t")) (freeCallable (pairModule "int64_t") f) = false := by
    decide +kernel
  obtain ⟨visits, chain, sites, recorded⟩ := overloads_recorded_iff rfl rfl rfl ran
    (show isSymbolName "f" = true by decide) distinct pairModule_isOverload
  have alone : ∀ visit ∈ visits, visit.site ∈ (pairModule "int64_t").root.children := by
    intro visit listed
    have visited : visit.site ∈ visits.map (·.site) := mem_map_of_mem listed
    rw [sites] at visited
    exact visited
  refine ⟨draft, visits, ran, chain, by decide +kernel, ?_⟩
  exact ((recorded fun visit listed other => absurd (alone visit listed) other).mpr ⟨kept, differ⟩).1

/-- Of two builtin types that begin with the same letter one is lost. -/
theorem Module.pairModule_loses :
    (Module.run (pairModule "long long")).toOption.map (fun draft =>
      (draft.symbols.map (·.name.display), draft.diagnostics.map (·.message))) =
        some (["m_f_l"], ["Wrapper m_f_l already defined, f skipped"]) := by
  decide +kernel

end FlatAbi
