import FlatAbi.Proofs.Declaration.Textual
import FlatAbi.Proofs.Resolver.Transparency

/-!
The route of a resolution, round by round. Bases that were replaced are remembered, so that cycles end.
-/

namespace FlatAbi.SymbolTable

open Relation List

variable {table : SymbolTable} {tree : Node} {t : CxxType} {scope : Value} {followed : List (String × Site)}

/-- A resolution under way: the type so far, the scope that its base is looked up from, and the typedefs followed, each
with the base that it replaced. -/
structure Resolution where
  type : CxxType
  scope : Value
  followed : List (String × Site)

namespace Resolution

variable {r next last : Resolution} {cause : Misshapen}

/-- The bases that were replaced. -/
def expanded (r : Resolution) : List String :=
  r.followed.map (·.1)

/-- One round. There is none for a builtin base, for a base that was replaced already, and for one that names no
typedef. -/
def follow (table : SymbolTable) (r : Resolution) : Except Misshapen (Option Resolution) :=
  if r.type.isBuiltin || r.expanded.contains r.type.base then .ok none
  else do
    r.scope.checkText
    match table.typedef? r.type.base r.scope.display with
    | none => return none
    | some site =>
      match site.decl.type with
      | none => return none
      | some target =>
        site.checkScope
        return some ⟨target.under r.type.declarators, site.scopeValue, r.followed ++ [(r.type.base, site)]⟩

/-- The base is not builtin and was not replaced yet. -/
def IsFresh (r : Resolution) : Prop :=
  ¬ r.type.isBuiltin ∧ r.type.base ∉ r.expanded

/-- What a round comes to. -/
inductive Round (table : SymbolTable) (r : Resolution) : Except Misshapen (Option Resolution) → Prop
  | closed (closed : r.type.isBuiltin ∨ r.type.base ∈ r.expanded) : Round table r (.ok none)
  | unread {cause : Misshapen} (fresh : r.IsFresh) (text : r.scope.checkText = .error cause) :
      Round table r (.error cause)
  | unfound (fresh : r.IsFresh) (text : r.scope.checkText = .ok ())
      (untyped : ∀ site, table.typedef? r.type.base r.scope.display = some site → site.decl.type = none) :
      Round table r (.ok none)
  | unplaced {site : Site} {target : CxxType} {cause : Misshapen} (fresh : r.IsFresh)
      (text : r.scope.checkText = .ok ())
      (found : table.typedef? r.type.base r.scope.display = some site) (typed : site.decl.type = some target)
      (place : site.checkScope = .error cause) : Round table r (.error cause)
  | replaced {site : Site} {target : CxxType} (fresh : r.IsFresh) (text : r.scope.checkText = .ok ())
      (found : table.typedef? r.type.base r.scope.display = some site) (typed : site.decl.type = some target)
      (place : site.checkScope = .ok ()) :
      Round table r
        (.ok (some ⟨target.under r.type.declarators, site.scopeValue, r.followed ++ [(r.type.base, site)]⟩))

theorem round_of_follow {outcome : Except Misshapen (Option Resolution)} (follows : r.follow table = outcome) :
    Round table r outcome := by
  subst follows
  unfold follow
  split
  next closed => exact .closed (by simpa using closed)
  next isOpen =>
    have fresh : r.IsFresh := by simpa [IsFresh] using isOpen
    cases text : r.scope.checkText with
    | error cause => exact .unread fresh text
    | ok =>
      dsimp only [Bind.bind, Except.bind]
      split
      next absent => exact .unfound fresh text fun site found => by simp [absent] at found
      next site found =>
        split
        next untyped => exact .unfound fresh text fun other also => by cases found.symm.trans also; exact untyped
        next target typed =>
          cases place : site.checkScope with
          | error cause => exact .unplaced fresh text found typed place
          | ok => exact .replaced fresh text found typed place

/-- Any number of rounds lead from one resolution to another. -/
def Runs (table : SymbolTable) : Resolution → Resolution → Prop :=
  ReflTransGen fun r next => r.follow table = .ok (some next)

/-- The declarators of the type that a typedef stands for. -/
def chainOf (site : Site) : List Declarator :=
  site.decl.type.elim [] (·.declarators)

/-- Each round puts the declarators of a typedef behind those of the type, and goes on in the scope of the typedef. -/
theorem Runs.composes {scope : String} (runs : Runs table ⟨t, .string scope, []⟩ last) :
    last.type.declarators = t.declarators ++ last.followed.flatMap (chainOf ·.2) ∧
      last.scope.display = last.followed.getLast?.elim scope (·.2.scopeName) := by
  induction runs with
  | refl => exact ⟨(append_nil _).symm, rfl⟩
  | tail _ goes ih =>
    cases round_of_follow goes with
    | replaced _ _ _ typed =>
      constructor
      · simp [CxxType.under, ih.1, chainOf, typed]
      · simp [Site.display_scopeValue]

/-- The rounds end as the resolution does whose pending bases are those that the rounds can meet and have not
replaced. -/
theorem exists_last_round {start : String} {pending : List String} (listed : r.type.base ∈ start :: table.typedefBases)
    (unreplaced : ∀ name, name ∈ pending ↔ name ∈ start :: table.typedefBases ∧ name ∉ r.expanded) :
    ∃ last, Runs table r last ∧
      (last.follow table = .ok none ∧ table.checkFrom pending r.type r.scope = .ok () ∧
          table.resolveFrom pending r.type r.scope.display = last.type ∨
        ∃ cause, last.follow table = .error cause ∧ table.checkFrom pending r.type r.scope = .error cause) := by
  -- each round strikes a pending base
  induction length : pending.length using Nat.strongRecOn generalizing pending r with
  | ind n ih =>
    have isOpen (fresh : r.IsFresh) : r.type.base ∈ pending := (unreplaced _).mpr ⟨listed, fresh.2⟩
    unfold checkFrom resolveFrom
    generalize goes : r.follow table = outcome
    cases round_of_follow goes with
    | closed closed =>
      refine ⟨r, .refl, .inl ⟨goes, ?_⟩⟩
      by_cases named : r.type.isBuiltin
      · simp only [named, if_true, and_self]
      · have struck : r.type.base ∉ pending := by simp [unreplaced, closed.resolve_left named]
        simp only [named, struck, dite_false, ite_self, and_self]
    | unread fresh text =>
      refine ⟨r, .refl, .inr ⟨_, goes, ?_⟩⟩
      rw [if_neg fresh.1, dif_pos (isOpen fresh), text]
      rfl
    | unfound fresh text untyped =>
      refine ⟨r, .refl, .inl ⟨goes, ?_⟩⟩
      rw [if_neg fresh.1, dif_pos (isOpen fresh), if_neg fresh.1, dif_pos (isOpen fresh), text]
      cases found : table.typedef? r.type.base r.scope.display with
      | none => exact ⟨rfl, rfl⟩
      | some site =>
        simp only [untyped site found, and_true]
        rfl
    | unplaced fresh text found typed place =>
      refine ⟨r, .refl, .inr ⟨_, goes, ?_⟩⟩
      rw [if_neg fresh.1, dif_pos (isOpen fresh), text]
      simp only [found, typed, place]
      rfl
    | @replaced site target fresh text found typed place =>
      have met := mem_typedefBases found typed
      obtain ⟨last, runs, ends⟩ := ih _ (length ▸ strike_length (isOpen fresh))
        (r := ⟨target.under r.type.declarators, site.scopeValue, r.followed ++ [(r.type.base, site)]⟩)
        (mem_cons_of_mem start met) (by simp [strike, unreplaced, expanded, and_assoc]) rfl
      refine ⟨last, .head goes runs, ?_⟩
      rw [Site.display_scopeValue] at ends
      rw [if_neg fresh.1, dif_pos (isOpen fresh), if_neg fresh.1, dif_pos (isOpen fresh), text]
      simp only [found, typed, place]
      exact ends

end Resolution

open Resolution

theorem exists_type_of_typedef {root site : Site} {name scope : String}
    (found : (ofTree root).typedef? name scope = some site) :
    site ∈ root.walk ∧ ∃ target, site.decl.type = some target := by
  obtain ⟨key, listed⟩ := exists_entry_of_find found
  obtain ⟨member, isName⟩ := mem_typedefs_ofTree listed
  unfold typedefNames at isName
  split at isName
  next isTypedef =>
    rw [Bool.and_eq_true] at isTypedef
    exact ⟨member, Option.isSome_iff_exists.mp isTypedef.2⟩
  · cases isName

theorem follow_ne_error {scope : String} {last : Resolution} (textual : (Site.root tree).IsTextual)
    (runs : Runs (.ofTree (.root tree)) ⟨t, .string scope, []⟩ last) (cause : Misshapen) :
    last.follow (.ofTree (.root tree)) ≠ .error cause := by
  have text : last.scope.checkText = .ok () := by
    rcases runs.cases_tail with rfl | ⟨_, _, goes⟩
    · rfl
    · cases round_of_follow goes with
      | replaced _ _ found => exact if_pos (textual.scope (exists_type_of_typedef found).1).2
  intro fails
  cases round_of_follow fails with
  | unread _ failed => simp [text] at failed
  | unplaced _ _ found _ failed => simp [(textual.scope (exists_type_of_typedef found).1).1] at failed

/-- A resolution ends for every tree, with cycles of typedefs or without. Its type has the declarators of the type that
it began with and then those of the typedefs on its route, in order; its base is builtin, names no typedef that is
visible from the scope of the last one, or was replaced already. It fails only where the name of a scope is not text. -/
theorem resolution_ends (tree : Node) (t : CxxType) (scope : String) :
    ∃ last, Runs (.ofTree (.root tree)) ⟨t, .string scope, []⟩ last ∧
      last.type.declarators = t.declarators ++ last.followed.flatMap (chainOf ·.2) ∧
      (last.follow (.ofTree (.root tree)) = .ok none ∧
          (ofTree (.root tree)).checkResolve t (.string scope) = .ok () ∧
          (ofTree (.root tree)).resolve t scope = last.type ∧
          (last.type.isBuiltin = true ∨
            (ofTree (.root tree)).typedef? last.type.base (last.followed.getLast?.elim scope (·.2.scopeName)) = none ∨
            last.type.base ∈ last.expanded) ∨
        ∃ cause, last.follow (.ofTree (.root tree)) = .error cause ∧
          (ofTree (.root tree)).checkResolve t (.string scope) = .error cause ∧ ¬ (Site.root tree).IsTextual) := by
  have unreplaced : ∀ name, name ∈ t.base :: (ofTree (.root tree)).typedefBases ↔
      name ∈ t.base :: (ofTree (.root tree)).typedefBases ∧ name ∉ ([] : List (String × Site)).map (·.1) := by simp
  obtain ⟨last, runs, ends⟩ := exists_last_round (r := ⟨t, .string scope, []⟩) mem_cons_self unreplaced
  obtain ⟨chain, place⟩ := runs.composes
  refine ⟨last, runs, chain, ?_⟩
  rcases ends with ⟨stops, checked, resolved⟩ | ⟨cause, fails, failed⟩
  · refine .inl ⟨stops, checked, resolved, ?_⟩
    cases round_of_follow stops with
    | closed closed => exact closed.imp_right .inr
    | unfound _ _ untyped =>
      rw [place] at untyped
      refine .inr (.inl (Option.eq_none_iff_forall_ne_some.mpr fun site found => ?_))
      obtain ⟨_, target, typed⟩ := exists_type_of_typedef found
      simp [untyped site found] at typed
  · exact .inr ⟨cause, fails, failed, fun textual => follow_ne_error textual runs cause fails⟩

/-- Two typedefs that stand for each other. -/
def ringTree : Node :=
  .mk (.named .moduleDecl "m")
    [.mk { Declaration.named .typedefDecl "Odd" with type := some ⟨"Even", [.pointer]⟩ } [],
      .mk { Declaration.named .typedefDecl "Even" with type := some ⟨"Odd", [.lvalueReference]⟩ } []]

example : (ofTree (.root ringTree)).resolve ⟨"Odd", []⟩ "" = ⟨"Odd", [.pointer, .lvalueReference]⟩ := by
  decide +kernel

end FlatAbi.SymbolTable
