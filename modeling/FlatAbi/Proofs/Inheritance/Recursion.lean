import FlatAbi.Proofs.Inheritance.Acyclic

/-!
The recursion on bases, told without a bound on its depth. Each class is opened once at most.
-/

namespace FlatAbi.Inheritance

open List Memo

variable {table : SymbolTable} {cls base : Site} {memo : Memo}

/-- Take the members that a base has to offer: its own, and those that it inherits. -/
def offer (cls base : Site) (inherited : List Shadow) (state : List Shadow × Memo) : List Shadow × Memo :=
  ((handedDown base ++ inherited).foldl (take (ownSymbols cls)) state.1,
    state.2.note (checkSymbols (handedDown base ++ inherited)))

/-- Members are taken from bases of a class, one base after the other. The members that a base inherits are known, or
taken from its own bases first. -/
inductive Collects (table : SymbolTable) : Site → List Site → List Shadow × Memo → List Shadow × Memo → Prop where
  | done (cls : Site) (state : List Shadow × Memo) : Collects table cls [] state state
  | known {cls base : Site} {rest : List Site} {taken found : List Shadow} {memo : Memo} {final : List Shadow × Memo}
      (stored : memo.entries.lookup base.id = some found)
      (others : Collects table cls rest (offer cls base found (taken, memo.note (checkHandedDown base))) final) :
      Collects table cls (base :: rest) (taken, memo) final
  | worked {cls base : Site} {rest : List Site} {taken below : List Shadow} {memo learned : Memo}
      {final : List Shadow × Memo} (unknown : memo.entries.lookup base.id = none)
      (above : Collects table base (usableBases table base) ([], (memo.note (checkHandedDown base)).start base)
        (below, learned))
      (others : Collects table cls rest
        (offer cls base (disambiguate below) (taken, learned.finish base (disambiguate below))) final) :
      Collects table cls (base :: rest) (taken, memo) final

/-- A query for the members of a class ends with an answer. -/
inductive Flattens (table : SymbolTable) (memo : Memo) (cls : Site) : List Shadow × Memo → Prop where
  | known {found : List Shadow} (stored : memo.entries.lookup cls.id = some found) :
      Flattens table memo cls (found, memo)
  | worked {below : List Shadow} {learned : Memo} (unknown : memo.entries.lookup cls.id = none)
      (above : Collects table cls (usableBases table cls) ([], memo.start cls) (below, learned)) :
      Flattens table memo cls (disambiguate below, learned.finish cls (disambiguate below))

theorem Collects.cons {rest : List Site} {taken : List Shadow} {answer final : List Shadow × Memo}
    (flattens : Flattens table (memo.note (checkHandedDown base)) base answer)
    (others : Collects table cls rest (offer cls base answer.1 (taken, answer.2)) final) :
    Collects table cls (base :: rest) (taken, memo) final := by
  cases flattens with
  | known stored =>
    rw [note_entries] at stored
    exact .known stored others
  | worked unknown above =>
    rw [note_entries] at unknown
    exact .worked unknown above others

theorem Collects.unique {bases : List Site} {state final other : List Shadow × Memo}
    (one : Collects table cls bases state final) (two : Collects table cls bases state other) : final = other := by
  induction one generalizing other with
  | done =>
    cases two
    rfl
  | known stored _ ih =>
    cases two with
    | known storedToo others =>
      obtain rfl := Option.some.inj (stored.symm.trans storedToo)
      exact ih others
    | worked unknown _ _ => simp [stored] at unknown
  | worked unknown _ _ ihAbove ih =>
    cases two with
    | known stored _ => simp [stored] at unknown
    | worked _ above others =>
      cases ihAbove above
      exact ih others

theorem Flattens.unique {one two : List Shadow × Memo} (first : Flattens table memo cls one)
    (second : Flattens table memo cls two) : one = two := by
  cases first with
  | known stored =>
    cases second with
    | known storedToo =>
      obtain rfl := Option.some.inj (stored.symm.trans storedToo)
      rfl
    | worked unknown _ => simp [stored] at unknown
  | worked unknown above =>
    cases second with
    | known stored => simp [stored] at unknown
    | worked _ aboveToo =>
      cases above.unique aboveToo
      rfl

/-- The classes on file that have no answer yet. -/
def unanswered (table : SymbolTable) (memo : Memo) : List (String × Site) :=
  table.classes.filter fun entry => (memo.entries.lookup entry.2.id).isNone

theorem Memo.KeptBy.unanswered_le {after : Memo} (kept : memo.KeptBy after) :
    (unanswered table after).length ≤ (unanswered table memo).length := by
  refine (monotone_filter_right _ fun entry unknown => ?_).length_le
  cases known : memo.entries.lookup entry.2.id with
  | none => rfl
  | some found => simp [kept _ _ known] at unknown

theorem unanswered_start_lt (has : HasBase table cls base) (unknown : memo.entries.lookup base.id = none) :
    (unanswered table (memo.start base)).length < (unanswered table memo).length := by
  have fewer : unanswered table (memo.start base) = (unanswered table memo).filter (·.2.id != base.id) := by
    rw [unanswered, unanswered, filter_filter, start_entries]
    refine filter_congr fun entry _ => ?_
    by_cases same : entry.2.id = base.id
    · simp [same]
    · rw [lookup_eq_of_ne same, bne_iff_ne.mpr same, Bool.true_and]
  obtain ⟨entry, listed, rfl⟩ := has.listed
  rw [fewer]
  refine length_filter_lt_length_iff_exists.mpr ⟨entry, mem_filter.mpr ⟨listed, ?_⟩, by simp⟩
  rw [unknown]
  rfl

theorem unanswered_note (memo : Memo) (check : Except Misshapen Unit) :
    unanswered table (memo.note check) = unanswered table memo := by
  rw [unanswered, note_entries]
  rfl

theorem collects_foldl {depth : Nat} {bases : List Site}
    (each : ∀ base ∈ bases, ∀ memo : Memo, (unanswered table memo).length < depth →
      Flattens table memo base (flattenWithin table depth memo base))
    (deep : (unanswered table memo).length < depth) (taken : List Shadow) :
    Collects table cls bases (taken, memo) (bases.foldl (takeBase table depth cls) (taken, memo)) := by
  induction bases generalizing memo taken with
  | nil => exact .done cls _
  | cons base rest ih =>
    have noted : (unanswered table (memo.note (checkHandedDown base))).length < depth := by
      rwa [unanswered_note]
    refine .cons (each base mem_cons_self _ noted) (ih (fun other listed => each other (by simp [listed])) ?_ _)
    rw [unanswered_note]
    exact (flattenWithin_keeps table depth _ base).unanswered_le.trans_lt noted

/-- The bound of the recursion is not met on a class on file, if there are fewer classes without an answer than it
allows to be under work. -/
theorem flattenWithin_flattens {depth : Nat} (has : HasBase table cls base)
    (deep : (unanswered table memo).length < depth) :
    Flattens table memo base (flattenWithin table depth memo base) := by
  induction depth generalizing cls base memo with
  | zero => exact absurd deep (Nat.not_lt_zero _)
  | succ depth ih =>
    cases stored : memo.entries.lookup base.id with
    | some found =>
      rw [flattenWithin_of_known stored]
      exact .known stored
    | none =>
      -- the class itself is answered while its bases are worked on, so one class fewer is left for them
      have fewer := unanswered_start_lt has stored
      rw [flattenWithin_of_unknown stored]
      exact .worked stored (collects_foldl (fun _ hasToo _ few => ih hasToo few) (by omega) [])

/-- The bound is never met on a query, whatever is known already. -/
theorem flatten_flattens (table : SymbolTable) (memo : Memo) (cls : Site) :
    Flattens table memo cls (flatten table memo cls) := by
  cases stored : memo.entries.lookup cls.id with
  | some found =>
    rw [flatten, flattenWithin_of_known stored]
    exact .known stored
  | none =>
    -- the class itself need not be on file, so this is one step more than the classes on file
    have few : (unanswered table (memo.start cls)).length < table.classes.length + 1 :=
      Nat.lt_succ_of_le (length_filter_le _ _)
    rw [flatten, flattenWithin_of_unknown stored]
    exact .worked stored (collects_foldl (fun _ has _ few => flattenWithin_flattens has few) few [])

theorem flattens_iff {found : List Shadow × Memo} : Flattens table memo cls found ↔ found = flatten table memo cls := by
  constructor
  · exact fun flattens => flattens.unique (flatten_flattens table memo cls)
  · rintro rfl
    exact flatten_flattens table memo cls

end FlatAbi.Inheritance
