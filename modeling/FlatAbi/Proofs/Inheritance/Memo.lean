import FlatAbi.Inheritance.Basic

/-!
What is known about inherited members only grows: an answer that was found once is the answer to every later query.
-/

namespace FlatAbi.Inheritance

open List

variable {depth : Nat} {result found : List Shadow}

/-- The answers that one memo has are answers that another one has. -/
def Memo.KeptBy (before after : Memo) : Prop :=
  ∀ id found, before.entries.lookup id = some found → after.entries.lookup id = some found

namespace Memo

variable {before middle after : Memo} {cls : Site}

theorem KeptBy.refl (memo : Memo) : memo.KeptBy memo :=
  fun _ _ found => found

theorem KeptBy.trans (first : before.KeptBy middle) (rest : middle.KeptBy after) : before.KeptBy after :=
  fun id found known => rest id found (first id found known)

@[simp] theorem note_entries (memo : Memo) (check : Except Misshapen Unit) :
    (memo.note check).entries = memo.entries := by
  unfold note
  split <;> rfl

theorem start_entries (memo : Memo) (cls : Site) : (memo.start cls).entries = (cls.id, []) :: memo.entries := by
  simp [start]

theorem lookup_eq_of_ne {entries : List (NodeId × List Shadow)} {key id : NodeId} (other : id ≠ key) :
    ((key, result) :: entries).lookup id = entries.lookup id := by
  have test : (id == key) = false := beq_eq_false_iff_ne.mpr other
  simp only [lookup_cons, test]

theorem KeptBy.worked (unknown : before.entries.lookup cls.id = none) (worked : (before.start cls).KeptBy after) :
    before.KeptBy (after.finish cls result) := by
  intro id found known
  have other : id ≠ cls.id := by
    intro same
    rw [same, unknown] at known
    cases known
  have started : (before.start cls).entries.lookup id = some found := by
    rw [start_entries, lookup_eq_of_ne other]
    exact known
  rw [finish, lookup_eq_of_ne other]
  exact worked id found started

end Memo

variable {table : SymbolTable} {memo : Memo} {cls : Site}

theorem flattenWithin_of_known (known : memo.entries.lookup cls.id = some found) :
    flattenWithin table (depth + 1) memo cls = (found, memo) := by
  simp [flattenWithin, known]

/-- What one base adds to the members taken so far and to the answers. -/
def takeBase (table : SymbolTable) (depth : Nat) (cls : Site) (state : List Shadow × Memo) (base : Site) :
    List Shadow × Memo :=
  let (inherited, memo) := flattenWithin table depth (state.2.note (checkHandedDown base)) base
  let offered := handedDown base ++ inherited
  (offered.foldl (take (ownSymbols cls)) state.1, memo.note (checkSymbols offered))

theorem flattenWithin_of_unknown (unknown : memo.entries.lookup cls.id = none) :
    let worked := (usableBases table cls).foldl (takeBase table depth cls) ([], memo.start cls)
    flattenWithin table (depth + 1) memo cls =
      (disambiguate worked.1, worked.2.finish cls (disambiguate worked.1)) := by
  simp only [flattenWithin, unknown]
  rfl

theorem foldl_takeBase_keeps (bases : List Site)
    (each : ∀ (memo : Memo) (base : Site), memo.KeptBy (flattenWithin table depth memo base).2)
    (state : List Shadow × Memo) (kept : memo.KeptBy state.2) :
    memo.KeptBy (bases.foldl (takeBase table depth cls) state).2 := by
  induction bases generalizing state with
  | nil => exact kept
  | cons base rest ih =>
    apply ih
    intro id found known
    have queried := each (state.2.note (checkHandedDown base)) base id found
    simp only [Memo.note_entries] at queried
    simp only [takeBase, Memo.note_entries]
    exact queried (kept id found known)

theorem flattenWithin_keeps (table : SymbolTable) (depth : Nat) (memo : Memo) (cls : Site) :
    memo.KeptBy (flattenWithin table depth memo cls).2 := by
  induction depth generalizing memo cls with
  | zero => exact .refl memo
  | succ depth ih =>
    cases known : memo.entries.lookup cls.id with
    | some found =>
      rw [flattenWithin_of_known known]
      exact .refl memo
    | none =>
      rw [flattenWithin_of_unknown known]
      exact .worked known (foldl_takeBase_keeps _ ih _ (.refl _))

theorem flattenWithin_known (table : SymbolTable) (depth : Nat) (memo : Memo) (cls : Site) :
    (flattenWithin table (depth + 1) memo cls).2.entries.lookup cls.id =
      some (flattenWithin table (depth + 1) memo cls).1 := by
  cases known : memo.entries.lookup cls.id with
  | some found => rw [flattenWithin_of_known known, known]
  | none =>
    rw [flattenWithin_of_unknown known]
    simp [Memo.finish]

theorem flatten_keeps (table : SymbolTable) (memo : Memo) (cls : Site) : memo.KeptBy (flatten table memo cls).2 :=
  flattenWithin_keeps table _ memo cls

theorem isAbstract_keeps (table : SymbolTable) (memo : Memo) (cls : Site) :
    memo.KeptBy (isAbstract table memo cls).2 := by
  unfold isAbstract
  split
  · exact .refl memo
  · exact flatten_keeps table memo cls

theorem flatten_again {memo later : Memo} (kept : (flatten table memo cls).2.KeptBy later) :
    (flatten table later cls).1 = (flatten table memo cls).1 := by
  have known := kept _ _ (flattenWithin_known table _ memo cls)
  rw [show flatten table later cls = _ from flattenWithin_of_known known]
  rfl

/-- All members that a memo has answers with are of a kind. -/
def Memo.All (Good : Shadow → Prop) (memo : Memo) : Prop :=
  ∀ entry ∈ memo.entries, ∀ m ∈ entry.2, Good m

/-- The answers of a memo are fit for their classes. -/
def Memo.Fit (Fits : NodeId → List Shadow → Prop) (memo : Memo) : Prop :=
  ∀ entry ∈ memo.entries, Fits entry.1 entry.2

variable {Good : Shadow → Prop} {Fits : NodeId → List Shadow → Prop} {offered : List Shadow}

theorem Memo.Fit.note {check : Except Misshapen Unit} (fit : memo.Fit Fits) : (memo.note check).Fit Fits := by
  unfold Memo.Fit
  rw [note_entries]
  exact fit

theorem forall_take {own : List Atom} {taken : List Shadow} (good : ∀ m ∈ offered, Good m)
    (already : ∀ m ∈ taken, Good m) : ∀ m ∈ offered.foldl (take own) taken, Good m := by
  induction offered generalizing taken with
  | nil => exact already
  | cons first rest ih =>
    refine ih (fun m listed => good m (by simp [listed])) ?_
    unfold take
    split
    · exact already
    · intro m listed
      rcases mem_append.mp listed with listed | listed
      · exact already m listed
      · obtain rfl := mem_singleton.mp listed
        exact good m (by simp)

theorem forall_disambiguate {members : List Shadow} (renamed : ∀ m, Good m → Good (rename m))
    (good : ∀ m ∈ members, Good m) : ∀ m ∈ disambiguate members, Good m := by
  intro m listed
  obtain ⟨original, member, rfl⟩ := mem_map.mp listed
  split
  · exact renamed original (good original member)
  · exact good original member

/-- What is made of good members is fit for a known class, and all bases are known and hand good members down. -/
structure Fitting (table : SymbolTable) (Known : Site → Prop) (Good : Shadow → Prop)
    (Fits : NodeId → List Shadow → Prop) : Prop where
  nil : ∀ id, Fits id []
  made : ∀ {cls : Site} {offered : List Shadow}, Known cls → (∀ m ∈ offered, Good m) →
    Fits cls.id (disambiguate (offered.foldl (take (ownSymbols cls)) []))
  good : ∀ {id : NodeId} {found : List Shadow}, Fits id found → ∀ m ∈ found, Good m
  bases : ∀ cls, ∀ base ∈ usableBases table cls, Known base ∧ ∀ m ∈ handedDown base, Good m

namespace Fitting

variable {Known : Site → Prop} (fitting : Fitting table Known Good Fits)

include fitting

theorem foldl_takeBase (bases : List Site)
    (each : ∀ {memo : Memo}, memo.Fit Fits → ∀ base ∈ bases,
      Fits base.id (flattenWithin table depth memo base).1 ∧ (flattenWithin table depth memo base).2.Fit Fits)
    (handed : ∀ base ∈ bases, ∀ m ∈ handedDown base, Good m) (already : ∀ m ∈ offered, Good m) (fit : memo.Fit Fits) :
    ∃ more : List Shadow, (∀ m ∈ more, Good m) ∧
      (bases.foldl (takeBase table depth cls) (offered.foldl (take (ownSymbols cls)) [], memo)).1 =
        more.foldl (take (ownSymbols cls)) [] ∧
      (bases.foldl (takeBase table depth cls) (offered.foldl (take (ownSymbols cls)) [], memo)).2.Fit Fits := by
  induction bases generalizing offered memo with
  | nil => exact ⟨offered, already, rfl, fit⟩
  | cons base rest ih =>
    have noted : (memo.note (checkHandedDown base)).Fit Fits := fit.note
    obtain ⟨inherited, learned⟩ := each noted base (by simp)
    have longer : ∀ m ∈ offered ++
        (handedDown base ++ (flattenWithin table depth (memo.note (checkHandedDown base)) base).1), Good m := by
      simp only [forall_mem_append]
      exact ⟨already, handed base (by simp), fitting.good inherited⟩
    rw [foldl_cons, takeBase]
    dsimp only
    rw [← foldl_append]
    exact ih (fun known other listed => each known other (by simp [listed]))
      (fun other listed => handed other (by simp [listed])) longer learned.note

theorem flattenWithin (depth : Nat) (fit : memo.Fit Fits) (isKnown : Known cls) :
    Fits cls.id (flattenWithin table depth memo cls).1 ∧ (flattenWithin table depth memo cls).2.Fit Fits := by
  induction depth generalizing memo cls with
  | zero => exact ⟨fitting.nil _, fit⟩
  | succ depth ih =>
    cases known : memo.entries.lookup cls.id with
    | some found =>
      rw [flattenWithin_of_known known]
      obtain ⟨before, after, entries, _⟩ := lookup_eq_some_iff.mp known
      exact ⟨fit (cls.id, found) (by simp [entries]), fit⟩
    | none =>
      have started : (memo.start cls).Fit Fits := by
        unfold Memo.Fit
        rw [Memo.start_entries]
        exact forall_mem_cons.mpr ⟨fitting.nil _, fit⟩
      obtain ⟨offered, good, taken, learned⟩ := fitting.foldl_takeBase (usableBases table cls)
        (fun known base listed => ih known (fitting.bases cls base listed).1)
        (fun base listed => (fitting.bases cls base listed).2) (forall_mem_nil _) started
      rw [flattenWithin_of_unknown known]
      rw [foldl_nil] at taken learned
      have result := fitting.made isKnown good
      rw [← taken] at result
      exact ⟨result, forall_mem_cons.mpr ⟨result, learned⟩⟩

theorem isAbstract (fit : memo.Fit Fits) (isKnown : Known cls) : (isAbstract table memo cls).2.Fit Fits := by
  unfold Inheritance.isAbstract
  split
  · exact fit
  · exact (fitting.flattenWithin _ fit isKnown).2

end Fitting

theorem fitting_all (renamed : ∀ m, Good m → Good (rename m))
    (offered : ∀ cls, ∀ base ∈ usableBases table cls, ∀ m ∈ handedDown base, Good m) :
    Fitting table (fun _ => True) Good fun _ found => ∀ m ∈ found, Good m where
  nil _ := forall_mem_nil _
  made _ good := forall_disambiguate renamed (forall_take good (forall_mem_nil _))
  good := id
  bases cls base listed := ⟨trivial, offered cls base listed⟩

end FlatAbi.Inheritance
