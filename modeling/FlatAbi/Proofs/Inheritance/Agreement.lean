import FlatAbi.Proofs.Inheritance.Recursion

/-!
Inherited members by tables that find the same bases. Memos that know the same about some classes give the same answers.
-/

namespace FlatAbi.Inheritance

open Memo List

variable {Known : NodeId → Prop} {memo memo' : Memo}

/-- Memos that have the same answers for the classes that count. -/
def SameMemo (Known : NodeId → Prop) (memo memo' : Memo) : Prop :=
  ∀ id, Known id → memo.entries.lookup id = memo'.entries.lookup id

namespace SameMemo

theorem note (same : SameMemo Known memo memo') (check : Except Misshapen Unit) :
    SameMemo Known (memo.note check) (memo'.note check) := by
  intro id known
  rw [note_entries, note_entries, same id known]

theorem start (same : SameMemo Known memo memo') (cls : Site) : SameMemo Known (memo.start cls) (memo'.start cls) := by
  intro id known
  rw [start_entries, start_entries, lookup_cons, lookup_cons, same id known]

theorem finish (same : SameMemo Known memo memo') (cls : Site) (found : List Shadow) :
    SameMemo Known (memo.finish cls found) (memo'.finish cls found) := by
  intro id known
  rw [Memo.finish, Memo.finish, lookup_cons, lookup_cons, same id known]

end SameMemo

/-- A family of classes with the same bases in two tables, which are of the family too. -/
structure SameBases (Known : NodeId → Prop) (Class : Site → Prop) (table table' : SymbolTable) : Prop where
  known : ∀ cls, Class cls → Known cls.id
  bases : ∀ cls, Class cls → usableBases table cls = usableBases table' cls
  closed : ∀ cls, Class cls → ∀ base ∈ usableBases table cls, Class base

variable {Class : Site → Prop} {table table' : SymbolTable} {cls : Site}

/-- The same answer, from memos that know the same afterwards. -/
def SameState {α : Type} (Known : NodeId → Prop) (state state' : α × Memo) : Prop :=
  state.1 = state'.1 ∧ SameMemo Known state.2 state'.2

theorem Collects.same (same : SameBases Known Class table table') {bases : List Site} {state final : List Shadow × Memo}
    (collects : Collects table cls bases state final) (members : ∀ base ∈ bases, Class base) (memo' : Memo)
    (memos : SameMemo Known state.2 memo') :
    ∃ learned, Collects table' cls bases (state.1, memo') (final.1, learned) ∧ SameMemo Known final.2 learned := by
  induction collects generalizing memo' with
  | done => exact ⟨memo', .done _ _, memos⟩
  | @known cls base _ _ found memo _ stored _ ih =>
    obtain ⟨member, others⟩ := forall_mem_cons.mp members
    obtain ⟨learned, collects, known⟩ := ih others _ ((memos.note (checkHandedDown base)).note _)
    exact ⟨learned, .known ((memos base.id (same.known base member)).symm.trans stored) collects, known⟩
  | @worked cls base _ _ below memo _ _ unknown _ _ ihAbove ih =>
    obtain ⟨member, others⟩ := forall_mem_cons.mp members
    obtain ⟨above, collects, known⟩ :=
      ihAbove (same.closed base member) _ ((memos.note (checkHandedDown base)).start base)
    rw [same.bases base member] at collects
    obtain ⟨learned, rest, known⟩ := ih others _ ((known.finish base (disambiguate below)).note _)
    exact ⟨learned, .worked ((memos base.id (same.known base member)).symm.trans unknown) collects rest, known⟩

theorem flatten_same (same : SameBases Known Class table table') (memos : SameMemo Known memo memo')
    (member : Class cls) :
    SameState Known (flatten table memo cls) (flatten table' memo' cls) := by
  have lookups := memos cls.id (same.known cls member)
  have flattens := flatten_flattens table memo cls
  generalize flatten table memo cls = found at flattens
  cases flattens with
  | known stored =>
    rw [← flattens_iff.mp (.known (lookups.symm.trans stored))]
    exact ⟨rfl, memos⟩
  | @worked below _ unknown above =>
    obtain ⟨learned, collects, known⟩ := above.same same (same.closed cls member) _ (memos.start cls)
    rw [same.bases cls member] at collects
    rw [← flattens_iff.mp (.worked (lookups.symm.trans unknown) collects)]
    exact ⟨rfl, known.finish cls (disambiguate below)⟩

theorem isAbstract_same (same : SameBases Known Class table table') (memos : SameMemo Known memo memo')
    (member : Class cls) : SameState Known (isAbstract table memo cls) (isAbstract table' memo' cls) := by
  unfold isAbstract
  split
  · exact ⟨rfl, memos⟩
  · obtain ⟨members, learned⟩ := flatten_same same memos member
    exact ⟨by simp only [members], learned⟩

end FlatAbi.Inheritance
