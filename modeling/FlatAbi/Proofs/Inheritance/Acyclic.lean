import FlatAbi.Proofs.Inheritance.Memo
import Mathlib.Data.List.Chain
import Mathlib.Data.List.Perm.Subperm
import Mathlib.Logic.Relation

/-!
Inheritance without cycles. A chain of bases comes to each class once at most.
-/

namespace FlatAbi.Inheritance

open SymbolTable Option

variable {table : SymbolTable} {cls base : Site}

/-- One class is a usable base of another one. -/
def HasBase (table : SymbolTable) (cls base : Site) : Prop :=
  base ∈ usableBases table cls

/-- No class is among its own bases, however far up. -/
def Acyclic (table : SymbolTable) : Prop :=
  ∀ cls, ¬ Relation.TransGen (HasBase table) cls cls

theorem HasBase.listed (has : HasBase table cls base) : ∃ entry ∈ table.classes, entry.2 = base := by
  obtain ⟨name, _, found⟩ := List.mem_filterMap.mp has
  obtain ⟨key, _, found⟩ := List.exists_of_findSome?_eq_some (filter_eq_some_iff.mp found).1
  obtain ⟨before, after, same, _⟩ := List.lookup_eq_some_iff.mp found
  exact ⟨(key, base), by simp [same], rfl⟩

theorem HasBase.mem_walk {root : Site} (has : HasBase (.ofTree root) cls base) : base ∈ root.walk := by
  obtain ⟨entry, listed, rfl⟩ := has.listed
  exact (mem_classes_ofTree listed).1

/-- Classes that were added after all others stand for other bases only where they are found themselves. -/
theorem find_append {entries more : List (String × Site)} {name scope : String} {extra : Site}
    (added : ∀ entry ∈ more, entry.2 = extra) (found : find? (entries ++ more) name scope = some base)
    (other : base ≠ extra) : find? entries name scope = some base := by
  unfold find? at *
  generalize SymbolTable.candidates (normalizeName name) scope = candidates at *
  induction candidates with
  | nil => cases found
  | cons candidate rest ih =>
    rw [List.findSome?_cons, List.lookup_append] at found
    rw [List.findSome?_cons]
    cases first : entries.lookup candidate with
    | some site => simpa [first] using found
    | none =>
      cases second : more.lookup candidate with
      | none => exact ih (by simpa [first, second] using found)
      | some site =>
        obtain ⟨before, after, same, _⟩ := List.lookup_eq_some_iff.mp second
        have isExtra : site = extra := added (candidate, site) (by simp [same])
        have isBase : site = base := by simpa [first, second] using found
        exact (other (isBase.symm.trans isExtra)).elim

theorem Acyclic.register {extra : Site} (acyclic : Acyclic table) (lone : extra.decl.bases = []) :
    Acyclic (table.register extra) := by
  have ends (base : Site) : ¬ HasBase (table.register extra) extra base := by
    simp [HasBase, usableBases, Declaration.baseNames, lone]
  have kept {cls base : Site} (has : HasBase (table.register extra) cls base) (other : base ≠ extra) :
      HasBase table cls base := by
    obtain ⟨name, named, found⟩ := List.mem_filterMap.mp has
    obtain ⟨found, usable⟩ := filter_eq_some_iff.mp found
    have added : ∀ entry ∈ (classNames extra).map (·, extra), entry.2 = extra := by simp
    exact List.mem_filterMap.mpr ⟨name, named, filter_eq_some_iff.mpr ⟨find_append added found other, usable⟩⟩
  have chain {cls base : Site} (leads : Relation.TransGen (HasBase (table.register extra)) cls base)
      (other : base ≠ extra) : Relation.TransGen (HasBase table) cls base := by
    induction leads with
    | single has => exact .single (kept has other)
    | @tail middle last _ has ih =>
      refine .tail (ih fun same => ?_) (kept has other)
      subst same
      exact ends last has
  intro cls leads
  refine acyclic cls (chain leads fun same => ?_)
  obtain ⟨base, has, _⟩ := Relation.TransGen.head'_iff.mp leads
  subst same
  exact ends base has

theorem acyclic_of_rank (rank : Site → Nat)
    (before : ∀ entry ∈ table.classes, ∀ base ∈ usableBases table entry.2, rank base < rank entry.2) :
    Acyclic table := by
  have chain {cls base : Site} (listed : ∃ entry ∈ table.classes, entry.2 = cls)
      (leads : Relation.TransGen (HasBase table) cls base) : rank base < rank cls := by
    induction leads using Relation.TransGen.head_induction_on with
    | single has =>
      obtain ⟨entry, member, rfl⟩ := listed
      exact before entry member _ has
    | head has _ ih =>
      have next := ih has.listed
      obtain ⟨entry, member, rfl⟩ := listed
      exact next.trans (before entry member _ has)
  intro cls leads
  obtain ⟨_, _, has⟩ := Relation.TransGen.tail'_iff.mp leads
  exact lt_irrefl _ (chain has.listed leads)

/-- No chain of bases up from a class has more than `depth` classes, the class included. -/
def Settles (table : SymbolTable) : Nat → Site → Prop
  | 0, _ => False
  | depth + 1, cls => ∀ base, HasBase table cls base → Settles table depth base

theorem exists_chain_of_not_settles {depth : Nat} (unsettled : ¬ Settles table depth cls) :
    ∃ chain : List Site, chain.length = depth ∧ (cls :: chain).IsChain (HasBase table) := by
  induction depth generalizing cls with
  | zero => exact ⟨[], rfl, .singleton cls⟩
  | succ depth ih =>
    simp only [Settles, not_forall] at unsettled
    obtain ⟨base, has, unsettled⟩ := unsettled
    obtain ⟨chain, length, linked⟩ := ih unsettled
    exact ⟨base :: chain, by simp [length], .cons_cons has linked⟩

/-- No class above a class, the class included, is among its own bases. -/
def AcyclicAbove (table : SymbolTable) (cls : Site) : Prop :=
  ∀ other, Relation.ReflTransGen (HasBase table) cls other → ¬ Relation.TransGen (HasBase table) other other

/-- Without cycles a chain of bases comes to each known class once at most. -/
theorem AcyclicAbove.settles (acyclic : AcyclicAbove table cls) {depth : Nat} (deep : table.classes.length < depth) :
    Settles table depth cls := by
  by_contra unsettled
  obtain ⟨chain, length, linked⟩ := exists_chain_of_not_settles unsettled
  have ordered : (cls :: chain).Pairwise (Relation.TransGen (HasBase table)) :=
    (linked.imp fun _ _ has => .single has).pairwise
  have distinct : chain.Nodup := by
    refine List.Pairwise.imp_of_mem ?_ (List.pairwise_cons.mp ordered).2
    rintro one two member _ leads rfl
    exact acyclic one ((List.pairwise_cons.mp ordered).1 one member).to_reflTransGen leads
  have listed : chain ⊆ table.classes.map (·.2) := by
    intro base member
    obtain ⟨above, has⟩ : ∃ above, HasBase table above base := by
      have leads := (List.pairwise_cons.mp ordered).1 base member
      obtain ⟨above, _, has⟩ := Relation.TransGen.tail'_iff.mp leads
      exact ⟨above, has⟩
    obtain ⟨entry, member, same⟩ := has.listed
    exact List.mem_map.mpr ⟨entry, member, same⟩
  have short := distinct.length_le_of_subset listed
  rw [List.length_map] at short
  omega

/-- Nothing is under work between queries. -/
def idle (_ : Site) : Prop := False

end FlatAbi.Inheritance
