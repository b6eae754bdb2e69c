/-!
Lists of entries under keys. A new key goes to the end, and a known one keeps its place.
-/

namespace FlatAbi

open List

variable {α β : Type} [BEq α]

def setEntry (key : α) (value : β) : List (α × β) → List (α × β)
  | [] => [(key, value)]
  | (k, v) :: rest => if k == key then (key, value) :: rest else (k, v) :: setEntry key value rest

def dropEntry (key : α) (entries : List (α × β)) : List (α × β) :=
  entries.filter fun entry => entry.1 != key

variable [LawfulBEq α]

theorem lookup_setEntry (key other : α) (value : β) (entries : List (α × β)) :
    (setEntry key value entries).lookup other = if other == key then some value else entries.lookup other := by
  induction entries with
  | nil => simp only [setEntry, lookup_cons, lookup_nil]; split <;> simp_all
  | cons entry rest ih =>
    obtain ⟨k, v⟩ := entry
    unfold setEntry
    by_cases here : k == key
    · obtain rfl := beq_iff_eq.mp here
      simp only [beq_self_eq_true, if_true, lookup_cons]
      split <;> simp_all
    · rw [if_neg here, lookup_cons, lookup_cons, ih]
      split <;> simp_all

theorem length_setEntry (key : α) (value : β) (entries : List (α × β)) :
    (setEntry key value entries).length = entries.length + if (entries.lookup key).isSome then 0 else 1 := by
  induction entries with
  | nil => rfl
  | cons entry rest ih =>
    obtain ⟨k, v⟩ := entry
    unfold setEntry
    by_cases here : k == key
    · obtain rfl := beq_iff_eq.mp here
      simp
    · have other : (key == k) = false := by
        rw [beq_eq_false_iff_ne]
        rintro rfl
        exact here (beq_self_eq_true _)
      rw [if_neg here, length_cons, ih, length_cons, lookup_cons, other]
      exact Nat.add_right_comm _ _ _

theorem dropEntry_setEntry (key : α) (value : β) (entries : List (α × β)) :
    dropEntry key (setEntry key value entries) = dropEntry key entries := by
  induction entries with
  | nil => simp [setEntry, dropEntry]
  | cons entry rest ih =>
    unfold setEntry
    by_cases here : entry.1 == key
    · simp [dropEntry, beq_iff_eq.mp here]
    · simp only [if_neg here, dropEntry, filter_cons] at ih ⊢
      rw [ih]

theorem dropEntry_of_lookup {key : α} {entries : List (α × β)} (absent : entries.lookup key = none) :
    dropEntry key entries = entries :=
  filter_eq_self.mpr fun entry listed => bne_comm.trans (lookup_eq_none_iff.mp absent entry listed)

end FlatAbi
