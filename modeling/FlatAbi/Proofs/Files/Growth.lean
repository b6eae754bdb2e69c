import FlatAbi.Files.Tree
import FlatAbi.Proofs.Results
import Mathlib.Data.List.Induction

/-!
Trees of files that grow. What was found by following a route is found again.
-/

namespace FlatAbi

open List Route

variable {path : Path} {parts : List String} {more : List Path} {rest : List String}

namespace Path

variable {reached : List String}

theorem foldl_step_of_forward (reached : List String) (forward : back ∉ parts) :
    parts.foldl step reached = reached ++ parts := by
  induction parts generalizing reached with
  | nil => simp
  | cons part rest ih =>
    have other : (part == back) = false := by
      rw [beq_eq_false_iff_ne]
      rintro rfl
      exact forward (by simp)
    rw [foldl_cons, step, other, if_neg Bool.false_ne_true, ih _ fun later => forward (by simp [later])]
    simp

theorem normal_of_forward (forward : back ∉ path.components) : path.normal = path := by
  rw [normal, foldl_step_of_forward [] forward, nil_append]

theorem back_not_mem_step (forward : back ∉ reached) (part : String) : back ∉ step reached part := by
  unfold step
  split
  · exact fun listed => forward (dropLast_subset reached listed)
  next other =>
    simp only [mem_append, mem_singleton, not_or]
    refine ⟨forward, ?_⟩
    rintro rfl
    exact other (beq_self_eq_true _)

theorem back_not_mem_foldl (forward : back ∉ reached) (parts : List String) : back ∉ parts.foldl step reached := by
  induction parts generalizing reached with
  | nil => exact forward
  | cons part rest ih => exact ih (back_not_mem_step forward part)

theorem back_not_mem_normal (path : Path) : back ∉ path.normal.components :=
  back_not_mem_foldl (by simp) path.components

@[simp] theorem normal_normal (path : Path) : path.normal.normal = path.normal :=
  normal_of_forward (back_not_mem_normal path)

end Path

/-- The place that a route names, with `..` taken back. -/
def Route.place (route : Route) : Path :=
  ⟨route.parts.foldl Path.step route.start.components⟩

@[simp] theorem Route.place_ofPath (path : Path) : (ofPath path).place = path.normal := rfl

namespace FileTree

variable {tree before middle after : FileTree} {route : Route} {places : List Path} {place : Path}

theorem find?_put (inside : path.normal ≠ .root) (entry : Entry) (other : Path) :
    (tree.put path entry).find? other = if other.normal = path.normal then some entry else tree.find? other := by
  unfold find? put
  by_cases same : other.normal = path.normal
  · simp [same, inside, lookup_setEntry]
  · simp [same, lookup_setEntry]

@[simp] theorem find?_normal (tree : FileTree) (path : Path) : tree.find? path.normal = tree.find? path := by
  simp [find?]

variable {reached found : Path}

theorem follow_cons_eq_ok_iff {part : String} : tree.follow reached (part :: parts) = .ok found ↔
    part = Path.back ∧ tree.follow reached.parent parts = .ok found ∨
      part ≠ Path.back ∧ part.utf8ByteSize ≤ nameLimit ∧ tree.find? (reached.entry part) = some .directory ∧
        tree.follow (reached.entry part) parts = .ok found := by
  rw [follow]
  by_cases back : part = Path.back
  · simp [back]
  · by_cases fits : part.utf8ByteSize ≤ nameLimit
    · cases tree.find? (reached.entry part) with
      | none => simp [back, Nat.not_lt.mpr fits]
      | some entry => cases entry <;> simp [back, fits, Nat.not_lt.mpr fits]
    · simp [back, fits, Nat.not_le.mp fits]

theorem isDirectory_iff :
    tree.isDirectory route ↔ ∃ goal, tree.target route = .ok goal ∧ tree.entryAt goal = some .directory := by
  unfold isDirectory
  cases tree.target route <;> simp

/-- A route through directories leads on as long as these stay. -/
theorem follow_mono (directories : ∀ path, before.find? path = some .directory → after.find? path = some .directory)
    (followed : before.follow reached parts = .ok found) : after.follow reached parts = .ok found := by
  induction parts generalizing reached with
  | nil => exact followed
  | cons part rest ih =>
    rw [follow_cons_eq_ok_iff] at followed ⊢
    obtain ⟨back, followed⟩ | ⟨forward, fits, entry, followed⟩ := followed
    · exact .inl ⟨back, ih followed⟩
    · exact .inr ⟨forward, fits, directories _ entry, ih followed⟩

theorem target_of_follow {goal : Target}
    (follows : ∀ parts found, parts <+: route.parts → before.follow route.start parts = .ok found →
      after.follow route.start parts = .ok found)
    (led : before.target route = .ok goal) : after.target route = .ok goal := by
  unfold target at led ⊢
  obtain ⟨_, checked, led⟩ := bind_eq_ok led
  rw [checked]
  cases last : route.parts.getLast? with
  | none =>
    rw [last] at led
    exact led
  | some name =>
    simp only [last] at led ⊢
    split
    next back =>
      rw [if_pos back] at led
      obtain ⟨directory, followed, led⟩ := bind_eq_ok led
      rw [follows _ _ prefix_rfl followed]
      exact led
    next forward =>
      rw [if_neg forward] at led
      obtain ⟨directory, followed, led⟩ := bind_eq_ok led
      rw [follows route.parent.parts _ ( dropLast_prefix route.parts) followed]
      exact led

theorem target_mono {goal : Target}
    (directories : ∀ path, before.find? path = some .directory → after.find? path = some .directory)
    (led : before.target route = .ok goal) : after.target route = .ok goal :=
  target_of_follow (fun _ _ _ followed => follow_mono directories followed) led

/-- A tree grows: directories stay, and outside the given places there are only new directories. -/
structure Grows (places : List Path) (before after : FileTree) : Prop where
  directories : ∀ path, before.find? path = some .directory → after.find? path = some .directory
  others : ∀ path, path.normal ∉ places → after.find? path = before.find? path ∨
    before.find? path = none ∧ after.find? path = some .directory

namespace Grows

theorem refl (places : List Path) (tree : FileTree) : Grows places tree tree where
  directories _ found := found
  others _ _ := .inl rfl

theorem trans (first : Grows places before middle) (second : Grows more middle after) :
    Grows (places ++ more) before after where
  directories path found := second.directories path (first.directories path found)
  others path apart := by
    rw [mem_append, not_or] at apart
    rcases first.others path apart.1 with same | ⟨absent, made⟩
    · rw [← same]
      exact second.others path apart.2
    · exact .inr ⟨absent, second.directories path made⟩

theorem mono (grows : Grows places before after) (within : places ⊆ more) : Grows more before after where
  directories := grows.directories
  others path apart := grows.others path fun listed => apart (within listed)

theorem put (inside : place.normal ≠ .root) (entry : Entry) (kept : before.find? place ≠ some .directory) :
    Grows [place.normal] before (before.put place entry) where
  directories path found := by
    rw [find?_put inside]
    split
    next same =>
      rw [← find?_normal, same, find?_normal] at found
      exact absurd found kept
    · exact found
  others path apart := by
    rw [mem_singleton] at apart
    rw [find?_put inside, if_neg apart]
    exact .inl rfl

section

variable (grows : Grows places before after)

include grows

theorem file {text : String} (apart : path.normal ∉ places) (found : before.find? path = some (.file text)) :
    after.find? path = some (.file text) := by
  rcases grows.others path apart with same | ⟨absent, _⟩
  · rw [same, found]
  · rw [found] at absent
    cases absent

theorem file_before {text : String} (apart : path.normal ∉ places) (found : after.find? path = some (.file text)) :
    before.find? path = some (.file text) := by
  rcases grows.others path apart with same | ⟨_, made⟩
  · rw [← same, found]
  · rw [found] at made
    cases made

theorem target {goal : Target} (found : before.target route = .ok goal) : after.target route = .ok goal :=
  target_mono grows.directories found

theorem isDirectory (found : before.isDirectory route) : after.isDirectory route := by
  obtain ⟨goal, led, entry⟩ := isDirectory_iff.mp found
  refine isDirectory_iff.mpr ⟨goal, grows.target led, ?_⟩
  cases goal with
  | unnamed => rfl
  | named place => exact grows.directories place entry

end

end Grows

theorem follow_eq (followed : tree.follow reached parts = .ok found) :
    found.components = parts.foldl Path.step reached.components := by
  induction parts generalizing reached with
  | nil =>
    cases followed
    rfl
  | cons part rest ih =>
    rw [foldl_cons, Path.step]
    obtain ⟨rfl, followed⟩ | ⟨forward, _, _, followed⟩ := follow_cons_eq_ok_iff.mp followed
    · exact ih followed
    · rw [beq_eq_false_iff_ne.mpr forward]
      exact ih followed

theorem follow_append_eq_ok_iff :
    tree.follow reached (parts ++ rest) = .ok found ↔
      ∃ middle, tree.follow reached parts = .ok middle ∧ tree.follow middle rest = .ok found := by
  induction parts generalizing reached with
  | nil => simp [follow]
  | cons part parts ih =>
    simp only [cons_append, follow_cons_eq_ok_iff, ih]
    grind

theorem target_eq_named_iff : tree.target route = .ok (.named place) ↔
    ∃ directory name, checkText route = .ok () ∧ route.parts = route.parent.parts ++ [name] ∧ name ≠ Path.back ∧
      tree.follow route.start route.parent.parts = .ok directory ∧ name.utf8ByteSize ≤ nameLimit ∧
      place = directory.entry name := by
  unfold target
  constructor
  · intro found
    obtain ⟨_, checked, found⟩ := bind_eq_ok found
    cases last : route.parts.getLast? with
    | none =>
      simp only [last] at found
      cases found
    | some name =>
      simp only [last] at found
      split at found
      · obtain ⟨_, _, found⟩ := bind_eq_ok found
        cases found
      next forward =>
        obtain ⟨directory, followed, found⟩ := bind_eq_ok found
        split at found
        · cases found
        next fits =>
          cases found
          obtain ⟨front, same⟩ := getLast?_eq_some_iff.mp last
          exact ⟨directory, name, checked, by simp [Route.parent, same], by simpa using forward, followed,
            Nat.not_lt.mp fits, rfl⟩
  · rintro ⟨directory, name, checked, whole, forward, followed, fits, rfl⟩
    have last : route.parts.getLast? = some name := by rw [whole, getLast?_concat]
    rw [checked]
    simp only [last, beq_eq_false_iff_ne.mpr forward, Bool.false_eq_true, if_false, bind, Except.bind, followed,
      gt_iff_lt, Nat.not_lt.mpr fits]
    rfl

theorem target_named (found : tree.target route = .ok (.named place)) : place = route.place ∧ place.normal ≠ .root := by
  obtain ⟨directory, name, _, whole, forward, followed, _, rfl⟩ := target_eq_named_iff.mp found
  constructor
  · rw [Route.place, whole, foldl_append, ← follow_eq followed]
    simp [Path.entry, Path.step, forward]
  · simp [Path.entry, Path.normal, Path.root, Path.step, forward]

theorem find?_of_isDirectory (normal : path.normal = path) (found : tree.isDirectory (ofPath path)) :
    tree.find? path = some .directory := by
  obtain ⟨goal, led, entry⟩ := isDirectory_iff.mp found
  cases goal with
  | named place =>
    obtain ⟨rfl, _⟩ := target_named led
    simpa [entryAt] using entry
  | unnamed =>
    have forward := Path.back_not_mem_normal path
    rw [normal] at forward
    obtain ⟨_, _, led⟩ := bind_eq_ok led
    cases last : path.components.getLast? with
    | none =>
      cases path
      cases getLast?_eq_none_iff.mp last
      rfl
    | some name =>
      have other : (name == Path.back) = false := by
        rw [beq_eq_false_iff_ne]
        rintro rfl
        exact forward (mem_of_getLast? last)
      simp only [ofPath, last, other, Bool.false_eq_true, if_false] at led
      obtain ⟨directory, _, led⟩ := bind_eq_ok led
      split at led <;> cases led

/-- Every entry lies in a directory. -/
def Rooted (tree : FileTree) : Prop :=
  ∀ entry ∈ tree.entries, tree.find? entry.1.parent = some .directory

instance (tree : FileTree) : Decidable tree.Rooted :=
  inferInstanceAs (Decidable (∀ entry ∈ tree.entries, tree.find? entry.1.parent = some .directory))

namespace Rooted

theorem parent {entry : Entry} (rooted : tree.Rooted) (normal : path.normal = path)
    (found : tree.find? path = some entry) :
    tree.find? path.parent = some .directory := by
  unfold find? at found
  rw [normal] at found
  split at found
  next root =>
    subst root
    rfl
  · obtain ⟨front, rest, entries, _⟩ := lookup_eq_some_iff.mp found
    exact rooted (path, entry) (by simp [entries])

theorem directory {front : List String} (rooted : tree.Rooted) (forward : Path.back ∉ front ++ rest)
    (found : tree.find? ⟨front ++ rest⟩ = some .directory) : tree.find? ⟨front⟩ = some .directory := by
  induction rest using reverseRecOn with
  | nil => simpa using found
  | append_singleton rest last ih =>
    rw [← append_assoc] at forward found
    refine ih (fun listed => forward (mem_append_left [last] listed)) ?_
    have above := rooted.parent (Path.normal_of_forward forward) found
    simpa [Path.parent, ← append_assoc] using above

theorem follow (rooted : before.Rooted) (rest : List String)
    (forward : Path.back ∉ reached.components ++ (parts ++ rest))
    (directory : before.find? ⟨reached.components ++ (parts ++ rest)⟩ = some .directory)
    (followed : after.follow reached parts = .ok found) : before.follow reached parts = .ok found := by
  induction parts generalizing reached with
  | nil => exact followed
  | cons part parts ih =>
    have entry : (reached.entry part).components ++ (parts ++ rest) =
        reached.components ++ (part :: parts ++ rest) := by
      simp [Path.entry]
    rw [← entry] at forward directory
    have here := rooted.directory forward directory
    rw [follow_cons_eq_ok_iff] at followed ⊢
    obtain ⟨rfl, _⟩ | ⟨other, fits, _, followed⟩ := followed
    · exact absurd (by simp [Path.entry]) forward
    · exact .inr ⟨other, fits, here, ih forward directory followed⟩

theorem isDirectory (rooted : before.Rooted) (normal : path.normal = path) (found : before.find? path = some .directory)
    (later : after.isDirectory (ofPath path)) : before.isDirectory (ofPath path) := by
  have forward := Path.back_not_mem_normal path
  rw [normal] at forward
  obtain ⟨goal, led, _⟩ := isDirectory_iff.mp later
  have leads : before.target (ofPath path) = .ok goal := by
    refine target_of_follow (fun parts reached front followed => ?_) led
    obtain ⟨rest, whole⟩ := front
    have components : parts ++ rest = path.components := whole
    refine rooted.follow rest ?_ ?_ followed
    · simpa [ofPath, Path.root, components] using forward
    · simpa [ofPath, Path.root, components] using found
  refine isDirectory_iff.mpr ⟨goal, leads, ?_⟩
  cases goal with
  | unnamed => rfl
  | named place =>
    obtain ⟨rfl, _⟩ := target_named led
    simp [entryAt, found]

end Rooted

end FileTree

end FlatAbi
