import FlatAbi.Proofs.Declaration.Reach
import Mathlib.Data.List.Forall2

/-!
A walk over a tree. It is closed under children, and no two sites on it have the same identity.
-/

namespace FlatAbi.Site

open List Option

variable {passes : Declaration → Bool} {start found site child : Site}

theorem walkNodes_eq (index : Nat) (nodes : List Node) :
    walkNodes start.id start.inside index nodes = (childrenFrom start index nodes).flatMap walk := by
  induction nodes generalizing index with
  | nil => rfl
  | cons n rest ih => simp only [walkNodes, childrenFrom, flatMap_cons, ih, walk]

theorem walk_eq (site : Site) : site.walk = site :: site.children.flatMap walk := by
  rw [children, ← walkNodes_eq]
  obtain ⟨id, ⟨d, cs⟩, above⟩ := site
  rfl

theorem mem_walk_self (site : Site) : site ∈ site.walk := by
  rw [walk_eq]
  exact mem_cons_self

theorem walk_child_subset (listed : child ∈ site.children) : child.walk ⊆ site.walk := by
  intro other member
  rw [walk_eq site]
  exact mem_cons_of_mem _ (mem_flatMap.mpr ⟨child, listed, member⟩)

theorem child_mem_walk (member : site ∈ start.walk) (listed : child ∈ site.children) : child ∈ start.walk := by
  induction start using children_induction with
  | step start ih =>
    rw [walk_eq] at member
    rcases mem_cons.mp member with rfl | member
    · exact walk_child_subset listed (mem_walk_self child)
    · obtain ⟨between, above, member⟩ := mem_flatMap.mp member
      exact walk_child_subset above (ih between above member)

theorem Reached.mem_walk (reached : Reached passes start found) : found ∈ start.walk := by
  induction reached with
  | child listed => exact child_mem_walk (mem_walk_self start) listed
  | through _ _ listed ih => exact child_mem_walk ih listed

theorem mem_walk_of_emitted (listed : found ∈ start.emitted) : found ∈ start.walk :=
  (mem_emitted_iff.mp listed).1.mem_walk

theorem getElem?_childrenFrom {first index : Nat} {nodes : List Node} :
    (childrenFrom start first nodes)[index]? =
      nodes[index]?.map fun n => ⟨start.id.child (first + index), n, start.inside⟩ := by
  induction nodes generalizing first index with
  | nil => rfl
  | cons n rest ih =>
    cases index with
    | zero => rfl
    | succ index => simpa [childrenFrom, Nat.add_assoc, Nat.add_comm 1] using @ih (first + 1) index

theorem mem_children_iff : child ∈ start.children ↔ ∃ index, start.child? index = some child := by
  rw [mem_iff_getElem?]
  simp only [children, getElem?_childrenFrom, child?, Nat.zero_add]

theorem mem_walk_iff : site ∈ start.walk ↔ ∃ rest, start.descend? rest = some site := by
  induction start using children_induction with
  | step start ih =>
    rw [walk_eq, mem_cons, mem_flatMap]
    constructor
    · rintro (rfl | ⟨child, listed, member⟩)
      · exact ⟨[], rfl⟩
      · obtain ⟨index, entered⟩ := mem_children_iff.mp listed
        obtain ⟨rest, found⟩ := (ih child listed).mp member
        exact ⟨index :: rest, by rw [descend?, entered]; exact found⟩
    · rintro ⟨_ | ⟨index, rest⟩, found⟩
      · cases found
        exact .inl rfl
      · obtain ⟨child, entered, found⟩ := bind_eq_some_iff.mp found
        have listed := mem_children_iff.mpr ⟨index, entered⟩
        exact .inr ⟨child, listed, (ih child listed).mpr ⟨rest, found⟩⟩

variable {path : List Nat}

section

variable (declared : start.id = .declared path)

include declared

theorem id_of_descend {rest : List Nat} (found : start.descend? rest = some site) :
    site.id = .declared (path ++ rest) := by
  induction rest generalizing start path with
  | nil =>
    cases found
    rw [declared, append_nil]
  | cons index rest ih =>
    obtain ⟨child, entered, found⟩ := bind_eq_some_iff.mp found
    obtain ⟨n, _, rfl⟩ := map_eq_some_iff.mp entered
    rw [ih (by rw [declared]; rfl) found, append_assoc, singleton_append]

theorem id_of_mem_walk (member : found ∈ start.walk) : ∃ rest, found.id = .declared (path ++ rest) :=
  (mem_walk_iff.mp member).imp fun _ => id_of_descend declared

theorem walk_ordered : start.walk.Pairwise Before := by
  induction start using children_induction generalizing path with
  | step start ih =>
    rw [walk_eq, pairwise_cons]
    refine ⟨fun found member => ?_, childrenFrom_ordered id_of_mem_walk declared fun child listed => ?_⟩
    · obtain ⟨child, listed, member⟩ := mem_flatMap.mp member
      obtain ⟨position, childId⟩ := child_id declared listed
      obtain ⟨rest, foundId⟩ := id_of_mem_walk childId member
      rw [append_assoc] at foundId
      exact ⟨path, _, declared, foundId, by simpa using @append_left_lt _ _ path _ _ (nil_lt_cons position rest)⟩
    · obtain ⟨position, childId⟩ := child_id declared listed
      exact ih child listed childId

theorem walk_ids_nodup : (start.walk.map (·.id)).Nodup :=
  ids_nodup_of_ordered (walk_ordered declared)

theorem eq_of_mem_walk (member : site ∈ start.walk) (other : found ∈ start.walk) (same : site.id = found.id) :
    site = found :=
  inj_on_of_nodup_map (walk_ids_nodup declared) member other same

theorem children_ids_nodup_of_mem_walk (member : site ∈ start.walk) : (site.children.map (·.id)).Nodup := by
  refine children_ids_nodup fun i j same => ?_
  obtain ⟨rest, id⟩ := id_of_mem_walk declared member
  rw [id] at same
  simpa [NodeId.child] using same

end

section together

variable {Related : Site → Site → Prop} {one two : Site}

theorem flatMap_related {sites others : List Site} {f : Site → List Site} (related : Forall₂ Related sites others)
    (each : ∀ one ∈ sites, ∀ two ∈ others, Related one two → Forall₂ Related (f one) (f two)) :
    Forall₂ Related (sites.flatMap f) (others.flatMap f) := by
  induction related with
  | nil => exact .nil
  | cons first _ ih =>
    rw [flatMap_cons, flatMap_cons]
    refine rel_append (each _ (by simp) _ (by simp) first) (ih fun one listed two listedToo => ?_)
    exact each one (by simp [listed]) two (by simp [listedToo])

theorem childrenFrom_related
    (each : ∀ index n, Related ⟨one.id.child index, n, one.inside⟩ ⟨two.id.child index, n, two.inside⟩) (index : Nat)
    (nodes : List Node) : Forall₂ Related (childrenFrom one index nodes) (childrenFrom two index nodes) := by
  induction nodes generalizing index with
  | nil => exact .nil
  | cons n rest ih => exact .cons (each index n) (ih (index + 1))

variable (closed : ∀ {one two}, Related one two → Forall₂ Related one.children two.children)

include closed

theorem walk_related (related : Related one two) : Forall₂ Related one.walk two.walk := by
  induction one using children_induction generalizing two with
  | step one ih =>
    rw [walk_eq, walk_eq]
    exact .cons related (flatMap_related (closed related) fun child listed _ _ below => ih child listed below)

theorem reach_related (passed : ∀ {one two}, Related one two → passes one.decl = passes two.decl)
    (related : Related one two) : Forall₂ Related (one.reach passes) (two.reach passes) := by
  induction one using children_induction generalizing two with
  | step one ih =>
    rw [reach_eq, reach_eq]
    refine flatMap_related (closed related) fun child listed _ _ below => ?_
    unfold reachFrom
    rw [passed below]
    split
    · exact ih child listed below
    · exact .cons below .nil

end together

end FlatAbi.Site
