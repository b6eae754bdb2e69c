import FlatAbi.Declaration.Reach
import Mathlib.Data.List.Nodup

/-!
What is reached below a site: the sites that a chain of passed nodes leads to, each of them once.
-/

namespace FlatAbi.Site

open List

variable {passes : Declaration → Bool} {start found child : Site} {index : Nat} {nodes : List Node}

/-- A chain of children leads from a site to another one, through nodes that `passes` lets pass. -/
inductive Reached (passes : Declaration → Bool) (start : Site) : Site → Prop where
  | child {found : Site} (child : found ∈ start.children) : Reached passes start found
  | through {group found : Site} (reached : Reached passes start group) (passed : passes group.decl)
      (child : found ∈ group.children) : Reached passes start found

theorem mem_childrenFrom (listed : child ∈ childrenFrom start index nodes) :
    child.node ∈ nodes ∧ ∃ position, index ≤ position ∧ child.id = start.id.child position := by
  induction nodes generalizing index with
  | nil => cases listed
  | cons n rest ih =>
    rcases mem_cons.mp listed with rfl | later
    · exact ⟨by simp, index, Nat.le_refl index, rfl⟩
    · obtain ⟨member, position, after, same⟩ := ih later
      exact ⟨by simp [member], position, by omega, same⟩

theorem above_of_mem_childrenFrom (listed : child ∈ childrenFrom start index nodes) : child.above = start.inside := by
  induction nodes generalizing index with
  | nil => cases listed
  | cons n rest ih =>
    rcases mem_cons.mp listed with rfl | later
    · rfl
    · exact ih later

theorem sizeOf_child (listed : child ∈ start.children) : sizeOf child.node < sizeOf start.node := by
  have member := (mem_childrenFrom listed).1
  cases whole : start.node with
  | mk d cs =>
    rw [whole] at member
    have smaller := sizeOf_lt_of_mem member
    simp only [Node.children] at smaller
    simp only [Node.mk.sizeOf_spec]
    omega

theorem children_induction {motive : Site → Prop}
    (step : ∀ site, (∀ child ∈ site.children, motive child) → motive site) (site : Site) : motive site :=
  step site fun child listed =>
    have := sizeOf_child listed
    children_induction step child
termination_by sizeOf site.node

def reachFrom (passes : Declaration → Bool) (child : Site) : List Site :=
  if passes child.decl then child.reach passes else [child]

theorem reachNode_eq (site : Site) : reachNode passes site.id site.above site.node = reachFrom passes site := by
  obtain ⟨id, ⟨d, cs⟩, above⟩ := site
  unfold reachNode reachFrom
  rfl

theorem reachNodes_eq (index : Nat) (nodes : List Node) :
    reachNodes passes start.id start.inside index nodes =
      (childrenFrom start index nodes).flatMap (reachFrom passes) := by
  induction nodes generalizing index with
  | nil => rfl
  | cons n rest ih =>
    have first := @reachNode_eq passes ⟨start.id.child index, n, start.inside⟩
    simp only [reachNodes, childrenFrom, flatMap_cons, ih, ← first]

theorem reach_eq (site : Site) : site.reach passes = site.children.flatMap (reachFrom passes) :=
  reachNodes_eq 0 site.node.children

theorem mem_reach (listed : child ∈ start.children) (member : found ∈ reachFrom passes child) :
    found ∈ start.reach passes := by
  rw [reach_eq]
  exact mem_flatMap.mpr ⟨child, listed, member⟩

theorem Reached.under (listed : child ∈ start.children) (passed : passes child.decl)
    (reached : Reached passes child found) : Reached passes start found := by
  induction reached with
  | child member => exact .through (.child listed) passed member
  | through _ between member ih => exact .through ih between member

theorem reached_of_mem_reach (member : found ∈ start.reach passes) :
    Reached passes start found ∧ passes found.decl = false := by
  induction start using children_induction with
  | step start ih =>
    rw [reach_eq] at member
    obtain ⟨child, listed, member⟩ := mem_flatMap.mp member
    unfold reachFrom at member
    split at member
    · rename_i passed
      obtain ⟨reached, stops⟩ := ih child listed member
      exact ⟨reached.under listed passed, stops⟩
    · rename_i stops
      obtain rfl := mem_singleton.mp member
      exact ⟨.child listed, by simpa using stops⟩

theorem reachFrom_subset_of_reached (reached : Reached passes start found) :
    reachFrom passes found ⊆ start.reach passes := by
  induction reached with
  | child listed => exact fun _ member => mem_reach listed member
  | through _ passed listed ih =>
    intro other member
    apply ih
    rw [reachFrom, if_pos passed]
    exact mem_reach listed member

theorem mem_reach_iff : found ∈ start.reach passes ↔ Reached passes start found ∧ passes found.decl = false := by
  refine ⟨reached_of_mem_reach, fun ⟨reached, stops⟩ => ?_⟩
  apply reachFrom_subset_of_reached reached
  simp [reachFrom, stops]

variable {path : List Nat}

theorem child_id (declared : start.id = .declared path) (listed : child ∈ start.children) :
    ∃ position, child.id = .declared (path ++ [position]) := by
  obtain ⟨_, position, _, same⟩ := mem_childrenFrom listed
  exact ⟨position, by rw [same, declared]; rfl⟩

theorem Reached.id_eq (declared : start.id = .declared path) (reached : Reached passes start found) :
    ∃ index rest, found.id = .declared (path ++ index :: rest) := by
  induction reached with
  | child listed =>
    obtain ⟨index, same⟩ := child_id declared listed
    exact ⟨index, [], same⟩
  | through _ _ listed ih =>
    obtain ⟨index, rest, above⟩ := ih
    obtain ⟨position, same⟩ := child_id above listed
    exact ⟨index, rest ++ [position], by simpa using same⟩

theorem id_of_mem_reachFrom (declared : child.id = .declared path) (member : found ∈ reachFrom passes child) :
    ∃ rest, found.id = .declared (path ++ rest) := by
  unfold reachFrom at member
  split at member
  · obtain ⟨index, rest, same⟩ := (reached_of_mem_reach member).1.id_eq declared
    exact ⟨index :: rest, same⟩
  · obtain rfl := mem_singleton.mp member
    exact ⟨[], by simpa using declared⟩

theorem children_ids_nodup (position : ∀ i j, start.id.child i = start.id.child j → i = j) :
    (start.children.map (·.id)).Nodup := by
  have from_ (index : Nat) (nodes : List Node) : ((childrenFrom start index nodes).map (·.id)).Nodup := by
    induction nodes generalizing index with
    | nil => exact nodup_nil
    | cons n rest ih =>
      rw [childrenFrom, map_cons, nodup_cons]
      refine ⟨fun again => ?_, ih (index + 1)⟩
      obtain ⟨child, later, same⟩ := mem_map.mp again
      obtain ⟨_, place, after, childId⟩ := mem_childrenFrom later
      rw [childId] at same
      have := position place index same
      omega
  exact from_ 0 start.node.children

/-- A site comes before another one in pre-order: it is above it, or they are below children that come in this order. -/
def Before (one two : Site) : Prop :=
  ∃ path other, one.id = .declared path ∧ two.id = .declared other ∧ path < other

theorem ids_nodup_of_ordered {sites : List Site} (ordered : sites.Pairwise Before) : (sites.map (·.id)).Nodup := by
  refine pairwise_map.mpr (ordered.imp fun {one two} before same => ?_)
  obtain ⟨_, _, first, second, less⟩ := before
  rw [first, second] at same
  cases same
  exact List.lt_irrefl _ less

theorem childrenFrom_ordered {f : Site → List Site}
    (below : ∀ {child found path}, child.id = .declared path → found ∈ f child → ∃ rest,
      found.id = .declared (path ++ rest))
    (declared : start.id = .declared path)
    (each : ∀ child ∈ childrenFrom start index nodes, (f child).Pairwise Before) :
    ((childrenFrom start index nodes).flatMap f).Pairwise Before := by
  induction nodes generalizing index with
  | nil => exact .nil
  | cons n rest ih =>
    rw [childrenFrom, flatMap_cons, pairwise_append]
    refine ⟨each _ (by simp [childrenFrom]), ih fun child later => each child (by simp [childrenFrom, later]), ?_⟩
    intro first member second later
    obtain ⟨child, listed, contributed⟩ := mem_flatMap.mp later
    obtain ⟨_, position, after, childId⟩ := mem_childrenFrom listed
    have here : (⟨start.id.child index, n, start.inside⟩ : Site).id = .declared (path ++ [index]) := by
      simp [declared, NodeId.child]
    have there : child.id = .declared (path ++ [position]) := by
      simp [childId, declared, NodeId.child]
    obtain ⟨_, firstId⟩ := below here member
    obtain ⟨_, secondId⟩ := below there contributed
    rw [append_assoc] at firstId secondId
    exact ⟨_, _, firstId, secondId, append_left_lt (cons_lt_cons_iff.mpr (.inl after))⟩

theorem reach_ids_nodup (declared : start.id = .declared path) : ((start.reach passes).map (·.id)).Nodup := by
  apply ids_nodup_of_ordered
  induction start using children_induction generalizing path with
  | step start ih =>
    rw [reach_eq]
    refine childrenFrom_ordered id_of_mem_reachFrom declared fun child listed => ?_
    unfold reachFrom
    split
    · obtain ⟨position, childId⟩ := child_id declared listed
      exact ih child listed childId
    · exact pairwise_singleton _ _

/-- A group that is not ignored is passed through. -/
def isOpenGroup (d : Declaration) : Bool :=
  isGroup d && !d.isIgnored

theorem mem_emitted_iff :
    found ∈ start.emitted ↔
      Reached isOpenGroup start found ∧ isOpenGroup found.decl = false ∧ found.decl.isIgnored = false := by
  have filtered : start.emitted = (start.reach isOpenGroup).filter fun found => !found.decl.isIgnored := rfl
  rw [filtered, mem_filter, mem_reach_iff, and_assoc, Bool.not_eq_eq_eq_not, Bool.not_true]

theorem emitted_ids_nodup (declared : start.id = .declared path) : (start.emitted.map (·.id)).Nodup := by
  have all := @reach_ids_nodup isOpenGroup start path declared
  exact all.sublist (Sublist.map _ filter_sublist)

end FlatAbi.Site
