import FlatAbi.Proofs.Declaration.Namesakes
import FlatAbi.Proofs.Declaration.Walk
import Mathlib.Data.List.Perm.Basic

/-!
Trees in another order. Their walks and the declarations reached through groups are the same up to order.
-/

namespace FlatAbi

open List

variable {sites sites' others others' : List Site}

/-- The order of the declarations below it can be changed. -/
def Declaration.isReorderable (d : Declaration) : Bool :=
  d.kind == .moduleDecl || d.kind == .namespaceDecl || d.kind == .includeDecl

/-- Trees that differ in the order of the children of modules, namespaces and includes only. -/
inductive Node.Reordered : Node → Node → Prop where
  | mk {d : Declaration} {nodes between nodes' : List Node} (each : Forall₂ Node.Reordered nodes between)
      (order : between = nodes' ∨ d.isReorderable ∧ between.Perm nodes') : Node.Reordered (.mk d nodes) (.mk d nodes')

namespace Node.Reordered

variable {n n' : Node}

theorem decl (reordered : Reordered n n') : n.decl = n'.decl := by
  cases reordered
  rfl

theorem children (reordered : Reordered n n') :
    ∃ between, Forall₂ Reordered n.children between ∧
      (between = n'.children ∨ n.decl.isReorderable ∧ between.Perm n'.children) := by
  cases reordered with
  | mk each order => exact ⟨_, each, order⟩

end Node.Reordered

namespace Site

variable {s s' one two : Site} {outer pairs more : List (Site × Site)} {passes : Declaration → Bool}

/-- Surroundings of the same declarations, the identities of which are paired. -/
abbrev PairedRing (pairs : List (Site × Site)) : List (NodeId × Node) → List (NodeId × Node) → Prop :=
  Forall₂ fun entry entry' =>
    (∃ pair ∈ pairs, pair.1.id = entry.1 ∧ pair.2.id = entry'.1) ∧ entry.2.decl = entry'.2.decl

/-- Sites of the same declaration in paired surroundings. The children are paired in their order, if that is fixed. -/
structure Coupled (pairs : List (Site × Site)) (one two : Site) : Prop where
  decl : one.decl = two.decl
  ring : PairedRing pairs one.above two.above
  children : one.decl.isReorderable = false →
    Forall₂ (fun child child' => (child, child') ∈ pairs) one.children two.children

theorem PairedRing.mono {above above' : List (NodeId × Node)} (ring : PairedRing pairs above above')
    (subset : pairs ⊆ more) :
    PairedRing more above above' := by
  refine ring.imp fun entry entry' both => ⟨?_, both.2⟩
  obtain ⟨pair, member, ids⟩ := both.1
  exact ⟨pair, subset member, ids⟩

theorem Coupled.mono (coupled : Coupled pairs one two) (subset : pairs ⊆ more) : Coupled more one two :=
  ⟨coupled.decl, coupled.ring.mono subset, fun fixed => (coupled.children fixed).imp fun _ _ member => subset member⟩

/-- A list of pairs matches what is listed in one tree with what is listed in another one, up to order. -/
structure Lists (pairs : List (Site × Site)) (sites sites' : List Site) : Prop where
  left : pairs.map (·.1) = sites
  right : (pairs.map (·.2)).Perm sites'

theorem Lists.append (first : Lists pairs sites sites') (rest : Lists more others others') :
    Lists (pairs ++ more) (sites ++ others) (sites' ++ others') where
  left := by rw [map_append, first.left, rest.left]
  right := by
    rw [map_append]
    exact first.right.append rest.right

theorem Lists.filter (lists : Lists pairs sites sites') {keeps : Site → Bool}
    (same : ∀ pair ∈ pairs, keeps pair.1 = keeps pair.2) :
    Lists (pairs.filter (keeps ·.1)) (sites.filter keeps) (sites'.filter keeps) where
  left := by rw [← lists.left, filter_map]; rfl
  right := by
    have right := lists.right.filter keeps
    rw [filter_map] at right
    have swapped : pairs.filter (keeps ·.1) = pairs.filter (keeps ∘ (·.2)) := filter_congr same
    rw [swapped]
    exact right

/-- The sites below some sites of two trees are paired, and so are those that are reached from them. -/
structure Matching (outer pairs : List (Site × Site)) (sites sites' : List Site) : Prop where
  heads : Forall₂ (fun site site' => (site, site') ∈ pairs) sites sites'
  walks : Lists pairs (sites.flatMap walk) (sites'.flatMap walk)
  coupled : ∀ pair ∈ pairs, Coupled (outer ++ pairs) pair.1 pair.2
  reached : ∀ passes, ∃ found ⊆ pairs, Lists found (sites.flatMap (reachFrom passes))
    (sites'.flatMap (reachFrom passes))

namespace Matching

theorem nil : Matching outer [] [] [] where
  heads := .nil
  walks := ⟨rfl, .nil⟩
  coupled _ member := nomatch member
  reached _ := ⟨[], Subset.refl _, rfl, .nil⟩

theorem append (first : Matching outer pairs sites sites') (rest : Matching outer more others others') :
    Matching outer (pairs ++ more) (sites ++ others) (sites' ++ others') where
  heads := by
    refine rel_append (first.heads.imp fun _ _ member => ?_) (rest.heads.imp fun _ _ member => ?_)
    · exact mem_append_left _ member
    · exact mem_append_right _ member
  walks := by
    rw [flatMap_append, flatMap_append]
    exact first.walks.append rest.walks
  coupled pair member := by
    rcases mem_append.mp member with member | member
    · exact (first.coupled pair member).mono (by simp)
    · exact (rest.coupled pair member).mono (by simp)
  reached passes := by
    obtain ⟨found, subset, lists⟩ := first.reached passes
    obtain ⟨others, subsetToo, listsToo⟩ := rest.reached passes
    refine ⟨found ++ others, ?_, ?_⟩
    · exact append_subset.mpr ⟨fun _ member => mem_append_left _ (subset member),
        fun _ member => mem_append_right _ (subsetToo member)⟩
    · rw [flatMap_append, flatMap_append]
      exact lists.append listsToo

theorem of_each (each : Forall₂ (fun site site' => ∃ pairs, Matching outer pairs [site] [site']) sites sites') :
    ∃ pairs, Matching outer pairs sites sites' := by
  induction each with
  | nil => exact ⟨[], nil⟩
  | cons first _ ih =>
    obtain ⟨pairs, first⟩ := first
    obtain ⟨more, rest⟩ := ih
    exact ⟨pairs ++ more, first.append rest⟩

end Matching

theorem forall₂_comp {α β γ : Type} {R : α → β → Prop} {S : β → γ → Prop} {xs : List α} {ys : List β} {zs : List γ}
    (first : Forall₂ R xs ys) (rest : Forall₂ S ys zs) : Forall₂ (Relation.Comp R S) xs zs := by
  induction first generalizing zs with
  | nil =>
    cases rest
    exact .nil
  | cons head _ ih =>
    cases rest with
    | cons next tail => exact .cons ⟨_, head, next⟩ (ih tail)

def IsChildAt (s : Site) (n : Node) (child : Site) : Prop :=
  child.node = n ∧ child.above = s.inside

theorem childrenFrom_isChildAt (index : Nat) (nodes : List Node) :
    Forall₂ s.IsChildAt nodes (childrenFrom s index nodes) := by
  induction nodes generalizing index with
  | nil => exact .nil
  | cons n rest ih => exact .cons ⟨rfl, rfl⟩ (ih (index + 1))

/-- Children of two sites that are reordered themselves. -/
structure ReorderedChildren (s s' child child' : Site) : Prop where
  listed : child ∈ s.children
  node : child.node.Reordered child'.node
  above : child.above = s.inside
  above' : child'.above = s'.inside

theorem exists_children_of_reordered (reordered : s.node.Reordered s'.node) :
    ∃ kids, Forall₂ (ReorderedChildren s s') s.children kids ∧ kids.Perm s'.children ∧
      (s.decl.isReorderable = false → kids = s'.children) := by
  obtain ⟨between, each, order⟩ := reordered.children
  have here : Forall₂ (flip s.IsChildAt) s.children s.node.children := (childrenFrom_isChildAt 0 _).flip
  have there : Forall₂ s'.IsChildAt s'.node.children s'.children := childrenFrom_isChildAt 0 _
  have aligned {kids : List Site} (placed : Forall₂ s'.IsChildAt between kids) :
      Forall₂ (ReorderedChildren s s') s.children kids := by
    refine ((forall₂_and_left _ _).mpr ⟨fun _ listed => listed, forall₂_comp (forall₂_comp here each) placed⟩).imp ?_
    rintro child kid ⟨listed, _, ⟨_, ⟨rfl, above⟩, node⟩, ⟨rfl, above'⟩⟩
    exact ⟨listed, node, above, above'⟩
  rcases order with rfl | ⟨free, order⟩
  · exact ⟨s'.children, aligned there, .refl _, fun _ => rfl⟩
  · obtain ⟨kids, placed, permuted⟩ := perm_comp_forall₂ order there
    refine ⟨kids, aligned placed, permuted, fun fixed => ?_⟩
    rw [Site.decl, free] at fixed
    cases fixed

theorem exists_matching (reordered : s.node.Reordered s'.node) (ring : PairedRing outer s.above s'.above) :
    ∃ pairs, Matching outer pairs [s] [s'] ∧
      ∀ passes, ∃ found ⊆ pairs, Lists found (s.reach passes) (s'.reach passes) := by
  induction s using children_induction generalizing s' outer with
  | step s ih =>
    obtain ⟨kids, each, permuted, fixed⟩ := exists_children_of_reordered reordered
    have inside : PairedRing ((s, s') :: outer) s.inside s'.inside :=
      .cons ⟨⟨(s, s'), by simp, rfl, rfl⟩, reordered.decl⟩ (ring.mono (by simp))
    obtain ⟨below, matching⟩ : ∃ below, Matching ((s, s') :: outer) below s.children kids := by
      refine Matching.of_each (each.imp fun child kid both => ?_)
      rw [← both.above, ← both.above'] at inside
      obtain ⟨pairs, matching, _⟩ := ih child both.listed both.node inside
      exact ⟨pairs, matching⟩
    have reaches (passes : Declaration → Bool) :
        ∃ found ⊆ (s, s') :: below, Lists found (s.reach passes) (s'.reach passes) := by
      obtain ⟨found, subset, lists⟩ := matching.reached passes
      refine ⟨found, fun _ member => mem_cons_of_mem _ (subset member), ?_, ?_⟩
      · rw [lists.left, reach_eq]
      · rw [reach_eq s']
        exact lists.right.trans (permuted.flatMap_right _)
    refine ⟨(s, s') :: below, ⟨?_, ⟨?_, ?_⟩, ?_, fun passes => ?_⟩, reaches⟩
    · exact .cons (by simp) .nil
    · simp [walk_eq s, matching.walks.left]
    · simp only [map_cons, flatMap_cons, flatMap_nil, append_nil, walk_eq s']
      exact (matching.walks.right.trans (permuted.flatMap_right walk)).cons s'
    · intro pair member
      rcases mem_cons.mp member with rfl | member
      · refine ⟨reordered.decl, ring.mono (by simp), fun stays => ?_⟩
        rw [← fixed stays]
        exact matching.heads.imp fun _ _ member => by simp [member]
      · refine (matching.coupled pair member).mono ?_
        intro other
        simp only [mem_append, mem_cons]
        tauto
    · simp only [flatMap_cons, flatMap_nil, append_nil]
      unfold reachFrom
      rw [show s.decl = s'.decl from reordered.decl]
      split
      · exact reaches passes
      · exact ⟨[(s, s')], by simp, rfl, .refl _⟩

end Site

end FlatAbi
