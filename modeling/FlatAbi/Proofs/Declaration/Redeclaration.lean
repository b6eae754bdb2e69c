import FlatAbi.Proofs.Declaration.Namesakes
import FlatAbi.Proofs.Declaration.Walk

/-!
A tree in which one declaration is replaced by another that differs in its types only.
-/

namespace FlatAbi

open List Site Option

/-- The tree with another declaration at a path of child indices. -/
def Node.redeclare (new : Declaration) : List Nat → Node → Node
  | [], n => .mk new n.children
  | index :: rest, n => .mk n.decl (n.children.modify index (redeclare new rest))

namespace Site

def redeclare (s : Site) (path : List Nat) (new : Declaration) : Site :=
  { s with node := s.node.redeclare new path }

/-- Surroundings that are the same apart from types. -/
abbrev SameRing : List (NodeId × Node) → List (NodeId × Node) → Prop :=
  Forall₂ fun one two => one.1 = two.1 ∧ one.2.decl.untyped = two.2.decl.untyped

theorem SameRing.refl (above : List (NodeId × Node)) : SameRing above above :=
  forall₂_same.mpr fun _ _ => ⟨rfl, rfl⟩

variable {above above' : List (NodeId × Node)} {site one two : Site} {new : Declaration}

theorem SameRing.frame (ring : SameRing above above') : SameFrame above above' := by
  induction ring with
  | nil => exact .nil
  | cons first _ ih => exact .cons first.2 ih

/-- Two sites at the same place of a tree and of that tree with another declaration at `site`. -/
structure Beside (site : Site) (new : Declaration) (one two : Site) : Prop where
  id : one.id = two.id
  above : SameRing one.above two.above
  node : one.node = two.node ∨ ∃ path, one.descend? path = some site ∧ two.node = one.node.redeclare new path

variable {path : List Nat}

theorem beside_redeclare {root : Site} (found : root.descend? path = some site) (new : Declaration) :
    Beside site new root (root.redeclare path new) :=
  ⟨rfl, .refl _, .inr ⟨path, found, rfl⟩⟩

namespace Beside

theorem untyped (beside : Beside site new one two) (same : site.decl.untyped = new.untyped) :
    one.decl.untyped = two.decl.untyped := by
  rcases beside.node with node | ⟨path, found, node⟩
  · rw [decl, decl, node]
  · rw [decl, decl, node]
    cases path with
    | nil =>
      cases found
      exact same
    | cons index rest => rfl

theorem namesake (beside : Beside site new one two) (same : site.decl.untyped = new.untyped) : Namesake one two :=
  ⟨beside.untyped same, beside.above.frame⟩

theorem childrenFrom_same (id : one.id = two.id) (ring : SameRing one.inside two.inside) (index : Nat)
    (nodes : List Node) : Forall₂ (Beside site new) (childrenFrom one index nodes) (childrenFrom two index nodes) :=
  childrenFrom_related (fun index _ => ⟨congrArg (NodeId.child · index) id, ring, .inl rfl⟩) index nodes

theorem childrenFrom_modify (id : one.id = two.id) (ring : SameRing one.inside two.inside) {nodes : List Node}
    {index position : Nat}
    (found : ∀ n, nodes[position]? = some n →
      (⟨one.id.child (index + position), n, one.inside⟩ : Site).descend? path = some site) :
    Forall₂ (Beside site new) (childrenFrom one index nodes)
      (childrenFrom two index (nodes.modify position (Node.redeclare new path))) := by
  induction nodes generalizing index position with
  | nil =>
    rw [modify_nil]
    exact .nil
  | cons n rest ih =>
    cases position with
    | zero =>
      have here := found n rfl
      exact .cons ⟨congrArg (NodeId.child · index) id, ring, .inr ⟨path, here, rfl⟩⟩
        (childrenFrom_same id ring (index + 1) rest)
    | succ position =>
      refine .cons ⟨congrArg (NodeId.child · index) id, ring, .inl rfl⟩ (ih fun m listed => ?_)
      rw [Nat.add_right_comm]
      exact found m listed

theorem children (beside : Beside site new one two) (same : site.decl.untyped = new.untyped) :
    Forall₂ (Beside site new) one.children two.children := by
  have ring : SameRing one.inside two.inside := .cons ⟨beside.id, beside.untyped same⟩ beside.above
  unfold Site.children
  rcases beside.node with node | ⟨path, found, node⟩
  · rw [← node]
    exact childrenFrom_same beside.id ring 0 _
  · rw [node]
    cases path with
    | nil => exact childrenFrom_same beside.id ring 0 _
    | cons index rest =>
      refine childrenFrom_modify beside.id ring fun n listed => ?_
      rw [Nat.zero_add]
      have entered : (one.child? index).bind (·.descend? rest) = some site := found
      rwa [child?, listed] at entered

end Beside

theorem above_subset_of_descend {start : Site} (found : start.descend? path = some site) :
    start.above ⊆ site.above := by
  induction path generalizing start with
  | nil =>
    cases found
    exact Subset.refl _
  | cons index rest ih =>
    obtain ⟨child, entered, found⟩ := bind_eq_some_iff.mp found
    obtain ⟨n, _, rfl⟩ := map_eq_some_iff.mp entered
    exact Subset.trans (subset_cons_self _ _) (ih found)

theorem mem_above_of_descend {start : Site} {index : Nat} (found : start.descend? (index :: path) = some site) :
    (start.id, start.node) ∈ site.above := by
  obtain ⟨child, entered, found⟩ := bind_eq_some_iff.mp found
  obtain ⟨n, _, rfl⟩ := map_eq_some_iff.mp entered
  exact above_subset_of_descend found mem_cons_self

/-- A site outside classes, below nothing but groups of declarations. -/
def IsFree (site : Site) : Prop :=
  ∀ around ∈ site.above, around.2.kind = .moduleDecl ∨ around.2.kind = .namespaceDecl ∨
    around.2.kind = .includeDecl ∨ around.2.kind = .importDecl

instance (site : Site) : Decidable site.IsFree :=
  inferInstanceAs (Decidable (∀ around ∈ site.above, _))

theorem IsFree.not_around {around : NodeId × Node} (free : site.IsFree) (outer : around ∈ site.above) :
    ¬ (around.2.kind = .classDecl ∨ around.2.kind = .enumDecl) := by
  intro kind
  have group := free around outer
  rcases kind with kind | kind <;> simp [kind] at group

/-- Away from the replaced declaration, sites beside each other have the same declaration; they are the same nodes,
unless the replaced one lies below. -/
theorem Beside.cases (beside : Beside site new one two) :
    one = site ∧ two.decl = new ∨
      one.decl = two.decl ∧ (one.node = two.node ∨ (one.id, one.node) ∈ site.above) := by
  rcases beside.node with node | ⟨path, found, node⟩
  · exact .inr ⟨congrArg Node.decl node, .inl node⟩
  · cases path with
    | nil => exact .inl ⟨Option.some.inj found, by rw [decl, node]; rfl⟩
    | cons index rest => exact .inr ⟨by rw [decl, decl, node]; rfl, .inr (mem_above_of_descend found)⟩

end Site

end FlatAbi
