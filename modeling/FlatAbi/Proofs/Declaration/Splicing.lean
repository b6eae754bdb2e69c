import FlatAbi.Proofs.Declaration.Redeclaration

/-!
A tree in which the children of a node stand in its place. Each site faces the one that it was moved from.
-/

namespace FlatAbi

open List Option

/-- The tree with the children of a node in its place, for the child `index` of the node at a path. -/
def Node.splice (index : Nat) : List Nat → Node → Node
  | [], n =>
    .mk n.decl (n.children.take index ++ (n.children[index]?.elim [] Node.children) ++ n.children.drop (index + 1))
  | first :: rest, n => .mk n.decl (n.children.modify first (splice index rest))

theorem Node.splice_decl (index : Nat) (path : List Nat) (n : Node) : (n.splice index path).decl = n.decl := by
  cases path <;> rfl

theorem Node.splice_here {n gone : Node} {index : Nat} (listed : n.children[index]? = some gone) :
    ∃ front back, front.length = index ∧ n.children = front ++ gone :: back ∧
      (n.splice index []).children = front ++ gone.children ++ back := by
  obtain ⟨inRange, atIndex⟩ := List.getElem?_eq_some_iff.mp listed
  refine ⟨n.children.take index, n.children.drop (index + 1), length_take_of_le (Nat.le_of_lt inRange), ?_, ?_⟩
  · rw [← atIndex, ← drop_eq_getElem_cons inRange, take_append_drop]
  · rw [splice, listed]
    rfl

/-- The place of a node that is gone: the path of its parent, its index there, and the number of its children. -/
structure Gap where
  path : List Nat
  index : Nat
  count : Nat

namespace Gap

variable (gap : Gap)

/-- Where a child of the parent was before, as a path from the parent. -/
def origin (position : Nat) : List Nat :=
  if position < gap.index then [position]
  else if position < gap.index + gap.count then [gap.index, position - gap.index]
  else [position - gap.count + 1]

/-- Where a path was before, followed along the path of the parent. -/
def originFrom : List Nat → List Nat → List Nat
  | _, [] => []
  | [], position :: rest => gap.origin position ++ rest
  | first :: path, position :: rest =>
    if first = position then position :: originFrom path rest else position :: rest

theorem origin_injective {one two : List Nat} {position other : Nat}
    (same : gap.origin position ++ one = gap.origin other ++ two) : position = other ∧ one = two := by
  unfold origin at same
  grind

theorem originFrom_injective {path one two : List Nat} (same : gap.originFrom path one = gap.originFrom path two) :
    one = two := by
  have nonempty (position : Nat) (rest : List Nat) : gap.origin position ++ rest ≠ [] := by
    unfold origin
    split
    · simp
    · split <;> simp
  induction path generalizing one two with
  | nil =>
    cases one with
    | nil =>
      cases two with
      | nil => rfl
      | cons position rest => exact (nonempty position rest same.symm).elim
    | cons position rest =>
      cases two with
      | nil => exact (nonempty position rest same).elim
      | cons other others =>
        obtain ⟨rfl, rfl⟩ := gap.origin_injective same
        rfl
  | cons first path ih =>
    cases one with
    | nil =>
      cases two with
      | nil => rfl
      | cons position rest =>
        simp only [originFrom] at same
        split at same <;> cases same
    | cons position rest =>
      cases two with
      | nil =>
        simp only [originFrom] at same
        split at same <;> cases same
      | cons other others =>
        simp only [originFrom] at same
        split at same <;> split at same <;> obtain ⟨rfl, tails⟩ := List.cons.inj same
        · rw [ih tails]
        · contradiction
        · contradiction
        · rw [tails]

theorem originFrom_child (path : List Nat) (position : Nat) :
    gap.originFrom path (path ++ [position]) = path ++ gap.origin position := by
  induction path with
  | nil => simp [originFrom]
  | cons first path ih => simp [originFrom, ih]

theorem originFrom_append {path one : List Nat} (other : one ≠ path) (position : Nat) :
    gap.originFrom path (one ++ [position]) = gap.originFrom path one ++ [position] := by
  induction path generalizing one with
  | nil =>
    cases one with
    | nil => exact absurd rfl other
    | cons first rest => simp [originFrom]
  | cons first path ih =>
    cases one with
    | nil =>
      simp only [nil_append, originFrom]
      split <;> simp
    | cons second rest =>
      simp only [cons_append, originFrom]
      split
      · rename_i same
        rw [ih fun equal => other (by rw [same, equal])]
        rfl
      · rfl

theorem originFrom_of_prefix {path one rest : List Nat} (whole : one ++ rest = path) :
    gap.originFrom path one = one := by
  induction path generalizing one with
  | nil =>
    obtain ⟨rfl, rfl⟩ := append_eq_nil_iff.mp whole
    rfl
  | cons first path ih =>
    cases one with
    | nil => rfl
    | cons second one =>
      obtain ⟨rfl, tails⟩ := List.cons.inj whole
      simp [originFrom, ih tails]

end Gap

namespace NodeId

variable {gap : Gap} {id other : NodeId}

/-- The identity that a node had before. -/
def before (gap : Gap) : NodeId → NodeId
  | .declared path => .declared (gap.originFrom gap.path path)
  | .runtime path => .runtime path
  | .implicit owner destructor => .implicit (gap.originFrom gap.path owner) destructor

/-- An identity of no node on the way to the gap. -/
def IsAway (gap : Gap) : NodeId → Prop
  | .declared path => ¬ path <+: gap.path
  | _ => True

theorem before_injective (same : id.before gap = other.before gap) : id = other := by
  cases id <;> cases other <;> simp only [before, declared.injEq, runtime.injEq, implicit.injEq, reduceCtorEq] at same
  · rw [gap.originFrom_injective same]
  · rw [same]
  · rw [gap.originFrom_injective same.1, same.2]

theorem IsAway.before_child (away : id.IsAway gap) (position : Nat) :
    (id.child position).before gap = (id.before gap).child position := by
  cases id with
  | declared path =>
    have other : path ≠ gap.path := fun same => away (same ▸ prefix_rfl)
    simp only [child, before, gap.originFrom_append other]
  | runtime path => rfl
  | implicit owner destructor => rfl

theorem IsAway.child (away : id.IsAway gap) (position : Nat) : (id.child position).IsAway gap := by
  cases id with
  | declared path => exact fun early => away ((prefix_append path [position]).trans early)
  | runtime path => trivial
  | implicit owner destructor => trivial

end NodeId

namespace Site

variable {gap : Gap} {group one two : Site} {above above' : List (NodeId × Node)}

/-- Surroundings of the same declarations, in which plain includes may be gone. -/
inductive MovedRing (gap : Gap) : List (NodeId × Node) → List (NodeId × Node) → Prop where
  | nil : MovedRing gap [] []
  | cons {id : NodeId} {n n' : Node} {rest rest' : List (NodeId × Node)} (decl : n.decl = n'.decl)
      (outer : MovedRing gap rest rest') : MovedRing gap ((id.before gap, n) :: rest) ((id, n') :: rest')
  | skip {id : NodeId} {n : Node} {rest rest' : List (NodeId × Node)} (isInclude : n.kind = .includeDecl)
      (plain : (n.decl.feature "nspace").truthy = false) (outer : MovedRing gap rest rest') :
      MovedRing gap ((id, n) :: rest) rest'

theorem MovedRing.frame (ring : MovedRing gap above above') : SameFrame above above' := by
  induction ring with
  | nil => exact .nil
  | cons decl _ ih => exact .cons (congrArg Declaration.untyped decl) ih
  | skip isInclude plain _ ih => exact .skip isInclude plain ih

theorem MovedRing.scope (ring : MovedRing gap one.above two.above) :
    Option.Rel (fun id id' => id = NodeId.before gap id') (one.scope?.map (·.id)) (two.scope?.map (·.id)) := by
  unfold scope?
  generalize one.above = above, two.above = above' at ring
  induction ring with
  | nil => exact .none
  | @cons id n n' _ _ decl _ ih =>
    have kind : n.kind = n'.kind := congrArg Declaration.kind decl
    unfold closest
    rw [kind]
    split
    · exact ih
    · simp only [filter_some, Site.kind, kind]
      split
      · exact .some rfl
      · exact .none
  | skip isInclude _ _ ih =>
    rw [closest, isInclude]
    exact ih

/-- A site and where it was before the node at the gap was gone. Below it everything is the same, unless the gap is
there. -/
structure Facing (gap : Gap) (group one two : Site) : Prop where
  id : one.id = two.id.before gap
  ring : MovedRing gap one.above two.above
  node : one.node = two.node ∧ two.id.IsAway gap ∨
    ∃ path rest, two.id = .declared path ∧ path ++ rest = gap.path ∧ one.descend? (rest ++ [gap.index]) = some group ∧
      two.node = one.node.splice gap.index rest

theorem childrenFrom_append (s : Site) (index : Nat) (front back : List Node) :
    childrenFrom s index (front ++ back) =
      childrenFrom s index front ++ childrenFrom s (index + front.length) back := by
  induction front generalizing index with
  | nil => rfl
  | cons n rest ih =>
    simp only [cons_append, childrenFrom, ih, length_cons]
    rw [Nat.add_right_comm, Nat.add_assoc]

theorem childrenFrom_forall₂ {Related : Site → Site → Prop} {index other : Nat} {nodes nodes' : List Node}
    (length : nodes.length = nodes'.length)
    (each : ∀ position n n', nodes[position]? = some n → nodes'[position]? = some n' →
      Related ⟨one.id.child (index + position), n, one.inside⟩ ⟨two.id.child (other + position), n', two.inside⟩) :
    Forall₂ Related (childrenFrom one index nodes) (childrenFrom two other nodes') := by
  induction nodes generalizing index other nodes' with
  | nil =>
    rw [length_eq_zero_iff.mp length.symm]
    exact .nil
  | cons n rest ih =>
    cases nodes' with
    | nil => cases length
    | cons n' rest' =>
      refine .cons (each 0 n n' rfl rfl) (ih (Nat.succ.inj length) fun position m m' listed listedToo => ?_)
      have later := each (position + 1) m m' listed listedToo
      rwa [← Nat.add_assoc, Nat.add_right_comm, ← Nat.add_assoc, Nat.add_right_comm other] at later

/-- Nodes at the gap face those that they were moved from, which are children of one site. -/
theorem Facing.childrenFrom_of_gap (id : two.id = .declared gap.path) {parent : Site} {index other : Nat}
    {nodes : List Node} (ring : MovedRing gap parent.inside two.inside) (origin : ∀ position < nodes.length,
      parent.id.child (index + position) = .declared (gap.path ++ gap.origin (other + position))) :
    Forall₂ (Facing gap group) (childrenFrom parent index nodes) (childrenFrom two other nodes) := by
  refine childrenFrom_forall₂ rfl fun position n n' listed listedToo => ⟨?_, ring, .inl ⟨?_, ?_⟩⟩
  · rw [id, NodeId.child, NodeId.before, gap.originFrom_child]
    exact origin position (List.getElem?_eq_some_iff.mp listed).1
  · exact Option.some.inj (listed.symm.trans listedToo)
  · rw [id]
    intro early
    have shorter := early.length_le
    rw [length_append, length_singleton] at shorter
    omega

namespace Facing

section

variable (facing : Facing gap group one two)

include facing

theorem decl : one.decl = two.decl := by
  rcases facing.node with ⟨same, _⟩ | ⟨_, _, _, _, _, spliced⟩
  · exact congrArg Node.decl same
  · rw [Site.decl, Site.decl, spliced, Node.splice_decl]

theorem kind : one.kind = two.kind :=
  congrArg Declaration.kind facing.decl

theorem inside : MovedRing gap one.inside two.inside := by
  unfold Site.inside
  rw [facing.id]
  exact .cons facing.decl facing.ring

theorem children_of_away (same : one.node = two.node) (away : two.id.IsAway gap) :
    Forall₂ (Facing gap group) one.children two.children := by
  unfold Site.children
  rw [same]
  refine childrenFrom_related (fun position n => ⟨?_, facing.inside, .inl ⟨rfl, away.child position⟩⟩) 0 _
  rw [facing.id, away.before_child]

/-- Above the gap, the way goes on through one of the children. -/
theorem children_of_above {path rest : List Nat} {first : Nat} (id : two.id = .declared path)
    (whole : path ++ first :: rest = gap.path) (found : one.descend? (first :: rest ++ [gap.index]) = some group)
    (spliced : two.node = one.node.splice gap.index (first :: rest)) :
    Forall₂ (Facing gap group) one.children two.children := by
  have below : path ≠ gap.path := by simp [← whole]
  have moved (position : Nat) : one.id.child position = (two.id.child position).before gap := by
    simp only [facing.id, id, NodeId.child, NodeId.before, gap.originFrom_append below]
  unfold Site.children
  rw [spliced, Node.splice, Node.children]
  refine childrenFrom_forall₂ (length_modify ..).symm fun position n n' listed listedToo => ?_
  rw [Nat.zero_add]
  refine ⟨moved position, facing.inside, ?_⟩
  rw [getElem?_modify, listed] at listedToo
  by_cases onward : first = position
  · subst onward
    have entered : (one.child? first).bind (·.descend? (rest ++ [gap.index])) = some group := found
    rw [child?, listed] at entered
    refine .inr ⟨path ++ [first], rest, by rw [id]; rfl, by simpa using whole, entered, ?_⟩
    simpa using listedToo.symm
  · refine .inl ⟨by simpa [onward] using listedToo, ?_⟩
    rw [id]
    rintro ⟨after, whole'⟩
    rw [← whole, append_assoc] at whole'
    exact onward (List.cons.inj (append_cancel_left whole')).1.symm

/-- At the gap, the children of the node that is gone stand between the nodes before and after it. -/
theorem children_of_gap (id : two.id = .declared gap.path) (found : one.child? gap.index = some group)
    (count : gap.count = group.node.children.length) (isInclude : group.kind = .includeDecl)
    (plain : (group.decl.feature "nspace").truthy = false) (spliced : two.node = one.node.splice gap.index []) :
    ∃ front back, one.children = front ++ [group] ++ back ∧
      Forall₂ (Facing gap group) (front ++ group.children ++ back) two.children := by
  obtain ⟨n, listed, rfl⟩ := map_eq_some_iff.mp found
  obtain ⟨front, back, length, split, joined⟩ := Node.splice_here listed
  have oneId : one.id = .declared gap.path := by
    rw [facing.id, id, NodeId.before, gap.originFrom_of_prefix (append_nil _)]
  refine ⟨childrenFrom one 0 front, childrenFrom one (gap.index + 1) back, ?_, ?_⟩
  · rw [Site.children, split, childrenFrom_append, length, Nat.zero_add, childrenFrom, append_assoc]
    rfl
  · rw [Site.children, Site.children, spliced, joined, childrenFrom_append, childrenFrom_append, length, Nat.zero_add,
      length_append, length, Nat.zero_add]
    -- the three parts were moved from different places
    refine rel_append (rel_append ?_ ?_) ?_
    · refine childrenFrom_of_gap id facing.inside fun position early => ?_
      rw [oneId, NodeId.child, Gap.origin, if_pos (by omega)]
    · refine childrenFrom_of_gap id (.skip isInclude plain facing.inside) fun position inner => ?_
      have counted : position < gap.count := count ▸ inner
      rw [oneId, Gap.origin, if_neg (by omega), if_pos (by omega)]
      simp [NodeId.child]
    · refine childrenFrom_of_gap id facing.inside fun position late => ?_
      have counted : gap.count = n.children.length := count
      rw [oneId, NodeId.child, Gap.origin, if_neg (by omega), if_neg (by omega)]
      congr 3
      omega

end

variable (isInclude : group.kind = .includeDecl) (plain : (group.decl.feature "nspace").truthy = false)
  (count : gap.count = group.node.children.length)

include isInclude plain count

/-- What is collected from the children is collected from sites that face each other, if the node that is gone only
passes on what is collected from its children. -/
theorem children (facing : Facing gap group one two) :
    ∃ sites, Forall₂ (Facing gap group) sites two.children ∧
      ∀ {α : Type} (f : Site → List α), f group = group.children.flatMap f →
        one.children.flatMap f = sites.flatMap f := by
  rcases facing.node with ⟨same, away⟩ | ⟨path, rest, id, whole, found, spliced⟩
  · exact ⟨one.children, facing.children_of_away same away, fun _ _ => rfl⟩
  · cases rest with
    | nil =>
      obtain rfl := (append_nil path).symm.trans whole
      obtain ⟨child, entered, arrived⟩ := bind_eq_some_iff.mp found
      obtain rfl := Option.some.inj arrived
      obtain ⟨front, back, split, sites⟩ := facing.children_of_gap id entered count isInclude plain spliced
      refine ⟨_, sites, fun f passedOn => ?_⟩
      simp only [split, flatMap_append, flatMap_singleton, passedOn]
    | cons first rest => exact ⟨one.children, facing.children_of_above id whole found spliced, fun _ _ => rfl⟩

theorem walk {keeps : Kind → Bool} (gone : keeps .includeDecl = false) (facing : Facing gap group one two) :
    Forall₂ (Facing gap group) (one.walk.filter fun s => keeps s.kind) (two.walk.filter fun s => keeps s.kind) := by
  have walked (s : Site) : s.walk.filter (fun s => keeps s.kind) =
      (if keeps s.kind then [s] else []) ++
        s.children.flatMap fun child => child.walk.filter fun s => keeps s.kind := by
    rw [walk_eq, filter_cons, filter_flatMap]
    split <;> rfl
  -- The induction is on the new tree: the old one has a node more.
  induction two using children_induction generalizing one with
  | step two ih =>
    obtain ⟨sites, faced, passedOn⟩ := facing.children isInclude plain count
    rw [walked one, walked two, facing.kind, passedOn _ (by rw [walked group, isInclude, gone]; rfl)]
    refine rel_append ?_ ?_
    · split
      · exact .cons facing .nil
      · exact .nil
    · exact flatMap_related faced fun _ _ child listed below => ih child listed below

theorem reach {passes : Declaration → Bool} (passed : passes group.decl) (facing : Facing gap group one two) :
    Forall₂ (Facing gap group) (one.reach passes) (two.reach passes) := by
  induction two using children_induction generalizing one with
  | step two ih =>
    obtain ⟨sites, faced, passedOn⟩ := facing.children isInclude plain count
    rw [reach_eq, reach_eq, passedOn _ (by rw [reachFrom, if_pos passed, reach_eq])]
    refine flatMap_related faced fun _ _ child listed below => ?_
    unfold reachFrom
    rw [below.decl]
    split
    · exact ih child listed below
    · exact .cons below .nil

end Facing

end Site

end FlatAbi
