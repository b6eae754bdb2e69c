import FlatAbi.Proofs.Declaration.Splicing
import FlatAbi.Proofs.Emission.Parallel

/-!
Includes are transparent: they take part in nothing but paths.
-/

namespace FlatAbi

open Site SymbolTable List

/-- A site of the same declaration and the same surroundings that was moved. Classes and enumerations are moved as a
whole. -/
structure Moved (gap : Gap) (one two : Site) : Prop where
  id : one.id = two.id.before gap
  decl : one.decl = two.decl
  ring : MovedRing gap one.above two.above
  whole : one.kind = .classDecl ∨ one.kind = .enumDecl → one.node = two.node ∧ two.id.IsAway gap

theorem Moved.children {gap : Gap} {one two : Site} (moved : Moved gap one two)
    (kind : one.kind = .classDecl ∨ one.kind = .enumDecl) : Forall₂ (Moved gap) one.children two.children := by
  obtain ⟨same, away⟩ := moved.whole kind
  have ring : MovedRing gap one.inside two.inside := by
    unfold inside
    rw [moved.id]
    exact .cons moved.decl moved.ring
  unfold Site.children
  rw [same]
  refine childrenFrom_related (fun position _ => ⟨?_, rfl, ring, fun _ => ⟨rfl, away.child position⟩⟩) 0 _
  rw [moved.id, away.before_child]

/-- Two trees of which one has an include less. -/
def splicing (gap : Gap) : Pairing where
  SameId id id' := id = id'.before gap
  Twin := Moved gap
  biunique := by
    rintro _ i' _ j' rfl rfl
    exact ⟨NodeId.before_injective, congrArg _⟩
  sameId moved := moved.id
  decl moved := moved.decl
  frame moved := moved.ring.frame
  children moved := moved.children
  implicit {one two} moved destructor := by
    rw [Members.implicitId, Members.implicitId, moved.id]
    cases two.id <;> rfl

namespace Site.Facing

variable {gap : Gap} {group one two : Site}

theorem moved (facing : Facing gap group one two) (free : group.IsFree) : Moved gap one two := by
  refine ⟨facing.id, facing.decl, facing.ring, fun kind => ?_⟩
  rcases facing.node with same | ⟨_, rest, _, _, found, _⟩
  · exact same
  · have around : (one.id, one.node) ∈ group.above := by
      cases rest with
      | nil => exact mem_above_of_descend found
      | cons first rest => exact mem_above_of_descend found
    exact (free.not_around around kind).elim

end Site.Facing

section spliced

variable {gap : Gap} {group root root' : Site} (isInclude : group.kind = .includeDecl)
  (plain : (group.decl.feature "nspace").truthy = false) (count : gap.count = group.node.children.length)
  (facing : Facing gap group root root')

include facing in
theorem runtimeClass_moved : (splicing gap).Twin (Module.runtimeClass root) (Module.runtimeClass root') :=
  ⟨rfl, rfl, facing.inside, fun _ => ⟨rfl, trivial⟩⟩

include isInclude plain count facing

theorem support_eq_of_facing (config : Config) :
    Module.exceptionSupport config root = Module.exceptionSupport config root' := by
  have found : Option.Rel (Facing gap group) root.namedImport? root'.namedImport? := by
    refine rel_find (facing.reach isInclude plain count (beq_iff_eq.mpr isInclude)) fun _ _ below => ?_
    rw [below.kind, below.decl]
  unfold Module.exceptionSupport
  refine rel_elim found rfl fun _ _ below => ?_
  simp only [below.decl]

theorem freeFunctions_facing : Forall₂ (Facing gap group) root.freeFunctions root'.freeFunctions := by
  refine forall₂_filter (facing.reach isInclude plain count ?_) fun _ _ below => ?_
  · have kind : group.decl.kind = .includeDecl := isInclude
    simp [isGroup, kind]
  · rw [below.kind, below.decl]

theorem emitted_facing (shown : group.decl.isIgnored = false) :
    Forall₂ (Facing gap group) root.emitted root'.emitted := by
  refine forall₂_filter (facing.reach isInclude plain count ?_) fun _ _ below => by rw [below.decl]
  have kind : group.decl.kind = .includeDecl := isInclude
  simp [isGroup, kind, shown]

theorem overloads_eq_of_facing (scope scope' : Option NodeId) (symbol : Option Atom)
    (scopes : Option.Rel (splicing gap).SameId scope scope') :
    (root.freeFunctions.map Module.overloadKey).count (scope, symbol) =
      (root'.freeFunctions.map Module.overloadKey).count (scope', symbol) := by
  have functions := freeFunctions_facing isInclude plain count facing
  rw [count_eq_countP, count_eq_countP, countP_map, countP_map, countP_eq_length_filter,
    countP_eq_length_filter]
  refine (forall₂_filter functions fun one two below => ?_).length_eq
  have around := (splicing gap).option_eq_iff below.ring.scope scopes
  rw [Bool.eq_iff_iff]
  simp only [Function.comp, Module.overloadKey, below.decl, beq_iff_eq, Prod.mk.injEq, around]

theorem checkOverloads_eq_of_facing :
    root.freeFunctions.forM Module.checkOverload = root'.freeFunctions.forM Module.checkOverload := by
  refine forM_eq_of_forall₂ (freeFunctions_facing isInclude plain count facing) fun _ _ below => ?_
  rw [Module.checkOverload, Module.checkOverload, below.decl]

variable (free : group.IsFree)

include free

theorem filed_moved : Forall₂ (Moved gap) (root.walk.filter fun s => filesKind s.kind)
    (root'.walk.filter fun s => filesKind s.kind) :=
  (facing.walk isInclude plain count rfl).imp fun _ _ below => below.moved free

theorem trees_aligned : Aligned (splicing gap) (.ofTree root) (.ofTree root') := by
  rw [ofTree_eq, ofTree_eq]
  exact .ofSites ((filed_moved isInclude plain count facing free).imp fun _ _ => .inl)

theorem checkTree_eq_of_facing : checkTree root = checkTree root' := by
  rw [checkTree_eq_filed, checkTree_eq_filed]
  exact forM_eq_of_forall₂ (filed_moved isInclude plain count facing free) fun _ _ moved =>
    @checkNames_eq (splicing gap) _ _ moved

end spliced

namespace Module

variable {job : Job} {gap : Gap} {group root' : Site}

/-- A run over a tree without an include is paired with a run over the tree that has it, to the last diagnostic. -/
theorem run_facing (isInclude : group.kind = .includeDecl) (plain : (group.decl.feature "nspace").truthy = false)
    (count : gap.count = group.node.children.length) (shown : group.decl.isIgnored = false) (free : group.IsFree)
    (facing : Facing gap group job.root root') :
    SameResult NamesakeHalt (Paired (splicing gap) true (prepared job).table (prepared (job.over root')).table)
      (run job) (run (job.over root')) := by
  have support := support_eq_of_facing isInclude plain count facing job.config
  have runtime := runtimeClass_moved facing
  have tables := (prepared_tables_aligned support runtime (trees_aligned isInclude plain count facing free)).counterpart
  have each {one two : Site} (twin : (splicing gap).Twin one two) :
      Parallel (splicing gap) true (prepared job).table (prepared (job.over root')).table (declaration job one)
        (declaration job two) Eq :=
    declaration_parallel tables twin twin.ring.scope
  refine run_parallel (checkTree_eq_of_facing isInclude plain count facing free)
    (checkOverloads_eq_of_facing isInclude plain count facing)
    (prepared_paired support runtime (overloads_eq_of_facing isInclude plain count facing)) (rel_append ?_ ?_)
  · exact rel_elim (ownRuntimeClass_twins support runtime) .nil fun _ _ twin => .cons (each twin) .nil
  · exact (emitted_facing isInclude plain count facing shown).imp fun _ _ below => each (below.moved free)

/-- Includes are transparent: a module has the same output with the children of an include in its place. -/
theorem output_eq_of_spliced (config : Config) (typemaps : TypemapTable) {tree : Node} {path : List Nat} {index : Nat}
    {group : Site} (found : (root tree).descend? (path ++ [index]) = some group) (isInclude : group.kind = .includeDecl)
    (shown : group.decl.isIgnored = false) (plain : (group.decl.feature "nspace").truthy = false)
    (free : group.IsFree) :
    (run (.ofTree config typemaps (tree.splice index path))).toOption.map
        (fun draft => (draft.sectionText, draft.symbols, draft.exceptions, draft.diagnostics)) =
      (run (.ofTree config typemaps tree)).toOption.map
        fun draft => (draft.sectionText, draft.symbols, draft.exceptions, draft.diagnostics) := by
  have facing : Facing ⟨path, index, group.node.children.length⟩ group (root tree) (root (tree.splice index path)) :=
    ⟨congrArg _ (Gap.originFrom_of_prefix _ (nil_append path)).symm, .nil, .inr ⟨[], path, rfl, rfl, found, rfl⟩⟩
  have ran := @run_facing (.ofTree config typemaps tree) _ group _ isInclude plain rfl shown free facing
  refine (ran.toOption_map fun draft draft' drafts => ?_).symm
  have texts : draft.sectionText = draft'.sectionText := by
    funext target
    rw [Draft.sectionText, Draft.sectionText, drafts.chunks]
  have told : draft.diagnostics = draft'.diagnostics := by
    rw [Draft.diagnostics, Draft.diagnostics, drafts.events rfl]
  rw [texts, drafts.symbols, drafts.exceptions, told]

def includedNodes : List Node :=
  [.mk (.named .classDecl "Shape") [],
   .mk
    { Declaration.named .functionDecl "draw" with
      parameters := [{ name := .string "shape", type := some ⟨"Shape", [.pointer]⟩ }] } []]

def moduleAround (nodes : List Node) : Node :=
  .mk (.named .moduleDecl "m")
    [.mk (.named .namespaceDecl "n")
      ([.mk (.named .functionDecl "draw") []] ++ nodes ++
        [.mk (.named .functionDecl "clear") []])]

def includingModule : Node :=
  moduleAround [.mk (.named .includeDecl "shapes") includedNodes]

def shapesConfig : Config :=
  { givenModule := .string "m", exceptions := false }

example : includingModule.splice 1 [0] = moduleAround includedNodes := rfl

/-- The functions are overloads of each other, with the include or without it. -/
theorem output_eq_of_includingModule :
    (run (.ofTree shapesConfig (.ofRules [] true) (includingModule.splice 1 [0]))).toOption.map
        (fun draft => (draft.sectionText, draft.symbols, draft.exceptions, draft.diagnostics)) =
      (run (.ofTree shapesConfig (.ofRules [] true) includingModule)).toOption.map
        (fun draft => (draft.sectionText, draft.symbols, draft.exceptions, draft.diagnostics)) ∧
      (run (.ofTree shapesConfig (.ofRules [] true) includingModule)).toOption.map
          (fun draft => draft.symbols.map (·.name.display)) =
        some ["m_draw", "Shape", "Shape_new", "Shape_delete", "m_draw_pShape", "m_clear"] := by
  refine ⟨output_eq_of_spliced shapesConfig (.ofRules [] true) rfl rfl rfl rfl ?_, by decide +kernel⟩
  decide

end Module

end FlatAbi
