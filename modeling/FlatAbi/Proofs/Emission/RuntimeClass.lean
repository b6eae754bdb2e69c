import FlatAbi.Proofs.Emission.Ahead
import FlatAbi.Proofs.Facade.Independence
import FlatAbi.Proofs.Header.NamedTypes

/-!
What the runtime class leaves behind. The header has to declare nothing for its members.
-/

namespace FlatAbi

open Emit Wrapper SymbolTable Inheritance Members Facade List Resolver FlatAbi.Module Except

variable {job : Job} {r : Resolver} {c : Callable} {t : CxxType}

/-! ### Types that need nothing -/

variable {category : Category} {opened : OpenClass} {table : SymbolTable} {parameters : List TypedParameter}

/-- The header needs nothing for a type, which is no object by value. -/
def Resolver.Needless (r : Resolver) (t : CxxType) (scope : String) : Prop :=
  ∀ category, r.table.category t scope = .ok category →
    (r.cTypeOf t scope .header category).needs = [] ∧ category.isObjectByValue = false

/-- The header needs nothing for the types of a callable. -/
structure Callable.Needless (r : Resolver) (c : Callable) : Prop where
  result : r.Needless c.result c.site.scopeName
  parameters : ∀ p ∈ c.parameters, ∀ t, p.type = some t → r.Needless t c.site.scopeName

theorem Resolver.Needless.needs (needless : r.Needless t c.site.scopeName)
    (known : r.categoryAt t c.site.scopeValue = .ok category) :
    (r.cTypeOf t c.site.scopeName .header category).needs = [] := by
  have found := category_of_categoryAt known
  rw [Site.display_scopeValue] at found
  exact (needless category found).1

variable {scope : String}

theorem Wrapper.cTypeOf_needs (empty : (r.cTypeOf t scope .header category).needs = []) :
    (cTypeOf job r t scope category .header).needs = [] := by
  unfold cTypeOf
  split
  · rfl
  · exact empty

theorem Wrapper.argument_needless {p : Plan} {a : Argument} (needless : c.Needless r)
    (typed : typedParameters c = .ok parameters) (planned : plan job r c parameters = .ok p) (listed : a ∈ p.args) :
    r.Needless a.type c.site.scopeName := by
  obtain ⟨parameter, member, type⟩ := plan_types planned a listed
  obtain ⟨declared, also, written⟩ := typedParameters_types typed parameter member
  exact needless.parameters declared also _ (type ▸ written)

theorem Wrapper.headerNeeds_eq_nil {p : Plan} (needless : c.Needless r) (typed : typedParameters c = .ok parameters)
    (planned : plan job r c parameters = .ok p) :
    p.headerNeeds job r = [] := by
  have arguments (a : Argument) (listed : a ∈ p.args) := argument_needless needless typed planned listed
  have known := plan_category planned
  obtain ⟨rfl, _, converted⟩ := plan_eq_ok planned
  refine flatMap_eq_nil_iff.mpr ?_
  rintro ⟨t, category⟩ listed
  rcases mem_append.mp listed with listed | listed
  · obtain ⟨a, visible, same⟩ := mem_map.mp listed
    cases same
    have member := (mem_filter.mp visible).1
    exact cTypeOf_needs ((arguments a member).needs (known a member))
  · obtain ⟨result, returned, same⟩ := mem_map.mp listed
    cases same
    obtain ⟨type, known⟩ := convertedResult_category (Option.mem_toList.mp returned ▸ converted)
    rw [type]
    exact cTypeOf_needs (needless.result.needs known)

theorem Facade.covered_of_needless {inputs : List TypedParameter} (cxx : r.config.cplusplus)
    (needless : c.Needless r) (each : ∀ p ∈ inputs, r.Needless p.type c.site.scopeName) :
    Covered r [] c inputs := by
  refine ⟨fun rendering rendered => ?_, fun p listed rendering rendered => ?_⟩
  · unfold result at rendered
    split at rendered
    · rw [← ok.inj rendered]
      exact nil_subset _
    · obtain ⟨category, known, _⟩ := bind_eq_ok rendered
      have needs := facadeResultAt_needs cxx known rendered
      rwa [Site.display_scopeValue, needless.result.needs known] at needs
  · obtain ⟨category, known, _⟩ := bind_eq_ok rendered
    have needs := facadeParameterAt_needs cxx known rendered
    rwa [Site.display_scopeValue, (each p listed).needs known] at needs

/-! ### Drafts with the runtime class -/

/-- A draft that has nothing but the runtime class: what it remembers is about nodes of this class, and no types were
declared but those with names. The rest is as it was at the start. -/
structure Draft.HoldsRuntime (start draft : Draft) : Prop where
  table : draft.table = start.table
  runtimeClass : draft.runtimeClass = start.runtimeClass
  freeFunctions : draft.freeFunctions = start.freeFunctions
  declared : draft.declared = []
  names : ∀ entry ∈ draft.names, entry.1.node.isRuntime
  memo : ∀ entry ∈ draft.memo.entries, entry.1.isRuntime ∧ entry.2 = []
  types : ∀ chunk ∈ draft.chunks, chunk.home = .types → chunk.isNamedType

variable {cls : Site}

namespace Draft.HoldsRuntime

variable {start before after : Draft}

section

variable (holds : HoldsRuntime start before)

include holds

theorem of_agree (agree : Agree true before after) : HoldsRuntime start after where
  table := agree.table.symm.trans holds.table
  runtimeClass := agree.runtimeClass.symm.trans holds.runtimeClass
  freeFunctions := agree.freeFunctions.symm.trans holds.freeFunctions
  declared := (agree.declared rfl).symm.trans holds.declared
  names := agree.names ▸ holds.names
  memo := agree.memo ▸ holds.memo
  types chunk listed home := by
    have flat : chunk.isFlat true := by rw [Chunk.isFlat, home]; rfl
    have shown : chunk ∈ flatChunks true after.chunks := mem_filter.mpr ⟨listed, flat⟩
    rw [← agree.chunks] at shown
    exact holds.types chunk (mem_filter.mp shown).1 home

theorem chunksOf_types : chunksOf .types before.chunks = namedTypes before.chunks := by
  refine filter_congr fun chunk listed => ?_
  cases named : chunk.isNamedType with
  | true =>
    cases chunk <;> first | rfl | cases named
  | false =>
    refine beq_false_of_ne fun home => ?_
    rw [holds.types chunk listed home] at named
    cases named

theorem hidden {α : Type} {work : Emit α} {outcome : Except Halt α} (hidden : Hidden true before work)
    (ends : Ends work before outcome after) (survives : Survives outcome) : HoldsRuntime start after :=
  holds.of_agree (hidden _ _ ends survives)

theorem classDeclared (cls : Site) : HoldsRuntime start (classDeclaredIn job cls before) :=
  { holds with
    types := by
      intro chunk listed home
      rcases mem_append.mp listed with listed | listed
      · exact holds.types chunk listed home
      · obtain rfl := mem_singleton.mp listed
        rfl }

theorem named (runtime : c.site.id.isRuntime) (config : Config) (codes : List String) :
    ∀ entry ∈ (before.names.name config c codes).2, entry.1.node.isRuntime :=
  forall_mem_cons.mpr ⟨runtime, holds.names⟩

section

variable (cxx : job.config.cplusplus) (runtime : c.site.id.isRuntime) (needless : c.Needless ⟨job.config, before.table⟩)

include cxx runtime needless

/-- A wrapper of the runtime class leaves no trace but its own, and its facade member needs nothing. -/
theorem write {outcome : Except Halt (Option Written)} (ends : Ends (Wrapper.write job c) before outcome after)
    (survives : Survives outcome) :
    HoldsRuntime start after ∧
      ∀ w, outcome = .ok (some w) → Covered ⟨job.config, after.table⟩ [] w.callable w.inputs := by
  cases writeEnd_of_ends ends survives with
  | published renders named fresh =>
    cases renders with
    | @converted parameters p implementation header body _ typed planned implemented declared bodied =>
      have needs := headerNeeds_eq_nil needless typed planned
      refine ⟨{ holds with
        names := holds.named runtime _ _, declared := ?_, types := fun chunk listed home => ?_ }, ?_⟩
      · rw [Rendering.publishedIn, needs]
        exact (append_nil _).trans holds.declared
      · simp only [Rendering.publishedIn, needs, supply, missing, map_nil, append_nil] at listed
        rcases mem_append.mp listed with listed | listed
        · exact holds.types chunk listed home
        · -- a definition and a prototype have other sections
          simp only [mem_cons, not_mem_nil, or_false] at listed
          rcases listed with rfl | rfl <;> cases home
      · rintro w same
        cases same
        refine covered_of_needless cxx needless fun input listed => ?_
        obtain ⟨a, visible, rfl⟩ := mem_map.mp listed
        exact argument_needless needless typed planned (mem_filter.mp visible).1
    | direct isC => exact absurd (cxx.symm.trans isC) Bool.noConfusion
  | unconverted _ typed planned => exact ⟨{ holds with }, fun w impossible => by cases impossible⟩
  | taken defined => exact ⟨{ holds with names := holds.named runtime _ _ }, fun w impossible => by cases impossible⟩
  | rejected typed => exact ⟨holds, fun w impossible => by cases impossible⟩

theorem wrap {outcome : Except Halt (Option OpenClass)}
    (ends : Ends (Module.wrap job (some opened) c) before outcome after) (survives : Survives outcome) :
    HoldsRuntime start after := by
  unfold Module.wrap at ends
  obtain ⟨_, ends⟩ := ends.check_bind survives
  split at ends
  · rw [ends_warn_bind] at ends
    obtain ⟨_, rfl⟩ := ends.of_pure
    exact { holds with }
  · rcases ends.bind_survived survives with ⟨written, middle, wrote, ends⟩ | ⟨_, _, wrote, _⟩
    · obtain ⟨held, covered⟩ := holds.write cxx runtime needless wrote survives_ok
      cases written with
      | none =>
        obtain ⟨_, rfl⟩ := ends.of_pure
        exact held
      | some w =>
        have added : Hidden true middle (addMember job opened w) :=
          addMember_hidden (fun _ => covered w rfl) fun _ need impossible => by cases impossible
        exact held.hidden (.bind added fun _ _ _ => .pure) ends survives
    · exact (holds.write cxx runtime needless wrote survives_rejected).1

theorem classMember {outcome : Except Halt OpenClass}
    (ends : Ends (Module.classMember job opened (.callable c)) before outcome after) (survives : Survives outcome) :
    HoldsRuntime start after := by
  have reported (message : String) (site : Option Site) (draft : Draft) :
      Hidden true draft (do
        report .error (site.getD c.site) message
        return opened) := .bind .tell fun _ _ _ => .pure
  obtain ⟨_, middle, ended, survived, agree⟩ := ends.recover_hidden (fun _ => rfl) reported survives
  obtain ⟨_, ended, survived⟩ := ended.of_bind_pure survived
  exact (holds.wrap cxx runtime needless ended survived).of_agree agree

end

theorem members {members : List Member} {finished : OpenClass} (cxx : job.config.cplusplus)
    (each : ∀ m ∈ members, ∃ c, m = .callable c ∧ c.site.id.isRuntime ∧ c.Needless ⟨job.config, start.table⟩)
    (ends : Ends (members.foldlM (Module.classMember job) opened) before (.ok finished) after) :
    HoldsRuntime start after := by
  induction members generalizing opened before with
  | nil =>
    obtain ⟨_, rfl⟩ := ends.of_pure
    exact holds
  | cons m rest ih =>
    rw [foldlM_cons] at ends
    obtain ⟨_, middle, first, others⟩ := ends.bind_value (classMember_neverRejects opened m) survives_ok
    obtain ⟨c, rfl, runtime, needless⟩ := each m (by simp)
    exact ih (holds.classMember cxx runtime (holds.table ▸ needless) first survives_ok)
      (fun other member => each other (by simp [member])) others

theorem asked {α : Type} {query : SymbolTable → Memo → α × Memo} {answer : α}
    (entries : ∀ entry ∈ (query before.table before.memo).2.entries, entry.1.isRuntime ∧ entry.2 = [])
    (ends : Ends (inherit query) before (.ok answer) after) : HoldsRuntime start after := by
  obtain ⟨_, rfl⟩ := ends_inherit ends survives_ok
  exact { holds with memo := entries }

theorem flatten_of_baseless (runtime : cls.id.isRuntime) (baseless : cls.decl.baseNames = []) :
    let flattened := Inheritance.flatten before.table before.memo cls
    flattened.1 = [] ∧ ∀ entry ∈ flattened.2.entries, entry.1.isRuntime ∧ entry.2 = [] := by
  intro flattened
  cases known : before.memo.entries.lookup cls.id with
  | some found =>
    have same : flattened = (found, before.memo) := flattenWithin_of_known known
    obtain ⟨_, _, entries, _⟩ := List.lookup_eq_some_iff.mp known
    rw [same]
    exact ⟨(holds.memo (cls.id, found) (by simp [entries])).2, holds.memo⟩
  | none =>
    have empty : usableBases before.table cls = [] := by simp [usableBases, baseless]
    have same : flattened = ([], (before.memo.start cls).finish cls []) := by
      rw [show flattened = _ from flattenWithin_of_unknown known, empty]
      rfl
    rw [same]
    refine ⟨rfl, fun entry listed => ?_⟩
    rw [Memo.finish, Memo.start_entries] at listed
    rcases mem_cons.mp listed with rfl | listed
    · exact ⟨runtime, rfl⟩
    · rcases mem_cons.mp listed with rfl | listed
      · exact ⟨runtime, rfl⟩
      · exact holds.memo entry listed

theorem isAbstract_entries (runtime : cls.id.isRuntime) (baseless : cls.decl.baseNames = []) :
    ∀ entry ∈ (isAbstract before.table before.memo cls).2.entries, entry.1.isRuntime ∧ entry.2 = [] := by
  unfold isAbstract
  split
  · exact holds.memo
  · exact (holds.flatten_of_baseless runtime baseless).2

end

end Draft.HoldsRuntime

/-! ### The runtime class -/

/-- A table in which the exception class is found from inside, and no typedef hides it. -/
structure SymbolTable.KnowsException (table : SymbolTable) : Prop where
  typedef : table.typedef? Facade.exceptionClass Facade.exceptionClass = none
  found : (table.class? Facade.exceptionClass Facade.exceptionClass).isSome

theorem SymbolTable.resolve_of_builtin (builtin : t.isBuiltin) : table.resolve t scope = t := by
  rw [resolve, resolveFrom, if_pos builtin]

theorem SymbolTable.resolve_of_no_typedef (absent : table.typedef? t.base scope = none) :
    table.resolve t scope = t := by
  rw [resolve, resolveFrom, absent]
  simp

/-- A type that is no pointer to a function. -/
def CxxType.IsPlain (t : CxxType) : Prop :=
  ((t.isPointer || t.isMemberPointer) && t.pop.isFunction) = false

theorem SymbolTable.category_of_resolved (resolved : table.resolve t scope = t) (plain : t.IsPlain) :
    table.category t scope = .ok (if t.isVoid then .void else table.objectCategory t scope) := by
  unfold category
  dsimp only
  rw [resolved, plain]
  split <;> rfl

theorem Resolver.needless_of_builtin (builtin : t.isBuiltin) (plain : t.IsPlain)
    (noBool : boolNeeds .header t = []) : r.Needless t scope := by
  have resolved : r.table.resolve t scope = t := resolve_of_builtin builtin
  intro category known
  obtain rfl := ok.inj ((category_of_resolved resolved plain).symm.trans known)
  split
  · exact ⟨rfl, rfl⟩
  · unfold objectCategory scalarCategory
    rw [if_pos builtin]
    split <;> (try split) <;> simp [cTypeOf, resolved, noBool, Category.isObjectByValue]

/-- The exception class behind a pointer or a reference is a class that is known, unless an enum has its name. -/
theorem Resolver.needless_of_exception (knows : r.table.KnowsException) (base : t.base = exceptionClass)
    (named : t.isBuiltin = false) (plain : t.IsPlain) (nonvoid : t.isVoid = false)
    (enumerated : scalarCategory false t = .enumPointer ∨ scalarCategory false t = .enumConstRef)
    (classed : classCategory t = .classPointer ∨ classCategory t = .classRef) :
    r.Needless t exceptionClass := by
  have resolved : r.table.resolve t exceptionClass = t :=
    resolve_of_no_typedef (base.symm ▸ knows.typedef)
  obtain ⟨cls, found⟩ := Option.isSome_iff_exists.mp knows.found
  intro category known
  obtain rfl := ok.inj ((category_of_resolved resolved plain).symm.trans known)
  unfold objectCategory
  rw [nonvoid, named, if_neg Bool.false_ne_true, if_neg Bool.false_ne_true, base, found, if_pos Option.isSome_some]
  split
  · rcases enumerated with same | same <;> rw [same] <;> exact ⟨rfl, rfl⟩
  · rcases classed with same | same <;> rw [same] <;>
      simp [cTypeOf, resolved, base, found, Category.isObjectByValue]

namespace Module

variable {root : Site}

/-- The types in the declaration of the runtime class. -/
def runtimeTypes : List CxxType :=
  [⟨"int", []⟩, ⟨"char", [.pointer, .qualifier "const"]⟩, .void, .pointerTo Facade.exceptionClass,
    ⟨Facade.exceptionClass, [.lvalueReference, .qualifier "const"]⟩]

theorem needless_of_mem_runtimeTypes (knows : r.table.KnowsException) (listed : t ∈ runtimeTypes) :
    r.Needless t exceptionClass := by
  simp only [runtimeTypes, mem_cons, not_mem_nil, or_false] at listed
  rcases listed with rfl | rfl | rfl | rfl | rfl
  · exact needless_of_builtin rfl rfl rfl
  · exact needless_of_builtin rfl rfl rfl
  · exact needless_of_builtin rfl rfl rfl
  · exact needless_of_exception knows rfl rfl rfl rfl (.inl rfl) (.inl rfl)
  · exact needless_of_exception knows rfl rfl rfl rfl (.inr rfl) (.inr rfl)

theorem runtimeNode_types : ∀ n ∈ runtimeNode.children, ∀ t ∈ n.decl.types, t ∈ runtimeTypes := by
  decide

theorem runtimeClass_kinds :
    ∀ child ∈ (runtimeClass root).children, child.kind ≠ .enumDecl ∧ child.kind ≠ .constantDecl := by
  have kinds : ∀ n ∈ runtimeNode.children, n.kind ≠ .enumDecl ∧ n.kind ≠ .constantDecl := by decide
  exact fun child listed => kinds child.node (Site.mem_childrenFrom listed).1

theorem scopeNameOf_inside_runtimeClass (isModule : root.kind = .moduleDecl) :
    Site.scopeNameOf (runtimeClass root).inside = exceptionClass := by
  have outside : Site.scopeNameOf root.inside = "" := by
    unfold Site.inside Site.scopeNameOf
    rw [show root.node.kind = .moduleDecl from isModule]
  change Site.qualify (Site.scopeNameOf root.inside) _ = _
  rw [outside]
  rfl

theorem qualifiedName_runtimeClass (isModule : root.kind = .moduleDecl) :
    (runtimeClass root).qualifiedName = exceptionClass :=
  scopeNameOf_inside_runtimeClass isModule

theorem stands_in_runtimeClass {site : Site} (isModule : root.kind = .moduleDecl)
    (stands : Stands (runtimeClass root) [] site) :
    site.id.isRuntime ∧ site.scopeName = exceptionClass ∧ ∀ t ∈ site.decl.types, t ∈ runtimeTypes := by
  cases stands with
  | declared listed =>
    obtain ⟨member, position, _, id⟩ := Site.mem_childrenFrom listed
    refine ⟨id ▸ rfl, ?_, runtimeNode_types _ member⟩
    rw [Site.scopeName, Site.above_of_mem_childrenFrom listed]
    exact scopeNameOf_inside_runtimeClass isModule
  | inherited listed => cases listed
  | implicit destructor =>
    have plain := (implicitSite_decl (runtimeClass root) destructor).1
    exact ⟨rfl, scopeNameOf_inside_runtimeClass isModule, by simp [plain]⟩

theorem getterResult_of_not_object (value : category.isObjectByValue = false) :
    getterResult r.config t category = t := by
  cases category <;> first | rfl | cases value

theorem yields_runtimeType {site : Site} (isModule : root.kind = .moduleDecl) (knows : r.table.KnowsException)
    (stands : Stands (runtimeClass root) [] site) (yields : Yields r (some (runtimeClass root)) site t) :
    t ∈ runtimeTypes := by
  obtain ⟨_, scope, types⟩ := stands_in_runtimeClass isModule stands
  cases yields with
  | nothing => decide
  | object owned =>
    cases owned
    rw [pointerType, qualifiedName_runtimeClass isModule]
    decide
  | declared written => exact types _ (mem_types_of_type written)
  | read written known =>
    have listed := types _ (mem_types_of_type written)
    have found := category_of_categoryAt known
    rw [Site.display_scopeValue, scope] at found
    rwa [getterResult_of_not_object (needless_of_mem_runtimeTypes knows listed _ found).2]

theorem needless_of_regular (isModule : root.kind = .moduleDecl) (knows : r.table.KnowsException)
    (regular : Regular r (some (runtimeClass root)) c) (stands : Stands (runtimeClass root) [] c.site) :
    c.Needless r := by
  obtain ⟨_, scope, types⟩ := stands_in_runtimeClass isModule stands
  have needless (t : CxxType) (listed : t ∈ runtimeTypes) : r.Needless t c.site.scopeName :=
    scope ▸ needless_of_mem_runtimeTypes knows listed
  exact ⟨needless _ (yields_runtimeType isModule knows stands regular.result),
    fun p listed t written => needless t (types t (regular.parameters p listed t written))⟩

end Module

theorem warnUnsupported_hidden {types : Bool} {before : Draft} : Hidden types before (warnUnsupported cls) := by
  refine .forM _ fun child draft => .bind .check fun _ _ _ => ?_
  split
  · exact .tell
  · exact .pure

theorem Members.exists_callable_of_mem_inOrder {abstract : Bool} {own : List Own} {inherited : List Callable}
    {m : Member} (owned : Members.own r cls abstract = .ok own)
    (kinds : ∀ child ∈ cls.children, child.kind ≠ .enumDecl ∧ child.kind ≠ .constantDecl)
    (listed : m ∈ inOrder cls abstract own inherited) : ∃ c, m = .callable c := by
  unfold inOrder at listed
  dsimp only at listed
  rcases mem_append.mp listed with listed | listed
  · rcases mem_append.mp listed with listed | listed
    · obtain ⟨o, member, listed⟩ := mem_flatMap.mp listed
      have child : o.child ∈ cls.children := own_children owned ▸ mem_map_of_mem member
      unfold ofOwn at listed
      split at listed
      · cases listed
      · split at listed
        · exact absurd ‹_› (kinds _ child).1
        · exact absurd ‹_› (kinds _ child).2
        · obtain ⟨c, _, rfl⟩ := mem_map.mp listed
          exact ⟨_, rfl⟩
    · obtain ⟨c, _, rfl⟩ := mem_map.mp listed
      exact ⟨_, rfl⟩
  · obtain ⟨c, _, rfl⟩ := mem_map.mp listed
    exact ⟨c, rfl⟩

namespace Draft.HoldsRuntime

variable {root : Site} {start before after : Draft}

/-- After the runtime class was emitted, nothing is known that was not known at the start but what is about itself. -/
theorem cxxClass {outcome : Except Halt Unit} (holds : HoldsRuntime start before) (cxx : job.config.cplusplus)
    (isModule : root.kind = .moduleDecl) (knows : start.table.KnowsException)
    (ends : Ends (Module.cxxClass job (Module.runtimeClass root)) before outcome after) (survives : Survives outcome) :
    HoldsRuntime start after := by
  have runtime : (Module.runtimeClass root).id.isRuntime := rfl
  have baseless : (Module.runtimeClass root).decl.baseNames = [] := rfl
  have begun {opened : OpenClass} {abstract : Bool} {begun asked : Draft}
      (begins : ClassBegins job (Module.runtimeClass root) before opened abstract begun asked) :
      HoldsRuntime start asked := by
    have held := (holds.classDeclared _).hidden (openClass_hidden _) begins.opening survives_ok
    exact held.asked (held.isAbstract_entries runtime baseless) begins.asking
  have inherited {asked flattened : Draft} {shadows : List Shadow} (held : HoldsRuntime start asked)
      (flattens : Ends (inherit fun table memo => Inheritance.flatten table memo (Module.runtimeClass root)) asked
        (.ok shadows) flattened) : shadows = [] ∧ HoldsRuntime start flattened := by
    obtain ⟨empty, entries⟩ := held.flatten_of_baseless runtime baseless
    exact ⟨(ok.inj (ends_inherit flattens survives_ok).1).trans empty, held.asked entries flattens⟩
  cases classEnd_of_ends ends survives with
  | unlisted begins failed => exact begun begins
  | uninherited begins owned flattens failed => exact (inherited (begun begins) flattens).2
  | filled begins owned flattens found fills =>
    obtain ⟨rfl, held⟩ := inherited (begun begins) flattens
    obtain ⟨warning, finished, closed, emitted, closing⟩ := fills
    have warned := held.hidden warnUnsupported_hidden warning survives_ok
    have listed := warned.members cxx (fun m member => ?_) emitted
    · exact listed.hidden (closeClass_hidden finished) closing survives_ok
    · obtain ⟨c, rfl⟩ := exists_callable_of_mem_inOrder owned runtimeClass_kinds member
      obtain ⟨regular, stands⟩ := inOrder_regular owned found member
      rw [(begun begins).table] at regular
      exact ⟨c, rfl, (stands_in_runtimeClass isModule stands).1,
        needless_of_regular isModule knows regular stands⟩

theorem prepared (job : Job) : HoldsRuntime (Module.prepared job) (Module.prepared job) where
  table := rfl
  runtimeClass := rfl
  freeFunctions := rfl
  declared := rfl
  names := by simp [Module.prepared]
  memo := by simp [Module.prepared]
  types chunk listed home := by
    simp only [Module.prepared, preparedChunks] at listed
    grind [Chunk.home]

end Draft.HoldsRuntime

namespace Module

theorem writesClass_runtimeClass (isModule : job.root.kind = .moduleDecl) (own : ownRuntimeClass? job = some cls) :
    writesClass job cls := by
  have outside : cls.isMember = false := by
    rw [ownRuntimeClass_eq own]
    unfold Site.isMember Site.enclosingClass? runtimeClass Site.inside
    simp [Site.closest, show job.root.node.kind = .moduleDecl from isModule, Site.kind]
  simp [writesClass, isForeign, own, outside]

/-- The draft after the visit of the runtime class, where the module has one. A run goes on from here with the
declarations of the module. -/
def runtimeDraft (job : Job) : Draft :=
  (((ownRuntimeClass? job).toList.forM (declaration job)).run.run (prepared job)).2

theorem runtimeDraft_holds (cxx : job.config.cplusplus) (isModule : job.root.kind = .moduleDecl)
    (knows : ∀ cls, ownRuntimeClass? job = some cls → (prepared job).table.KnowsException)
    (ends : Ends ((ownRuntimeClass? job).toList.forM (declaration job)) (prepared job) (.ok ()) (runtimeDraft job)) :
    Draft.HoldsRuntime (prepared job) (runtimeDraft job) := by
  cases own : ownRuntimeClass? job with
  | none =>
    rw [own] at ends
    obtain ⟨_, same⟩ := ends.of_pure
    rw [same]
    exact .prepared job
  | some cls =>
    rw [own, show (some cls).toList = [cls] from rfl, ends_forM_cons] at ends
    rcases ends.bind_cases with ⟨_, middle, visit, last⟩ | ⟨_, _, impossible⟩
    · obtain ⟨_, same⟩ := last.of_pure
      rw [same]
      rcases ends_declaration_of_class (.refl _) cxx (ownRuntimeClass_eq own ▸ rfl) visit with
        ⟨unwritten, _⟩ | ⟨_, outcome, emitted, told, wrote, survives, rfl⟩
      · rw [writesClass_runtimeClass isModule own] at unwritten
        cases unwritten
      · rw [ownRuntimeClass_eq own] at wrote
        have held := (Draft.HoldsRuntime.prepared job).cxxClass cxx isModule (knows cls own) wrote survives
        exact { held with }
    · cases impossible

theorem runtimeDraft_types (cxx : job.config.cplusplus) (isModule : job.root.kind = .moduleDecl)
    (own : ownRuntimeClass? job = some cls) (knows : (prepared job).table.KnowsException)
    (ends : Ends ((ownRuntimeClass? job).toList.forM (declaration job)) (prepared job) (.ok ()) (runtimeDraft job)) :
    chunksOf .types (runtimeDraft job).chunks = [.proxyType (Naming.proxyName job.config cls)] := by
  have noEnums : nestedEnums cls = [] := by
    rw [ownRuntimeClass_eq own]
    refine filter_eq_nil_iff.mpr fun child listed => ?_
    simp [(runtimeClass_kinds child listed).1]
  have types (draft : Draft) : typesOf job draft cls = [.proxyType (Naming.proxyName job.config cls)] := by
    have isClass : cls.kind = .classDecl := ownRuntimeClass_eq own ▸ rfl
    simp [typesOf, isClass, writesClass_runtimeClass isModule own, classTypes, noEnums]
  obtain ⟨visits, chain, sites⟩ := Visits.of_forM ends
  rw [(runtimeDraft_holds cxx isModule (fun _ _ => knows) ends).chunksOf_types,
    chain.namedTypes_eq (.refl _) cxx (.refl _), prepared_namedTypes, sites, own]
  simp [types]

end Module

end FlatAbi
