import FlatAbi.Proofs.Declaration.Redeclaration
import FlatAbi.Proofs.Emission.Parallel
import FlatAbi.Proofs.Resolver.Transparency
import FlatAbi.Proofs.Wrapper.Alignment

/-!
Typedefs are transparent to wrappers, and to the rest of the module.
-/

namespace FlatAbi

open Site Emit Wrapper FlatAbi.Module SymbolTable List

/-! ### A tree with a function of other types -/

/-- Sites at the same place of two trees with the same declaration. -/
structure SamePlace (one two : Site) : Prop where
  id : one.id = two.id
  decl : one.decl = two.decl
  above : SameRing one.above two.above
  whole : one.kind = .classDecl ∨ one.kind = .enumDecl → one.node = two.node

theorem SamePlace.children {one two : Site} (same : SamePlace one two)
    (kind : one.kind = .classDecl ∨ one.kind = .enumDecl) : Forall₂ SamePlace one.children two.children := by
  have ring : SameRing one.inside two.inside := .cons ⟨same.id, congrArg Declaration.untyped same.decl⟩ same.above
  unfold Site.children
  rw [← same.whole kind]
  exact childrenFrom_related (fun index _ => ⟨congrArg (NodeId.child · index) same.id, rfl, ring, fun _ => rfl⟩) 0 _

/-- Two trees that differ in the types of functions outside classes. -/
def retyping : Pairing where
  SameId := Eq
  Twin := SamePlace
  biunique same sameToo := by rw [same, sameToo]
  sameId same := same.id
  decl same := same.decl
  frame same := same.above.frame
  children same := same.children
  implicit same destructor := by rw [Members.implicitId, Members.implicitId, same.id]

section redeclared

variable {site one two root root' : Site} {new : Declaration}

theorem Site.Beside.samePlace (beside : Beside site new one two) (free : site.IsFree) :
    one = site ∧ two.decl = new ∨ SamePlace one two := by
  rcases beside.cases with replaced | ⟨decl, node⟩
  · exact .inl replaced
  · refine .inr ⟨beside.id, decl, beside.above, fun kind => ?_⟩
    rcases node with same | outer
    · exact same
    · exact (free.not_around outer kind).elim

theorem SamePlace.sameScope {one two : Site} (ring : SameRing one.above two.above) :
    Option.Rel retyping.SameId (one.scope?.map (·.id)) (two.scope?.map (·.id)) :=
  scope_rel (ring.imp fun _ _ first => ⟨first.1, Declaration.kind_eq first.2⟩)

variable (same : site.decl.untyped = new.untyped) (beside : Beside site new root root')

include same beside

theorem reach_beside {passes : Declaration → Bool}
    (blind : ∀ {d d' : Declaration}, d.untyped = d'.untyped → passes d = passes d') :
    Forall₂ (Beside site new) (root.reach passes) (root'.reach passes) :=
  reach_related (fun beside => beside.children same) (fun beside => blind (beside.untyped same)) beside

theorem emitted_beside : Forall₂ (Beside site new) root.emitted root'.emitted := by
  have isIgnored {d d' : Declaration} (same : d.untyped = d'.untyped) : d.isIgnored = d'.isIgnored :=
    congrArg Value.truthy (Declaration.feature_eq same "ignore")
  refine forall₂_filter (reach_beside same beside fun same => ?_) fun _ _ beside => ?_
  · rw [isGroup, isGroup, Declaration.kind_eq same, isIgnored same]
  · rw [isIgnored (beside.untyped same)]

theorem freeFunctions_beside : Forall₂ (Beside site new) root.freeFunctions root'.freeFunctions := by
  refine forall₂_filter (reach_beside same beside fun same => ?_) fun _ _ beside => ?_
  · rw [isGroup, isGroup, Declaration.kind_eq same]
  · rw [(beside.namesake same).kind, (beside.namesake same).isIgnored]

theorem overloads_eq :
    root.freeFunctions.map overloadKey = root'.freeFunctions.map overloadKey ∧
      root.freeFunctions.forM checkOverload = root'.freeFunctions.forM checkOverload := by
  have symbol {one two : Site} (beside : Beside site new one two) :
      overloadSymbol one.decl = overloadSymbol two.decl := by
    have given : one.decl.givenSymbol = two.decl.givenSymbol :=
      (congrArg Declaration.givenSymbol (beside.untyped same) :)
    rw [overloadSymbol, overloadSymbol, given]
  have functions := freeFunctions_beside same beside
  refine ⟨map_eq_of_forall₂ functions fun _ _ beside => ?_, forM_eq_of_forall₂ functions fun _ _ beside => ?_⟩
  · rw [overloadKey, overloadKey, symbol beside]
    exact rel_elim (SamePlace.sameScope beside.above) rfl fun _ _ same => same ▸ rfl
  · rw [checkOverload, checkOverload, symbol beside]

theorem exceptionSupport_eq (config : Config) : exceptionSupport config root = exceptionSupport config root' := by
  have imported {d d' : Declaration} (same : d.untyped = d'.untyped) : importedModule d = importedModule d' := by
    simp only [importedModule, Declaration.attr_eq same, Declaration.givenName_eq same]
  have found : Option.Rel (Beside site new) root.namedImport? root'.namedImport? := by
    refine rel_find (reach_beside same beside fun same => ?_) fun _ _ beside => ?_
    · rw [Declaration.kind_eq same]
    · rw [(beside.namesake same).kind, imported (beside.untyped same)]
  unfold exceptionSupport
  refine rel_elim found rfl fun _ _ beside => ?_
  simp only [imported (beside.untyped same)]

theorem runtimeClass_samePlace : retyping.Twin (runtimeClass root) (runtimeClass root') :=
  ⟨rfl, rfl, .cons ⟨beside.id, beside.untyped same⟩ beside.above, fun _ => rfl⟩

variable (free : site.IsFree) (function : site.kind = .functionDecl)

include free function

theorem walk_samePlace : Forall₂ (fun s s' => retyping.Twin s s' ∨ ¬ IsFiled s ∧ ¬ IsFiled s')
    root.walk root'.walk := by
  refine (walk_related (fun beside => beside.children same) beside).imp fun one two beside => ?_
  rcases beside.samePlace free with ⟨rfl, _⟩ | place
  · have kind := (beside.namesake same).kind
    refine .inr ⟨?_, ?_⟩
    · simp [IsFiled, function]
    · simp [IsFiled, ← kind, function]
  · exact .inl place

end redeclared

section prepared

variable {job : Job} {site root' : Site} {new : Declaration} (same : site.decl.untyped = new.untyped)
  (beside : Beside site new job.root root')

include same beside

theorem prepared_tables (free : site.IsFree) (function : site.kind = .functionDecl) :
    SymbolTable.Aligned retyping (Module.prepared job).table (Module.prepared (job.over root')).table :=
  prepared_tables_aligned (exceptionSupport_eq same beside job.config) (runtimeClass_samePlace same beside)
    (.ofTree (walk_samePlace same beside free function))

theorem prepared_paired : Paired retyping false (Module.prepared job).table (Module.prepared (job.over root')).table
    (Module.prepared job) (Module.prepared (job.over root')) := by
  refine Module.prepared_paired (exceptionSupport_eq same beside job.config) (runtimeClass_samePlace same beside)
    fun scope scope' symbol scopes => ?_
  rw [(overloads_eq same beside).1]
  cases scopes with
  | none => rfl
  | some same => rw [same]

variable (free : site.IsFree) (function : site.kind = .functionDecl)
  (replaced : ∀ {two}, Beside site new site two → two.decl = new →
    Parallel retyping false (Module.prepared job).table (Module.prepared (job.over root')).table
      (Module.declaration job site) (Module.declaration job two) Eq)

include free function replaced

theorem visited_parallel : Forall₂ (fun one two =>
    Parallel retyping false (Module.prepared job).table (Module.prepared (job.over root')).table
      (Module.declaration job one) (Module.declaration job two) Eq)
    (visited job) (visited (job.over root')) := by
  have tables := (prepared_tables same beside free function).counterpart
  refine rel_append ?_ ((emitted_beside same beside).imp fun one two beside => ?_)
  · refine rel_elim (ownRuntimeClass_twins (exceptionSupport_eq same beside job.config)
      (runtimeClass_samePlace same beside)) .nil fun _ _ place => ?_
    exact .cons (declaration_parallel tables place (SamePlace.sameScope place.above)) .nil
  · rcases beside.samePlace free with ⟨rfl, decl⟩ | place
    · exact replaced beside decl
    · exact declaration_parallel tables place (SamePlace.sameScope place.above)

theorem output_eq :
    (Module.run (job.over root')).toOption.map (fun draft => (draft.chunks, draft.symbols)) =
      (Module.run job).toOption.map fun draft => (draft.chunks, draft.symbols) := by
  have ran := run_parallel (checkTree_eq (walk_samePlace same beside free function))
    (overloads_eq same beside).2 (prepared_paired same beside)
    (visited_parallel same beside free function replaced)
  refine (ran.toOption_map fun draft draft' drafts => ?_).symm
  rw [drafts.chunks, drafts.symbols]

end prepared

/-! ### Aliases -/

/-- The declaration with another type in the place of one of its types: of its result, or of a parameter. -/
inductive Declaration.Retypes (t t' : CxxType) (d : Declaration) : Declaration → Prop where
  | result (typed : d.type = some t) : Retypes t t' d { d with type := some t' }
  | parameter {index : Nat} {p : Parameter} (listed : d.parameters[index]? = some p) (typed : p.type = some t) :
      Retypes t t' d { d with parameters := d.parameters.set index { p with type := some t' } }

namespace Declaration.Retypes

variable {t t' : CxxType} {d d' : Declaration} {Rel : CxxType → CxxType → Prop}

theorem untyped (retypes : Retypes t t' d d') : d.untyped = d'.untyped := by
  cases retypes <;> rfl

theorem type_rel (retypes : Retypes t t' d d') (refl : ∀ u, Rel u u) (related : Rel t t') :
    Option.Rel Rel d.type d'.type := by
  have unchanged (type : Option CxxType) : Option.Rel Rel type type := by
    cases type with
    | none => exact .none
    | some u => exact .some (refl u)
  cases retypes with
  | result typed =>
    rw [typed]
    exact .some related
  | parameter _ _ => exact unchanged d.type

theorem parameters_rel (retypes : Retypes t t' d d') (refl : ∀ u, Rel u u) (related : Rel t t') :
    Forall₂ (fun p p' : Parameter => p.name = p'.name ∧ Option.Rel Rel p.type p'.type) d.parameters d'.parameters := by
  have unchanged (p : Parameter) : p.name = p.name ∧ Option.Rel Rel p.type p.type := by
    refine ⟨rfl, ?_⟩
    cases p.type with
    | none => exact .none
    | some u => exact .some (refl u)
  cases retypes with
  | result _ => exact forall₂_same.mpr fun p _ => unchanged p
  | @parameter index p listed typed =>
    dsimp only
    generalize d.parameters = parameters at listed
    induction parameters generalizing index with
    | nil => cases listed
    | cons first rest ih =>
      cases index with
      | zero =>
        cases listed
        exact .cons ⟨rfl, typed ▸ .some related⟩ (forall₂_same.mpr fun p _ => unchanged p)
      | succ index => exact .cons (unchanged first) (ih listed)

theorem isVoid_eq (retypes : Retypes t t' d d') (valued : t.isVoid = t'.isVoid ∨ d.type = d'.type) :
    (d.type.getD .void).isVoid = (d'.type.getD .void).isVoid := by
  rcases valued with valued | unchanged
  · cases retypes with
    | result typed =>
      rw [typed]
      exact valued
    | parameter _ _ => rfl
  · rw [unchanged]

end Declaration.Retypes

variable {job : Job} {table table' : SymbolTable} {name : String} {target : CxxType}

/-- A wrapper treats an alias like the type behind it, as long as that is no reference. -/
theorem Wrapper.SameType.of_alias {pairing : Pairing} {scope : Value} (tables : table.Counterpart pairing table')
    (plain : job.typemaps.byType = []) (isAlias : table.Alias scope.display name target)
    (text : scope.checkText = .ok ()) (object : target.isReference = false)
    (counted : target.isEllipsis = (⟨name, []⟩ : CxxType).isEllipsis) :
    SameType false job table table' scope target ⟨name, []⟩ where
  resolve := isAlias.resolve_eq.symm.trans (tables.resolve_eq _ _)
  check := (isAlias.checkResolve_eq text).symm.trans (tables.checkResolve_eq _ _)
  typemap method category := by
    have untyped (types : List CxxType) : types.findSome? (job.typemaps.forType? method) = none := by
      simp [TypemapTable.forType?, plain]
    simp only [TypemapTable.lookup, TypemapTable.userTypemap?, untyped]
  isReference := object
  isRvalueReference := by
    unfold CxxType.isReference at object
    unfold CxxType.isRvalueReference
    generalize target.outermost? = outermost at object
    rcases outermost with - | d
    · rfl
    · cases d <;> first | rfl | simp [Declarator.isReference] at object
  isEllipsis := counted
  written lax := absurd lax (by simp)

namespace Module

theorem prepared_typedefs (job : Job) : (prepared job).table.typedefs = (ofTree job.root).typedefs := by
  unfold prepared
  cases own : ownRuntimeClass? job with
  | none => rfl
  | some cls =>
    have runtime : cls = runtimeClass job.root := by
      unfold ownRuntimeClass? at own
      split at own <;> cases own
      rfl
    subst runtime
    exact append_nil _

theorem function_same {site site' : Site} (tables : table.Counterpart retyping table')
    (type : SameType false job table table' site.scopeValue target ⟨name, []⟩) (id : site.id = site'.id)
    (sites : site.Namesake site') (retypes : site.decl.Retypes target ⟨name, []⟩ site'.decl)
    (valued : target.isVoid = (⟨name, []⟩ : CxxType).isVoid ∨ site.decl.type = site'.decl.type) (overloaded : Bool) :
    SameCallable retyping false job table table' (functionOf site overloaded) (functionOf site' overloaded) := by
  have declared : Option.Rel (SameType false job table table' site.scopeValue) site.decl.type site'.decl.type :=
    retypes.type_rel (.refl tables _) type
  refine ⟨sites, id, rfl, sites.symbolValue, ?_, retypes.isVoid_eq valued,
    retypes.parameters_rel (.refl tables _) type, declared, .none, .none, rfl, rfl, rfl⟩
  rw [functionOf, functionOf]
  exact rel_elim declared (.refl tables _ _) fun _ _ type => type

theorem declaration_of_function {site : Site} (function : site.kind = .functionDecl) :
    declaration job site = guarded site (freeFunction job site) := by
  unfold declaration
  rw [function]

/-- Typedefs are transparent: in C++, without rules of the user for single types, a function outside classes may name a
typedef that is declared outside all scopes in the place of the type behind it. All definitions, prototypes and other
chunks of the module and all its symbols stay the same. The type behind the typedef must not be a reference, nor `void`
where it is a result, since a wrapper looks for these in the type as written. -/
theorem definitions_of_alias {job : Job} {path : List Nat} {site : Site} {new : Declaration} {name : String}
    {target : CxxType} (cxx : job.config.cplusplus = true) (plain : job.typemaps.byType = [])
    (found : job.root.descend? path = some site) (function : site.kind = .functionDecl) (free : site.IsFree)
    (isAlias : (ofTree job.root).Alias site.scopeName name target)
    (text : site.scopeValue.checkText = .ok ()) (retypes : site.decl.Retypes target ⟨name, []⟩ new)
    (object : target.isReference = false) (valued : target.isVoid = false ∨ site.decl.type = new.type)
    (counted : target.isEllipsis = (⟨name, []⟩ : CxxType).isEllipsis) :
    (run (job.over (job.root.redeclare path new))).toOption.map (fun draft => (draft.chunks, draft.symbols)) =
      (run job).toOption.map fun draft => (draft.chunks, draft.symbols) := by
  have same := retypes.untyped
  have beside := beside_redeclare found new
  have tables := (prepared_tables same beside free function).counterpart
  have known : (prepared job).table.Alias site.scopeValue.display name target := by
    rw [display_scopeValue]
    exact isAlias.of_typedefs (prepared_typedefs job).symm
  have type := SameType.of_alias tables plain known text object counted
  have value : target.isVoid = (⟨name, []⟩ : CxxType).isVoid ∨ site.decl.type = new.type := by
    refine valued.imp_left fun valued => ?_
    have named : name ≠ "void" := by
      rintro rfl
      exact absurd isAlias.isName (by decide +kernel)
    rw [valued]
    simp [CxxType.isVoid, named]
  refine output_eq same beside free function fun {two} beside decl => ?_
  subst decl
  have sites : site.Namesake two := beside.namesake same
  rw [declaration_of_function function, declaration_of_function (sites.kind ▸ function)]
  exact .guarded sites (freeFunction_parallel tables sites (SamePlace.sameScope beside.above)
    (function_same tables type beside.id sites retypes value) fun _ => ⟨rfl, cxx⟩)

/-- A function of a pointer to numbers. -/
def total : Declaration :=
  { Declaration.named .functionDecl "total" with
    type := some ⟨"Count", []⟩
    parameters := [{ name := .string "counts", type := some ⟨"Count", [.pointer]⟩ }] }

/-- The function with a typedef in the place of the pointer. -/
def totalByName : Declaration :=
  { total with parameters := [{ name := .string "counts", type := some ⟨"CountPtr", []⟩ }] }

/-- A module with a typedef of a typedef, and the function in a namespace. -/
def countModule : Job :=
  .ofNodes
    [ .mk { Declaration.named .typedefDecl "Count" with type := some ⟨"unsigned long", []⟩ } [],
      .mk { Declaration.named .typedefDecl "CountPtr" with type := some ⟨"Count", [.pointer]⟩ } [],
      .mk (.named .namespaceDecl "stats") [.mk total []] ] (.ofRules [] true)

/-- The wrapper takes the pointer by the name of the typedef as well. -/
theorem definitions_of_countModule :
    (run (countModule.over (countModule.root.redeclare [2, 0] totalByName))).toOption.map
        (fun draft => (draft.chunks, draft.symbols)) =
      (run countModule).toOption.map (fun draft => (draft.chunks, draft.symbols)) ∧
    (run countModule).toOption.map (fun draft => draft.definitions.map fun d => (d.signature.text, d.body.action)) =
      some [("unsigned long m_total(unsigned long *counts)", "cppresult = (unsigned long) stats::total(arg1);")] := by
  have acyclic : ¬ (ofTree countModule.root).Comes ("Count", "") "CountPtr" := by
    intro comes
    rcases comes.cases with impossible | ⟨site, target, found, typed, comes⟩
    · exact absurd impossible (by decide)
    · cases found
      cases typed
      rcases comes.cases with impossible | ⟨site, target, found, _⟩
      · exact absurd impossible (by decide)
      · cases found
  have isAlias : (ofTree countModule.root).Alias "stats" "CountPtr" ⟨"Count", [.pointer]⟩ :=
    ⟨by decide +kernel, ⟨_, rfl, rfl, rfl⟩, .inr rfl, acyclic⟩
  have retypes : total.Retypes ⟨"Count", [.pointer]⟩ ⟨"CountPtr", []⟩ totalByName :=
    .parameter (show total.parameters[0]? = some _ from rfl) rfl
  refine ⟨definitions_of_alias rfl rfl rfl rfl (by decide) isAlias rfl retypes rfl (.inl rfl) rfl, ?_⟩
  decide +kernel

/-- A module with a typedef of a reference, and a function that takes a parameter of a given type. -/
def referenceModule (t : CxxType) : Job :=
  .ofNodes
    [ .mk { Declaration.named .typedefDecl "IntRef" with type := some ⟨"int", [.lvalueReference]⟩ } [],
      .mk
        { Declaration.named .functionDecl "f" with
          parameters := [{ name := .string "a", type := some t }] } [] ] (.ofRules [] true)

/-- A reference is passed on as what it refers to, but under the name of a typedef it is passed on as a pointer. -/
theorem referenceModule_passes_pointer :
    (run (referenceModule ⟨"int", [.lvalueReference]⟩)).toOption.map
        (fun draft => draft.definitions.map fun d => (d.signature.text, d.body.action)) =
      some [("void m_f(int *a)", "f(*arg1);")] ∧
    (run (referenceModule ⟨"IntRef", []⟩)).toOption.map
        (fun draft => draft.definitions.map fun d => (d.signature.text, d.body.action)) =
      some [("void m_f(int *a)", "f(arg1);")] := by
  decide +kernel

end Module

end FlatAbi
