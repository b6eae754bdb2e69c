import FlatAbi.Proofs.Declaration.Loaded
import FlatAbi.Proofs.Emission.Members

/-!
Runs that end at a text that cannot be read. The arguments of a function type stay text until it is classified.
-/

namespace FlatAbi

open Emit Inheritance Members Facade List FlatAbi.Module Site SymbolTable Wrapper CxxType Resolver

variable {job : Job} {known : List TypeSyntaxError} {r : Resolver} {c : Callable} {cls : Site}

/-! ### Members of classes -/

variable {shadows : List Shadow} {parameters : List TypedParameter} {w : Written}

/-- What cannot be read in the members that a class declares is known. -/
def Site.KnowsMembers (known : List TypeSyntaxError) (cls : Site) : Prop :=
  ∀ child ∈ cls.children, child.decl.failures ⊆ known

theorem Draft.KnowsFailures.offered {draft : Draft} (knows : draft.KnowsFailures known) (cls : Site) :
    ∀ base ∈ usableBases draft.table cls, ∀ m ∈ handedDown base, m.KnowsFailures known := by
  intro base usable m handed
  obtain ⟨name, _, found⟩ := mem_filterMap.mp usable
  obtain ⟨key, listed⟩ := exists_entry_of_find (Option.filter_eq_some_iff.mp found).1
  obtain ⟨child, member, rfl⟩ := mem_map.mp handed
  exact knows.classes _ listed child (mem_filter.mp member).1

theorem inherit_careful {α : Type} {query : SymbolTable → Memo → α × Memo} {Good : α → Prop}
    (good : ∀ draft : Draft, draft.KnowsFailures known →
      Good (query draft.table draft.memo).1 ∧ (query draft.table draft.memo).2.All (Shadow.KnowsFailures known)) :
    Careful known (inherit query) Good := by
  intro before outcome after covered ends
  refine ⟨?_, fun survives => ?_⟩
  · obtain ⟨rfl, _⟩ := (ends_iff_of_run (run_inherit query before)).mp ends
    exact .ofMisshapen
  · obtain ⟨rfl, rfl⟩ := ends_inherit ends survives
    obtain ⟨answer, learned⟩ := good before covered
    refine ⟨⟨covered.typedefs, covered.classes, learned⟩, fun value same => ?_⟩
    cases same
    exact answer

theorem isAbstract_careful (cls : Site) :
    Careful known (inherit fun table memo => isAbstract table memo cls) fun _ => True :=
  inherit_careful fun _ knows =>
    ⟨trivial, (fitting_all (fun _ good => good) knows.offered).isAbstract knows.memo trivial⟩

theorem flatten_careful (cls : Site) :
    Careful known (inherit fun table memo => Inheritance.flatten table memo cls) fun shadows =>
      ∀ m ∈ shadows, m.KnowsFailures known :=
  inherit_careful fun _ knows =>
    (fitting_all (fun _ good => good) knows.offered).flattenWithin _ knows.memo trivial

variable {site : Site}

namespace Members

theorem getterResult_failures (config : Config) (t : CxxType) (category : Category) :
    (getterResult config t category).failures ⊆ t.failures := by
  unfold getterResult
  split
  · rw [failures_under]
    exact append_subset.mpr ⟨nil_subset _, failures_stripQualifiers t⟩
  · split
    · exact failures_stripQualifiers t
    · exact Subset.refl _

variable {owner : Option Site} {abstract : Bool}

theorem Yields.failures_subset {t : CxxType} (yields : Yields r owner site t) (within : site.decl.failures ⊆ known) :
    t.failures ⊆ known := by
  cases yields with
  | nothing => exact nil_subset _
  | object owned => exact nil_subset _
  | declared written => exact Subset.trans (Declaration.type_failures written) within
  | read written known =>
    exact Subset.trans (getterResult_failures _ _ _) (Subset.trans (Declaration.type_failures written) within)

theorem Regular.knowsFailures (regular : Regular r owner c) (within : c.decl.failures ⊆ known) :
    c.KnowsFailures known where
  result := regular.result.failures_subset within
  parameter p listed t written :=
    Subset.trans (Declaration.types_failures (regular.parameters p listed t written)) within
  decl := within

section

variable (knows : r.table.KnowsFailures known)

include knows

theorem accessors_accounts {shape : Callable} {setter : Role} (within : shape.decl.failures ⊆ known) :
    Accounts known (accessors r shape setter) := by
  unfold accessors
  split
  · exact .bind .ofMisshapen fun _ _ => .rejected
  · rename_i t written
    have covered : t.failures ⊆ known := Subset.trans (Declaration.type_failures written) within
    refine .bind .ofMisshapen fun _ _ => .bind (categoryOf_accounts knows covered) fun _ _ => ?_
    split <;> exact .ok

theorem ofChild_accounts {child : Site} (within : child.decl.failures ⊆ known) :
    Accounts known (ofChild r cls abstract child) := by
  unfold ofChild
  split
  · split <;> exact .ok
  · exact .ok
  · split
    · exact .ok
    · exact .bind .ofMisshapen fun _ _ => .ok
  · refine accessors_accounts knows ?_
    exact within
  · exact .ok

theorem own_accounts (members : cls.KnowsMembers known) : Accounts known (own r cls abstract) := by
  refine .mapM fun child listed => ?_
  split
  · exact .ok
  · exact .map (ofChild_accounts knows (members child listed))

theorem ofShadow_accounts {m : Shadow} (within : m.KnowsFailures known) : Accounts known (ofShadow r cls m) := by
  unfold ofShadow
  dsimp only
  split
  · refine accessors_accounts knows ?_
    exact within
  · exact .ok

theorem inherited_accounts (within : ∀ m ∈ shadows, m.KnowsFailures known) : Accounts known (inherited r cls shadows) :=
  .bind (.mapM fun m listed => ofShadow_accounts knows (within m listed)) fun _ _ => .ok

end

theorem Stands.failures_subset (stands : Stands cls shadows site) (members : cls.KnowsMembers known)
    (within : ∀ m ∈ shadows, m.KnowsFailures known) :
    site.decl.failures ⊆ known := by
  cases stands with
  | declared listed => exact members _ listed
  | inherited listed => exact within _ listed
  | implicit destructor =>
    rw [Declaration.failures, (implicitSite_decl cls destructor).1]
    exact nil_subset _

theorem inOrder_know {own : List Own} {inherited : List Callable} (members : cls.KnowsMembers known)
    (within : ∀ m ∈ shadows, m.KnowsFailures known) (owned : Members.own r cls abstract = .ok own)
    (found : Members.inherited r cls shadows = .ok inherited)
    (listed : .callable c ∈ inOrder cls abstract own inherited) : c.KnowsFailures known := by
  obtain ⟨regular, stands⟩ := inOrder_regular owned found listed
  exact regular.knowsFailures (stands.failures_subset members within)

end Members

/-! ### Wrappers -/

theorem record_careful (kind : SymbolKind) (name : Value) (site : Site) :
    Careful known (record kind name site) fun _ => True :=
  .seq .check fun _ => .modify fun _ => ⟨rfl, rfl⟩

theorem require_careful (needs : List Need) : Careful known (require needs) fun _ => True := by
  refine .forM fun need _ => .bind .get fun draft _ => ?_
  split
  · exact .seq (.modify fun _ => ⟨rfl, rfl⟩) fun _ => .append
  · exact .pure trivial

theorem tellUnknownBases_careful (cls : Site) : Careful known (tellUnknownBases cls) fun _ => True :=
  .bind .get fun _ _ => .forM fun _ _ => .tell

namespace Wrapper

/-- What cannot be read in the types of a wrapper is known. -/
def Written.KnowsFailures (known : List TypeSyntaxError) (w : Written) : Prop :=
  w.callable.KnowsFailures known ∧ ∀ p ∈ w.inputs, p.type.failures ⊆ known

theorem reserveSymbol_careful (codes : List String) : Careful known (reserveSymbol job c codes) fun _ => True := by
  refine .seq .check fun _ => .bind .get fun draft covered => ?_
  split
  refine .seq (.set ⟨covered.typedefs, covered.classes, covered.memo⟩) fun _ => ?_
  split
  · exact .seq .check fun _ => .seq .tell fun _ => .pure trivial
  · exact .pure trivial

theorem publish_careful (definition : Definition) (prototype : Signature) :
    Careful known (publish definition prototype c) fun _ => True :=
  .seq .append fun _ => .seq .append fun _ => record_careful _ _ _

theorem writeConverted_careful {p : Plan} {symbol : String} (knows : r.table.KnowsFailures known)
    (covered : p.callable.KnowsFailures known) (types : ∀ a ∈ p.args, a.type.failures ⊆ known) :
    Careful known (writeConverted job r p symbol) (Written.KnowsFailures known) := by
  refine .seq (.lift (signature_accounts _ _ _) fun _ _ => trivial) fun _ =>
    .seq (.lift (signature_accounts _ _ _) fun _ _ => trivial) fun _ =>
    .seq (.forM fun _ _ => .seq .check fun _ => require_careful _) fun _ => .bind .get fun draft _ =>
    .seq (.lift (body_accounts knows covered _) fun _ _ => trivial) fun _ => .seq (publish_careful _ _) fun _ =>
    .seq .tell fun _ => .pure ⟨covered, fun input listed => ?_⟩
  obtain ⟨a, visible, rfl⟩ := mem_map.mp listed
  exact types a (mem_filter.mp visible).1

theorem convert_careful (covered : c.KnowsFailures known) (within : ∀ p ∈ parameters, p.type.failures ⊆ known) :
    Careful known (convert job c parameters) fun written => ∀ w ∈ written, w.KnowsFailures known := by
  refine .bind .resolver fun r knows => ?_
  cases planned : plan job r c parameters with
  | error stop =>
    cases stop with
    | skipped warning => exact .seq .tell fun _ => .pure (by simp)
    | halted halt =>
      refine .throw fun cause same => ?_
      cases same
      exact plan_accounts knows covered within _ planned cause rfl
  | ok p =>
    obtain ⟨same, _⟩ := plan_eq_ok planned
    have types : ∀ a ∈ p.args, a.type.failures ⊆ known := by
      intro a listed
      obtain ⟨parameter, member, type⟩ := plan_types planned a listed
      rw [← type]
      exact within parameter member
    refine .seq (reserveSymbol_careful _) fun symbol => ?_
    cases symbol with
    | none => exact .pure (by simp)
    | some symbol =>
      refine .bind (writeConverted_careful knows (by rw [same]; exact covered) types) fun written good => .pure ?_
      intro w found
      cases found
      exact good

theorem direct_careful (covered : c.KnowsFailures known) (within : ∀ p ∈ parameters, p.type.failures ⊆ known) :
    Careful known (direct job c parameters) fun written => ∀ w ∈ written, w.KnowsFailures known := by
  refine .bind .resolver fun r knows => .seq (reserveSymbol_careful _) fun symbol => ?_
  cases symbol with
  | none => exact .pure (by simp)
  | some symbol =>
    refine .seq .check fun _ => .seq (require_careful _) fun _ =>
      .seq (.lift (directBody_accounts _) fun _ _ => trivial) fun _ => .seq (publish_careful _ _) fun _ => .pure ?_
    intro w found
    cases found
    refine ⟨covered, fun input listed => ?_⟩
    obtain ⟨⟨p, name⟩, zipped, rfl⟩ := mem_map.mp listed
    exact within p (of_mem_zip zipped).1

theorem write_careful (covered : c.KnowsFailures known) :
    Careful known (write job c) fun written => ∀ w ∈ written, w.KnowsFailures known := by
  refine .bind (.lift typedParameters_accounts fun _ typed => typedParameters_failures covered typed)
    fun parameters within => ?_
  split
  · exact convert_careful covered within
  · exact direct_careful covered within

end Wrapper

/-! ### Facade classes -/

theorem checkDeclared_accounts (knows : r.table.KnowsFailures known) (covered : c.KnowsFailures known) :
    Accounts known (checkDeclared r c) := by
  unfold checkDeclared
  split
  · exact .ok
  · exact .bind (categoryOf_accounts knows covered.result) fun _ _ => .ofMisshapen

theorem facadeResult_accounts (knows : r.table.KnowsFailures known) (covered : c.KnowsFailures known) :
    Accounts known (result r c) := by
  unfold result
  split
  · exact .ok
  · exact facadeResultAt_accounts knows covered.result

theorem facadeParameters_careful {inputs : List TypedParameter} (knows : r.table.KnowsFailures known)
    (within : ∀ p ∈ inputs, p.type.failures ⊆ known) :
    Careful known (Facade.parameters r c inputs) fun _ => True := by
  induction inputs with
  | nil => exact .pure trivial
  | cons p rest ih =>
    exact .seq (.lift (facadeParameterAt_accounts knows (within p (by simp))) fun _ _ => trivial)
      fun _ => .seq (require_careful _) fun _ => .seq (ih fun other member => within other (by simp [member]))
      fun _ => .pure trivial

variable {opened : OpenClass}

theorem facadeMember_careful (covered : w.KnowsFailures known) :
    Careful known (Facade.member job opened w) fun _ => True :=
  .bind .resolver fun _ knows => .seq .check fun _ => .seq .check fun _ =>
    .seq (.lift (facadeResult_accounts knows covered.1) fun _ _ => trivial) fun _ => .seq (require_careful _) fun _ =>
    .seq (facadeParameters_careful knows covered.2) fun _ =>
    .seq (.lift (checkDeclared_accounts knows covered.1) fun _ _ => trivial) fun _ => .bind .get fun _ _ =>
      .pure trivial

theorem addMember_careful (covered : w.KnowsFailures known) : Careful known (addMember job opened w) fun _ => True := by
  unfold addMember
  split
  · exact .pure trivial
  · refine .seq (facadeMember_careful covered) fun m => ?_
    split
    · exact .seq .tell fun _ => .pure trivial
    · refine .seq .append fun _ => ?_
      split
      · exact .seq .append fun _ => .pure trivial
      · exact .pure trivial

theorem openClass_careful (cls : Site) : Careful known (openClass job cls) fun _ => True := by
  unfold openClass
  split
  · exact .pure trivial
  · refine .seq (tellUnknownBases_careful cls) fun _ => .seq .check fun _ => .bind .get fun draft _ => ?_
    split
    · exact .seq .tell fun _ => .pure trivial
    · exact .seq .append fun _ => .seq .append fun _ => .pure trivial

theorem closeClass_careful (opened : OpenClass) : Careful known (closeClass job opened) fun _ => True := by
  unfold closeClass
  split
  · exact .pure trivial
  · exact .seq .check fun _ => .seq .check fun _ => .seq .append fun _ => .pure trivial

/-! ### Declarations -/

theorem wrap_careful (covered : c.KnowsFailures known) (opened : Option OpenClass) :
    Careful known (wrap job opened c) fun _ => True := by
  refine .seq .check fun _ => ?_
  split
  · exact .seq .tell fun _ => .pure trivial
  · refine .bind (write_careful covered) fun written good => ?_
    split
    · exact .seq (addMember_careful (good _ rfl)) fun _ => .pure trivial
    · exact .pure trivial

theorem enumeration_careful (enum : Site) (opened : Option OpenClass) :
    Careful known (Enumeration.write job enum opened) fun _ => True := by
  have items : Accounts known ((Enumeration.survivors enum).mapM Enumeration.item) := by
    refine .mapM fun site _ => ?_
    unfold Enumeration.item
    dsimp only
    split
    · exact .ok
    · refine .bind ?_ fun _ _ => .ok
      unfold Enumeration.value
      split
      · split
        · exact .ok
        · split
          · exact .ok
          · exact .rejected
      · split <;> exact .ok
  unfold Enumeration.write
  split
  · exact .pure trivial
  · refine .seq .check fun _ => .seq .check fun _ => .seq (.lift items fun _ _ => trivial) fun _ => ?_
    split
    · exact .seq .check fun _ => .seq .tell fun _ => .pure trivial
    · refine .seq .append fun _ => ?_
      split
      · exact .seq .append fun _ => .pure trivial
      · exact .pure trivial

theorem constant_careful (site : Site) : Careful known (Constant.write job site) fun _ => True := by
  have value : Accounts known (Constant.value site) := by
    unfold Constant.value
    dsimp only
    split
    · exact .ok
    · split
      · split
        · exact .ok
        · exact .fault (by intro found impossible; cases impossible)
      · split
        · exact .ok
        · exact .bind .ofMisshapen fun _ _ => .rejected
  exact .seq (.lift value fun _ _ => trivial) fun _ => .seq .check fun _ => .seq .append fun _ => record_careful _ _ _

theorem declare_careful (site : Site) : Careful known (Variable.declare? job site) fun _ => True := by
  have typed (r : Resolver) : Accounts known (Variable.cVariable? r site) := by
    refine .bind .ofMisshapen fun _ _ => .bind .ofMisshapen fun _ _ => ?_
    split
    · exact .bind .ofMisshapen fun _ _ => .rejected
    · rename_i t _
      have anonymous : Accounts known ((Variable.anonymousInstance r site t).map some) := by
        refine .map ?_
        unfold Variable.anonymousInstance
        split
        · exact .ok
        · exact .rejected
      split
      · split
        · exact .bind .ofMisshapen fun _ _ => anonymous
        · exact anonymous
      · exact .bind .ofMisshapen fun _ _ => .bind .ofMisshapen fun _ _ => .ok
  refine .bind .resolver fun r _ => .seq (.lift (typed r) fun _ _ => trivial) fun found => ?_
  cases found with
  | none => exact .pure trivial
  | some found => exact .seq (require_careful _) fun _ => .pure trivial

theorem exportDirectly_careful (site : Site) : Careful known (Variable.exportDirectly job site) fun _ => True := by
  unfold Variable.exportDirectly
  dsimp only
  split
  · exact .pure trivial
  · split
    case' isTrue => refine .seq .check fun _ => ?_
    all_goals
      split
      · exact .pure trivial
      · refine .seq (declare_careful site) fun declared => ?_
        cases declared with
        | none => exact .pure trivial
        | some declaration => exact .seq .append fun _ => .seq (record_careful _ _ _) fun _ => .pure trivial

theorem freeFunction_careful (within : site.decl.failures ⊆ known) :
    Careful known (freeFunction job site) fun _ => True := by
  unfold freeFunction
  split
  · refine .seq .check fun _ => .bind .get fun draft _ => .seq (wrap_careful ?_ none) fun _ => .pure trivial
    refine Regular.knowsFailures (?_ : Regular ⟨job.config, draft.table⟩ none _) within
    exact ⟨yields_type, parameters_declared (.inr rfl)⟩
  · exact .pure trivial

theorem globalVariable_careful (within : site.decl.failures ⊆ known) :
    Careful known (globalVariable job site) fun _ => True := by
  refine .seq (exportDirectly_careful site) fun exported => ?_
  cases exported with
  | true => exact .pure trivial
  | false =>
    refine .bind .resolver fun r knows => .bind (.lift (accessors_accounts knows ?_)
      fun _ found => found) fun callables found => ?_
    · exact within
    · have shape : Regular r none
          { site := site, role := .globalGet, symbol := site.decl.symbolValue, result := .void } :=
        ⟨.nothing, parameters_declared (.inl rfl)⟩
      refine .forM fun c listed => .seq (wrap_careful ?_ none) fun _ => .pure trivial
      obtain ⟨regular, place⟩ := accessors_regular none found c listed
      refine (regular shape).knowsFailures ?_
      rw [Callable.decl, show c.site = site from congrArg Prod.fst place]
      exact within

theorem classMember_careful {m : Member} (covered : ∀ c, m = .callable c → c.KnowsFailures known) :
    Careful known (classMember job opened m) fun _ => True := by
  cases m with
  | callable c =>
    exact .recover (.seq (wrap_careful (covered c rfl) (some opened)) fun _ => .pure trivial)
      (fun _ _ => .seq .tell fun _ => .pure trivial) fun _ => rfl
  | enumeration site =>
    exact .seq (.guarded (.seq (enumeration_careful site _) fun _ => .pure trivial)) fun _ => .pure trivial
  | constant site => exact .seq (.guarded (constant_careful site)) fun _ => .pure trivial

theorem cxxClass_careful (members : cls.KnowsMembers known) : Careful known (cxxClass job cls) fun _ => True := by
  refine .seq .check fun _ => .seq .append fun _ => .seq (record_careful _ _ _) fun _ =>
    .seq (openClass_careful cls) fun _ => .seq (isAbstract_careful cls) fun abstract =>
    .bind .resolver fun r knows => .bind (.lift (own_accounts knows members) fun _ owned => owned) fun own owned =>
    .bind (flatten_careful cls) fun shadows within =>
    .bind (.lift (inherited_accounts knows within) fun _ found => found) fun inherited found =>
    .seq (.forM fun child _ => .seq .check fun _ => ?_) fun _ => .seq .check fun _ =>
    .seq (.foldlM (fun opened m listed => classMember_careful fun c same => ?_) _) fun _ =>
    .seq (closeClass_careful _) fun _ => .pure trivial
  · split
    · exact .tell
    · exact .pure trivial
  · subst same
    exact inOrder_know members within owned found listed

theorem structMembers_careful (sites : List Site) : Careful known (Struct.members job sites) fun _ => True := by
  induction sites with
  | nil => exact .pure trivial
  | cons site rest ih =>
    refine .seq ?_ fun _ => .seq ih fun _ => .pure trivial
    unfold Struct.child
    split
    · exact .pure trivial
    · split
      · exact .seq (.recover (declare_careful site) (fun _ _ => .seq .tell fun _ => .pure trivial) fun _ => rfl)
          fun _ => .pure trivial
      · exact .seq .check fun _ => .seq .tell fun _ => .pure trivial
      · exact .seq (enumeration_careful site none) fun _ => .pure trivial
      · exact .pure trivial

theorem classDecl_careful (members : cls.KnowsMembers known) : Careful known (classDecl job cls) fun _ => True := by
  refine .bind .get fun draft _ => ?_
  split
  · exact .pure trivial
  · split
    · exact .seq .check fun _ => .seq (structMembers_careful _) fun _ => .append
    · split
      · exact .seq .check fun _ => .tell
      · exact cxxClass_careful members

theorem importDecl_careful (site : Site) : Careful known (importDecl job site) fun _ => True := by
  unfold importDecl
  dsimp only
  split
  · split
    · exact .append
    · exact .throw (.fault (by intro found impossible; cases impossible))
  · exact .pure trivial

theorem insertDecl_careful (site : Site) : Careful known (insertDecl site) fun _ => True := by
  have code : Accounts known (insertedCode site.decl) := by
    unfold insertedCode
    dsimp only
    split
    · exact .map .ofMisshapen
    · exact .ok
  unfold insertDecl
  split
  · exact .throw (.fault (by intro found impossible; cases impossible))
  · exact .throw (.fault (by intro found impossible; cases impossible))
  · split
    · exact .seq (.lift code fun _ _ => trivial) fun _ => .append
    · exact .tell

theorem declaration_careful (within : site.decl.failures ⊆ known) (members : site.KnowsMembers known) :
    Careful known (Module.declaration job site) fun _ => True := by
  unfold Module.declaration
  split
  · exact importDecl_careful site
  · exact insertDecl_careful site
  · exact .guarded (classDecl_careful members)
  · exact .guarded (freeFunction_careful within)
  · exact .guarded (globalVariable_careful within)
  · exact .guarded (.seq (enumeration_careful site none) fun _ => .pure trivial)
  · exact .guarded (constant_careful site)
  · exact .pure trivial
  all_goals exact .tell

/-! ### Runs -/

/-- Why argument texts in the types of a tree cannot be read. -/
def Site.failures (root : Site) : List TypeSyntaxError :=
  root.walk.flatMap (·.decl.failures)

theorem Site.decl_failures {root site : Site} (member : site ∈ root.walk) : site.decl.failures ⊆ root.failures :=
  fun _ listed => mem_flatMap.mpr ⟨site, member, listed⟩

theorem Site.knowsMembers_of_mem_walk {root site : Site} (member : site ∈ root.walk) :
    site.KnowsMembers root.failures :=
  fun _ listed => decl_failures (child_mem_walk member listed)

namespace Module

theorem runtimeClass_knowsMembers (root : Site) : (runtimeClass root).KnowsMembers known := by
  have readable : ∀ n ∈ runtimeNode.children, n.decl.failures = [] := by decide
  intro child listed
  have empty : child.decl.failures = [] := readable child.node (mem_childrenFrom listed).1
  rw [empty]
  exact nil_subset _

theorem ofTree_knowsFailures (root : Site) : (Draft.ofTree root).KnowsFailures root.failures := by
  refine ⟨fun entry listed => ?_, fun entry listed child member => ?_, fun _ impossible => by cases impossible⟩
  · exact decl_failures (mem_typedefs_ofTree listed).1
  · exact knowsMembers_of_mem_walk (mem_classes_ofTree listed).1 child member

theorem prepared_knowsFailures (job : Job) : (prepared job).KnowsFailures job.root.failures := by
  obtain ⟨typedefs, classes, _⟩ := ofTree_knowsFailures job.root
  cases own : ownRuntimeClass? job with
  | none =>
    refine ⟨?_, ?_, fun _ impossible => by cases impossible⟩
    · simp only [prepared, own]
      exact typedefs
    · simp only [prepared, own]
      exact classes
  | some cls =>
    obtain rfl := ownRuntimeClass_eq own
    refine ⟨?_, ?_, fun _ impossible => by cases impossible⟩
    · simp only [prepared, own]
      intro entry listed
      rcases mem_append.mp listed with listed | listed
      · exact typedefs entry listed
      · obtain ⟨name, impossible, _⟩ := mem_map.mp listed
        cases impossible
    · simp only [prepared, own]
      intro entry listed
      rcases mem_append.mp listed with listed | listed
      · exact classes entry listed
      · obtain ⟨name, _, rfl⟩ := mem_map.mp listed
        exact runtimeClass_knowsMembers job.root

theorem visited_careful (listed : site ∈ visited job) :
    Careful job.root.failures (declaration job site) fun _ => True := by
  rcases mem_append.mp listed with runtime | emitted
  · obtain rfl := ownRuntimeClass_eq (Option.mem_toList.mp runtime)
    exact .guarded (classDecl_careful (runtimeClass_knowsMembers job.root))
  · have walked := mem_walk_of_emitted emitted
    exact declaration_careful (decl_failures walked) (knowsMembers_of_mem_walk walked)

/-- A run that ends at a text that cannot be read ends at an argument text of a type in the tree. -/
theorem run_accounts (job : Job) : Accounts job.root.failures (run job) := by
  intro cause failed
  unfold run Draft.start at failed
  cases checked : checkTree job.root with
  | error found =>
    rw [checked] at failed
    cases failed
  | ok value =>
    rw [checked] at failed
    dsimp only [Halt.ofMisshapen, Except.mapError, bind, Except.bind, pure, Except.pure] at failed
    split at failed
    · cases failed
    · rename_i halt last ends
      cases failed
      rcases ends_emit_cases ends with visits | ⟨_, impossible⟩
      · exact (Careful.forM (fun _ => visited_careful) _ _ _ (prepared_knowsFailures job) visits).1 cause rfl
      · cases impossible

end Module

/-- A document is accepted only if the spelling of every type can be read. What can still end the run over it at a text
that cannot be read is an argument text of a function type in its tree, and nothing else. -/
theorem unreadable_types_of_document {useDefaults : Bool} {document : Value} {loaded : Loaded}
    (accepted : Load.document useDefaults document = .ok loaded) :
    (∀ site ∈ (Site.root loaded.tree).walk, site.decl.HasReadTypes) ∧
      ∀ config cause, Module.run ⟨config, .root loaded.tree, loaded.typemaps⟩ =
        .error (.fault (.unreadableType cause)) → cause ∈ (Site.root loaded.tree).failures :=
  ⟨Load.document_hasReadTypes accepted, fun _ cause ended => run_accounts _ cause ended⟩

/-- A document with a function that takes a callback, and one that takes nothing. -/
def callbackDocument (callback : String) : Value :=
  .object [("module", .object [("kind", .string "module"), ("name", .string "m"), ("children", .array
    [.object [("kind", .string "function"), ("name", .string "f"), ("parms", .array
        [.object [("name", .string "a"), ("type", .string callback)]])],
      .object [("kind", .string "function"), ("name", .string "g")]])])]

/-- What ended a run. -/
def Halt.faultOf? {α : Type} : Except Halt α → Option Fault
  | .error (.fault cause) => some cause
  | _ => none

theorem Halt.eq_of_faultOf {α : Type} {result : Except Halt α} {cause : Fault} (ended : faultOf? result = some cause) :
    result = .error (.fault cause) := by
  unfold faultOf? at ended
  split at ended
  · cases ended
    rfl
  · cases ended

/-- The run over a document, with the options of a plain module. -/
def runLoaded (loaded : Loaded) : Except Halt Draft :=
  Module.run ⟨{ givenModule := .string "m", exceptions := false }, .root loaded.tree, loaded.typemaps⟩

/-- A callback with arguments that can be read ends no run, and one with the argument `1` ends it there. -/
theorem unreadable_types_of_callbackDocument :
    (∃ loaded, Load.document true (callbackDocument "int (*)(int, char *)") = .ok loaded ∧
      ∀ config cause,
        Module.run ⟨config, .root loaded.tree, loaded.typemaps⟩ ≠ .error (.fault (.unreadableType cause))) ∧
    ∃ loaded, Load.document true (callbackDocument "void (*)(1)") = .ok loaded ∧
      runLoaded loaded = .error (.fault (.unreadableType (.unreadable "1" "1"))) ∧
      .unreadable "1" "1" ∈ (Site.root loaded.tree).failures := by
  constructor
  · have readable : (Load.document true (callbackDocument "int (*)(int, char *)")).toOption.map (fun loaded =>
        (Site.root loaded.tree).failures) = some [] := by
      decide +kernel
    obtain ⟨loaded, accepted, clean⟩ := ok_of_toOption_map readable
    refine ⟨loaded, accepted, fun config cause ended => ?_⟩
    have listed := (unreadable_types_of_document accepted).2 config cause ended
    rw [clean] at listed
    cases listed
  · have unreadable : (Load.document true (callbackDocument "void (*)(1)")).toOption.map (fun loaded =>
        Halt.faultOf? (runLoaded loaded)) = some (some (.unreadableType (.unreadable "1" "1"))) := by
      decide +kernel
    obtain ⟨loaded, accepted, fault⟩ := ok_of_toOption_map unreadable
    have ended := Halt.eq_of_faultOf fault
    exact ⟨loaded, accepted, ended, (unreadable_types_of_document accepted).2 _ _ ended⟩

/-- A document is accepted whose parameters all have types, and yet its run ends at an argument text that cannot be
read. -/
theorem callbackDocument_ends_run :
    (Load.document true (callbackDocument "void (*)(1)")).toOption.map (fun loaded =>
      ((Site.root loaded.tree).walk.all fun site => site.decl.parameters.all fun p => p.type.isSome,
        Halt.faultOf? (runLoaded loaded))) =
      some (true, some (.unreadableType (.unreadable "1" "1"))) := by
  decide +kernel

end FlatAbi
