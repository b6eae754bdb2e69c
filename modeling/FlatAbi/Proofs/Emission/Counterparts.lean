import FlatAbi.Proofs.Inheritance.Counterparts
import FlatAbi.Proofs.Wrapper.Counterparts

/-!
Members, variables and constants in two trees side by side. Twins have the same of them.
-/

namespace FlatAbi

open Site Wrapper List Naming Variable Inheritance

variable {pairing : Pairing} {config : Config} {table table' : SymbolTable} {child child' : Site}

structure TwinCallable (pairing : Pairing) (c c' : Callable) : Prop where
  decl : c.decl = c'.decl
  frame : SameFrame c.site.above c'.site.above
  sameId : pairing.SameId c.site.id c'.site.id
  role : c.role = c'.role
  symbol : c.symbol = c'.symbol
  result : c.result = c'.result
  parameters : c.parameters = c'.parameters
  owner : Option.Rel pairing.Twin c.owner c'.owner
  inheritedFrom : Option.Rel pairing.Twin c.inheritedFrom c'.inheritedFrom
  baseName : c.baseName = c'.baseName
  overloaded : c.overloaded = c'.overloaded
  constOverloaded : c.constOverloaded = c'.constOverloaded

/-- The callable of a function outside classes. -/
def functionOf (site : Site) (overloaded : Bool) : Callable :=
  { site := site, role := .function, symbol := site.decl.symbolValue, result := site.decl.type.getD .void,
    parameters := site.decl.parameters, overloaded := overloaded }

theorem TwinCallable.function (twin : pairing.Twin child child') (overloaded : Bool) :
    TwinCallable pairing (functionOf child overloaded) (functionOf child' overloaded) where
  decl := pairing.decl twin
  frame := pairing.frame twin
  sameId := pairing.sameId twin
  role := rfl
  symbol := (pairing.namesake twin).symbolValue
  result := congrArg (fun d : Declaration => d.type.getD .void) (pairing.decl twin)
  parameters := congrArg Declaration.parameters (pairing.decl twin)
  owner := .none
  inheritedFrom := .none
  baseName := rfl
  overloaded := rfl
  constOverloaded := rfl

abbrev TwinCallables (pairing : Pairing) : List Callable → List Callable → Prop :=
  Forall₂ (TwinCallable pairing)

namespace TwinCallable

variable {c c' : Callable} (twin : TwinCallable pairing c c')

include twin

theorem namesake : Namesake c.site c'.site := .of_decl twin.decl twin.frame

theorem same {job : Job} {strict : Bool} (tables : table.Counterpart pairing table') :
    SameCallable pairing strict job table table' c c' where
  site := twin.namesake
  sameId := twin.sameId
  role := twin.role
  symbol := twin.symbol
  result := twin.result ▸ .refl tables _ _
  isVoid := by rw [twin.result]
  parameters := by
    rw [← twin.parameters]
    refine forall₂_same.mpr fun p _ => ⟨rfl, ?_⟩
    cases p.type with
    | none => exact .none
    | some t => exact .some (.refl tables _ t)
  declared := by
    rw [← twin.decl]
    cases c.decl.type with
    | none => exact .none
    | some t => exact .some (.refl tables _ t)
  owner := twin.owner
  inheritedFrom := twin.inheritedFrom
  baseName := twin.baseName
  overloaded := twin.overloaded
  constOverloaded := twin.constOverloaded

end TwinCallable

namespace Members

theorem noType_same {α : Type} {Same : α → α → Prop} {site site' : Site} (same : Namesake site site') :
    SameResult NamesakeHalt Same (noType site) (noType site') := by
  unfold noType
  rw [same.checkQualified, same.qualifiedName]
  cases site'.checkQualified with
  | ok _ => exact ⟨rfl, .some same⟩
  | error cause => exact rfl

theorem accessors_twins (tables : table.Counterpart pairing table') {shape shape' : Callable}
    (twin : TwinCallable pairing shape shape') (setter : Role) :
    SameResult NamesakeHalt (TwinCallables pairing) (accessors ⟨config, table⟩ shape setter)
      (accessors ⟨config, table'⟩ shape' setter) := by
  unfold accessors
  rw [twin.decl]
  cases shape'.decl.type with
  | none => exact noType_same twin.namesake
  | some t =>
    have category : categoryOf ⟨config, table⟩ shape t = categoryOf ⟨config, table'⟩ shape' t := by
      unfold categoryOf
      rw [twin.namesake.scopeValue]
      exact Resolver.categoryAt_eq tables (tables.checkResolve_eq t _) (tables.resolve_eq t _)
    simp only [category, twin.namesake.checkScope]
    refine .bind (.of_eq (fun _ _ => True) rfl fun _ => trivial) fun _ _ _ => ?_
    refine .bind (.of_eq Eq rfl fun _ => rfl) fun category _ same => ?_
    subst same
    have getter : TwinCallable pairing { shape with result := getterResult config t category }
        { shape' with result := getterResult config t category } :=
      ⟨twin.decl, twin.frame, twin.sameId, twin.role, twin.symbol, rfl, twin.parameters, twin.owner,
        twin.inheritedFrom, twin.baseName, twin.overloaded, twin.constOverloaded⟩
    split
    · exact .cons getter (.cons ⟨twin.decl, twin.frame, twin.sameId, rfl, twin.symbol, twin.result, rfl, twin.owner,
        twin.inheritedFrom, twin.baseName, twin.overloaded, twin.constOverloaded⟩ .nil)
    · exact .cons getter .nil

variable {cls cls' : Site}

theorem pointerType_eq (twin : pairing.Twin cls cls') : pointerType cls = pointerType cls' :=
  congrArg CxxType.pointerTo (pairing.namesake twin).qualifiedName

section

variable (tables : table.Counterpart pairing table') (twin : pairing.Twin cls cls')

include tables twin

theorem ofChild_twins (below : pairing.Twin child child') (abstract : Bool) :
    SameResult NamesakeHalt (TwinCallables pairing) (ofChild ⟨config, table⟩ cls abstract child)
      (ofChild ⟨config, table'⟩ cls' abstract child') := by
  have shape (role : Role) {symbol symbol' : Value} (named : symbol = symbol') {result result' : CxxType}
      (typed : result = result') (parameters : List Parameter) : TwinCallable pairing
        { site := child, role := role, symbol := symbol, result := result, parameters := parameters, owner := some cls }
        { site := child', role := role, symbol := symbol', result := result', parameters := parameters,
          owner := some cls' } :=
    ⟨pairing.decl below, pairing.frame below, pairing.sameId below, rfl, named, typed, rfl, .some twin, .none, rfl, rfl,
      rfl⟩
  have symbol : cls.decl.symbolValue = cls'.decl.symbolValue := (pairing.namesake twin).symbolValue
  unfold ofChild
  rw [pairing.kind below, pairing.decl below]
  split
  · split
    · exact .nil
    · exact .cons (shape _ symbol (pointerType_eq twin) _) .nil
  · exact .cons (shape _ symbol rfl _) .nil
  · split
    · exact .nil
    · exact .bind (.of_eq (fun _ _ => True) rfl fun _ => trivial) fun _ _ _ => .cons (shape _ rfl rfl _) .nil
  · exact accessors_twins tables (shape _ rfl rfl _) _
  · exact .nil

theorem ofShadow_twins {m m' : Shadow} (shadows : TwinShadow pairing m m') :
    SameResult NamesakeHalt (TwinCallables pairing) (ofShadow ⟨config, table⟩ cls m)
      (ofShadow ⟨config, table'⟩ cls' m') := by
  have shape (role : Role) (symbol : Value) (result : CxxType) (parameters : List Parameter) : TwinCallable pairing
      { site := m.member, role := role, symbol := symbol, result := result, parameters := parameters,
        owner := some cls, inheritedFrom := some m.origin, baseName := m.baseName }
      { site := m'.member, role := role, symbol := symbol, result := result, parameters := parameters,
        owner := some cls', inheritedFrom := some m'.origin, baseName := m'.baseName } :=
    ⟨pairing.decl shadows.member, pairing.frame shadows.member, pairing.sameId shadows.member, rfl, rfl, rfl, rfl,
      .some twin, .some shadows.origin, shadows.baseName, rfl, rfl⟩
  unfold ofShadow
  simp only [pairing.kind shadows.member, pairing.decl shadows.member, shadows.symbol]
  split
  · exact accessors_twins tables (shape _ _ _ _) _
  · exact .cons (shape _ _ _ _) .nil

theorem inherited_twins {shadows shadows' : List Shadow} (twins : TwinShadows pairing shadows shadows') :
    SameResult NamesakeHalt (TwinCallables pairing) (inherited ⟨config, table⟩ cls shadows)
      (inherited ⟨config, table'⟩ cls' shadows') :=
  .bind (.mapM (twins.imp fun _ _ shadow => ofShadow_twins tables twin shadow)) fun _ _ groups =>
    rel_flatten groups

end

structure TwinOwn (pairing : Pairing) (o o' : Own) : Prop where
  child : pairing.Twin o.child o'.child
  callables : TwinCallables pairing o.callables o'.callables

theorem own_twins (tables : table.Counterpart pairing table') (twins : pairing.TwinClass cls cls') (abstract : Bool) :
    SameResult NamesakeHalt (Forall₂ (TwinOwn pairing)) (own ⟨config, table⟩ cls abstract)
      (own ⟨config, table'⟩ cls' abstract) := by
  refine .mapM (twins.children.imp fun child child' below => ?_)
  rw [pairing.decl below]
  split
  · exact ⟨below, .nil⟩
  · exact .map (ofChild_twins tables twins.1 below abstract) fun _ _ callables => ⟨below, callables⟩

variable {all all' : List Callable} {c c' : Callable}

theorem isMethod_eq (twin : TwinCallable pairing c c') : isMethod c = isMethod c' := by
  rw [isMethod, isMethod, twin.role]

theorem isConstructor_eq (twin : TwinCallable pairing c c') : isConstructor c = isConstructor c' := by
  rw [isConstructor, isConstructor, twin.role]

section

variable (twins : TwinCallables pairing all all') (twin : TwinCallable pairing c c')

include twins twin

theorem methodGroup_twins : TwinCallables pairing (methodGroup all c) (methodGroup all' c') :=
  forall₂_filter twins fun _ _ other => by rw [isMethod_eq other, other.symbol, twin.symbol]

theorem isConstTwin_eq : isConstTwin all c = isConstTwin all' c' := by
  have others : (all.any fun other => !other.decl.isConst && sameParameters other c) =
      all'.any fun other => !other.decl.isConst && sameParameters other c' :=
    any_eq_of_forall₂ twins fun _ _ other => by
      rw [sameParameters, sameParameters, other.decl, other.parameters, twin.parameters]
  rw [isConstTwin, isConstTwin, twin.decl, others]

theorem markOverload_twin : TwinCallable pairing (markOverload all c) (markOverload all' c') := by
  have marked (overloaded constOverloaded : Bool) : TwinCallable pairing
      { c with overloaded := overloaded, constOverloaded := constOverloaded }
      { c' with overloaded := overloaded, constOverloaded := constOverloaded } :=
    ⟨twin.decl, twin.frame, twin.sameId, twin.role, twin.symbol, twin.result, twin.parameters, twin.owner,
      twin.inheritedFrom, twin.baseName, rfl, rfl⟩
  have group := methodGroup_twins twins twin
  have constructors : (all.filter isConstructor).length = (all'.filter isConstructor).length :=
    (forall₂_filter twins fun _ _ other => isConstructor_eq other).length_eq
  unfold markOverload
  rw [isConstructor_eq twin, isMethod_eq twin, group.length_eq, constructors, isConstTwin_eq group twin, twin.decl,
    twin.constOverloaded]
  split
  · exact marked _ _
  · split
    · exact marked _ _
    · exact twin

end

inductive TwinMember (pairing : Pairing) : Member → Member → Prop where
  | callable {c c' : Callable} (twin : TwinCallable pairing c c') : TwinMember pairing (.callable c) (.callable c')
  | enumeration {site site' : Site} (twin : pairing.Twin site site') (kind : site.kind = .enumDecl) :
      TwinMember pairing (.enumeration site) (.enumeration site')
  | constant {site site' : Site} (twin : pairing.Twin site site') :
      TwinMember pairing (.constant site) (.constant site')

abbrev TwinMembers (pairing : Pairing) : List Member → List Member → Prop :=
  Forall₂ (TwinMember pairing)

theorem callables_twins {listed listed' : List Callable} (twins : TwinCallables pairing all all')
    (same : TwinCallables pairing listed listed') :
    TwinMembers pairing (listed.map fun c => .callable (markOverload all c))
      (listed'.map fun c => .callable (markOverload all' c)) :=
  rel_map (fun _ _ twin => .callable (markOverload_twin twins twin)) same

theorem ofOwn_twins {o o' : Own} (twins : TwinCallables pairing all all') (own : TwinOwn pairing o o') :
    TwinMembers pairing (ofOwn all o) (ofOwn all' o') := by
  unfold ofOwn
  rw [pairing.decl own.child]
  split
  · exact .nil
  · have kind := pairing.kind own.child
    rw [← kind]
    split
    · rename_i isEnum
      exact .cons (.enumeration own.child isEnum) .nil
    · exact .cons (.constant own.child) .nil
    · exact callables_twins twins own.callables

theorem implicitSite_twin (twin : pairing.Twin cls cls') (destructor : Bool) :
    (implicitSite cls destructor).decl = (implicitSite cls' destructor).decl ∧
      SameFrame (implicitSite cls destructor).above (implicitSite cls' destructor).above ∧
      pairing.SameId (implicitSite cls destructor).id (implicitSite cls' destructor).id := by
  refine ⟨?_, .cons (congrArg Declaration.untyped (pairing.decl twin)) (pairing.frame twin),
    pairing.implicit twin destructor⟩
  unfold implicitSite
  rw [pairing.decl twin]
  rfl

theorem implicit_twin (twin : pairing.Twin cls cls') (destructor : Bool) (role : Role) {result result' : CxxType}
    (typed : result = result') : TwinCallable pairing
      { site := implicitSite cls destructor, role := role, symbol := implicitSymbol cls, result := result,
        owner := some cls }
      { site := implicitSite cls' destructor, role := role, symbol := implicitSymbol cls', result := result',
        owner := some cls' } := by
  obtain ⟨decl, frame, sameId⟩ := implicitSite_twin twin destructor
  have symbol : implicitSymbol cls = implicitSymbol cls' := by rw [implicitSymbol, implicitSymbol, pairing.decl twin]
  exact ⟨decl, frame, sameId, rfl, symbol, typed, rfl, .some twin, .none, rfl, rfl, rfl⟩

theorem declares_eq (twins : pairing.TwinClass cls cls') (kind : Kind) : declares cls kind = declares cls' kind :=
  any_eq_of_forall₂ twins.children fun _ _ child => by rw [pairing.kind child]

theorem implicits_twins (twins : pairing.TwinClass cls cls') (abstract : Bool) :
    TwinCallables pairing (implicitConstructor cls abstract ++ implicitDestructor cls)
      (implicitConstructor cls' abstract ++ implicitDestructor cls') := by
  refine rel_append ?_ ?_
  · unfold implicitConstructor
    rw [declares_eq twins, pairing.decl twins.1]
    split
    · exact .nil
    · exact .cons (implicit_twin twins.1 false .constructor (pointerType_eq twins.1)) .nil
  · unfold implicitDestructor
    rw [declares_eq twins, pairing.decl twins.1]
    split
    · exact .nil
    · exact .cons (implicit_twin twins.1 true .destructor rfl) .nil

theorem inOrder_twins (twins : pairing.TwinClass cls cls') (abstract : Bool) {own own' : List Own}
    {inherited inherited' : List Callable} (declared : Forall₂ (TwinOwn pairing) own own')
    (passedOn : TwinCallables pairing inherited inherited') :
    TwinMembers pairing (inOrder cls abstract own inherited) (inOrder cls' abstract own' inherited') := by
  have all : TwinCallables pairing (own.flatMap (·.callables) ++ inherited)
      (own'.flatMap (·.callables) ++ inherited') :=
    rel_append (rel_flatMap declared fun _ _ own => own.callables) passedOn
  refine rel_append (rel_append ?_ (callables_twins all passedOn)) ?_
  · exact rel_flatMap declared fun _ _ own => ofOwn_twins all own
  · exact rel_map (fun _ _ twin => .callable twin) (implicits_twins twins abstract)

theorem checkUnsupported_eq (below : pairing.Twin child child') : checkUnsupported child = checkUnsupported child' := by
  rw [checkUnsupported, checkUnsupported, pairing.decl below, pairing.kind below,
    (pairing.namesake below).checkQualified]

theorem unsupported_eq (twin : pairing.Twin cls cls') (below : pairing.Twin child child') :
    unsupported? cls child = unsupported? cls' child' := by
  simp only [unsupported?, pairing.decl below, pairing.kind below, (pairing.namesake below).qualifiedName,
    (pairing.namesake twin).name]

end Members

namespace Variable

variable {site site' : Site}

theorem isExportable_eq (config : Config) (twin : pairing.Twin site site') :
    isExportable config site = isExportable config site' := by
  rw [isExportable, isExportable, (pairing.namesake twin).namespaceName]

theorem cVariable_same (tables : table.Counterpart pairing table') (twin : pairing.Twin site site') :
    SameResult NamesakeHalt Eq (cVariable? ⟨config, table⟩ site) (cVariable? ⟨config, table'⟩ site') := by
  have same := pairing.namesake twin
  have enum (t : CxxType) : (table.enumOf? t site'.scopeName).isSome = (table'.enumOf? t site'.scopeName).isSome :=
    isSome_eq_of_rel (tables.enumOf_rel t site'.scopeName)
  have instances (t : CxxType) : SameResult NamesakeHalt Eq (anonymousInstance ⟨config, table⟩ site t)
      (anonymousInstance ⟨config, table'⟩ site' t) := by
    simp only [anonymousInstance, same.scopeName, enum]
    split
    · rfl
    · exact ⟨rfl, .some same⟩
  have named (t : CxxType) : namedType? ⟨config, table⟩ site t = namedType? ⟨config, table'⟩ site' t := by
    simp only [namedType?, same.scopeName, tables.resolve_eq, enum]
    have bases (t : CxxType) : (table.enumOf? t site'.scopeName).bind (enumType? config) =
        (table'.enumOf? t site'.scopeName).bind (enumType? config) := by
      refine rel_elim (tables.enumOf_rel t site'.scopeName) rfl fun _ _ twin => ?_
      simp only [Option.bind_some, enumType_eq config (pairing.namesake twin)]
    rw [bases]
  have checked (t : CxxType) : checkEnum ⟨config, table⟩ site t = checkEnum ⟨config, table'⟩ site' t := by
    simp only [checkEnum, same.scopeName, same.scopeValue, tables.resolve_eq, tables.checkResolve_eq]
    refine congrArg₂ (· >>= ·) rfl (funext fun _ => ?_)
    exact forM_eq_of_rel (tables.enumOf_rel _ _) fun _ _ twin => checkEnumType_eq (pairing.namesake twin)
  have any {result other : Except Halt Unit} (eq : result = other) :
      SameResult NamesakeHalt (fun _ _ : Unit => True) result other := .of_eq _ eq fun _ => trivial
  unfold cVariable?
  rw [same.checkScope, pairing.decl twin, same.scopeValue]
  refine .bind (any rfl) fun _ _ _ => .bind (any rfl) fun _ _ _ => ?_
  cases site'.decl.type with
  | none => exact Members.noType_same same
  | some t =>
    simp only [tables.checkResolve_eq, checked, named]
    split
    · split
      · exact .bind (any rfl) fun _ _ _ => .map (instances t) fun _ _ eq => congrArg some eq
      · exact .map (instances t) fun _ _ eq => congrArg some eq
    · exact .bind (any rfl) fun _ _ _ => .bind (any rfl) fun _ _ _ => rfl

end Variable

namespace Constant

variable {site site' : Site}

theorem value_same (twin : pairing.Twin site site') : SameResult NamesakeHalt Eq (value site) (value site') := by
  have same := pairing.namesake twin
  unfold Constant.value isCharacterMember
  rw [pairing.decl twin, same.isMember, same.checkQualified, same.qualifiedName]
  dsimp only
  split
  · rfl
  · split
    · split <;> rfl
    · split
      · rfl
      · refine .bind (.of_eq (fun _ _ => True) rfl fun _ => trivial) fun _ _ _ => ?_
        exact ⟨rfl, .some same⟩

theorem name_eq (config : Config) (twin : pairing.Twin site site') : name config site = name config site' := by
  unfold Constant.name
  rw [pairing.decl twin]
  refine rel_elim (pairing.namesake twin).enclosingClass rfl fun _ _ cls => ?_
  simp only [proxyName_eq config cls]

end Constant

end FlatAbi
