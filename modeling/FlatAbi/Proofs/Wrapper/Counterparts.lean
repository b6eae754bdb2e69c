import FlatAbi.Proofs.Emission.Lockstep
import FlatAbi.Proofs.Facade.Needs
import FlatAbi.Proofs.Resolver.Counterparts

/-!
Wrappers of callables whose types are treated alike are the same, word by word.
-/

namespace FlatAbi

open Naming List Resolver Option Site

namespace Wrapper

open Plan Site

/-- Types that a wrapper treats alike; exactly the same ones, where `strict` says so. -/
structure SameType (strict : Bool) (job : Job) (table table' : SymbolTable) (scope : Value) (t t' : CxxType) :
    Prop where
  resolve : table.resolve t scope.display = table'.resolve t' scope.display
  check : table.checkResolve t scope = table'.checkResolve t' scope
  typemap : ∀ method category, job.typemaps.lookup method [t, table.resolve t scope.display] category =
    job.typemaps.lookup method [t', table'.resolve t' scope.display] category
  isReference : t.isReference = t'.isReference
  isRvalueReference : t.isRvalueReference = t'.isRvalueReference
  isEllipsis : t.isEllipsis = t'.isEllipsis
  written : strict → t = t'

variable {pairing : Pairing} {strict : Bool} {job : Job} {table table' : SymbolTable}

theorem SameType.refl (tables : table.Counterpart pairing table') (scope : Value) (t : CxxType) :
    SameType strict job table table' scope t t where
  resolve := tables.resolve_eq t scope.display
  check := tables.checkResolve_eq t scope
  typemap method category := by rw [tables.resolve_eq]
  isReference := rfl
  isRvalueReference := rfl
  isEllipsis := rfl
  written _ := rfl

/-- Callables that a wrapper treats alike. -/
structure SameCallable (pairing : Pairing) (strict : Bool) (job : Job) (table table' : SymbolTable) (c c' : Callable) :
    Prop where
  site : c.site.Namesake c'.site
  sameId : pairing.SameId c.site.id c'.site.id
  role : c.role = c'.role
  symbol : c.symbol = c'.symbol
  result : SameType strict job table table' c.site.scopeValue c.result c'.result
  isVoid : c.result.isVoid = c'.result.isVoid
  parameters : Forall₂ (fun p p' : Parameter => p.name = p'.name ∧
    Option.Rel (SameType strict job table table' c.site.scopeValue) p.type p'.type) c.parameters c'.parameters
  declared : Option.Rel (SameType strict job table table' c.site.scopeValue) c.decl.type c'.decl.type
  owner : Option.Rel pairing.Twin c.owner c'.owner
  inheritedFrom : Option.Rel pairing.Twin c.inheritedFrom c'.inheritedFrom
  baseName : c.baseName = c'.baseName
  overloaded : c.overloaded = c'.overloaded
  constOverloaded : c.constOverloaded = c'.constOverloaded

/-! ### Types -/

section types

variable {c c' : Callable} {t t' : CxxType} (tables : table.Counterpart pairing table')
  (same : SameCallable pairing strict job table table' c c')

include same in
theorem SameCallable.symName : c.symName = c'.symName := congrArg Value.display same.symbol

include same in
theorem SameCallable.isConst : c.isConst = c'.isConst := by
  have isConst : c.decl.isConst = c'.decl.isConst := (congrArg Declaration.isConst same.site.untyped :)
  rw [Callable.isConst, Callable.isConst, isConst, same.role]

include same in
theorem SameCallable.checkWrapperName : Naming.checkWrapperName c = Naming.checkWrapperName c' := by
  unfold Naming.checkWrapperName
  rw [same.symbol, same.role, checkScopePart_eq same.site]
  refine rel_elim same.owner rfl fun _ _ twin => ?_
  simp only [checkProxy_eq (pairing.namesake twin)]

include same in
theorem SameCallable.wrapperName (codes : List String) :
    Naming.wrapperName job.config c codes = Naming.wrapperName job.config c' codes := by
  have suffix : suffixOf c codes = suffixOf c' codes := by
    simp only [suffixOf, same.overloaded, same.role, same.constOverloaded]
  have member (proxy : String) : memberSymbol proxy c = memberSymbol proxy c' := by
    simp only [memberSymbol, same.role, same.symName]
  unfold Naming.wrapperName
  rw [suffix, same.role, same.symName, freePart_eq job.config same.site]
  refine rel_elim same.owner rfl fun _ _ twin => ?_
  simp only [proxyName_eq job.config (pairing.namesake twin), member]

variable (type : SameType strict job table table' c.site.scopeValue t t')

include type in
theorem SameType.resolve_scopeName : table.resolve t c.site.scopeName = table'.resolve t' c.site.scopeName := by
  rw [← display_scopeValue]
  exact type.resolve

include tables same type in
theorem categoryOf_eq : categoryOf ⟨job.config, table⟩ c t = categoryOf ⟨job.config, table'⟩ c' t' := by
  unfold categoryOf
  rw [← same.site.scopeValue]
  exact categoryAt_eq tables type.check type.resolve

include same type in
theorem typemap_eq (method : Method) (category : Option Category) :
    typemap? job ⟨job.config, table⟩ method t c.site.scopeName category =
      typemap? job ⟨job.config, table'⟩ method t' c'.site.scopeName category := by
  unfold typemap?
  rw [← same.site.scopeName, ← display_scopeValue]
  exact type.typemap method category

include tables same type in
theorem qualified_eq : table.qualified t c.site.scopeName = table'.qualified t' c'.site.scopeName := by
  rw [← same.site.scopeName]
  exact tables.qualified_eq type.resolve_scopeName

include tables same type in
theorem cTypeOf_same (category : Category) (side : Side) :
    cTypeOf job ⟨job.config, table⟩ t c.site.scopeName category side =
      cTypeOf job ⟨job.config, table'⟩ t' c'.site.scopeName category side := by
  unfold cTypeOf
  rw [typemap_eq same type, qualified_eq tables same type, ← same.site.scopeName]
  have plain : Resolver.cTypeOf ⟨job.config, table⟩ t c.site.scopeName side category =
      Resolver.cTypeOf ⟨job.config, table'⟩ t' c.site.scopeName side category :=
    Resolver.cTypeOf_eq tables type.resolve_scopeName side category
  rw [plain]

include tables same type in
theorem checkCTypeOf_same (category : Category) :
    checkCTypeOf job ⟨job.config, table⟩ t c.site.scopeName category =
      checkCTypeOf job ⟨job.config, table'⟩ t' c'.site.scopeName category := by
  unfold checkCTypeOf
  rw [typemap_eq same type, ← same.site.scopeName]
  have plain : checkCType ⟨job.config, table⟩ t c.site.scopeName category =
      checkCType ⟨job.config, table'⟩ t' c.site.scopeName category :=
    checkCType_eq tables type.resolve_scopeName category
  rw [plain]

end types

/-! ### Plans -/

/-- Reasons not to write a wrapper that are the same. A message spells types as they are written. -/
def SameStop (strict : Bool) : Stop → Stop → Prop
  | .skipped warning, .skipped other => strict → warning = other
  | .halted halt, .halted other => halt = other
  | _, _ => False

section

variable (strict : Bool) (job : Job) (table table' : SymbolTable) (scope : Value)

structure SameParameter (p p' : TypedParameter) : Prop where
  name : p.name = p'.name
  type : SameType strict job table table' scope p.type p'.type

structure SameArgument (a a' : Argument) : Prop where
  localName : a.localName = a'.localName
  cName : a.cName = a'.cName
  type : SameType strict job table table' scope a.type a'.type
  category : a.category = a'.category
  localType : a.localType = a'.localType
  input : a.input = a'.input
  check : a.check = a'.check
  freearg : a.freearg = a'.freearg

structure SameConverted (result result' : ConvertedResult) : Prop where
  type : SameType strict job table table' scope result.type result'.type
  category : result.category = result'.category
  localType : result.localType = result'.localType
  output : result.output = result'.output

end

structure SamePlan (pairing : Pairing) (strict : Bool) (job : Job) (table table' : SymbolTable) (p p' : Plan) :
    Prop where
  callable : SameCallable pairing strict job table table' p.callable p'.callable
  args : Forall₂ (SameArgument strict job table table' p.callable.site.scopeValue) p.args p'.args
  result : Option.Rel (SameConverted strict job table table' p.callable.site.scopeValue) p.result p'.result
  codes : p.codes = p'.codes

variable {parameters parameters' : List TypedParameter}

section plans

variable {c c' : Callable} (tables : table.Counterpart pairing table')
  (same : SameCallable pairing strict job table table' c c')

include same in
theorem typedParameters_same :
    SameResult NamesakeHalt (Forall₂ (SameParameter strict job table table' c.site.scopeValue)) (typedParameters c)
      (typedParameters c') := by
  unfold typedParameters
  refine .mapM (same.parameters.imp fun p p' both => ?_)
  obtain ⟨name, type⟩ := both
  refine rel_elim type rfl fun t t' type => ?_
  simp only [← type.isEllipsis, ← same.site.checkQualified, ← same.site.qualifiedName, ← name]
  split
  · cases c.site.checkQualified with
    | ok _ => exact ⟨rfl, .some same.site⟩
    | error cause => rfl
  · exact ⟨rfl, type⟩

include same in
theorem checkParameterNames_eq : checkParameterNames c = checkParameterNames c' :=
  forM_eq_of_forall₂ same.parameters fun _ _ both => by rw [both.1]

include tables same in
theorem argument_same {p p' : TypedParameter} (parameter : SameParameter strict job table table' c.site.scopeValue p p')
    (position : Nat) (cName : String) :
    SameResult (SameStop strict) (SameArgument strict job table table' c.site.scopeValue)
      (argument job ⟨job.config, table⟩ c position cName p)
        (argument job ⟨job.config, table'⟩ c' position cName p') := by
  unfold argument
  rw [categoryOf_eq tables same parameter.type]
  simp only [typemap_eq same parameter.type, qualified_eq tables same parameter.type]
  cases categoryOf ⟨job.config, table'⟩ c' p'.type with
  | error halt => rfl
  | ok category =>
    dsimp only [Except.mapError, bind, Except.bind]
    cases typemap? job ⟨job.config, table'⟩ .input p'.type c'.site.scopeName (some category) with
    | none =>
      intro exactly
      rw [parameter.name, parameter.type.written exactly, same.symName]
    | some input => exact ⟨rfl, rfl, parameter.type, rfl, rfl, rfl, rfl, rfl⟩

include tables same in
theorem argumentsFrom_same {listed listed' : List (TypedParameter × String)}
    (parameters : Forall₂ (fun entry entry' => entry.2 = entry'.2 ∧
      SameParameter strict job table table' c.site.scopeValue entry.1 entry'.1) listed listed') (position : Nat) :
    SameResult (SameStop strict) (Forall₂ (SameArgument strict job table table' c.site.scopeValue))
      (argumentsFrom job ⟨job.config, table⟩ c position listed)
      (argumentsFrom job ⟨job.config, table'⟩ c' position listed') := by
  induction parameters generalizing position with
  | nil => exact .nil
  | @cons entry entry' _ _ first _ ih =>
    obtain ⟨p, cName⟩ := entry
    obtain ⟨p', _⟩ := entry'
    obtain ⟨rfl, first⟩ := first
    exact .bind (argument_same tables same first position cName) fun _ _ argument =>
      .bind (ih (position + 1)) fun _ _ others => .cons argument others

include tables same in
theorem arguments_same
    (typed : Forall₂ (SameParameter strict job table table' c.site.scopeValue) parameters parameters') :
    SameResult (SameStop strict) (Forall₂ (SameArgument strict job table table' c.site.scopeValue))
      (arguments job ⟨job.config, table⟩ c parameters) (arguments job ⟨job.config, table'⟩ c' parameters') := by
  have zipped (names : List String) : Forall₂ (fun entry entry' => entry.2 = entry'.2 ∧
      SameParameter strict job table table' c.site.scopeValue entry.1 entry'.1) (parameters.zip names)
      (parameters'.zip names) := by
    induction typed generalizing names with
    | nil => exact .nil
    | cons first _ ih =>
      cases names with
      | nil => exact .nil
      | cons name rest => exact .cons ⟨rfl, first⟩ (ih rest)
  have names : parameters.map (·.name) = parameters'.map (·.name) := map_eq_of_forall₂ typed fun _ _ both => both.name
  have position : firstPosition c = firstPosition c' := by rw [firstPosition, firstPosition, same.role]
  unfold arguments
  rw [same.site.checkScope, checkParameterNames_eq same, names, position]
  cases c'.site.checkScope with
  | error cause => rfl
  | ok _ =>
    cases checkParameterNames c' with
    | error cause => rfl
    | ok _ => exact argumentsFrom_same tables same (zipped _) _

include tables same in
theorem convertedResult_same :
    SameResult (SameStop strict) (Option.Rel (SameConverted strict job table table' c.site.scopeValue))
      (convertedResult job ⟨job.config, table⟩ c) (convertedResult job ⟨job.config, table'⟩ c') := by
  unfold convertedResult
  rw [same.isVoid]
  split
  · exact .none
  · rw [categoryOf_eq tables same same.result]
    simp only [typemap_eq same same.result, qualified_eq tables same same.result]
    cases categoryOf ⟨job.config, table'⟩ c' c'.result with
    | error halt => rfl
    | ok category =>
      dsimp only [Except.mapError, bind, Except.bind]
      cases typemap? job ⟨job.config, table'⟩ .output c'.result c'.site.scopeName (some category) with
      | none =>
        intro exactly
        rw [same.result.written exactly, same.symName]
      | some output => exact .some ⟨same.result, rfl, rfl, rfl⟩

include tables same in
theorem plan_same
    (typed : Forall₂ (SameParameter strict job table table' c.site.scopeValue) parameters parameters') :
    SameResult (SameStop strict) (SamePlan pairing strict job table table') (plan job ⟨job.config, table⟩ c parameters)
      (plan job ⟨job.config, table'⟩ c' parameters') := by
  refine .bind (arguments_same tables same typed) fun args args' arguments =>
    .bind (convertedResult_same tables same) fun result result' converted => ⟨same, arguments, converted, ?_⟩
  refine map_eq_of_forall₂ typed fun p p' parameter => ?_
  rw [← same.site.scopeName]
  exact tables.overloadCode_eq parameter.type.resolve_scopeName

end plans

/-! ### Calls -/

section calls

variable {scope : Value} {a a' : Argument} {args args' : List Argument}

theorem SameArgument.passed_eq (same : SameArgument strict job table table' scope a a') : passed a = passed a' := by
  rw [passed, passed, same.type.isRvalueReference, same.type.isReference, same.localName, same.category]

theorem passedList_eq (same : Forall₂ (SameArgument strict job table table' scope) args args') :
    passedList args = passedList args' :=
  congrArg (Text.join ", ") (map_eq_of_forall₂ same fun _ _ argument => argument.passed_eq)

variable {c c' : Callable} (tables : table.Counterpart pairing table')
  (same : SameCallable pairing strict job table table' c c')

include same in
theorem SameCallable.callName : c.callName = c'.callName := by
  rw [Callable.callName, Callable.callName, same.baseName]
  exact congrArg _ same.site.shortName

include same in
theorem selfAccess_eq : selfAccess c = selfAccess c' := by
  unfold selfAccess
  refine rel_elim same.inheritedFrom rfl fun _ _ twin => ?_
  simp only [(pairing.namesake twin).qualifiedName]

include same in
theorem ownerName_eq : ownerName c = ownerName c' := by
  unfold ownerName
  refine rel_elim same.owner rfl fun _ _ twin => ?_
  simp only [map_some, (pairing.namesake twin).qualifiedName]

include same in
theorem target_eq (arguments : Forall₂ (SameArgument strict job table table' scope) args args') :
    target c args = target c' args' := by
  simp only [target, same.role, selfAccess_eq same, ownerName_eq same, same.callName, passedList_eq arguments,
    same.site.qualifiedName]

include same in
theorem checkTarget_eq : checkTarget c = checkTarget c' := by
  have owner : c.owner.forM checkQualified = c'.owner.forM checkQualified :=
    forM_eq_of_rel same.owner fun _ _ twin => (pairing.namesake twin).checkQualified
  have origin : c.inheritedFrom.forM checkQualified = c'.inheritedFrom.forM checkQualified :=
    forM_eq_of_rel same.inheritedFrom fun _ _ twin => (pairing.namesake twin).checkQualified
  have name : c.checkCallName = c'.checkCallName := by
    have declared : c.decl.checkName = c'.decl.checkName := same.site.checkName
    rw [Callable.checkCallName, Callable.checkCallName, same.baseName, declared]
  simp only [checkTarget, owner, origin, name, same.role, same.site.checkQualified]

theorem keepResult_eq {result result' : ConvertedResult}
    (converted : SameConverted strict job table table' scope result result')
    (expression : String) :
    keepResult result.toResultLocal expression = keepResult result'.toResultLocal expression := by
  rw [keepResult, keepResult, converted.category, converted.localType, converted.type.isReference]

include tables same in
theorem isObjectVariable_eq : isObjectVariable ⟨job.config, table⟩ c = isObjectVariable ⟨job.config, table'⟩ c' := by
  unfold isObjectVariable
  refine rel_elim same.declared rfl fun _ _ type => ?_
  simp only [categoryOf_eq tables same type]

include tables same in
theorem action_eq {result result' : Option ConvertedResult}
    (arguments : Forall₂ (SameArgument strict job table table' scope) args args')
    (converted : Option.Rel (SameConverted strict job table table' scope) result result') :
    action ⟨job.config, table⟩ c args (result.map (·.toResultLocal)) =
      action ⟨job.config, table'⟩ c' args' (result'.map (·.toResultLocal)) := by
  simp only [action, readVariable, same.role, target_eq same arguments, passedList_eq arguments, ownerName_eq same,
    isObjectVariable_eq tables same]
  cases converted with
  | none => simp only [map_none]
  | some converted => simp only [map_some, evaluate, keepResult_eq converted, converted.localType]

include same in
theorem userCode_eq (key : String) : userCode c.decl key = userCode c'.decl key := by
  have feature : c.decl.feature key = c'.decl.feature key := same.site.feature key
  rw [userCode, userCode, feature]

include same in
theorem guardOf_eq (support : ExceptionSupport) : guardOf support c = guardOf support c' := by
  have cannotThrow : c.decl.cannotThrow = c'.decl.cannotThrow := same.site.cannotThrow
  simp only [guardOf, userCode_eq same, cannotThrow]

include same in
theorem checkExpansion_eq (code : Value) : checkExpansion c code = checkExpansion c' code := by
  rw [checkExpansion, checkExpansion, same.symbol]

end calls

/-! ### Signatures and bodies -/

namespace SamePlan

variable {p p' : Plan} {a a' : Argument} (tables : table.Counterpart pairing table')
  (same : SamePlan pairing strict job table table' p p')

include same in
theorem visible : Forall₂ (SameArgument strict job table table' p.callable.site.scopeValue) p.visible p'.visible :=
  forall₂_filter same.args fun _ _ argument => by rw [Argument.isVisible, Argument.isVisible, argument.input]

include same in
theorem selfParameter_eq (side : Side) : p.selfParameter job side = p'.selfParameter job side := by
  unfold selfParameter
  rw [same.callable.role]
  split
  · refine rel_elim same.callable.owner rfl fun owner owner' twin => ?_
    have struct : selfStruct job owner side = selfStruct job owner' side := by
      cases side with
      | header => exact proxyName_eq job.config (pairing.namesake twin)
      | implementation => rfl
    simp only [struct]
  · rfl

include tables same in
theorem argumentType_eq (argument : SameArgument strict job table table' p.callable.site.scopeValue a a')
    (side : Side) :
    p.argumentType job ⟨job.config, table⟩ side a = p'.argumentType job ⟨job.config, table'⟩ side a' := by
  rw [argumentType, argumentType, argument.category]
  exact cTypeOf_same tables same.callable argument.type a'.category side

include tables same in
theorem resultType_eq (side : Side) :
    p.resultType job ⟨job.config, table⟩ side = p'.resultType job ⟨job.config, table'⟩ side := by
  unfold resultType
  refine rel_elim same.result rfl fun result result' converted => ?_
  simp only [converted.category]
  exact cTypeOf_same tables same.callable converted.type result'.category side

include tables same in
theorem signature_eq (symbol : String) (side : Side) :
    p.signature job ⟨job.config, table⟩ symbol side = p'.signature job ⟨job.config, table'⟩ symbol side := by
  have parameters : (p.visible.map fun a =>
      (⟨a.cName, .c (p.argumentType job ⟨job.config, table⟩ side a).text⟩ : SignatureParameter)) =
      p'.visible.map fun a => ⟨a.cName, .c (p'.argumentType job ⟨job.config, table'⟩ side a).text⟩ :=
    map_eq_of_forall₂ same.visible fun a a' argument => by rw [argument.cName, same.argumentType_eq tables argument]
  rw [signature, signature, same.selfParameter_eq, parameters, same.resultType_eq tables]

include tables same in
theorem values_eq (argument : SameArgument strict job table table' p.callable.site.scopeValue a a') :
    p.values ⟨job.config, table⟩ a = p'.values ⟨job.config, table'⟩ a' := by
  have qualified : table.qualified a.type p.scope = table'.qualified a'.type p'.scope :=
    qualified_eq tables same.callable argument.type
  simp only [values, argument.localName, argument.cName, argument.localType, same.callable.symName, qualified]

include same in
theorem selfLocal_eq : p.selfLocal = p'.selfLocal := by
  rw [selfLocal, selfLocal, same.callable.role, ownerName_eq same.callable]

include tables same in
theorem locals_eq : p.locals job ⟨job.config, table⟩ = p'.locals job ⟨job.config, table'⟩ := by
  have arguments : (p.args.map fun a => declareLocal a.localType a.localName) =
      p'.args.map fun a => declareLocal a.localType a.localName :=
    map_eq_of_forall₂ same.args fun _ _ argument => by rw [argument.localType, argument.localName]
  have result (line : String) : (p.result.toList.map fun _ => line) = p'.result.toList.map fun _ => line :=
    map_toList_eq_of_rel same.result fun _ _ _ => rfl
  have returned : (p.result.toList.map fun result => declareLocal result.localType "cppresult") =
      p'.result.toList.map fun result => declareLocal result.localType "cppresult" :=
    map_toList_eq_of_rel same.result fun _ _ converted => by rw [converted.localType]
  simp only [locals, same.selfLocal_eq, arguments, same.resultType_eq tables, result, returned]

include tables same in
theorem conversions_eq : p.conversions ⟨job.config, table⟩ = p'.conversions ⟨job.config, table'⟩ := by
  have inputs : (p.args.map fun a => Typemap.expand a.input.text (p.values ⟨job.config, table⟩ a)) =
      p'.args.map fun a => Typemap.expand a.input.text (p'.values ⟨job.config, table'⟩ a) :=
    map_eq_of_forall₂ same.args fun _ _ argument => by rw [argument.input, same.values_eq tables argument]
  rw [conversions, conversions, same.selfLocal_eq, inputs]
  refine congrArg _ (filterMap_eq_of_forall₂ same.args fun _ _ argument => ?_)
  rw [argument.check, same.values_eq tables argument, same.callable.symName]

include same in
theorem checkOpening_eq : p.checkOpening = p'.checkOpening := by
  have inputs : (p.args.forM fun a => checkExpansion p.callable a.input.code) =
      p'.args.forM fun a => checkExpansion p'.callable a.input.code :=
    forM_eq_of_forall₂ same.args fun _ _ argument => by rw [argument.input, checkExpansion_eq same.callable]
  have checks : (p.args.forM fun a => a.check.forM fun check => do
      checkExpansion p.callable check.code
      p.callable.symbol.checkPart) = p'.args.forM (fun a => a.check.forM fun check => do
        checkExpansion p'.callable check.code
        p'.callable.symbol.checkPart) := by
    refine forM_eq_of_forall₂ same.args fun _ _ argument => ?_
    rw [argument.check]
    simp only [checkExpansion_eq same.callable, same.callable.symbol]
  unfold checkOpening
  rw [same.callable.role, inputs, checks]
  dsimp only
  split
  · refine congrArg (· >>= _) (forM_eq_of_rel same.callable.owner fun _ _ twin => ?_)
    rw [(pairing.namesake twin).checkQualified, (pairing.namesake twin).qualifiedValue]
  · rfl

include tables same in
theorem releases_eq : p.releases ⟨job.config, table⟩ = p'.releases ⟨job.config, table'⟩ :=
  filterMap_eq_of_forall₂ same.args fun _ _ argument => by
    rw [argument.freearg, argument.localName, same.values_eq tables argument]

include same in
theorem checkClosing_eq : p.checkClosing = p'.checkClosing := by
  refine congrArg₂ (· >>= ·) ?_ (funext fun _ => ?_)
  · refine forM_eq_of_rel same.result fun _ _ converted => ?_
    rw [converted.output, checkExpansion_eq same.callable]
  · refine forM_eq_of_forall₂ same.args fun _ _ argument => ?_
    rw [argument.freearg]
    simp only [checkExpansion_eq same.callable]

include tables same in
theorem resultConversions_eq :
    (p.result.toList.map fun result => p.resultConversion job ⟨job.config, table⟩ result) =
      p'.result.toList.map fun result => p'.resultConversion job ⟨job.config, table'⟩ result := by
  refine map_toList_eq_of_rel same.result fun result result' converted => ?_
  have qualified : table.qualified result.type p.scope = table'.qualified result'.type p'.scope :=
    qualified_eq tables same.callable converted.type
  have new : p.callable.decl.feature "new" = p'.callable.decl.feature "new" := same.callable.site.feature "new"
  simp only [resultConversion, qualified, new, converted.output, same.resultType_eq tables, same.callable.symName]

include tables same in
theorem body_eq (support : ExceptionSupport) :
    p.body job ⟨job.config, table⟩ support = p'.body job ⟨job.config, table'⟩ support := by
  have results : (p.result.toList.map fun _ => "return result;") = p'.result.toList.map fun _ => "return result;" :=
    map_toList_eq_of_rel same.result fun _ _ _ => rfl
  simp only [body, same.checkOpening_eq, same.checkClosing_eq, checkTarget_eq same.callable,
    userCode_eq same.callable, guardOf_eq same.callable, action_eq tables same.callable same.args same.result,
    same.locals_eq tables, same.conversions_eq tables, same.releases_eq tables, same.resultConversions_eq tables,
    results, isSome_eq_of_rel same.result]

end SamePlan

/-! ### Plain C -/

section direct

variable {c c' : Callable} (tables : table.Counterpart pairing table')
  (same : SameCallable pairing true job table table' c c')

include same in
theorem SameCallable.type_eq : c.decl.type = c'.decl.type := by
  exact rel_elim same.declared rfl fun _ _ type => congrArg some (type.written rfl)

theorem eq_of_sameParameters {scope : Value}
    (typed : Forall₂ (SameParameter true job table table' scope) parameters parameters') :
    parameters = parameters' := by
  induction typed with
  | nil => rfl
  | @cons p p' _ _ first _ ih =>
    obtain ⟨name, type⟩ := p
    obtain ⟨name', type'⟩ := p'
    obtain ⟨rfl, types⟩ := first
    obtain rfl : type = type' := types.written rfl
    rw [ih]

include tables same

theorem directTypemap_eq (p : TypedParameter) :
    typemap? job ⟨job.config, table⟩ .check p.type c.site.scopeName none =
      typemap? job ⟨job.config, table'⟩ .check p.type c'.site.scopeName none :=
  typemap_eq same (SameType.refl tables c.site.scopeValue p.type) .check none

theorem checkDirectChecks_eq (parameters : List TypedParameter) :
    checkDirectChecks job ⟨job.config, table⟩ c parameters =
      checkDirectChecks job ⟨job.config, table'⟩ c' parameters := by
  refine forM_eq_of_forall₂ (forall₂_same.mpr fun p _ => rfl) fun p p' found => ?_
  obtain rfl : p = p' := found
  simp only [same.site.checkScope, same.site.scopeValue, tables.checkResolve_eq, directTypemap_eq tables same,
    same.symbol]

theorem directChecks_eq (parameters : List TypedParameter) :
    directChecks job ⟨job.config, table⟩ c parameters = directChecks job ⟨job.config, table'⟩ c' parameters := by
  simp only [directChecks, directTypemap_eq tables same, same.symName]

theorem directBody_eq (parameters : List TypedParameter) :
    directBody job ⟨job.config, table⟩ c parameters = directBody job ⟨job.config, table'⟩ c' parameters := by
  have result : c.result = c'.result := same.result.written rfl
  have name : c.decl.name = c'.decl.name := same.site.name
  have call (names : List String) : directCall c names = directCall c' names := by
    unfold directCall isReadByAddress
    rw [same.role, result, same.type_eq, name]
  simp only [directBody, checkDirectChecks_eq tables same, directChecks_eq tables same, userCode_eq same, call, result]

end direct

end Wrapper

end FlatAbi
