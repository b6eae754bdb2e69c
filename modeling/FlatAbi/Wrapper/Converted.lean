import FlatAbi.Wrapper.Call

/-!
Wrappers of C++ callables: the parameters are converted to locals, the call is made, and the result is converted.
-/

namespace FlatAbi.Wrapper

structure Written where
  symbol : String
  callable : Callable
  inputs : List TypedParameter

def cTypeOf (job : Job) (r : Resolver) (t : CxxType) (scope : String) (category : Category) (side : Side) :
    CRendering :=
  match typemap? job r .ctype t scope (some category) with
  | some typemap =>
    let qualified := r.table.qualified t scope
    ⟨Typemap.expand (Text.trim typemap.text)
      [("1_ltype", qualified.assignable.spelling), ("1_type", qualified.spelling), ("1_basetype", qualified.base)],
     []⟩
  | none => r.cTypeOf t scope side category

def checkCTypeOf (job : Job) (r : Resolver) (t : CxxType) (scope : String) (category : Category) :
    Except Misshapen Unit :=
  match typemap? job r .ctype t scope (some category) with
  | some typemap => typemap.code.checkText
  | none => r.checkCType t scope category

structure ConvertedResult extends ResultLocal where
  output : Typemap

def convertedResult (job : Job) (r : Resolver) (c : Callable) : Except Stop (Option ConvertedResult) :=
  if c.result.isVoid then .ok none
  else do
    let scope := c.site.scopeName
    let category ← (categoryOf r c c.result).mapError .halted
    match typemap? job r .output c.result scope (some category) with
    | none =>
      .error (.skipped ("No \"out\" typemap defined for the return type \"" ++ c.result.spelling ++ "\" of " ++
        c.symName ++ ", wrapper skipped"))
    | some output =>
      return some {
        type := c.result
        category := category
        localType := localTypeOf (r.table.qualified c.result scope) category
        output := output }

structure Plan where
  callable : Callable
  args : List Argument
  result : Option ConvertedResult
  codes : List String

/-- Find all that a wrapper needs, without writing anything. -/
def plan (job : Job) (r : Resolver) (c : Callable) (parameters : List TypedParameter) : Except Stop Plan := do
  let args ← arguments job r c parameters
  let result ← convertedResult job r c
  return ⟨c, args, result, parameters.map fun p => r.table.overloadCode p.type c.site.scopeName⟩

namespace Plan

def scope (p : Plan) : String :=
  p.callable.site.scopeName

def visible (p : Plan) : List Argument :=
  p.args.filter (·.isVisible)

def selfStruct (job : Job) (owner : Site) : Side → String
  | .implementation => "SwigObj"
  | .header => Naming.proxyName job.config owner

def selfParameter (job : Job) (p : Plan) (side : Side) : Except Halt (List SignatureParameter) :=
  if p.callable.role.hasSelf then
    match p.callable.owner with
    | none => .error (.fault .noOwner)
    | some owner => .ok [⟨"self", .handle (selfStruct job owner side)⟩]
  else .ok []

def argumentType (job : Job) (r : Resolver) (p : Plan) (side : Side) (a : Argument) : CRendering :=
  cTypeOf job r a.type p.scope a.category side

def resultType (job : Job) (r : Resolver) (p : Plan) (side : Side) : CRendering :=
  match p.result with
  | none => ⟨"void", []⟩
  | some result => cTypeOf job r result.type p.scope result.category side

def signature (job : Job) (r : Resolver) (p : Plan) (symbol : String) (side : Side) : Except Halt Signature := do
  let self ← p.selfParameter job side
  return {
    symbol := symbol
    parameters := self ++ p.visible.map fun a => ⟨a.cName, .c (p.argumentType job r side a).text⟩
    result := .c (p.resultType job r side).text }

def prototypeTypes (p : Plan) : List (CxxType × Category) :=
  (p.visible.map fun a => (a.type, a.category)) ++ p.result.toList.map fun result => (result.type, result.category)

def prepareHeader (job : Job) (r : Resolver) (p : Plan) : Emit Unit :=
  p.prototypeTypes.forM fun (t, category) => do
    Emit.check (checkCTypeOf job r t p.scope category)
    Emit.require (cTypeOf job r t p.scope category .header).needs

def values (r : Resolver) (p : Plan) (a : Argument) : List (String × String) :=
  [("1", a.localName), ("input", a.cName), ("target", a.localName), ("1_ltype", a.localType.spelling),
   ("1_type", (r.table.qualified a.type p.scope).spelling), ("1_basetype", a.localType.base),
   ("symname", p.callable.symName)]

def declareLocal (t : CxxType) (name : String) : String :=
  t.declare name ++ (if t.isPointer then " = 0" else "") ++ ";"

def selfLocal (p : Plan) : Option CxxType :=
  if p.callable.role.hasSelf then some (.pointerTo (ownerName p.callable)) else none

def locals (job : Job) (r : Resolver) (p : Plan) : List String :=
  (p.result.toList.map fun _ => declareC (p.resultType job r .implementation).text "result" ++ ";") ++
    (p.selfLocal.toList.map fun t => t.declare "arg1" ++ " = 0;") ++
    (p.args.map fun a => declareLocal a.localType a.localName) ++
    (p.result.toList.map fun result => declareLocal result.localType "cppresult")

def conversions (r : Resolver) (p : Plan) : List String :=
  (p.selfLocal.toList.map fun t => "arg1 = (" ++ t.spelling ++ ") self;") ++
    (p.args.map fun a => Typemap.expand a.input.text (p.values r a)) ++
    (p.args.filterMap fun a => a.check.map fun check =>
      Text.replace "$name" p.callable.symName (Typemap.expand check.text (p.values r a)))

def checkOpening (p : Plan) : Except Misshapen Unit := do
  if p.callable.role.hasSelf then
    p.callable.owner.forM fun owner => do
      owner.checkQualified
      owner.qualifiedValue.checkPart
  p.args.forM fun a => checkExpansion p.callable a.input.code
  p.args.forM fun a => a.check.forM fun check => do
    checkExpansion p.callable check.code
    p.callable.symbol.checkPart

def resultConversion (job : Job) (r : Resolver) (p : Plan) (result : ConvertedResult) : String :=
  let qualified := r.table.qualified result.type p.scope
  Typemap.expand (Typemap.insertResultCast result.output.text (p.resultType job r .implementation).text)
    [("1", "cppresult"), ("result", "result"),
     ("owner", if (p.callable.decl.feature "new").truthy then "1" else "0"),
     ("1_ltype", qualified.assignable.spelling), ("1_type", qualified.spelling), ("1_basetype", qualified.base),
     ("symname", p.callable.symName)]

def releases (r : Resolver) (p : Plan) : List String :=
  p.args.filterMap fun a => a.freearg.bind fun freearg =>
    if Text.trim freearg.text == "" then none
    else some (Typemap.expand freearg.text (("source", a.localName) :: p.values r a))

def checkClosing (p : Plan) : Except Misshapen Unit := do
  p.result.forM fun result => do
    result.output.code.checkText
    checkExpansion p.callable result.output.code
  p.args.forM fun a => a.freearg.forM fun freearg => do
    freearg.code.checkText
    if Text.trim freearg.text != "" then checkExpansion p.callable freearg.code

def body (job : Job) (r : Resolver) (support : ExceptionSupport) (p : Plan) : Except Halt Body := do
  Halt.ofMisshapen p.checkOpening
  let prepended ← userCode p.callable.decl "prepend"
  Halt.ofMisshapen (checkTarget p.callable)
  let action ← action r p.callable p.args (p.result.map (·.toResultLocal))
  let guard ← guardOf support p.callable
  let appended ← userCode p.callable.decl "append"
  Halt.ofMisshapen p.checkClosing
  return {
    opening := p.locals job r ++ p.conversions r ++ prepended
    action := action
    guard := guard
    closing := appended ++ (p.result.toList.map fun result => p.resultConversion job r result) ++
      p.releases r ++ (p.result.toList.map fun _ => "return result;")
    null := if p.result.isSome then .zero else .nothing }

end Plan

/-- The symbol of a callable, unless the output defines it already. -/
def reserveSymbol (job : Job) (c : Callable) (codes : List String) : Emit (Option String) := do
  Emit.check (Naming.checkWrapperName c)
  let draft ← get
  let (symbol, names) := draft.names.name job.config c codes
  set { draft with names := names }
  if draft.isDefined symbol then
    Emit.check c.site.checkQualified
    Emit.warn c.site ("Wrapper " ++ symbol ++ " already defined, " ++ c.site.qualifiedName ++ " skipped")
    return none
  else return some symbol

def publish (definition : Definition) (prototype : Signature) (c : Callable) : Emit Unit := do
  Emit.append (.definition definition)
  Emit.append (.prototype prototype)
  Emit.record .function (.string definition.signature.symbol) c.site

def writeConverted (job : Job) (r : Resolver) (p : Plan) (symbol : String) : Emit Written := do
  let implementation ← Emit.lift (p.signature job r symbol .implementation)
  let header ← Emit.lift (p.signature job r symbol .header)
  p.prepareHeader job r
  let body ← Emit.lift (p.body job r (← get).exceptions)
  publish ⟨implementation, body, true⟩ header p.callable
  Emit.tell (.wrapped p.callable.site.qualifiedValue symbol)
  return ⟨symbol, p.callable, p.visible.map fun a => ⟨some a.cName, a.type⟩⟩

def convert (job : Job) (c : Callable) (parameters : List TypedParameter) : Emit (Option Written) := do
  let r ← Emit.resolver job
  match plan job r c parameters with
  | .error (.skipped warning) =>
    Emit.warn c.site warning
    return none
  | .error (.halted halt) => throw halt
  | .ok p =>
    match ← reserveSymbol job c p.codes with
    | none => return none
    | some symbol => return some (← writeConverted job r p symbol)

end FlatAbi.Wrapper
