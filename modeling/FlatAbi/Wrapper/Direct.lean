import FlatAbi.Wrapper.Converted

/-!
Wrappers of plain C callables. A wrapper has the types of what it wraps and calls it directly.
-/

namespace FlatAbi.Wrapper

def directNames (parameters : List TypedParameter) : List String :=
  parameterNames 1 (parameters.map (·.name))

def directInputs (parameters : List TypedParameter) : List TypedParameter :=
  (parameters.zip (directNames parameters)).map fun (p, name) => ⟨some name, p.type⟩

def directSignature (c : Callable) (parameters : List TypedParameter) (symbol : String) : Signature :=
  { symbol := symbol
    parameters := (parameters.zip (directNames parameters)).map fun (p, name) => ⟨name, .written p.type⟩
    result := .written c.result }

/-- A wrapper with a bool in it needs the bool header, as long as it has parameters. -/
def directNeeds (c : Callable) (parameters : List TypedParameter) : List Need :=
  if parameters.any fun p => p.type.base == "bool" || c.result.base == "bool" then [.boolSupport] else []

def directChecks (job : Job) (r : Resolver) (c : Callable) (parameters : List TypedParameter) : List String :=
  (parameters.zip (directNames parameters)).filterMap fun (p, name) =>
    (typemap? job r .check p.type c.site.scopeName none).map fun check =>
      Text.replace "$name" c.symName (Text.replace "$target" name check.text)

def checkDirectChecks (job : Job) (r : Resolver) (c : Callable) (parameters : List TypedParameter) :
    Except Misshapen Unit :=
  parameters.forM fun p => do
    c.site.checkScope
    r.table.checkResolve p.type c.site.scopeValue
    (typemap? job r .check p.type c.site.scopeName none).forM fun check => do
      check.code.checkText
      c.symbol.checkPart

/-- A variable that is not a pointer is returned by address when the result is one. -/
def isReadByAddress (c : Callable) : Bool :=
  c.result.isPointer && c.decl.type.any fun t => !t.isPointer

def directCall (c : Callable) (names : List String) : Except Halt String :=
  match c.role with
  | .globalGet => .ok ((if isReadByAddress c then "&" else "") ++ c.decl.name ++ ";")
  | .globalSet =>
    match names with
    | [] => .error (.fault .noArgument)
    | value :: _ => .ok (c.decl.name ++ " = " ++ value ++ ";")
  | _ => .ok (c.decl.name ++ "(" ++ Text.join ", " names ++ ");")

def directBody (job : Job) (r : Resolver) (c : Callable) (parameters : List TypedParameter) : Except Halt Body := do
  Halt.ofMisshapen (checkDirectChecks job r c parameters)
  let prepended ← userCode c.decl "prepend"
  let call ← directCall c (directNames parameters)
  let appended ← userCode c.decl "append"
  let hasResult := !c.result.isVoid
  return {
    opening := directChecks job r c parameters ++ prepended ++
      (if hasResult then [c.result.declare "result" ++ ";"] else [])
    action := (if hasResult then "result = " else "") ++ call
    guard := .bare
    closing := appended ++ (if hasResult then ["return result;"] else [])
    null := .untouched }

def direct (job : Job) (c : Callable) (parameters : List TypedParameter) : Emit (Option Written) := do
  let r ← Emit.resolver job
  match ← reserveSymbol job c [] with
  | none => return none
  | some symbol =>
    Emit.check (checkParameterNames c)
    Emit.require (directNeeds c parameters)
    let body ← Emit.lift (directBody job r c parameters)
    let signature := directSignature c parameters symbol
    publish ⟨signature, body, false⟩ signature c
    return some ⟨symbol, c, directInputs parameters⟩

/-- Write the wrapper of a callable. Nothing is returned when it was skipped with a warning. -/
def write (job : Job) (c : Callable) : Emit (Option Written) := do
  let parameters ← Emit.lift (typedParameters c)
  if job.config.cplusplus then convert job c parameters else direct job c parameters

end FlatAbi.Wrapper
