import FlatAbi.Wrapper.Argument

/-!
The call that a C++ wrapper makes, and what guards it.
-/

namespace FlatAbi.Wrapper

def passed (a : Argument) : String :=
  if a.type.isRvalueReference then "std::move(*" ++ a.localName ++ ")"
  else if a.type.isReference || a.category.isObjectByValue then "*" ++ a.localName
  else a.localName

def passedList (args : List Argument) : String :=
  Text.join ", " (args.map passed)

/-- Access to a member of the object. An inherited member is reached through the class it comes from. -/
def selfAccess (c : Callable) : String :=
  match c.inheritedFrom with
  | some origin => "((" ++ origin.qualifiedName ++ " *)arg1)->"
  | none => "(arg1)->"

def ownerName (c : Callable) : String :=
  (c.owner.map (·.qualifiedName)).getD ""

def target (c : Callable) (args : List Argument) : String :=
  match c.role with
  | .method => selfAccess c ++ c.callName ++ "(" ++ passedList args ++ ")"
  | .staticMethod => ownerName c ++ "::" ++ c.callName ++ "(" ++ passedList args ++ ")"
  | .function => c.site.qualifiedName ++ "(" ++ passedList args ++ ")"
  | .memberGet | .memberSet => selfAccess c ++ c.callName
  | .staticGet | .staticSet => ownerName c ++ "::" ++ c.callName
  | _ => c.site.qualifiedName

def checkTarget (c : Callable) : Except Misshapen Unit := do
  c.owner.forM fun owner => owner.checkQualified
  match c.role with
  | .method | .memberGet | .memberSet =>
    c.inheritedFrom.forM fun origin => origin.checkQualified
    c.checkCallName
  | .staticMethod | .staticGet | .staticSet => c.checkCallName
  | .function | .globalGet | .globalSet => c.site.checkQualified
  | .constructor | .copyConstructor | .destructor => return

structure ResultLocal where
  type : CxxType
  category : Category
  localType : CxxType
  deriving DecidableEq, Repr

/-- Keep the value of an expression as the result. An object is copied, a reference is kept by address. -/
def keepResult (result : ResultLocal) (expression : String) : String :=
  if result.category.isObjectByValue then
    "cppresult = new " ++ result.localType.pop.spelling ++ "(" ++ expression ++ ");"
  else if result.type.isReference then
    "cppresult = (" ++ result.localType.spelling ++ ") &(" ++ expression ++ ");"
  else "cppresult = (" ++ result.localType.spelling ++ ") " ++ expression ++ ";"

def isObjectVariable (r : Resolver) (c : Callable) : Except Halt Bool :=
  match c.decl.type with
  | none => .ok false
  | some t => do
    let category ← categoryOf r c t
    return category.isObjectByValue

def evaluate (result : Option ResultLocal) (expression : String) : String :=
  match result with
  | none => expression ++ ";"
  | some result => keepResult result expression

def readVariable (r : Resolver) (c : Callable) (args : List Argument) (result : Option ResultLocal) :
    Except Halt String := do
  if ← isObjectVariable r c then
    match result with
    | none => .error (.fault .noResult)
    | some result => return "cppresult = (" ++ result.localType.spelling ++ ") &(" ++ target c args ++ ");"
  else return evaluate result (target c args)

def action (r : Resolver) (c : Callable) (args : List Argument) (result : Option ResultLocal) : Except Halt String :=
  match c.role with
  | .constructor | .copyConstructor =>
    match result with
    | none => .error (.fault .noResult)
    | some result =>
      .ok ("cppresult = (" ++ result.localType.spelling ++ ") new " ++ ownerName c ++ "(" ++ passedList args ++ ");")
  | .destructor => .ok "delete arg1;"
  | .memberSet | .staticSet | .globalSet => .ok (target c args ++ " = " ++ passedList args ++ ";")
  | .memberGet | .staticGet | .globalGet => readVariable r c args result
  | .function | .method | .staticMethod => .ok (evaluate result (target c args))

def userCode (d : Declaration) (key : String) : Except Halt (List String) :=
  if !(d.feature key).truthy then .ok []
  else do
    let code ← Halt.ofMisshapen (d.feature key).toText
    return [Text.stripBraces code]

/-- What guards the call: the user's handler, nothing where no exception can come out, else the standard handler. -/
def guardOf (support : ExceptionSupport) (c : Callable) : Except Halt Guard := do
  match ← userCode c.decl "except" with
  | handler :: _ => return .custom handler
  | [] => if support == .disabled || c.decl.cannotThrow then return .bare else return .standard

end FlatAbi.Wrapper
