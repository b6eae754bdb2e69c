import FlatAbi.CxxType.Printer
import FlatAbi.CxxType.Reader
import FlatAbi.Resolver.Symbols
import FlatAbi.Typemap.Category

/-!
Types seen through typedefs, their categories, and the codes of overloads and opaque types.
-/

namespace FlatAbi

namespace SymbolTable

def strike (name : String) (names : List String) : List String :=
  names.filter (· != name)

theorem strike_length {name : String} {names : List String} (listed : name ∈ names) :
    (strike name names).length < names.length :=
  List.length_filter_lt_length_iff_exists.mpr ⟨name, listed, by simp⟩

/-- Replace the base of a type by what it stands for, as long as it names a typedef. Each following base is looked
up where the typedef was declared. A base is replaced only while it is `pending`, so a cycle of typedefs ends. -/
def resolveFrom (table : SymbolTable) (pending : List String) (t : CxxType) (scope : String) : CxxType :=
  if t.isBuiltin then t
  else if _open : t.base ∈ pending then
    match table.typedef? t.base scope with
    | none => t
    | some site =>
      match site.decl.type with
      | none => t
      | some target =>
        table.resolveFrom (strike t.base pending) (target.under t.declarators) site.scopeName
  else t
termination_by pending.length
decreasing_by exact strike_length _open

def typedefBases (table : SymbolTable) : List String :=
  table.typedefs.filterMap fun (_, site) => site.decl.type.map (·.base)

def resolve (table : SymbolTable) (t : CxxType) (scope : String) : CxxType :=
  table.resolveFrom (t.base :: table.typedefBases) t scope

/-- Names can be looked up on the way of a resolution: each scope on it is text. -/
def checkFrom (table : SymbolTable) (pending : List String) (t : CxxType) (scope : Value) : Except Misshapen Unit :=
  if t.isBuiltin then .ok ()
  else if _open : t.base ∈ pending then do
    scope.checkText
    match table.typedef? t.base scope.display with
    | none => return
    | some site =>
      match site.decl.type with
      | none => return
      | some target =>
        site.checkScope
        table.checkFrom (strike t.base pending) (target.under t.declarators) site.scopeValue
  else .ok ()
termination_by pending.length
decreasing_by exact strike_length _open

def checkResolve (table : SymbolTable) (t : CxxType) (scope : Value) : Except Misshapen Unit :=
  table.checkFrom (t.base :: table.typedefBases) t scope

/-- A type can be resolved from a scope, and so can the result and the arguments of a function behind a pointer. -/
def checkType (table : SymbolTable) (t : CxxType) (scope : Value) : Except Misshapen Unit := do
  table.checkResolve t scope
  let resolved := table.resolve t scope.display
  if (resolved.isPointer || resolved.isMemberPointer) && resolved.pop.isFunction then
    table.checkResolve resolved.pop.pop scope
    match resolved.pop.functionArguments with
    | .ok arguments => arguments.forM fun t => table.checkResolve t scope
    | .error _ => return

def enumOf? (table : SymbolTable) (t : CxxType) (scope : String) : Option Site :=
  let resolved := table.resolve t scope
  if resolved.isBuiltin then none else table.enum? resolved.base scope

/-- A type with its typedefs replaced and a class or enum under its fully qualified name, which can be used
anywhere in the implementation unit. -/
def qualified (table : SymbolTable) (t : CxxType) (scope : String) : CxxType :=
  let resolved := table.resolve t scope
  if resolved.isBuiltin then resolved
  else
    match (table.class? resolved.base scope).or (table.enum? resolved.base scope) with
    | none => resolved
    | some site =>
      if !site.decl.hasName || (site.decl.attr "unnamed").truthy then resolved
      else resolved.withBase site.qualifiedName

def isEnumBased (table : SymbolTable) (resolved : CxxType) (scope : String) : Bool :=
  resolved.isEnum || (table.enum? resolved.base scope).isSome

def isCSignature (table : SymbolTable) (function : CxxType) (scope : String) : Except TypeSyntaxError Bool := do
  let arguments ← function.functionArguments
  return (function.pop :: arguments).all fun t => (table.resolve t scope).isBuiltin

def scalarCategory (builtin : Bool) (resolved : CxxType) : Category :=
  match resolved.stripQualifiers.declarators with
  | [] => if builtin then .builtin else .enumeration
  | [.lvalueReference] | [.rvalueReference] =>
    if resolved.pop.isConst then if builtin then .builtinConstRef else .enumConstRef
    else if builtin then .builtinRef else .enumPointer
  | _ => if builtin then .builtinPointer else .enumPointer

def classCategory (resolved : CxxType) : Category :=
  match resolved.stripQualifiers.declarators with
  | [] => .classValue
  | [d] =>
    if d == .pointer || d.isArray then .classPointer
    else if d.isReference then .classRef
    else .unknownPointer
  | _ => .unknownPointer

def unknownCategory (resolved : CxxType) : Category :=
  match resolved.stripQualifiers.declarators with
  | [] => .unknownValue
  | [.lvalueReference] | [.rvalueReference] => .unknownRef
  | _ => .unknownPointer

def objectCategory (table : SymbolTable) (resolved : CxxType) (scope : String) : Category :=
  if resolved.isBuiltin then scalarCategory true resolved
  else if table.isEnumBased resolved scope then scalarCategory false resolved
  else if (table.class? resolved.base scope).isSome then classCategory resolved
  else unknownCategory resolved

/-- Classify a type. The arguments of a function pointer are read here for the first time, so this can fail. -/
def category (table : SymbolTable) (t : CxxType) (scope : String) : Except TypeSyntaxError Category :=
  let resolved := table.resolve t scope
  if resolved.isVoid then .ok .void
  else if (resolved.isPointer || resolved.isMemberPointer) && resolved.pop.isFunction then do
    if ← table.isCSignature resolved.pop scope then return .functionPointer else return .unknownPointer
  else .ok (table.objectCategory resolved scope)

/-- The name of the opaque struct that stands for a type that C cannot express. -/
def opaqueName (table : SymbolTable) (t : CxxType) (scope : String) : String :=
  let bare := (table.resolve t scope).stripQualifiers
  let handle := match bare.declarators with
    | [] => bare.addPointer
    | d :: rest => if d.isReference then ⟨bare.base, .pointer :: rest⟩ else bare
  "SWIGTYPE" ++ handle.handleName

/-- The code of a base name in the name of an overload. Fixed width typedefs would collide on their first
letter. -/
def baseCode (table : SymbolTable) (resolved : CxxType) (scope : String) : String :=
  if scalarTypedefs.contains resolved.base then resolved.base
  else if resolved.isBuiltin then String.ofList (resolved.base.toList.take 1)
  else if table.isEnumBased resolved scope then "e" ++ Text.lastComponent (normalizeName resolved.base)
  else Text.flattenName (normalizeName resolved.base)

def overloadCode (table : SymbolTable) (t : CxxType) (scope : String) : String :=
  let resolved := table.resolve t scope
  let shown := if resolved.isMemberPointer then resolved.withOutermost .pointer else resolved
  if shown.isPointer && shown.pop.isFunction then "f"
  else Text.concat (shown.declarators.map Declarator.overloadCode) ++ table.baseCode shown scope

end SymbolTable

end FlatAbi
