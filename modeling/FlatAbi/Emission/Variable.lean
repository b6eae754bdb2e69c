import FlatAbi.Emission.Draft

/-!
Variables that C can declare as they are.
-/

namespace FlatAbi.Variable

/-- The type of a variable in C with what the header needs for it; none where C cannot represent it. -/
structure CVariable where
  type : CxxType
  needs : List Need := []
  deriving DecidableEq, Repr

def noType {α : Type} (site : Site) : Except Halt α := do
  Halt.ofMisshapen site.checkQualified
  .error (.rejected ("Variable " ++ site.qualifiedName ++ " has no type") (some site))

def anonymousInstance (r : Resolver) (site : Site) (t : CxxType) : Except Halt CVariable :=
  if t.isEnum || (r.table.enumOf? t site.scopeName).isSome then .ok ⟨t.withBase "int", []⟩
  else .error (.rejected "Variables of anonymous non-enum types are not supported." (some site))

/-- The type in C: an enum by its C name, in C++ only builtins, in plain C every type as it is. -/
def namedType? (r : Resolver) (site : Site) (t : CxxType) : Option CxxType :=
  let scope := site.scopeName
  let resolved := if r.config.cplusplus then r.table.resolve t scope else t
  let enum := r.table.enumOf? resolved scope
  if resolved.isEnum || enum.isSome then
    some (resolved.withBase ((enum.bind (Naming.enumType? r.config)).getD "int"))
  else if r.config.cplusplus then
    if resolved.isReference || !resolved.isBuiltin then none else some resolved
  else some t

def checkEnum (r : Resolver) (site : Site) (t : CxxType) : Except Misshapen Unit := do
  let scope := site.scopeName
  let resolved := if r.config.cplusplus then r.table.resolve t scope else t
  r.table.checkResolve resolved site.scopeValue
  (r.table.enumOf? resolved scope).forM Naming.checkEnumType

def cVariable? (r : Resolver) (site : Site) : Except Halt (Option CVariable) := do
  Halt.ofMisshapen site.checkScope
  Halt.ofMisshapen site.decl.checkName
  match site.decl.type with
  | none => noType site
  | some t =>
    if (site.decl.attr "unnamedinstance").truthy then
      if !t.isEnum then Halt.ofMisshapen (r.table.checkResolve t site.scopeValue)
      (anonymousInstance r site t).map some
    else
      Halt.ofMisshapen (r.table.checkResolve t site.scopeValue)
      Halt.ofMisshapen (checkEnum r site t)
      return (namedType? r site t).map fun found =>
        ⟨found, if found.base == "bool" then [.boolSupport] else []⟩

def declaration (site : Site) (t : CxxType) : String :=
  (if t.isArray then t.withOutermost (.array "") else t).declare site.decl.shortName

def declare? (job : Job) (site : Site) : Emit (Option String) := do
  let r ← Emit.resolver job
  match ← Emit.lift (cVariable? r site) with
  | none => return none
  | some found =>
    Emit.require found.needs
    return some (declaration site found.type)

/-- A variable outside all namespaces may be exported under its own name, unless all symbols get a global part. -/
def isExportable (config : Config) (site : Site) : Bool :=
  config.globalPart?.isNone && site.namespaceName == ""

/-- Export a variable as it is. False means that it needs accessors. -/
def exportDirectly (job : Job) (site : Site) : Emit Bool := do
  if site.decl.isStatic then return true
  if job.config.globalPart?.isNone then Emit.check site.checkNamespace
  if !isExportable job.config site then return false
  match ← declare? job site with
  | none => return false
  | some declaration =>
    Emit.append (.variableDeclaration declaration)
    Emit.record .variable (.string site.decl.shortName) site
    return true

end FlatAbi.Variable
