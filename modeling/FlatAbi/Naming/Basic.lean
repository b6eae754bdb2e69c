import FlatAbi.Config
import FlatAbi.Declaration.Site

/-!
Names of classes, enums and prefixes in C. A class or enum is known in C by its proxy name.
-/

namespace FlatAbi.Naming

/-- The flattened namespace directly around a site, where the tree asks for it. -/
def scopePart? (s : Site) : Option String :=
  match s.scope? with
  | some scope =>
    if scope.kind == .namespaceDecl && scope.usesNamespace then some (Text.flattenName scope.qualifiedName)
    else none
  | none => none

def checkScopePart (s : Site) : Except Misshapen Unit :=
  match s.scope? with
  | some scope =>
    if scope.kind == .namespaceDecl && scope.usesNamespace then do
      scope.checkQualified
      scope.qualifiedValue.checkText
    else .ok ()
  | none => .ok ()

def freePart (config : Config) (s : Site) : String :=
  Text.orElse ((scopePart? s).getD "") (Text.orElse (config.globalPart?.getD "") config.moduleName)

/-- The start of a symbol that belongs to no class, as a value: a module name that is not text stays what it is. -/
def freeValue (config : Config) (s : Site) : Value :=
  if (scopePart? s).getD "" == "" && config.globalPart?.getD "" == "" then config.givenModule
  else .string (freePart config s)

/-- The flattened namespace or the global part before the name of a class, where there is one. -/
def proxyPart? (config : Config) (s : Site) : Option String :=
  if s.namespaceName != "" && s.usesNamespace then some (Text.flattenName s.namespaceName)
  else
    let global := config.globalPart?.getD ""
    if global != "" then some global else none

def proxyName (config : Config) (s : Site) : String :=
  match proxyPart? config s with
  | some part => part ++ "_" ++ s.decl.symbol
  | none => s.decl.symbol

/-- The name of a class in C as a value: a symbol that is not text stays what it is where nothing is put before it. -/
def proxyValue (config : Config) (s : Site) : Value :=
  match proxyPart? config s with
  | some part => .string (part ++ "_" ++ s.decl.symbol)
  | none => s.decl.symbolValue

def checkProxy (s : Site) : Except Misshapen Unit :=
  s.checkNamespace

def classPointer (config : Config) (s : Site) : String :=
  "SwigObj_" ++ proxyName config s ++ "*"

def enumPart (config : Config) (s : Site) : String :=
  match s.enclosingClass? with
  | some owner => proxyName config owner
  | none => freePart config s

def enumPartValue (config : Config) (s : Site) : Value :=
  match s.enclosingClass? with
  | some owner => proxyValue config owner
  | none => freeValue config s

def checkEnumPart (s : Site) : Except Misshapen Unit :=
  match s.enclosingClass? with
  | some owner => checkProxy owner
  | none => checkScopePart s

def isAnonymous (d : Declaration) : Bool :=
  (d.attr "unnamed").truthy || !d.hasName

def enumTag? (config : Config) (s : Site) : Option String :=
  if isAnonymous s.decl then none else some (enumPart config s ++ "_" ++ s.decl.shortName)

def checkEnumTag (s : Site) : Except Misshapen Unit :=
  if isAnonymous s.decl then .ok ()
  else do
    checkEnumPart s
    s.decl.checkName

/-- How C refers to the type of an enum: by its typedef, or by its tag after the keyword. -/
def enumType? (config : Config) (s : Site) : Option String :=
  let written := s.decl.attr "tdname"
  if written.truthy then some (enumPart config s ++ "_" ++ written.display)
  else (enumTag? config s).map fun tag => "enum " ++ tag

def checkEnumType (s : Site) : Except Misshapen Unit :=
  if (s.decl.attr "tdname").truthy then checkEnumPart s else checkEnumTag s

/-- What tells overloads apart: one code per parameter, after `_const` for the `const` one of two equals. -/
def overloadSuffix (codes : List String) (constOverloaded : Bool) : String :=
  (if constOverloaded then "_const" else "") ++ Text.concat (codes.map ("_" ++ ·))

end FlatAbi.Naming
