import FlatAbi.Emission.Variable
import FlatAbi.Facade.Basic

/-!
The callables of a class: its own, the inherited ones, and those that it has without declaring them.
-/

namespace FlatAbi.Members

def hasSetter (d : Declaration) : Bool :=
  match d.type with
  | none => false
  | some t => !(d.feature "immutable").truthy && !(t.isConst || t.isArray || t.isReference)

/-- The result of a getter. An object is returned by address. -/
def getterResult (config : Config) (t : CxxType) (category : Category) : CxxType :=
  if category == .classValue && config.cplusplus then t.stripQualifiers.under [.lvalueReference]
  else if category.isObjectByValue then t.stripQualifiers.addPointer
  else t

/-- The getter of a variable and, where it can be assigned, its setter. `shape` has what the two share, the getter's
role included. -/
def accessors (r : Resolver) (shape : Callable) (setter : Role) : Except Halt (List Callable) :=
  match shape.decl.type with
  | none => Variable.noType shape.site
  | some t => do
    Halt.ofMisshapen shape.site.checkScope
    let category ← Wrapper.categoryOf r shape t
    let getter := { shape with result := getterResult r.config t category }
    if hasSetter shape.decl then
      return [getter, { shape with role := setter, parameters := [{ name := .string "value", type := some t }] }]
    else return [getter]

def pointerType (cls : Site) : CxxType :=
  .pointerTo cls.qualifiedName

def constructorRole (d : Declaration) : Role :=
  if (d.attr "copy_constructor").truthy then .copyConstructor else .constructor

/-- The callables of a public child of a class. An abstract class has no constructors. -/
def ofChild (r : Resolver) (cls : Site) (abstract : Bool) (child : Site) : Except Halt (List Callable) :=
  match child.kind with
  | .constructorDecl =>
    if abstract then .ok []
    else .ok [{ site := child, role := constructorRole child.decl, symbol := cls.decl.symbolValue,
                result := pointerType cls, parameters := child.decl.parameters, owner := some cls }]
  | .destructorDecl =>
    .ok [{ site := child, role := .destructor, symbol := cls.decl.symbolValue, result := .void, owner := some cls }]
  | .functionDecl =>
    if child.decl.isFriend then .ok []
    else do
      Halt.ofMisshapen child.decl.symbolValue.checkKey
      return [{ site := child, role := if child.decl.isStatic then .staticMethod else .method,
                symbol := child.decl.symbolValue, result := child.decl.type.getD .void,
                parameters := child.decl.parameters, owner := some cls }]
  | .variableDecl =>
    accessors r
      { site := child, role := if child.decl.isStatic then .staticGet else .memberGet,
        symbol := child.decl.symbolValue, result := .void, owner := some cls }
      (if child.decl.isStatic then .staticSet else .memberSet)
  | _ => .ok []

def ofShadow (r : Resolver) (cls : Site) (m : Shadow) : Except Halt (List Callable) :=
  let shape : Callable :=
    { site := m.member, role := .method, symbol := m.symbol, result := m.member.decl.type.getD .void,
      owner := some cls, inheritedFrom := some m.origin, baseName := m.baseName }
  if m.member.kind == .variableDecl then
    let symbol := if m.symbol.truthy then m.symbol else m.member.decl.symbolValue
    accessors r { shape with role := .memberGet, symbol := symbol, result := .void } .memberSet
  else .ok [{ shape with parameters := m.member.decl.parameters }]

def isMethod (c : Callable) : Bool :=
  c.role == .method || c.role == .staticMethod

def sameParameters (a b : Callable) : Bool :=
  a.parameters.map (·.type) == b.parameters.map (·.type)

def methodGroup (all : List Callable) (c : Callable) : List Callable :=
  all.filter fun other => isMethod other && other.symbol.atom? == c.symbol.atom?

def isConstTwin (group : List Callable) (c : Callable) : Bool :=
  c.decl.isConst && group.any fun other => !other.decl.isConst && sameParameters other c

def isConstructor (c : Callable) : Bool :=
  c.role == .constructor || c.role == .copyConstructor

def markOverload (all : List Callable) (c : Callable) : Callable :=
  if isConstructor c then
    { c with overloaded := (all.filter isConstructor).length > 1 || (c.decl.feature "extend").truthy }
  else if isMethod c && (methodGroup all c).length ≥ 2 then
    { c with overloaded := true, constOverloaded := isConstTwin (methodGroup all c) c }
  else c

inductive Member where
  | callable (c : Callable)
  | enumeration (site : Site)
  | constant (site : Site)

structure Own where
  child : Site
  callables : List Callable

/-- The callables of all children; only public ones that are not ignored have any. -/
def own (r : Resolver) (cls : Site) (abstract : Bool) : Except Halt (List Own) :=
  cls.children.mapM fun child =>
    if child.decl.isIgnored || !child.decl.isPublic then .ok ⟨child, []⟩
    else (ofChild r cls abstract child).map fun callables => ⟨child, callables⟩

def inherited (r : Resolver) (cls : Site) (shadows : List Shadow) : Except Halt (List Callable) := do
  let groups ← shadows.mapM (ofShadow r cls)
  return groups.flatten

def ofOwn (all : List Callable) (o : Own) : List Member :=
  if o.child.decl.isIgnored then []
  else match o.child.kind with
    | .enumDecl => [.enumeration o.child]
    | .constantDecl => [.constant o.child]
    | _ => o.callables.map fun c => .callable (markOverload all c)

def checkUnsupported (child : Site) : Except Misshapen Unit :=
  if !child.decl.isIgnored && child.kind == .classDecl then child.checkQualified else .ok ()

def unsupported? (cls child : Site) : Option String :=
  if child.decl.isIgnored then none
  else match child.kind with
    | .classDecl => some ("Nested class " ++ child.qualifiedName ++ " not supported, ignored")
    | .namespaceDecl | .importDecl | .includeDecl | .insertDecl =>
      some ("Unsupported member " ++ child.kind.word ++ " of " ++ cls.name ++ " ignored")
    | _ => none

def implicitId (cls : Site) (destructor : Bool) : NodeId :=
  match cls.id with
  | .declared path => .implicit path destructor
  | id => id

def implicitSite (cls : Site) (destructor : Bool) : Site :=
  let short := cls.decl.shortName
  let named : Declaration := if destructor then .named .destructorDecl ("~" ++ short) else .named .constructorDecl short
  { id := implicitId cls destructor
    node := .mk { named with noexcept := destructor, file := cls.decl.file, line := cls.decl.line } []
    above := cls.inside }

def implicitSymbol (cls : Site) : Value :=
  if cls.decl.givenSymbol.truthy then cls.decl.givenSymbol else .string cls.decl.shortName

def declares (cls : Site) (kind : Kind) : Bool :=
  cls.children.any (·.kind == kind)

def implicitConstructor (cls : Site) (abstract : Bool) : List Callable :=
  if declares cls .constructorDecl || (cls.decl.feature "nodefaultctor").truthy || abstract then []
  else [{ site := implicitSite cls false, role := .constructor, symbol := implicitSymbol cls,
          result := pointerType cls, owner := some cls }]

def implicitDestructor (cls : Site) : List Callable :=
  if declares cls .destructorDecl || (cls.decl.feature "nodefaultdtor").truthy then []
  else [{ site := implicitSite cls true, role := .destructor, symbol := implicitSymbol cls, result := .void,
          owner := some cls }]

def inOrder (cls : Site) (abstract : Bool) (own : List Own) (inherited : List Callable) : List Member :=
  let all := own.flatMap (·.callables) ++ inherited
  own.flatMap (ofOwn all) ++ inherited.map (fun c => .callable (markOverload all c)) ++
    (implicitConstructor cls abstract ++ implicitDestructor cls).map .callable

end FlatAbi.Members
