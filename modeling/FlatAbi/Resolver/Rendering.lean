import FlatAbi.Emission.Halt
import FlatAbi.Naming.Basic
import FlatAbi.Resolver.Typedefs

/-!
Types at the C boundary and in the facade. A rendering lists what the header has to declare for it.
-/

namespace FlatAbi

inductive Side where
  | header
  | implementation
  deriving DecidableEq, Repr

/-- What the header has to declare before a type is used. -/
inductive Need where
  | boolSupport
  | opaqueType (name : String)
  deriving DecidableEq, Repr

structure CRendering where
  text : String
  needs : List Need := []
  deriving DecidableEq, Repr

/-- A type as spelled in the facade, and the text around an expression of it: arguments are converted to what the
C function takes, results to facade objects. -/
structure FacadeRendering where
  type : String
  before : String := ""
  after : String := ""
  needs : List Need := []
  deriving DecidableEq, Repr

namespace FacadeRendering

def isVoid (r : FacadeRendering) : Bool :=
  r.type == "void"

def wrap (r : FacadeRendering) (expression : String) : String :=
  r.before ++ expression ++ r.after

end FacadeRendering

/-- A declaration of `name` with a C type given as text. The name of a function pointer goes inside. -/
def declareC (ctype name : String) : String :=
  if Text.occurs "(*)" ctype then Text.replaceFirst "(*)" ("(*" ++ name ++ ")") ctype
  else if Text.endsWith "*" ctype then ctype ++ name
  else ctype ++ " " ++ name

structure Resolver where
  config : Config
  table : SymbolTable

namespace Resolver

def boolNeeds (side : Side) (resolved : CxxType) : List Need :=
  if side == .header && (Text.words resolved.base).contains "bool" then [.boolSupport] else []

/-- The C type of an enum: `int` in the implementation unit and where it cannot be referred to. -/
def enumCType (r : Resolver) (found : Option Site) (side : Side) : String :=
  match side, found with
  | .header, some site => (Naming.enumType? r.config site).getD "int"
  | _, _ => "int"

def opaquePointer (r : Resolver) (t : CxxType) (scope : String) : CRendering :=
  let name := r.table.opaqueName t scope
  ⟨name ++ " *", [.opaqueType name]⟩

def cTypeOf (r : Resolver) (t : CxxType) (scope : String) (side : Side) (category : Category) : CRendering :=
  let resolved := r.table.resolve t scope
  let found := r.table.enum? resolved.base scope
  match category with
  | .void => ⟨"void", []⟩
  | .builtin | .builtinConstRef => ⟨resolved.base, boolNeeds side resolved⟩
  | .builtinRef => ⟨resolved.assignable.spelling, boolNeeds side resolved⟩
  | .builtinPointer =>
    let shown := if resolved.isArray then resolved.withOutermost .pointer else resolved
    ⟨shown.spelling, boolNeeds side resolved⟩
  | .enumeration | .enumConstRef => ⟨r.enumCType found side, []⟩
  | .enumPointer => ⟨(resolved.assignable.withBase (r.enumCType found side)).spelling, []⟩
  | .functionPointer => ⟨resolved.spelling, []⟩
  | .classPointer | .classRef | .classValue =>
    if side == .implementation then ⟨"SwigObj *", []⟩
    else match r.table.class? resolved.base scope with
      | some cls => ⟨Naming.proxyName r.config cls ++ " *", []⟩
      | none => r.opaquePointer t scope
  | .unknownPointer | .unknownRef | .unknownValue =>
    if side == .implementation then ⟨"SwigObj *", []⟩ else r.opaquePointer t scope

/-- The C type of a wrapper parameter or result. Plain C declarations can be used as they are. -/
def cType (r : Resolver) (t : CxxType) (scope : String) (side : Side) : Except TypeSyntaxError CRendering :=
  if !r.config.cplusplus then
    .ok ⟨t.spelling, boolNeeds side (r.table.resolve t scope)⟩
  else (r.table.category t scope).map (r.cTypeOf t scope side)

def checkCType (r : Resolver) (t : CxxType) (scope : String) (category : Category) : Except Misshapen Unit :=
  let base := (r.table.resolve t scope).base
  match category with
  | .enumeration | .enumConstRef | .enumPointer =>
    match r.table.enum? base scope with
    | some found => Naming.checkEnumType found
    | none => .ok ()
  | .classPointer | .classRef | .classValue =>
    match r.table.class? base scope with
    | some cls => Naming.checkProxy cls
    | none => .ok ()
  | _ => .ok ()

def classOf? (r : Resolver) (t : CxxType) (scope : String) (category : Category) : Option Site :=
  if category.isClass then r.table.class? (r.table.resolve t scope).base scope else none

def plainFacade (r : Resolver) (t : CxxType) (scope : String) : Except TypeSyntaxError FacadeRendering :=
  (r.cType t scope .header).map fun c => { type := c.text, needs := c.needs }

def facadeParameter (r : Resolver) (t : CxxType) (scope : String) : Except TypeSyntaxError FacadeRendering := do
  let category ← r.table.category t scope
  match r.classOf? t scope category with
  | none => r.plainFacade t scope
  | some cls =>
    let symbol := cls.decl.symbol
    let spelled := ((r.table.resolve t scope).withBase symbol).spelling
    match category with
    | .classPointer => return { type := spelled, after := "->swig_self()" }
    | .classRef => return { type := spelled, after := ".swig_self()" }
    | _ => return { type := symbol ++ " const&", after := ".swig_self()" }

def checkFacadeParameter (r : Resolver) (t : CxxType) (scope : String) (category : Category) : Except Misshapen Unit :=
  match r.classOf? t scope category with
  | none => r.checkCType t scope category
  | some cls => if category == .classValue then .ok () else cls.decl.symbolValue.checkPart

def checkFacadeResult (r : Resolver) (t : CxxType) (scope : String) (category : Category) : Except Misshapen Unit :=
  match r.classOf? t scope category with
  | none => r.checkCType t scope category
  | some cls => if category == .classPointer then cls.decl.symbolValue.checkPart else .ok ()

def facadeObject (r : Resolver) (t : CxxType) (scope : String) (category : Category) (cls : Site) : FacadeRendering :=
  let symbol := cls.decl.symbol
  match category with
  | .classPointer =>
    { type := ((r.table.resolve t scope).withBase symbol).spelling
      before := "[=] \x7b auto swig_res = "
      after := "; return swig_res ? new " ++ symbol ++ "(swig_res) : nullptr; \x7d()" }
  | .classRef => { type := symbol, before := symbol ++ "\x7b", after := ", false\x7d" }
  | _ => { type := symbol, before := symbol ++ "(", after := ")" }

/-- The type of a facade result, and the conversion of what the C function returns. An unknown type that is not
behind a pointer cannot be returned. -/
def facadeResult (r : Resolver) (t : CxxType) (scope : String) : Except Halt FacadeRendering := do
  let category ← Halt.ofUnreadable (r.table.category t scope)
  match category with
  | .void => return { type := "void" }
  | .unknownRef | .unknownValue =>
    .error (.rejected ("Unknown reference return type \"" ++ t.spelling ++ "\"") none)
  | _ =>
    match r.classOf? t scope category with
    | none => Halt.ofUnreadable (r.plainFacade t scope)
    | some cls => return r.facadeObject t scope category cls

/-- The type of a facade result as a value: a class returned by value or reference is named by its symbol as it
stands. -/
def facadeResultType (r : Resolver) (t : CxxType) (scope : String) (category : Category)
    (rendering : FacadeRendering) : Value :=
  match r.classOf? t scope category with
  | some cls => if category == .classPointer then .string rendering.type else cls.decl.symbolValue
  | none => .string rendering.type

def categoryAt (r : Resolver) (t : CxxType) (scope : Value) : Except Halt Category := do
  Halt.ofMisshapen (r.table.checkType t scope)
  Halt.ofUnreadable (r.table.category t scope.display)

def cTypeAt (r : Resolver) (t : CxxType) (scope : Value) (side : Side) : Except Halt CRendering := do
  Halt.ofMisshapen (r.table.checkResolve t scope)
  if r.config.cplusplus && side == .header then
    let category ← r.categoryAt t scope
    Halt.ofMisshapen (r.checkCType t scope.display category)
  Halt.ofUnreadable (r.cType t scope.display side)

def facadeParameterAt (r : Resolver) (t : CxxType) (scope : Value) : Except Halt FacadeRendering := do
  let category ← r.categoryAt t scope
  Halt.ofMisshapen (r.checkFacadeParameter t scope.display category)
  Halt.ofUnreadable (r.facadeParameter t scope.display)

def facadeResultAt (r : Resolver) (t : CxxType) (scope : Value) : Except Halt FacadeRendering := do
  let category ← r.categoryAt t scope
  Halt.ofMisshapen (r.checkFacadeResult t scope.display category)
  r.facadeResult t scope.display

end Resolver

end FlatAbi
