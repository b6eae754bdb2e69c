import FlatAbi.Emission.Draft
import FlatAbi.Typemap.Expansion
import FlatAbi.Wrapper.ParameterNames

/-!
The arguments of a wrapper, with the typemaps that convert them.
-/

namespace FlatAbi.Wrapper

/-- Why no wrapper is written: it is skipped with a warning, or emission halts. -/
inductive Stop where
  | skipped (warning : String)
  | halted (halt : Halt)

structure TypedParameter where
  name : Option String
  type : CxxType
  deriving DecidableEq, Repr

/-- The parameters of a callable with their types. A callable with an ellipsis cannot be wrapped. -/
def typedParameters (c : Callable) : Except Halt (List TypedParameter) :=
  c.parameters.mapM fun p =>
    match p.type with
    | none => .error (.fault .parameterWithoutType)
    | some t =>
      if t.isEllipsis then do
        Halt.ofMisshapen c.site.checkQualified
        .error (.rejected ("Vararg function " ++ c.site.qualifiedName ++ " not supported.") (some c.site))
      else .ok ⟨p.name.asString?, t⟩

def checkParameterNames (c : Callable) : Except Misshapen Unit :=
  c.parameters.forM fun p => if p.name.truthy then p.name.checkText else .ok ()

/-- One argument: the local of the wrapped type, the C parameter, and its typemaps. -/
structure Argument where
  localName : String
  cName : String
  type : CxxType
  category : Category
  localType : CxxType
  input : Typemap
  check : Option Typemap
  freearg : Option Typemap

def Argument.isVisible (a : Argument) : Bool :=
  a.input.inputs != 0

/-- The local that holds a value of a type. An object is held by address. -/
def localTypeOf (qualified : CxxType) (category : Category) : CxxType :=
  if category.isObjectByValue then qualified.stripQualifiers.addPointer else qualified.assignable

/-- The typemap of a value, by its type as written, its resolved type or its category. -/
def typemap? (job : Job) (r : Resolver) (method : Method) (t : CxxType) (scope : String)
    (category : Option Category) : Option Typemap :=
  job.typemaps.lookup method [t, r.table.resolve t scope] category

def categoryOf (r : Resolver) (c : Callable) (t : CxxType) : Except Halt Category :=
  r.categoryAt t c.site.scopeValue

def argument (job : Job) (r : Resolver) (c : Callable) (position : Nat) (cName : String) (p : TypedParameter) :
    Except Stop Argument := do
  let scope := c.site.scopeName
  let category ← (categoryOf r c p.type).mapError .halted
  match typemap? job r .input p.type scope (some category) with
  | none =>
    .error (.skipped ("No \"in\" typemap defined for the parameter \"" ++ Text.orElse (p.name.getD "") cName ++
      "\" of type \"" ++ p.type.spelling ++ "\" of " ++ c.symName ++ ", wrapper skipped"))
  | some input =>
    return {
      localName := s!"arg{position}"
      cName := cName
      type := p.type
      category := category
      localType := localTypeOf (r.table.qualified p.type scope) category
      input := input
      check := typemap? job r .check p.type scope (some category)
      freearg := typemap? job r .freearg p.type scope (some category) }

def argumentsFrom (job : Job) (r : Resolver) (c : Callable) (position : Nat) :
    List (TypedParameter × String) → Except Stop (List Argument)
  | [] => .ok []
  | (p, cName) :: rest => do
    let first ← argument job r c position cName p
    let others ← argumentsFrom job r c (position + 1) rest
    return first :: others

def firstPosition (c : Callable) : Nat :=
  if c.role.hasSelf then 2 else 1

def arguments (job : Job) (r : Resolver) (c : Callable) (parameters : List TypedParameter) :
    Except Stop (List Argument) := do
  (Halt.ofMisshapen c.site.checkScope).mapError .halted
  (Halt.ofMisshapen (checkParameterNames c)).mapError .halted
  let names := parameterNames (firstPosition c) (parameters.map (·.name))
  argumentsFrom job r c (firstPosition c) (parameters.zip names)

/-- Code can be expanded. A symbol that is not text cannot stand for a variable. -/
def checkExpansion (c : Callable) (code : Value) : Except Misshapen Unit := do
  code.checkPart
  if Typemap.mentions "symname" code.display then c.symbol.checkPart

end FlatAbi.Wrapper
