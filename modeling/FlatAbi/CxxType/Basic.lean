import FlatAbi.Text.Basic

/-!
C++ types as a base name under a chain of declarators, outermost first.
-/

namespace FlatAbi

/-- One level of a declarator chain. The arguments of a function are kept as written, and a qualifier holds its
words. `other` carries a code that is not the code of a level. -/
inductive Declarator where
  | pointer
  | lvalueReference
  | rvalueReference
  | array (bound : String)
  | memberPointer (owner : String)
  | function (arguments : String)
  | qualifier (words : String)
  | other (code : String)
  deriving DecidableEq, Repr

namespace Declarator

def code : Declarator → String
  | .pointer => "p"
  | .lvalueReference => "r"
  | .rvalueReference => "z"
  | .array bound => "a(" ++ bound ++ ")"
  | .memberPointer owner => "m(" ++ owner ++ ")"
  | .function arguments => "f(" ++ arguments ++ ")"
  | .qualifier words => "q(" ++ words ++ ")"
  | .other code => code

/-- The level that a code with an opening parenthesis starts; its text goes up to the last character. -/
def started? (code : String) : Option Declarator :=
  let inner := Text.dropEnd 1 (Text.dropStart 2 code)
  if Text.startsWith "a(" code then some (.array inner)
  else if Text.startsWith "m(" code then some (.memberPointer inner)
  else if Text.startsWith "f(" code then some (.function inner)
  else if Text.startsWith "q(" code then some (.qualifier inner)
  else none

def ofCode (code : String) : Declarator :=
  if code == "p" then .pointer
  else if code == "r" then .lvalueReference
  else if code == "z" then .rvalueReference
  else if Text.endsWith ")" code then (started? code).getD (.other code)
  else .other code

/-- What a level counts as. A code without its closing parenthesis counts as the level that it starts. -/
def level : Declarator → Declarator
  | .other code => (started? code).getD (.other code)
  | d => d

def isQualifier (d : Declarator) : Bool :=
  match d.level with
  | .qualifier _ => true
  | _ => false

def isArray (d : Declarator) : Bool :=
  match d.level with
  | .array _ => true
  | _ => false

def isReference : Declarator → Bool
  | .lvalueReference | .rvalueReference => true
  | _ => false

def isConst (d : Declarator) : Bool :=
  d.isQualifier && Text.occurs "const" d.code

end Declarator

structure CxxType where
  base : String
  declarators : List Declarator := []
  deriving DecidableEq, Repr

def builtinWords : List String :=
  ["void", "short", "int", "long", "char", "float", "double", "bool", "signed", "unsigned"]

/-- Scalar typedefs that cross the C boundary unchanged, like the builtins. -/
def scalarTypedefs : List String :=
  ["size_t", "ptrdiff_t", "intptr_t", "uintptr_t", "int8_t", "uint8_t", "int16_t", "uint16_t",
   "int32_t", "uint32_t", "int64_t", "uint64_t", "wchar_t"]

def isBuiltinName (base : String) : Bool :=
  match Text.words base with
  | [] => false
  | [word] => builtinWords.contains word || scalarTypedefs.contains word
  | words => words.all builtinWords.contains

namespace CxxType

def void : CxxType := { base := "void" }

def pointerTo (name : String) : CxxType := ⟨name, [.pointer]⟩

def unqualified (t : CxxType) : CxxType :=
  ⟨t.base, t.declarators.dropWhile Declarator.isQualifier⟩

def outermost? (t : CxxType) : Option Declarator :=
  t.unqualified.declarators.head?

def isPointer (t : CxxType) : Bool :=
  t.outermost? == some .pointer

def isReference (t : CxxType) : Bool :=
  t.outermost?.any Declarator.isReference

def isRvalueReference (t : CxxType) : Bool :=
  t.outermost? == some .rvalueReference

def isArray (t : CxxType) : Bool :=
  t.outermost?.any Declarator.isArray

def isFunction (t : CxxType) : Bool :=
  match t.outermost?.map Declarator.level with
  | some (.function _) => true
  | _ => false

def isMemberPointer (t : CxxType) : Bool :=
  match t.outermost?.map Declarator.level with
  | some (.memberPointer _) => true
  | _ => false

def isConst (t : CxxType) : Bool :=
  (t.declarators.takeWhile Declarator.isQualifier).any Declarator.isConst

def isEllipsis (t : CxxType) : Bool :=
  t.base == "..." && t.declarators.isEmpty

def stripQualifiers (t : CxxType) : CxxType :=
  ⟨t.base, t.declarators.filter (!·.isQualifier)⟩

def isVoid (t : CxxType) : Bool :=
  t.base == "void" && t.stripQualifiers.declarators.isEmpty

def isEnum (t : CxxType) : Bool :=
  Text.startsWith "enum " t.base

def isBuiltin (t : CxxType) : Bool :=
  isBuiltinName t.base

def arrayBound (t : CxxType) : String :=
  match t.outermost?.map Declarator.level with
  | some (.array bound) => bound
  | _ => ""

/-- Remove the outermost declarator that is not a qualifier, with the qualifiers around it. -/
def pop (t : CxxType) : CxxType :=
  ⟨t.base, t.unqualified.declarators.tail⟩

def addPointer (t : CxxType) : CxxType :=
  ⟨t.base, .pointer :: t.declarators⟩

def withBase (t : CxxType) (base : String) : CxxType :=
  ⟨base, t.declarators⟩

def under (t : CxxType) (outer : List Declarator) : CxxType :=
  ⟨t.base, outer ++ t.declarators⟩

/-- Replace the outermost declarator that is not a qualifier by another, dropping the qualifiers around it. -/
def withOutermost (t : CxxType) (d : Declarator) : CxxType :=
  ⟨t.base, d :: t.unqualified.declarators.tail⟩

def decayOutermost : List Declarator → List Declarator
  | d :: rest => (if d.isArray || d.isReference then .pointer else d) :: rest
  | [] => []

/-- The type of an assignable local: every qualifier is dropped, an outermost reference or array decays to a
pointer. -/
def assignable (t : CxxType) : CxxType :=
  ⟨t.base, decayOutermost t.stripQualifiers.declarators⟩

end CxxType

end FlatAbi
