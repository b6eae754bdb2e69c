import FlatAbi.CxxType.Arguments
import FlatAbi.CxxType.Basic

/-!
Types as text: declarations of a name, and the identifier-safe codes that name opaque types and overloads.
-/

namespace FlatAbi

namespace CxxType

/-- A declarator under construction: its text, and whether it ends in a level written in front of the name, which
a postfix level has to parenthesise. -/
structure Partial where
  text : String
  fronted : Bool := false

def Partial.grouped (d : Partial) : String :=
  if d.fronted then "(" ++ d.text ++ ")" else d.text

def Partial.wrap (inner : Partial) (d : Declarator) : Partial :=
  match d.level with
  | .pointer => ⟨"*" ++ inner.text, true⟩
  | .lvalueReference => ⟨"&" ++ inner.text, true⟩
  | .rvalueReference => ⟨"&&" ++ inner.text, true⟩
  | .memberPointer owner => ⟨owner ++ "::*" ++ inner.text, true⟩
  | .qualifier words =>
    ⟨if inner.text == "" then " " ++ words else " " ++ words ++ " " ++ inner.text, true⟩
  | .array bound => ⟨inner.grouped ++ "[" ++ bound ++ "]", false⟩
  | .function arguments => ⟨inner.grouped ++ "(" ++ Arguments.respace arguments ++ ")", false⟩
  | .other _ => inner

def baseQualifier (t : CxxType) : String :=
  match t.declarators.getLast?.map Declarator.level with
  | some (.qualifier words) => words
  | _ => ""

def writtenDeclarators (t : CxxType) : List Declarator :=
  if t.declarators.getLast?.any Declarator.isQualifier then t.declarators.dropLast else t.declarators

def head (t : CxxType) : String :=
  if t.baseQualifier == "" then t.base else t.baseQualifier ++ " " ++ t.base

def needsSpace (declarator : String) : Bool :=
  match declarator.toList with
  | [] => false
  | c :: _ => c == '*' || c == '&' || c == '(' || Text.isLetter c || c == '_'

/-- A declaration of `name` with this type, or the bare type for an empty name. -/
def declare (t : CxxType) (name : String) : String :=
  let declarator := Text.trim (t.writtenDeclarators.foldl Partial.wrap ⟨name, false⟩).text
  if declarator == "" then t.head
  else if needsSpace declarator then t.head ++ " " ++ declarator
  else t.head ++ declarator

def spelling (t : CxxType) : String :=
  t.declare ""

theorem spelling_of_bare (base : String) : spelling ⟨base, []⟩ = base := rfl

end CxxType

namespace Declarator

def handleCode (d : Declarator) : String :=
  match d.level with
  | .pointer => "p"
  | .lvalueReference => "r"
  | .rvalueReference => "z"
  | .array bound => "a_" ++ Text.flattenName bound
  | .memberPointer owner => "m_" ++ Text.flattenName owner
  | .function _ => "f"
  | .qualifier _ => ""
  | .other code => code

def overloadCode (d : Declarator) : String :=
  match d.level with
  | .pointer => "p"
  | .lvalueReference => "r"
  | .rvalueReference => "z"
  | .array bound => "a" ++ Text.flattenName bound
  | .memberPointer owner => "m" ++ Text.flattenName owner
  | .function _ => "f"
  | .qualifier words => Text.concat ((Text.words words).map fun word => if word == "const" then "c" else "v")
  | .other code => code

end Declarator

namespace CxxType

/-- An identifier-safe name of the whole type without its qualifiers: `_p_Foo` for `Foo *`. -/
def handleName (t : CxxType) : String :=
  let codes := t.stripQualifiers.declarators.map Declarator.handleCode ++ [Text.flattenName t.base]
  "_" ++ Text.join "_" (codes.filter (· != ""))

end CxxType

end FlatAbi
