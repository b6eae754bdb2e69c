import FlatAbi.Document.Atom
import FlatAbi.Document.Json

/-!
Values read as what a place needs: items, named fields, a whole number, text. A value of another shape is refused
with the reason.
-/

namespace FlatAbi

inductive Misshapen where
  | notItems
  | notNumber
  | notText
  | notPart
  | notKey
  | pairLength (index length : Nat)
  | integerText (text : String)
  | integerTooLong (digits : Nat)
  | integerOfNotANumber
  | integerOfInfinity
  deriving DecidableEq, Repr

namespace Misshapen

/-- The reason in words. A literal is cut after 200 characters. -/
def message : Misshapen → String
  | .notItems => "value has no items"
  | .notNumber => "value is not a number"
  | .notText => "value is not text"
  | .notPart => "value cannot be part of a text"
  | .notKey => "value cannot be a key"
  | .pairLength index length =>
    s!"dictionary update sequence element #{index} has length {length}; 2 is required"
  | .integerText text =>
    "invalid literal for int() with base 10: " ++ String.ofList ((Text.quoted text).toList.take 200)
  | .integerTooLong digits => IntegerText.tooLongMessage digits
  | .integerOfNotANumber => "cannot convert float NaN to integer"
  | .integerOfInfinity => "cannot convert float infinity to integer"

/-- The reasons about the spelling of a number or a pair, which a typemap rule reports as its own. -/
def isContent : Misshapen → Bool
  | .pairLength _ _ | .integerText _ | .integerTooLong _ | .integerOfNotANumber => true
  | _ => false

end Misshapen

namespace Value

def items : Value → Except Misshapen (List Value)
  | .array items => .ok items
  | .string s => .ok (s.toList.map fun c => .string (String.singleton c))
  | .object fields => .ok (fields.map fun f => .string f.1)
  | _ => .error .notItems

/-- A value as a whole number. Other numbers lose their fraction. -/
def toInteger : Value → Except Misshapen Int
  | .bool b => .ok (if b then 1 else 0)
  | .int n => .ok n
  | .float x =>
    match x.truncate?, x.parts with
    | some n, _ => .ok n
    | none, .infinite _ => .error .integerOfInfinity
    | none, _ => .error .integerOfNotANumber
  | .string s =>
    (IntegerText.read s).mapError fun
      | .malformed => .integerText s
      | .tooLong digits => .integerTooLong digits
  | _ => .error .notNumber

def toText : Value → Except Misshapen String
  | .string s => .ok s
  | _ => .error .notText

def checkText (v : Value) : Except Misshapen Unit :=
  if v.isText then .ok () else .error .notText

def checkPart (v : Value) : Except Misshapen Unit :=
  if v.isText then .ok () else .error .notPart

def checkKey (v : Value) : Except Misshapen Unit :=
  if v.atom?.isSome then .ok () else .error .notKey

/-- Text that may be missing. Whatever counts as false is missing, but for empty text. -/
def toOptionalText : Value → Except Misshapen (Option String)
  | .string s => .ok (some s)
  | value => if value.truthy then .error .notText else .ok none

def toAtom (v : Value) : Except Misshapen Atom :=
  match v.atom? with
  | some atom => .ok atom
  | none => .error .notKey

/-- Something that can be looked for in a value: in text a part, in a list an item, in an object a key. -/
def searchable : Value → Except Misshapen Unit
  | .string _ | .array _ | .object _ => .ok ()
  | _ => .error .notItems

def keyText : Value → String
  | .string s => s
  | value => Json.scalar value

/-- Set the value of a key. A key that is filed under the same atom keeps its place and its form. -/
def setPair (key : Value) (atom : Atom) (value : Value) : List (Value × Value) → List (Value × Value)
  | [] => [(key, value)]
  | (k, v) :: rest =>
    if k.atom? = some atom then (k, value) :: rest else (k, v) :: setPair key atom value rest

def addPairs (found : List (Value × Value)) (index : Nat) : List Value → Except Misshapen (List (Value × Value))
  | [] => .ok found
  | pair :: rest => do
    match ← pair.items with
    | [key, value] =>
      let atom ← key.toAtom
      addPairs (setPair key atom value found) (index + 1) rest
    | parts => .error (.pairLength index parts.length)

def fieldsOfPairs (pairs : List (Value × Value)) : Fields :=
  pairs.foldl (fun (fields : Fields) (key, value) => fields.set key.keyText value) []

/-- Named fields given as an object or as a list of pairs; nothing and everything empty gives no fields. -/
def toFields (v : Value) : Except Misshapen Fields :=
  if !v.truthy then .ok []
  else match v with
    | .object fields => .ok fields
    | v => do
      let pairs ← addPairs [] 0 (← v.items)
      return fieldsOfPairs pairs

end Value

end FlatAbi
