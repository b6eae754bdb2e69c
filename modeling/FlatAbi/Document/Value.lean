import FlatAbi.Entries
import FlatAbi.Number.Shortest
import FlatAbi.Text.Basic
import FlatAbi.Text.Quoted

/-!
Values of an input document. Whole numbers are kept apart from other numbers, and fields keep their order.
-/

namespace FlatAbi

inductive Value where
  | null
  | bool (b : Bool)
  | int (n : Int)
  | float (x : Binary)
  | string (s : String)
  | array (items : List Value)
  | object (fields : List (String × Value))

abbrev Fields := List (String × Value)

namespace Fields

def get? (fields : Fields) (key : String) : Option Value :=
  fields.lookup key

def set (fields : Fields) (key : String) (value : Value) : Fields :=
  setEntry key value fields

end Fields

namespace Value

/-- Nothing, `false`, zero and everything empty count as false. -/
def truthy : Value → Bool
  | .null => false
  | .bool b => b
  | .int n => n != 0
  | .float x => !x.isZero
  | .string s => s != ""
  | .array items => !items.isEmpty
  | .object fields => !fields.isEmpty

def isNull : Value → Bool
  | .null => true
  | _ => false

def sortName : Value → String
  | .null => "NoneType"
  | .bool _ => "bool"
  | .int _ => "int"
  | .float _ => "float"
  | .string _ => "str"
  | .array _ => "list"
  | .object _ => "dict"

def floatText (x : Binary) : String :=
  match x.parts with
  | .finite negative mantissa exponent => Shortest.text negative mantissa exponent
  | .infinite negative => if negative then "-inf" else "inf"
  | .notANumber => "nan"

mutual

def literal : Value → String
  | .null => "None"
  | .bool b => if b then "True" else "False"
  | .int n => toString n
  | .float x => floatText x
  | .string s => Text.quoted s
  | .array items => "[" ++ Text.join ", " (literals items) ++ "]"
  | .object fields => "\x7b" ++ Text.join ", " (fieldLiterals fields) ++ "\x7d"

def literals : List Value → List String
  | [] => []
  | item :: rest => literal item :: literals rest

def fieldLiterals : List (String × Value) → List String
  | [] => []
  | (key, value) :: rest => (Text.quoted key ++ ": " ++ literal value) :: fieldLiterals rest

end

def display : Value → String
  | .string s => s
  | value => value.literal

def asString? : Value → Option String
  | .string s => some s
  | _ => none

theorem eq_string {value : Value} {text : String} (shown : value.asString? = some text) : value = .string text := by
  cases value <;> cases shown
  rfl

def isText : Value → Bool
  | .string _ => true
  | _ => false

def isSeparator : Value → Bool
  | .string s => s == "::"
  | _ => false

/-- A value with `::` in it: in text as a part, in a list as an item, in an object as a key. -/
def holdsSeparator : Value → Bool
  | .string s => Text.occurs "::" s
  | .array items => items.any isSeparator
  | .object fields => fields.any fun f => f.1 == "::"
  | _ => false

end Value

end FlatAbi
