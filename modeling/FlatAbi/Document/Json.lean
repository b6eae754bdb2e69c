import FlatAbi.Document.Value
import FlatAbi.Number.IntegerText

/-!
JSON text. A repeated field keeps its first place and its last value, and `NaN` and `Infinity` are read too.
-/

namespace FlatAbi.Json

inductive Fault where
  | noValue
  | noName
  | noColon
  | noComma
  | unclosedString
  | controlCharacter
  | escape
  | unit
  | surplus
  | byteOrderMark
  deriving DecidableEq, Repr

def Fault.words : Fault → String
  | .noValue => "Expecting value"
  | .noName => "Expecting property name enclosed in double quotes"
  | .noColon => "Expecting ':' delimiter"
  | .noComma => "Expecting ',' delimiter"
  | .unclosedString => "Unterminated string starting at"
  | .controlCharacter => "Invalid control character at"
  | .escape => "Invalid \\escape"
  | .unit => "Invalid \\uXXXX escape"
  | .surplus => "Extra data"
  | .byteOrderMark => "Unexpected UTF-8 BOM (decode using utf-8-sig)"

/-- Why a text is no document. The place of a fault is given by the number of characters from there to the end. -/
inductive Refusal where
  | malformed (fault : Fault) (remaining : Nat)
  | integerTooLong (digits : Nat)
  deriving DecidableEq, Repr

def placeText (text : String) (remaining : Nat) : String :=
  let cs := text.toList
  let before := cs.take (cs.length - remaining)
  let line := (before.filter (· == '\n')).length + 1
  let column := (before.reverse.takeWhile (· != '\n')).length + 1
  s!"line {line} column {column} (char {before.length})"

def Refusal.message (text : String) : Refusal → String
  | .malformed fault remaining => fault.words ++ ": " ++ placeText text remaining
  | .integerTooLong digits => IntegerText.tooLongMessage digits

abbrev Read := Except Refusal (Value × List Char)

def refuse {α : Type} (fault : Fault) (cs : List Char) : Except Refusal α :=
  .error (.malformed fault cs.length)

def isSpace (c : Char) : Bool :=
  c == ' ' || c == '\t' || c == '\n' || c == '\r'

def skip (cs : List Char) : List Char :=
  cs.dropWhile isSpace

def hexValue? (c : Char) : Option Nat :=
  if c.isDigit then some (c.toNat - 48)
  else if 'a' ≤ c && c ≤ 'f' then some (c.toNat - 87)
  else if 'A' ≤ c && c ≤ 'F' then some (c.toNat - 55)
  else none

def unit? : List Char → Option (Nat × List Char)
  | a :: b :: c :: d :: next :: rest => do
    let a ← hexValue? a
    let b ← hexValue? b
    let c ← hexValue? c
    let d ← hexValue? d
    some (((a * 16 + b) * 16 + c) * 16 + d, next :: rest)
  | _ => none

def fromUnits (unit : Nat) (rest : List Char) : Char × List Char :=
  let single := (Text.Units.single unit, rest)
  if Text.Units.isHigh unit then
    match rest with
    | '\\' :: 'u' :: more =>
      match unit? more with
      | some (low, after) => if Text.Units.isLow low then (Text.Units.join unit low, after) else single
      | none => single
    | _ => single
  else single

def escapes : List (Char × Char) :=
  [('"', '"'), ('\\', '\\'), ('/', '/'), ('b', '\x08'), ('f', '\x0c'), ('n', '\n'), ('r', '\r'), ('t', '\t')]

/-- The characters of a string up to its closing quote, in reverse. The string is `whole` after its opening quote. -/
def stringChars (whole acc : List Char) : Nat → List Char → Except Refusal (List Char × List Char)
  | 0, _ => refuse .unclosedString ('"' :: whole)
  | _, [] => refuse .unclosedString ('"' :: whole)
  | _ + 1, '"' :: rest => .ok (acc, rest)
  | fuel + 1, '\\' :: 'u' :: rest =>
    match unit? rest with
    | some (unit, after) =>
      let (c, after) := fromUnits unit after
      stringChars whole (c :: acc) fuel after
    | none => refuse .unit ('u' :: rest)
  | fuel + 1, '\\' :: c :: rest =>
    match escapes.lookup c with
    | some meant => stringChars whole (meant :: acc) fuel rest
    | none => refuse .escape ('\\' :: c :: rest)
  | fuel + 1, c :: rest =>
    if c.toNat < 0x20 then refuse .controlCharacter (c :: rest) else stringChars whole (c :: acc) fuel rest

def string (fuel : Nat) (cs : List Char) : Except Refusal (String × List Char) :=
  (stringChars cs [] fuel cs).map fun (reversed, rest) => (String.ofList reversed.reverse, rest)

def natOf (ds : List Char) : Nat :=
  ds.foldl (fun n d => n * 10 + (d.toNat - 48)) 0

def exponent? (cs : List Char) : Option (Int × List Char) :=
  let (negative, body) := match cs with
    | '-' :: rest => (true, rest)
    | '+' :: rest => (false, rest)
    | _ => (false, cs)
  let ds := body.takeWhile Char.isDigit
  if ds.isEmpty then none
  else some (if negative then -(natOf ds : Int) else natOf ds, body.dropWhile Char.isDigit)

def integer (negative : Bool) (digits : List Char) : Except Refusal Value :=
  if digits.length > IntegerText.digitLimit then .error (.integerTooLong digits.length)
  else
    let n : Int := natOf digits
    .ok (.int (if negative then -n else n))

/-- A number after its sign. A fraction or an exponent that is not complete does not belong to it. -/
def number (negative : Bool) (cs : List Char) : Read :=
  let run := cs.takeWhile Char.isDigit
  let whole := match run with
    | '0' :: _ => ['0']
    | _ => run
  let rest := cs.drop whole.length
  if whole.isEmpty then refuse .noValue (if negative then '-' :: cs else cs)
  else
    let (fraction, afterFraction) := match rest with
      | '.' :: more =>
        let ds := more.takeWhile Char.isDigit
        if ds.isEmpty then ([], rest) else (ds, more.dropWhile Char.isDigit)
      | _ => ([], rest)
    let scaled : Option (Int × List Char) := match afterFraction with
      | c :: more => if c == 'e' || c == 'E' then exponent? more else none
      | [] => none
    match fraction, scaled with
    | [], none => (integer negative whole).map fun value => (value, rest)
    | _, none =>
      .ok (.float (Binary.ofDecimal negative (natOf (whole ++ fraction)) (-fraction.length)), afterFraction)
    | _, some (e, after) =>
      .ok (.float (Binary.ofDecimal negative (natOf (whole ++ fraction)) (e - fraction.length)), after)

def words : List (String × Value) :=
  [("null", .null), ("true", .bool true), ("false", .bool false), ("NaN", .float .notANumber),
   ("Infinity", .float (.infinity false)), ("-Infinity", .float (.infinity true))]

def word? (cs : List Char) : Option (Value × List Char) :=
  (words.find? fun (word, _) => word.toList.isPrefixOf cs).map fun (word, value) => (value, cs.drop word.length)

def scalarValue (cs : List Char) : Read :=
  match word? cs, cs with
  | some found, _ => .ok found
  | none, '-' :: rest => number true rest
  | none, cs => number false cs

mutual

def value : Nat → List Char → Read
  | 0, cs => refuse .noValue cs
  | fuel + 1, cs =>
    match cs with
    | '"' :: rest => (string fuel rest).map fun (s, rest) => (.string s, rest)
    | '[' :: rest =>
      match skip rest with
      | ']' :: rest => .ok (.array [], rest)
      | rest => (items fuel [] rest).map fun (reversed, rest) => (.array reversed.reverse, rest)
    | '\x7b' :: rest =>
      match skip rest with
      | '\x7d' :: rest => .ok (.object [], rest)
      | rest => (fields fuel [] rest).map fun (fields, rest) => (.object fields, rest)
    | cs => scalarValue cs

def items (fuel : Nat) (acc : List Value) (cs : List Char) : Except Refusal (List Value × List Char) :=
  match fuel with
  | 0 => refuse .noValue cs
  | fuel + 1 => do
    let (found, rest) ← value fuel cs
    match skip rest with
    | ',' :: rest => items fuel (found :: acc) (skip rest)
    | ']' :: rest => .ok (found :: acc, rest)
    | rest => refuse .noComma rest

def fields (fuel : Nat) (acc : Fields) (cs : List Char) : Except Refusal (Fields × List Char) :=
  match fuel with
  | 0 => refuse .noName cs
  | fuel + 1 =>
    match cs with
    | '"' :: rest => do
      let (key, rest) ← string fuel rest
      match skip rest with
      | ':' :: rest =>
        let (found, rest) ← value fuel (skip rest)
        match skip rest with
        | ',' :: rest => fields fuel (acc.set key found) (skip rest)
        | '\x7d' :: rest => .ok (acc.set key found, rest)
        | rest => refuse .noComma rest
      | rest => refuse .noColon rest
    | cs => refuse .noName cs

end

def parse (text : String) : Except Refusal Value := do
  let cs := text.toList
  if cs.head? == some '\uFEFF' then refuse .byteOrderMark cs
  else
    let (found, rest) ← value (cs.length + 1) (skip cs)
    match skip rest with
    | [] => return found
    | rest => refuse .surplus rest

def escapeUnit (n : Nat) : List Char :=
  ['\\', 'u'] ++ Text.Quoted.hex 4 n

def escapeChar (c : Char) : List Char :=
  if c == '"' then ['\\', '"']
  else if c == '\\' then ['\\', '\\']
  else if c == '\n' then ['\\', 'n']
  else if c == '\r' then ['\\', 'r']
  else if c == '\t' then ['\\', 't']
  else if c == '\x08' then ['\\', 'b']
  else if c == '\x0c' then ['\\', 'f']
  else if 0x20 ≤ c.toNat && c.toNat < 0x7F then [c]
  else if c.toNat < 0x10000 then escapeUnit c.toNat
  else
    match Text.Units.broken? c with
    | some unit => escapeUnit unit
    | none =>
      let (high, low) := Text.Units.split c
      escapeUnit high ++ escapeUnit low

def quote (s : String) : String :=
  String.ofList ('"' :: s.toList.flatMap escapeChar ++ ['"'])

def scalar : Value → String
  | .null => "null"
  | .bool b => if b then "true" else "false"
  | .int n => toString n
  | .float x =>
    match x.parts with
    | .finite negative mantissa exponent => Shortest.text negative mantissa exponent
    | .infinite negative => if negative then "-Infinity" else "Infinity"
    | .notANumber => "NaN"
  | .string s => quote s
  | .array _ => "[]"
  | .object _ => "\x7b\x7d"

def newline (level : Nat) : String :=
  "\n" ++ String.ofList (List.replicate (2 * level) ' ')

mutual

def indented (level : Nat) : Value → String
  | .array [] => "[]"
  | .array items =>
    "[" ++ newline (level + 1) ++ Text.join ("," ++ newline (level + 1)) (indentedItems (level + 1) items) ++
      newline level ++ "]"
  | .object [] => "\x7b\x7d"
  | .object fields =>
    "\x7b" ++ newline (level + 1) ++ Text.join ("," ++ newline (level + 1)) (indentedFields (level + 1) fields) ++
      newline level ++ "\x7d"
  | value => scalar value

def indentedItems (level : Nat) : List Value → List String
  | [] => []
  | item :: rest => indented level item :: indentedItems level rest

def indentedFields (level : Nat) : List (String × Value) → List String
  | [] => []
  | (key, value) :: rest => (quote key ++ ": " ++ indented level value) :: indentedFields level rest

end

end FlatAbi.Json
