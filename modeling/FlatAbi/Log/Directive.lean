import FlatAbi.Log.Record
import FlatAbi.Number.Scientific

/-!
Directives of a log format: a key in brackets, flags, a width, a precision and a conversion.
-/

namespace FlatAbi.Log

/-- The value of a key. A measure is a number of seconds or parts of them; any other value has a literal form only. -/
inductive FieldValue where
  | text (s : String)
  | number (n : Nat)
  | measure (n : Nat)
  | other (form : String)
  deriving DecidableEq, Repr

namespace FieldValue

def literal : FieldValue → List Char
  | .text s => Text.Quoted.encode s.toList
  | .number n => Nat.toDigits 10 n
  | .measure n => Nat.toDigits 10 n ++ ['.', '0']
  | .other form => form.toList

def shown : FieldValue → List Char
  | .text s => s.toList
  | value => value.literal

def asciiLiteral (value : FieldValue) : List Char :=
  Text.Quoted.inAscii value.literal

def number? : FieldValue → Option Nat
  | .number n => some n
  | _ => none

def quantity? : FieldValue → Option Nat
  | .number n => some n
  | .measure n => some n
  | _ => none

end FieldValue

structure Directive where
  key : Option String
  flags : List Char
  width : Option Nat
  precision : Option Nat
  conversion : Char
  deriving DecidableEq, Repr

namespace Directive

def isFlag (c : Char) : Bool :=
  c == '#' || c == '0' || c == '+' || c == ' ' || c == '-'

/-- The text up to the bracket that closes `depth` brackets around it, and the text after that. -/
def bracketed? : Nat → List Char → Option (List Char × List Char)
  | _, [] => none
  | depth, c :: cs =>
    if c == ')' then
      if depth ≤ 1 then some ([], cs) else (bracketed? (depth - 1) cs).map fun (inner, rest) => (c :: inner, rest)
    else if c == '(' then (bracketed? (depth + 1) cs).map fun (inner, rest) => (c :: inner, rest)
    else (bracketed? depth cs).map fun (inner, rest) => (c :: inner, rest)

def natOf (digits : List Char) : Nat :=
  digits.foldl (fun n c => 10 * n + (c.toNat - 48)) 0

def readNumber (cs : List Char) : Option Nat × List Char :=
  match cs.takeWhile Char.isDigit with
  | [] => (none, cs)
  | digits => (some (natOf digits), cs.dropWhile Char.isDigit)

def readPrecision : List Char → Option Nat × List Char
  | '.' :: cs =>
    let (count, rest) := readNumber cs
    (some (count.getD 0), rest)
  | cs => (none, cs)

/-- One mark of length says nothing. -/
def skipLength : List Char → List Char
  | 'h' :: cs => cs
  | 'l' :: cs => cs
  | 'L' :: cs => cs
  | cs => cs

def readKey? : List Char → Option (Option String × List Char)
  | '(' :: cs => (bracketed? 1 cs).map fun (key, rest) => (some (String.ofList key), rest)
  | cs => some (none, cs)

def read? (cs : List Char) : Option (Directive × List Char) := do
  let (key, cs) ← readKey? cs
  let flags := cs.takeWhile isFlag
  let (width, cs) := readNumber (cs.dropWhile isFlag)
  let (precision, cs) := readPrecision cs
  match skipLength cs with
  | conversion :: rest => some (⟨key, flags, width, precision, conversion⟩, rest)
  | [] => none

def has (d : Directive) (flag : Char) : Bool :=
  d.flags.contains flag

def signOf (d : Directive) : List Char :=
  if d.has '+' then ['+'] else if d.has ' ' then [' '] else []

def fillText (d : Directive) (width : Nat) (cs : List Char) : List Char :=
  let blanks := List.replicate (width - cs.length) ' '
  if d.has '-' then cs ++ blanks else blanks ++ cs

/-- Fill a number to a width. Zeros stand between its head and its digits, blanks around both. -/
def fillNumber (d : Directive) (width : Nat) (head digits : List Char) : List Char :=
  if d.has '0' && !d.has '-' then
    head ++ List.replicate (width - (head ++ digits).length) '0' ++ digits
  else d.fillText width (head ++ digits)

def whole (d : Directive) (width precision base n : Nat) (mark : List Char) : List Char :=
  let digits := Nat.toDigits base n
  let digits := List.replicate (precision - digits.length) '0' ++ digits
  d.fillNumber width (d.signOf ++ (if d.has '#' then mark else [])) digits

/-- Write a value as the conversion says. A conversion that does not fit the value gives nothing. -/
def write? (d : Directive) (value : FieldValue) : Option (List Char) :=
  let width := d.width.getD 0
  let cut (cs : List Char) := d.fillText width (match d.precision with
    | some count => cs.take count
    | none => cs)
  let whole (number : Option Nat) (base : Nat) (mark : String) :=
    number.map fun n => d.whole width (d.precision.getD 0) base n mark.toList
  let real (form : Nat → Nat → List Char) :=
    value.quantity?.map fun n => d.fillNumber width d.signOf (form (d.precision.getD 6) n)
  match d.conversion with
  | 's' => some (cut value.shown)
  | 'r' => some (cut value.literal)
  | 'a' => some (cut value.asciiLiteral)
  | 'd' | 'i' | 'u' => whole value.quantity? 10 ""
  | 'o' => whole value.number? 8 "0o"
  | 'x' => whole value.number? 16 "0x"
  | 'X' => (whole value.number? 16 "0x").map fun cs => cs.map Char.toUpper
  | 'e' => real (Scientific.exponential (d.has '#') 'e')
  | 'E' => real (Scientific.exponential (d.has '#') 'E')
  | 'f' | 'F' => real (Scientific.fixed (d.has '#'))
  | 'g' => real (Scientific.general (d.has '#') 'e')
  | 'G' => real (Scientific.general (d.has '#') 'E')
  | 'c' => value.number?.map fun n => d.fillText width [Char.ofNat n]
  | _ => none

end Directive

end FlatAbi.Log
