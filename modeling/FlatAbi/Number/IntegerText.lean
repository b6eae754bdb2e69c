import FlatAbi.Text.Basic

/-!
Whole numbers as text, with decimal digits of any script.
-/

namespace FlatAbi.IntegerText

/-- The most digits that a number may have, leading zeros included. -/
def digitLimit : Nat := 4300

inductive Refusal where
  | malformed
  | tooLong (digits : Nat)
  deriving DecidableEq, Repr

def tooLongMessage (digits : Nat) : String :=
  s!"Exceeds the limit ({digitLimit} digits) for integer string conversion: value has {digits} digits; " ++
    "use sys.set_int_max_str_digits() to increase the limit"

/-- Blanks that may stand around a number. Of the ASCII characters these are the space and the five layout
characters, of all others the blanks. -/
def isPadding (c : Char) : Bool :=
  let point := c.toNat
  (9 ≤ point && point ≤ 13) || point == 32 || (point > 127 && Text.isBlank c)

def strip (cs : List Char) : List Char :=
  ((cs.dropWhile isPadding).reverse.dropWhile isPadding).reverse

def isNumberChar (c : Char) : Bool :=
  c == '_' || Text.isDecimalDigit c

def valueOf (digits : List Char) : Nat :=
  digits.foldl (fun value c => value * 10 + (Text.digitValue? c).getD 0) 0

/-- Read digits in groups with underscores between them; no group is empty. What follows the digits is looked at
after their number. -/
def readNatural (cs : List Char) : Except Refusal Nat :=
  let groups := Chars.splitOn ['_'] (cs.takeWhile isNumberChar)
  let digits := groups.flatten
  if groups.any List.isEmpty then .error .malformed
  else if digits.length > digitLimit then .error (.tooLong digits.length)
  else if (cs.dropWhile isNumberChar).isEmpty then .ok (valueOf digits)
  else .error .malformed

def read (s : String) : Except Refusal Int :=
  match strip s.toList with
  | '-' :: cs => (readNatural cs).map fun n => -(n : Int)
  | '+' :: cs => (readNatural cs).map fun n => (n : Int)
  | cs => (readNatural cs).map fun n => (n : Int)

end FlatAbi.IntegerText
