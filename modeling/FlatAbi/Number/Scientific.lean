import FlatAbi.Number.Shortest

/-!
Whole numbers in the notations of other numbers.
-/

namespace FlatAbi.Scientific

/-- A quotient rounded to the nearest whole number, a tie to the even one. -/
def roundDiv (n unit : Nat) : Nat :=
  let down := n / unit
  let rest := 2 * (n % unit)
  if rest > unit || (rest == unit && down % 2 == 1) then down + 1 else down

def leading (count n : Nat) : List Char × Nat :=
  let digits := Nat.toDigits 10 n
  let top := digits.length - 1
  if digits.length ≤ count then (digits ++ List.replicate (count - digits.length) '0', top)
  else
    let rounded := Nat.toDigits 10 (roundDiv n (Shortest.powerOfTen (digits.length - count)))
    (rounded.take count, top + (rounded.length - count))

/-- Digits with a point after the first `count` of them. A point with nothing after it is written on demand. -/
def pointed (always : Bool) (count : Nat) (digits : List Char) : List Char :=
  let decimals := digits.drop count
  digits.take count ++ (if decimals.isEmpty && !always then [] else '.' :: decimals)

/-- Digits without the zeros at their end, of which the first `count` stay. -/
def withoutZeros (count : Nat) (digits : List Char) : List Char :=
  digits.take count ++ ((digits.drop count).reverse.dropWhile (· == '0')).reverse

def exponentText (mark : Char) (top : Nat) : List Char :=
  let digits := Nat.toDigits 10 top
  [mark, '+'] ++ List.replicate (2 - digits.length) '0' ++ digits

def fixed (always : Bool) (decimals n : Nat) : List Char :=
  let digits := Nat.toDigits 10 n
  pointed always digits.length (digits ++ List.replicate decimals '0')

def exponential (always : Bool) (mark : Char) (decimals n : Nat) : List Char :=
  let (digits, top) := leading (decimals + 1) n
  pointed always 1 digits ++ exponentText mark top

/-- A number with a count of significant digits. Zeros at the end are left out unless `always` keeps them. -/
def general (always : Bool) (mark : Char) (significant n : Nat) : List Char :=
  let count := max significant 1
  let (digits, top) := leading count n
  let whole := if top < count then top + 1 else 1
  let kept := if always then digits else withoutZeros whole digits
  pointed always whole kept ++ (if top < count then [] else exponentText mark top)

end FlatAbi.Scientific
