import FlatAbi.Number.Binary

/-!
The shortest decimal text of a binary64 number: the fewest digits that read back as the number.
-/

namespace FlatAbi.Shortest

def powerOfTen (n : Nat) : Nat :=
  Nat.pow 10 n

structure Fraction where
  numerator : Nat
  denominator : Nat

def Fraction.ofBinary (mantissa : Nat) (exponent : Int) : Fraction :=
  if exponent ≥ 0 then ⟨mantissa * powerOfTwo exponent.toNat, 1⟩ else ⟨mantissa, powerOfTwo (-exponent).toNat⟩

def Fraction.scale (x : Fraction) (exponent : Int) : Fraction :=
  if exponent ≥ 0 then ⟨x.numerator, x.denominator * powerOfTen exponent.toNat⟩
  else ⟨x.numerator * powerOfTen (-exponent).toNat, x.denominator⟩

def Fraction.floor (x : Fraction) : Nat :=
  x.numerator / x.denominator

def digitsOf (n : Nat) : List Char :=
  Nat.toDigits 10 n

/-- How often a fraction below one is multiplied by ten to reach one. -/
def leadingZeros (x : Fraction) : Nat → Nat
  | 0 => 0
  | fuel + 1 =>
    if x.numerator ≥ x.denominator then 0
    else leadingZeros ⟨x.numerator * 10, x.denominator⟩ fuel + 1

def magnitude (x : Fraction) : Int :=
  if x.floor > 0 then (digitsOf x.floor).length else 1 - (leadingZeros x 400 : Int)

/-- The reals that round to a number, over one quarter of its last place. The lower gap is half as wide just above
a power of two, and the ends belong to the interval when the mantissa is even. -/
structure Interval where
  low : Fraction
  high : Fraction
  closed : Bool

def Interval.around (mantissa : Nat) (exponent : Int) : Interval :=
  let below := if mantissa == powerOfTwo 52 && exponent > -1074 then 1 else 2
  { low := Fraction.ofBinary (4 * mantissa - below) (exponent - 2)
    high := Fraction.ofBinary (4 * mantissa + 2) (exponent - 2)
    closed := mantissa % 2 == 0 }

def Interval.holds (i : Interval) (n : Nat) (exponent : Int) : Bool :=
  let low := i.low.scale exponent
  let high := i.high.scale exponent
  if i.closed then low.numerator ≤ n * low.denominator && n * high.denominator ≤ high.numerator
  else low.numerator < n * low.denominator && n * high.denominator < high.numerator

/-- The grid point with the given exponent that lies in the interval and is nearest to the value. -/
def onGrid (value : Fraction) (i : Interval) (exponent : Int) : Option Nat :=
  let scaled := value.scale exponent
  let lower := scaled.floor
  match i.holds lower exponent, i.holds (lower + 1) exponent with
  | true, true =>
    let twice := 2 * (scaled.numerator - lower * scaled.denominator)
    if twice < scaled.denominator || (twice == scaled.denominator && lower % 2 == 0) then some lower
    else some (lower + 1)
  | true, false => some lower
  | false, true => some (lower + 1)
  | false, false => none

def search (value : Fraction) (i : Interval) (top : Int) (used : Nat) : Nat → Nat × Int
  | 0 => (value.floor, 0)
  | fuel + 1 =>
    let exponent := top - (used + 1 : Nat)
    match onGrid value i exponent with
    | some n => (n, exponent)
    | none => search value i top (used + 1) fuel

def digits (mantissa : Nat) (exponent : Int) : List Char × Int :=
  let value := Fraction.ofBinary mantissa exponent
  let (n, shift) := search value (Interval.around mantissa exponent) (magnitude value) 0 17
  let written := digitsOf n
  let kept := (written.reverse.dropWhile (· == '0')).reverse
  (kept, written.length + shift)

def positional (ds : List Char) (point : Int) : List Char :=
  if point ≤ 0 then ['0', '.'] ++ List.replicate (-point).toNat '0' ++ ds
  else if ds.length ≤ point.toNat then
    ds ++ List.replicate (point.toNat - ds.length) '0' ++ ['.', '0']
  else ds.take point.toNat ++ '.' :: ds.drop point.toNat

def withExponent (ds : List Char) (point : Int) : List Char :=
  let exponent := point - 1
  let shown := digitsOf exponent.natAbs
  let padded := if shown.length < 2 then '0' :: shown else shown
  let body := match ds with
    | [] => []
    | [d] => [d]
    | d :: rest => d :: '.' :: rest
  body ++ ['e', if exponent < 0 then '-' else '+'] ++ padded

def text (negative : Bool) (mantissa : Nat) (exponent : Int) : String :=
  let sign := if negative then ['-'] else []
  let body :=
    if mantissa == 0 then ['0', '.', '0']
    else
      let (ds, point) := digits mantissa exponent
      if point ≤ -4 || point > 16 then withExponent ds point else positional ds point
  String.ofList (sign ++ body)

end FlatAbi.Shortest
