/-!
Numbers of binary64 format, given by their 64 bits.
-/

namespace FlatAbi

structure Binary where
  bits : UInt64
  deriving DecidableEq, Repr

/-- A binary64 number: a whole number `mantissa` times two to the power `exponent`, or one of the special values. -/
inductive BinaryParts where
  | finite (negative : Bool) (mantissa : Nat) (exponent : Int)
  | infinite (negative : Bool)
  | notANumber
  deriving DecidableEq, Repr

def powerOfTwo (n : Nat) : Nat :=
  Nat.pow 2 n

namespace Binary

def parts (x : Binary) : BinaryParts :=
  let bits := x.bits.toNat
  let negative := bits / powerOfTwo 63 == 1
  let field : Nat := bits / powerOfTwo 52 % powerOfTwo 11
  let fraction := bits % powerOfTwo 52
  if field == 2047 then
    if fraction == 0 then .infinite negative else .notANumber
  else if field == 0 then .finite negative fraction (-1074)
  else .finite negative (powerOfTwo 52 + fraction) ((field : Int) - 1075)

def isZero (x : Binary) : Bool :=
  match x.parts with
  | .finite _ mantissa _ => mantissa == 0
  | _ => false

def infinity (negative : Bool) : Binary :=
  ⟨if negative then 0xFFF0000000000000 else 0x7FF0000000000000⟩

def notANumber : Binary := ⟨0x7FF8000000000000⟩

/-- The number nearest to `digits` times ten to the power `exponent`, with a sign. Powers far outside the range of
the format are cut off before they are computed. -/
def ofDecimal (negative : Bool) (digits : Nat) (exponent : Int) : Binary :=
  let magnitude : Binary :=
    if digits == 0 then ⟨0⟩
    else
      let top := exponent + (Nat.log2 digits / 3 : Nat)
      if exponent > 400 then infinity false
      else if top < -400 then ⟨0⟩
      else if exponent ≥ 0 then ⟨(Float.ofScientific digits false exponent.toNat).toBits⟩
      else ⟨(Float.ofScientific digits true (-exponent).toNat).toBits⟩
  if negative then ⟨magnitude.bits ||| 0x8000000000000000⟩ else magnitude

def whole? (x : Binary) : Option Int :=
  match x.parts with
  | .finite negative mantissa exponent =>
    let signed := fun (n : Nat) => if negative then -(n : Int) else n
    if exponent ≥ 0 then some (signed (mantissa * powerOfTwo exponent.toNat))
    else if mantissa % powerOfTwo (-exponent).toNat == 0 then
      some (signed (mantissa / powerOfTwo (-exponent).toNat))
    else none
  | _ => none

def truncate? (x : Binary) : Option Int :=
  match x.parts with
  | .finite negative mantissa exponent =>
    let whole :=
      if exponent ≥ 0 then mantissa * powerOfTwo exponent.toNat else mantissa / powerOfTwo (-exponent).toNat
    some (if negative then -(whole : Int) else whole)
  | _ => none

end Binary

end FlatAbi
