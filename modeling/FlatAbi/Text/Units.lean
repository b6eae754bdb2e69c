/-!
Units of 16 bits. A character beyond U+FFFF is a pair of them: a high unit and a low one.
-/

namespace FlatAbi.Text.Units

def isHigh (unit : Nat) : Bool :=
  0xD800 ≤ unit && unit < 0xDC00

def isLow (unit : Nat) : Bool :=
  0xDC00 ≤ unit && unit < 0xE000

def join (high low : Nat) : Char :=
  Char.ofNat (0x10000 + (high - 0xD800) * 0x400 + (low - 0xDC00))

def split (c : Char) : Nat × Nat :=
  let offset := c.toNat - 0x10000
  (0xD800 + offset / 0x400, 0xDC00 + offset % 0x400)

/-- How far a unit of a broken pair stands from the private character that it is kept as: U+FD800 for D800. -/
def privateOffset : Nat := 0xF0000

/-- The character of one unit. A unit of a broken pair has none, and is kept as a private one. -/
def single (unit : Nat) : Char :=
  Char.ofNat (if isHigh unit || isLow unit then privateOffset + unit else unit)

/-- The unit of a broken pair that a private character is kept for. -/
def broken? (c : Char) : Option Nat :=
  let unit := c.toNat - privateOffset
  if isHigh unit || isLow unit then some unit else none

/-- A text with a unit of a broken pair in it has no encoding. -/
def isEncodable (s : String) : Bool :=
  s.toList.all fun c => (broken? c).isNone

end FlatAbi.Text.Units
