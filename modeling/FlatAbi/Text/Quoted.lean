import FlatAbi.Text.Printable
import FlatAbi.Text.Units

/-!
Quoted literals, as messages show text. Characters without a visible form are written by their code point.
-/

namespace FlatAbi.Text.Quoted

def hexDigit (n : Nat) : Char :=
  if n < 10 then Char.ofNat (48 + n) else Char.ofNat (87 + n)

def hex (width n : Nat) : List Char :=
  match width with
  | 0 => []
  | width + 1 => hex width (n / 16) ++ [hexDigit (n % 16)]

def byPoint (c : Char) : List Char :=
  let point := (Units.broken? c).getD c.toNat
  if point < 0x100 then ['\\', 'x'] ++ hex 2 point
  else if point < 0x10000 then ['\\', 'u'] ++ hex 4 point
  else ['\\', 'U'] ++ hex 8 point

def encodeChar (quote c : Char) : List Char :=
  if c == quote || c == '\\' then ['\\', c]
  else if c == '\n' then ['\\', 'n']
  else if c == '\r' then ['\\', 'r']
  else if c == '\t' then ['\\', 't']
  else if isPrintable c then [c]
  else byPoint c

def quoteFor (cs : List Char) : Char :=
  if cs.contains '\'' && !cs.contains '"' then '"' else '\''

def encode (cs : List Char) : List Char :=
  let quote := quoteFor cs
  [quote] ++ cs.flatMap (encodeChar quote) ++ [quote]

def inAscii (cs : List Char) : List Char :=
  cs.flatMap fun c => if c.toNat < 128 then [c] else byPoint c

end FlatAbi.Text.Quoted

namespace FlatAbi.Text

def quoted (s : String) : String :=
  String.ofList (Quoted.encode s.toList)

end FlatAbi.Text
