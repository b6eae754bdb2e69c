import FlatAbi.Text.Chars
import FlatAbi.Text.Letter
import FlatAbi.Text.Numeral

/-!
The operations of `FlatAbi.Chars` on strings, word characters and identifiers.
-/

namespace FlatAbi.Text

def isAlphanumeric (c : Char) : Bool :=
  isLetter c || isNumeral c

def isWordChar (c : Char) : Bool :=
  isAlphanumeric c || c == '_'

def isIdentifierChar (c : Char) : Bool :=
  c.isAlphanum || c == '_'

def trim (s : String) : String :=
  String.ofList (Chars.trim s.toList)

def trimStart (s : String) : String :=
  String.ofList (Chars.trimStart s.toList)

def trimEnd (s : String) : String :=
  String.ofList (Chars.trimEnd s.toList)

def words (s : String) : List String :=
  (Chars.words s.toList).map String.ofList

def occurs (part s : String) : Bool :=
  Chars.occurs part.toList s.toList

def startsWith (head s : String) : Bool :=
  head.toList.isPrefixOf s.toList

def endsWith (tail s : String) : Bool :=
  Chars.endsWith tail.toList s.toList

def splitOn (separator s : String) : List String :=
  (Chars.splitOn separator.toList s.toList).map String.ofList

def replace (part replacement s : String) : String :=
  String.ofList (Chars.replace part.toList replacement.toList s.toList)

def replaceFirst (part replacement s : String) : String :=
  String.ofList (Chars.replaceFirst part.toList replacement.toList s.toList)

def dropStart (count : Nat) (s : String) : String :=
  String.ofList (s.toList.drop count)

def dropEnd (count : Nat) (s : String) : String :=
  String.ofList (s.toList.take (s.toList.length - count))

def join (separator : String) : List String → String
  | [] => ""
  | [piece] => piece
  | piece :: next :: rest => piece ++ separator ++ join separator (next :: rest)

def concat (pieces : List String) : String :=
  pieces.foldr (· ++ ·) ""

def orElse (s fallback : String) : String :=
  if s == "" then fallback else s

def lastComponent (name : String) : String :=
  (splitOn "::" name).getLast?.getD ""

/-- The characters of an identifier that names a C symbol: an ASCII letter or underscore, then word characters of
any script. One line break at the end is passed over. -/
def isSymbolName (s : String) : Bool :=
  let cs := s.toList
  let body := if cs.getLast? == some '\n' then cs.dropLast else cs
  match body with
  | [] => false
  | c :: rest => (c.isAlpha || c == '_') && rest.all isWordChar

/-- A name flattened to the characters of a C identifier: `ns::Box<int>` becomes `ns_Box_int_`. -/
def flattenName (name : String) : String :=
  String.ofList <|
    ((Chars.replace [':', ':'] ['_'] name.toList).filter (· != ' ')).map fun c =>
      if isIdentifierChar c then c else '_'

end FlatAbi.Text
