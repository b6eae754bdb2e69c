import FlatAbi.Text.Basic

/-!
Argument lists as text: split at the commas outside all brackets, joined with a comma and a space.
-/

namespace FlatAbi.Arguments

/-- How one character moves the bracket depth. The three kinds of bracket share one count. -/
def depthAfter (depth : Int) (c : Char) : Int :=
  if c == '(' || c == '<' || c == '[' then depth + 1
  else if c == ')' || c == '>' || c == ']' then depth - 1
  else depth

def pieces (depth : Int) : List Char → List (List Char)
  | [] => [[]]
  | c :: cs =>
    let after := depthAfter depth c
    if c == ',' && after == 0 then [] :: pieces after cs
    else Chars.prepend c (pieces after cs)

def dropEmptyLast : List (List Char) → List (List Char)
  | [] => []
  | [piece] => if piece.isEmpty then [] else [piece]
  | piece :: next :: rest => piece :: dropEmptyLast (next :: rest)

def splitChars (cs : List Char) : List (List Char) :=
  dropEmptyLast ((pieces 0 cs).map Chars.trim)

def split (s : String) : List String :=
  (splitChars s.toList).map String.ofList

def respace (s : String) : String :=
  Text.join ", " (split s)

end FlatAbi.Arguments
