import FlatAbi.Text.Basic

/-!
Layout of code fragments: indentation, braces around user code, line ends.
-/

namespace FlatAbi.Text

def indentation : String := "  "

def indent (level : Nat) (text : String) : String :=
  let pad := concat (List.replicate level indentation)
  join "\n" ((splitOn "\n" text).map fun line => if trim line == "" then line else pad ++ line)

def stripBraces (code : String) : String :=
  let bare := trim code
  if startsWith "\x7b" bare && endsWith "\x7d" bare then
    trim (String.ofList (bare.toList.drop 1).dropLast)
  else bare

def unixLines : List Char → List Char
  | [] => []
  | '\r' :: '\n' :: cs => '\n' :: unixLines cs
  | c :: cs => (if c == '\r' then '\n' else c) :: unixLines cs

def normalizeNewlines (s : String) : String :=
  String.ofList (unixLines s.toList)

end FlatAbi.Text
