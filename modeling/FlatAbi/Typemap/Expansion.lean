import FlatAbi.Text.Basic

/-!
Special variables in typemap code. A variable is a dollar sign and one of a fixed set of words; what no value is
given for stays as it is.
-/

namespace FlatAbi.Typemap

def variableWords : List String :=
  ["1_ltype", "1_type", "1_basetype", "1", "input", "result", "owner", "symname", "null", "target", "source"]

def variableText (values : List (String × String)) (word : String) : List Char :=
  match values.lookup word with
  | some text => text.toList
  | none => '$' :: word.toList

/-- Expand special variables; `skip` characters of a variable already expanded are passed over. -/
def expandFrom (values : List (String × String)) : Nat → List Char → List Char
  | _, [] => []
  | skip + 1, _ :: cs => expandFrom values skip cs
  | 0, c :: cs =>
    let run := cs.takeWhile Text.isWordChar
    let word := String.ofList run
    if c == '$' && variableWords.contains word then
      variableText values word ++ expandFrom values run.length cs
    else c :: expandFrom values 0 cs

def expand (code : String) (values : List (String × String)) : String :=
  String.ofList (expandFrom values 0 code.toList)

def mentions (word code : String) : Bool :=
  expand code [(word, "")] != code

/-- Put a cast to the C type after the first `$result = `, where that starts a word. The C++ result and the C
result may differ in type. -/
def insertResultCast (code ctype : String) : String :=
  let marker := "$result = "
  match Chars.cut marker.toList code.toList with
  | some (before, after) =>
    let startsWord := match before.getLast? with
      | none => true
      | some c => c == ' ' || c == '\n'
    if startsWord then String.ofList before ++ marker ++ "(" ++ ctype ++ ") " ++ String.ofList after else code
  | none => code

end FlatAbi.Typemap
