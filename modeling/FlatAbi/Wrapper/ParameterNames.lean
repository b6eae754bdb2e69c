import FlatAbi.Text.Basic

/-!
Names of the parameters of a wrapper: the declared name where it can be used, else one made from the position.
-/

namespace FlatAbi.Wrapper

/-- Words that cannot name a parameter: keywords, and names that the body of a wrapper uses. -/
def reservedWords : List String :=
  ["auto", "break", "case", "char", "const", "continue", "default", "do", "double", "else", "enum", "extern",
   "float", "for", "goto", "if", "inline", "int", "long", "register", "restrict", "return", "short", "signed",
   "sizeof", "static", "struct", "switch", "typedef", "union", "unsigned", "void", "volatile", "while", "bool",
   "true", "false", "new", "delete", "class", "this", "template", "typename", "namespace", "operator", "private",
   "protected", "public", "virtual", "friend", "result", "cppresult", "self"]

def isDigits (cs : List Char) : Bool :=
  let body := if cs.getLast? == some '\n' then cs.dropLast else cs
  !body.isEmpty && body.all Text.isDecimalDigit

def isPositionalName (name : String) : Bool :=
  let cs := name.toList
  let bare := if cs.head? == some 'c' then cs.tail else cs
  ['a', 'r', 'g'].isPrefixOf bare && isDigits (bare.drop 3)

def isUsableName (name : String) : Bool :=
  Text.isSymbolName name && !reservedWords.contains name && !isPositionalName name &&
    !Text.startsWith "swig_" name

def parameterName (used : List String) (position : Int) (declared : Option String) : String :=
  let name := Text.lastComponent (declared.getD "")
  if isUsableName name && !used.contains name then name else s!"carg{position}"

def parameterNamesFrom (used : List String) (position : Int) : List (Option String) → List String
  | [] => []
  | declared :: rest =>
    let name := parameterName used position declared
    name :: parameterNamesFrom (name :: used) (position + 1) rest

def parameterNames (first : Int) (declared : List (Option String)) : List String :=
  parameterNamesFrom [] first declared

end FlatAbi.Wrapper
