import FlatAbi.CxxType.Arguments
import FlatAbi.CxxType.Basic
import FlatAbi.CxxType.Token
import FlatAbi.Text.Quoted

/-!
Reading type spellings such as `const Foo &`, `int [4]`, `void (*)(int, double)` or `unsigned long long`.
-/

namespace FlatAbi

inductive TypeSyntaxError where
  | empty
  | unreadable (text rest : String)
  | unexpected (token spelling : String)
  | noBase (spelling : String)
  deriving DecidableEq, Repr

def TypeSyntaxError.message : TypeSyntaxError → String
  | .empty => "empty type spelling"
  | .unreadable text rest => s!"cannot parse type {Text.quoted text} near {Text.quoted rest}"
  | .unexpected token spelling => s!"unexpected {Text.quoted token} in type {Text.quoted spelling}"
  | .noBase spelling => s!"no base type in {Text.quoted spelling}"

namespace CxxType

open FlatAbi.Text (isBlank isWordChar)

/-- A function pointer spelling taken apart: `result ( outer ) ( arguments ) const`. -/
structure FunctionParts where
  result : List Char
  outer : Declarator
  arguments : List Char
  isConst : Bool

def pointerKind? (cs : List Char) : Option (Declarator × List Char) :=
  match cs with
  | '*' :: rest => some (.pointer, rest)
  | '&' :: rest => some (.lvalueReference, rest)
  | _ =>
    let part := fun c => isWordChar c || c == ':'
    let run := cs.takeWhile part
    match cs.dropWhile part with
    | '*' :: rest =>
      if Chars.endsWith [':', ':'] run && run.length > 2 then
        some (.memberPointer (String.ofList (run.take (run.length - 2))), rest)
      else none
    | _ => none

/-- The text up to the last closing parenthesis, and whether `const` follows it. Nothing else may follow. -/
def argumentText? (cs : List Char) : Option (List Char × Bool) :=
  let after := (cs.reverse.takeWhile (· != ')')).reverse
  match cs.reverse.dropWhile (· != ')') with
  | _ :: reversed =>
    let trailing := Chars.trim after
    if trailing.isEmpty then some (reversed.reverse, false)
    else if trailing == ['c', 'o', 'n', 's', 't'] then some (reversed.reverse, true)
    else none
  | [] => none

def functionTail? (cs : List Char) : Option (Declarator × List Char × Bool) := do
  let (outer, afterKind) ← pointerKind? (cs.dropWhile isBlank)
  match afterKind.dropWhile isBlank with
  | ')' :: afterGroup =>
    match afterGroup.dropWhile isBlank with
    | '(' :: inside =>
      let (arguments, isConst) ← argumentText? inside
      some (outer, arguments, isConst)
    | _ => none
  | _ => none

/-- Split a function pointer spelling at the leftmost parenthesis from which the rest can be read. -/
def functionParts? : List Char → Option FunctionParts
  | [] => none
  | c :: cs =>
    let here := if c == '(' then functionTail? cs else none
    match here with
    | some (outer, arguments, isConst) => some ⟨[], outer, arguments, isConst⟩
    | none => (functionParts? cs).map fun parts => { parts with result := c :: parts.result }

theorem functionParts?_result_length {cs : List Char} {parts : FunctionParts}
    (found : functionParts? cs = some parts) : parts.result.length < cs.length := by
  induction cs generalizing parts with
  | nil => simp [functionParts?] at found
  | cons c cs ih =>
    simp only [functionParts?] at found
    split at found
    · simp only [Option.some.injEq] at found
      subst found
      simp
    · obtain ⟨inner, scanned, same⟩ := Option.map_eq_some_iff.mp found
      subst same
      simpa using ih scanned

def closingBound? (cs : List Char) : Option (List Char) :=
  match cs.dropWhile (· != ']') with
  | _ :: rest => if rest.all isBlank then some (Chars.trim (cs.takeWhile (· != ']'))) else none
  | [] => none

/-- The text before the leftmost `[` whose bound closes the text, and that bound. -/
def lastBound? : List Char → Option (List Char × List Char)
  | [] => none
  | c :: cs =>
    let here := if c == '[' then closingBound? cs else none
    match here with
    | some bound => some ([], bound)
    | none => (lastBound? cs).map fun (before, bound) => (c :: before, bound)

theorem lastBound?_length {cs before bound : List Char}
    (found : lastBound? cs = some (before, bound)) : before.length < cs.length := by
  induction cs generalizing before bound with
  | nil => simp [lastBound?] at found
  | cons c cs ih =>
    simp only [lastBound?] at found
    split at found
    · simp only [Option.some.injEq, Prod.mk.injEq] at found
      obtain ⟨rfl, _⟩ := found
      simp
    · obtain ⟨⟨inner, _⟩, scanned, same⟩ := Option.map_eq_some_iff.mp found
      simp only [Prod.mk.injEq] at same
      obtain ⟨rfl, rfl⟩ := same
      simpa using ih scanned

theorem trimEnd_length (cs : List Char) : (Chars.trimEnd cs).length ≤ cs.length := by
  have shorter := (List.dropWhile_suffix (l := cs.reverse) isBlank).length_le
  simpa [Chars.trimEnd] using shorter

def takeBounds (cs : List Char) : List Char × List (List Char) :=
  match _found : lastBound? cs with
  | some (before, bound) =>
    let (text, bounds) := takeBounds (Chars.trimEnd before)
    (text, bounds ++ [bound])
  | none => (cs, [])
termination_by cs.length
decreasing_by exact Nat.lt_of_le_of_lt (trimEnd_length _) (lastBound?_length _found)

/-- What the tokens of an object type say: the words of the base, the levels from the inside out, and the
qualifiers that come before every level. -/
structure ObjectParts where
  words : List String := []
  levels : List Declarator := []
  qualifiers : List String := []

def levelOf? (token : String) : Option Declarator :=
  if token == "*" then some .pointer
  else if token == "&" then some .lvalueReference
  else if token == "&&" then some .rvalueReference
  else none

def isElaboration (token : String) : Bool :=
  token == "class" || token == "struct" || token == "union" || token == "typename"

def isQualifierWord (token : String) : Bool :=
  token == "const" || token == "volatile"

/-- Read the tokens of an object type; `inside` holds once a level was read. The error is a token that cannot
stand after a level. -/
def readTokens (inside : Bool) : List String → Except String ObjectParts
  | [] => .ok {}
  | token :: rest =>
    if isQualifierWord token then
      (readTokens inside rest).map fun parts =>
        if inside then { parts with levels := .qualifier token :: parts.levels }
        else { parts with qualifiers := token :: parts.qualifiers }
    else match levelOf? token with
      | some level =>
        (readTokens true rest).map fun parts => { parts with levels := level :: parts.levels }
      | none =>
        if isElaboration token then readTokens inside rest
        else if inside then .error token
        else (readTokens inside rest).map fun parts => { parts with words := token :: parts.words }

/-- The qualifiers of the base as one level, each at most once and in alphabetical order. -/
def baseLevel (qualifiers : List String) : List Declarator :=
  match ["const", "volatile"].filter qualifiers.contains with
  | [] => []
  | words => [.qualifier (Text.join " " words)]

/-- The tokens of a text, which has to be made up of tokens and blanks. -/
def tokenize (text : List Char) : Except TypeSyntaxError (List (List Char)) :=
  (Token.scan text).mapError fun rest => .unreadable (String.ofList text) (String.ofList rest)

/-- Read a type without a function pointer at its outside. `cs` is the spelling at single spaces. -/
def readObject (spelling cs : List Char) : Except TypeSyntaxError CxxType :=
  let (text, bounds) := takeBounds cs
  match tokenize text with
  | .error cause => .error cause
  | .ok tokens =>
    match readTokens false (tokens.map String.ofList) with
    | .error token => .error (.unexpected token (String.ofList spelling))
    | .ok parts =>
      if parts.words.isEmpty then .error (.noBase (String.ofList spelling))
      else .ok ⟨Text.join " " parts.words,
        bounds.map (fun bound => .array (String.ofList bound)) ++ parts.levels.reverse ++
          baseLevel parts.qualifiers⟩

def readChars (spelling : List Char) : Except TypeSyntaxError CxxType :=
  let cs := Chars.collapse spelling
  if cs.isEmpty then .error .empty
  else match _found : functionParts? cs with
    | none => readObject spelling cs
    | some parts => do
      let result ← readChars parts.result
      let arguments := Text.join "," (Arguments.split (String.ofList parts.arguments))
      let constness : List Declarator := if parts.isConst then [.qualifier "const"] else []
      return ⟨result.base, parts.outer :: constness ++ .function arguments :: result.declarators⟩
termination_by spelling.length
decreasing_by
  exact Nat.lt_of_lt_of_le (functionParts?_result_length _found) (Chars.length_collapse_le spelling)

def read (spelling : String) : Except TypeSyntaxError CxxType :=
  readChars spelling.toList

/-- The argument types of a function type. Empty arguments and `void` do not count. -/
def functionArguments (t : CxxType) : Except TypeSyntaxError (List CxxType) :=
  match t.outermost?.map Declarator.level with
  | some (.function arguments) =>
    ((Arguments.split arguments).filter fun argument => argument != "" && argument != "void").mapM read
  | _ => .ok []

end CxxType

end FlatAbi
