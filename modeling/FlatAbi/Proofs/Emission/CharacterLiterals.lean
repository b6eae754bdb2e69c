import FlatAbi.Emission.Constant
import FlatAbi.Proofs.Emission.Enumerations

/-!
Character literals of C, and what becomes of them as the values of constants and enum elements.
-/

namespace FlatAbi

open List Enumeration Value

namespace CharacterLiteral

def simpleEscapes : List (Char × Nat) :=
  [('\'', 39), ('"', 34), ('?', 63), ('\\', 92), ('a', 7), ('b', 8), ('f', 12), ('n', 10), ('r', 13), ('t', 9),
    ('v', 11)]

def digits : List Char :=
  ['0', '1', '2', '3', '4', '5', '6', '7', '8', '9', 'a', 'b', 'c', 'd', 'e', 'f']

def readDigit? (base value : Nat) (c : Char) : Option Nat :=
  ((digits.take base).idxOf? c.toLower).map (value * base + ·)

def number? (base : Nat) (cs : List Char) : Option Nat :=
  if cs.isEmpty then none else cs.foldlM (readDigit? base) 0

/-- The code of an escape, which is given without its backslash. -/
def escapeCode? : List Char → Option Nat
  | [] => none
  | c :: rest =>
    if c = 'x' then number? 16 rest
    else if rest.isEmpty then (simpleEscapes.lookup c).or (number? 8 [c])
    else if rest.length ≤ 2 then number? 8 (c :: rest)
    else none

/-- The code of the characters between two quotes: an escape, or one character that needs none. -/
def bodyCode? : List Char → Option Nat
  | [] => none
  | c :: rest =>
    if c = '\\' then escapeCode? rest
    else if rest = [] ∧ c ≠ '\'' ∧ c ≠ '\n' then some c.toNat
    else none

/-- The character code that a text denotes as a literal of C. -/
def code? : List Char → Option Nat
  | [] => none
  | c :: rest => if c = '\'' ∧ rest.getLast? = some '\'' then bodyCode? rest.dropLast else none

example : ["'/'", "'\\n'", "'\\101'", "'\\xfF'", "'ab'"].map (code? ·.toList) =
    [some 47, some 10, some 65, some 255, none] := by decide

variable {literal : List Char} {code : Nat}

theorem code?_quoted (body : List Char) : code? ('\'' :: (body ++ ['\''])) = bodyCode? body := by
  simp [code?]

theorem code?_cases (denotes : code? literal = some code) :
    (∃ escape, literal = '\'' :: '\\' :: (escape ++ ['\'']) ∧ escapeCode? escape = some code) ∨
      ∃ c, literal = ['\'', c, '\''] ∧ c ≠ '\\' ∧ c ≠ '\'' ∧ c ≠ '\n' ∧ code = c.toNat := by
  cases literal with
  | nil => cases denotes
  | cons first rest =>
    rw [code?] at denotes
    split at denotes
    next quoted =>
      obtain ⟨rfl, last⟩ := quoted
      have whole : rest = rest.dropLast ++ ['\''] := by simpa [last] using (dropLast_append_getLast? _ last).symm
      revert denotes
      rw [whole, dropLast_concat]
      cases rest.dropLast with
      | nil => simp [bodyCode?]
      | cons c more =>
        unfold bodyCode?
        grind
    · cases denotes

theorem foldlM_toDigits (n : Nat) : (Nat.toDigits 16 n).foldlM (readDigit? 16) 0 = some n := by
  have digit : ∀ d < 16, (digits.take 16).idxOf? d.digitChar.toLower = some d := by decide
  induction n using Nat.strongRecOn with
  | ind n ih =>
    rw [Nat.toDigits_eq_if (by decide)]
    split
    next small => simp [readDigit?, digit n small]
    next large =>
      rw [foldlM_append, ih (n / 16) (by omega)]
      simp [readDigit?, digit (n % 16) (by omega)]
      omega

theorem number?_hexText (n : Nat) : number? 16 (Constant.hexText n).toList = some n := by
  have read := foldlM_toDigits n
  have zero : readDigit? 16 0 '0' = some 0 := by decide
  unfold Constant.hexText
  dsimp only
  split
  · simp [number?, String.toList_append, zero, read]
  · simp [number?, Nat.toDigits_ne_nil, read]

theorem code?_characterLiteral (c : Char) : code? (Constant.characterLiteral c).toList = some c.toNat := by
  unfold Constant.characterLiteral
  split
  next alphanumeric =>
    have plain : c ≠ '\\' ∧ c ≠ '\'' ∧ c ≠ '\n' := by
      refine ⟨?_, ?_, ?_⟩ <;> rintro rfl <;> revert alphanumeric <;> decide
    have body := code?_quoted [c]
    simp_all [String.toList_append, bodyCode?]
  · have body := code?_quoted ('\\' :: 'x' :: (Constant.hexText c.toNat).toList)
    simpa [String.toList_append, bodyCode?, escapeCode?, number?_hexText] using body

end CharacterLiteral

theorem Enumeration.quoteChar_of_code {literal : String} {code : Nat}
    (denotes : CharacterLiteral.code? literal.toList = some code) : quoteChar literal = literal := by
  obtain ⟨escape, quoted, _⟩ | ⟨c, quoted, _⟩ := CharacterLiteral.code?_cases denotes
  · simp [quoteChar, quoted, getLast?_cons]
  · simp [quoteChar, quoted]

namespace Constant

open Emit
open CharacterLiteral (code?)

variable {job : Job} {site : Site} {literal : String} {code : Nat} {c : Char}

theorem firstCharacter?_quoted {rest : List Char} (keeps : c ≠ '\'') (quoted : literal.toList = '\'' :: c :: rest) :
    firstCharacter? literal = some c := by
  simp only [firstCharacter?, quoted, dropWhile_cons, beq_self_eq_true, if_true, beq_iff_eq, keeps, if_false,
    reverse_cons, dropWhile_append]
  split <;> simp

/-- A member of type `char` with the literal as its value, and without a raw value. -/
structure IsCharacter (site : Site) (literal : String) : Prop where
  member : site.isMember
  typed : site.decl.attr "valuetype" = .string "char"
  given : site.decl.attr "value" = .string literal
  unraw : (site.decl.attr "rawval").isNull

theorem value_of_quoted (character : IsCharacter site literal) {rest : List Char} (keeps : c ≠ '\'')
    (quoted : literal.toList = '\'' :: c :: rest) : value site = .ok (characterLiteral c) := by
  have filled : literal ≠ "" := by
    rintro rfl
    cases quoted
  have first := firstCharacter?_quoted keeps quoted
  simp [value, isCharacterMember, character.member, character.typed, character.given, character.unraw, asString?,
    display, truthy, first, filled]
  rfl

/-- The code that a literal has in a constant. The first character of an escape is its backslash. -/
theorem exists_value (character : IsCharacter site literal) (denotes : code? literal.toList = some code) :
    ∃ text, value site = .ok text ∧
      code? text.toList = some (if literal.toList[1]? = some '\\' then 92 else code) := by
  obtain ⟨escape, quoted, _⟩ | ⟨c, quoted, plain, keeps, _, rfl⟩ := CharacterLiteral.code?_cases denotes
  · refine ⟨_, value_of_quoted character (by decide) quoted, ?_⟩
    rw [CharacterLiteral.code?_characterLiteral, quoted]
    rfl
  · refine ⟨_, value_of_quoted character keeps quoted, ?_⟩
    rw [CharacterLiteral.code?_characterLiteral, quoted]
    simp [plain]

/-- A constant is written with its value, unless names that are not text stop it before that. -/
theorem chunks_of_ends {text : String} {before after : Draft} {outcome : Except Halt Unit}
    (found : value site = .ok text) (ends : Ends (write job site) before outcome after) :
    after.chunks = before.chunks ++ [.constant (name job.config site).display text] ∨
      ¬ site.IsNamed ∧ after.chunks = before.chunks := by
  unfold write at ends
  rw [found] at ends
  rcases Ends.check_bind_cases (ends : Ends (check _ >>= _) before outcome after) with
    ⟨_, ends⟩ | ⟨cause, failed, _, rfl⟩
  · rw [ends_append_bind] at ends
    rcases ends.check_bind_cases with ⟨_, ends⟩ | ⟨_, _, _, rfl⟩
    · obtain ⟨_, rfl⟩ := ends_modify_iff.mp ends
      exact .inl rfl
    · exact .inl rfl
  · refine .inr ⟨fun named => ?_, rfl⟩
    cases owned : site.enclosingClass? with
    | none =>
      rw [owned] at failed
      cases failed
    | some owner =>
      have checked : Naming.checkProxy owner = .ok () :=
        (named.of_closest (Option.filter_eq_some_iff.mp owned).1).checkNamespace
      simp [owned, checked] at failed

/-- A constant keeps the code of a character literal exactly if the literal is no escape, or that of the backslash. An
enum element keeps the literal itself. -/
theorem character_code_kept_iff (character : IsCharacter site literal) (denotes : code? literal.toList = some code) :
    ∃ text, (∀ before outcome after, Ends (write job site) before outcome after →
        after.chunks = before.chunks ++ [.constant (name job.config site).display text] ∨
          ¬ site.IsNamed ∧ after.chunks = before.chunks) ∧
      (code? text.toList = some code ↔ literal.toList[1]? ≠ some '\\' ∨ code = 92) ∧
      ∀ element : Site, valueType element.decl = some "char" →
        ∃ shown, Enumeration.value element literal = .ok shown ∧ code? shown.toList = some code := by
  obtain ⟨text, found, read⟩ := exists_value character denotes
  refine ⟨text, fun _ _ _ => chunks_of_ends found, ?_, fun element typed => ⟨literal, ?_, denotes⟩⟩
  · rw [read]
    split <;> grind
  · simp [Enumeration.value, typed, quoteChar_of_code denotes]

/-- A separator of type `char` in a class. -/
def separator (literal : String) : Site :=
  let attributes := [("value", .string literal), ("valuetype", .string "char")]
  let constant := .mk { Declaration.named .constantDecl "SEP" with attributes := attributes } []
  let cls := .mk (.named .classDecl "Widget") [constant]
  let root := .mk (.named .moduleDecl "m") [cls]
  ⟨.declared [0, 0], constant, [(.declared [0], cls), (.declared [], root)]⟩

theorem separator_isCharacter (literal : String) : IsCharacter (separator literal) literal :=
  ⟨rfl, rfl, rfl, rfl⟩

def separatorJob : Job where
  config := { givenModule := .string "m" }
  root := .root (.mk (.named .moduleDecl "m") [.mk (.named .classDecl "Widget") [(separator "'/'").node]])
  typemaps := {}

theorem character_code_kept_iff_slash :
    IsCharacter (separator "'/'") "'/'" ∧ code? "'/'".toList = some 47 ∧
      ∃ text, (∀ before outcome after, Ends (write separatorJob (separator "'/'")) before outcome after →
          after.chunks = before.chunks ++ [.constant "Widget_SEP" text]) ∧
        code? text.toList = some 47 ∧
        ∀ element : Site, valueType element.decl = some "char" →
          ∃ shown, Enumeration.value element "'/'" = .ok shown ∧ code? shown.toList = some 47 := by
  refine ⟨separator_isCharacter _, by decide, ?_⟩
  obtain ⟨text, writes, kept, shown⟩ :=
    @character_code_kept_iff separatorJob _ _ 47 (separator_isCharacter "'/'") (by decide)
  have named : (name separatorJob.config (separator "'/'")).display = "Widget_SEP" := by decide +kernel
  rw [named] at writes
  refine ⟨text, fun before outcome after ends => ?_, kept.mpr (.inl (by decide)), shown⟩
  exact (writes before outcome after ends).resolve_right fun unnamed => unnamed.1 (by unfold Site.IsNamed; decide)

/-- A line break written as an escape becomes a backslash. -/
theorem separator_code_lost :
    IsCharacter (separator "'\\n'") "'\\n'" ∧ code? "'\\n'".toList = some 10 ∧
      value (separator "'\\n'") = .ok "'\\x5c'" ∧ code? "'\\x5c'".toList = some 92 :=
  ⟨separator_isCharacter _, by decide, rfl, by decide⟩

end Constant

end FlatAbi
