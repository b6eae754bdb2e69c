import FlatAbi.CxxType.Reader
import FlatAbi.Proofs.Text.Identifiers

/-!
How C and C++ read a declarator: from the name, first to the right and then to the left.
-/

namespace FlatAbi.RightLeft

open List Option
open Text (isBlank isIdentifier isIdentifierChar)
open CxxType (isQualifierWord)

/-- What may stand in front of the name. A pointer comes with the qualifiers written behind it. -/
inductive Front where
  | pointer (qualifiers : List String)
  | lvalueReference
  | rvalueReference
  | opening
  deriving DecidableEq

/-- What may stand behind the name. -/
inductive Behind where
  | level (level : Declarator)
  | closing
  deriving DecidableEq

/-- Read up to the name, with what stands closest to the name first. -/
def front? (before : List Front) : List Char → Option (List Front × String × List Char)
  | [] => none
  | c :: cs =>
    if c = '*' then front? (.pointer [] :: before) cs
    else if c = '(' then front? (.opening :: before) cs
    else if c = '&' then
      if cs.head? = some '&' then front? (.rvalueReference :: before) cs.tail
      else front? (.lvalueReference :: before) cs
    else if isBlank c then front? before cs
    else
      let word := String.ofList (c :: cs.takeWhile isIdentifierChar)
      let rest := cs.dropWhile isIdentifierChar
      if isQualifierWord word then
        match before with
        | .pointer qualifiers :: others => front? (.pointer (qualifiers ++ [word]) :: others) rest
        | _ => none
      else if isIdentifier word then some (before, word, rest)
      else none
termination_by cs => cs.length
decreasing_by
  all_goals simp only [length_cons, length_tail]
  any_goals omega
  exact Nat.lt_succ_of_le (dropWhile_suffix _).length_le

/-- The bracket depth behind a character, unless it closes a bracket that was not opened. -/
def deeper? (opens closes : Char) (depth : Nat) (c : Char) : Option Nat :=
  if c = closes then if depth = 0 then none else some (depth - 1)
  else if c = opens then some (depth + 1)
  else some depth

/-- Divide a text at the bracket that closes it. -/
def enclosed? (opens closes : Char) (depth : Nat) : List Char → Option (List Char × List Char)
  | [] => none
  | c :: cs =>
    match deeper? opens closes depth c with
    | none => some ([], cs)
    | some depth => (enclosed? opens closes depth cs).map fun (inside, rest) => (c :: inside, rest)

theorem length_lt_of_enclosed? {opens closes : Char} {depth : Nat} {cs inside rest : List Char}
    (found : enclosed? opens closes depth cs = some (inside, rest)) : rest.length < cs.length := by
  induction cs generalizing depth inside with
  | nil => cases found
  | cons c cs ih =>
    simp only [enclosed?] at found
    split at found
    · cases found
      exact Nat.lt_succ_self _
    · obtain ⟨⟨inner, rest'⟩, found', same⟩ := map_eq_some_iff.mp found
      cases same
      exact Nat.lt_succ_of_lt (ih found')

/-- The partner of a bracket behind the name, and the level that the text between the two stands for. -/
def bracket? (c : Char) : Option (Char × (String → Declarator)) :=
  if c = '[' then some (']', .array)
  else if c = '(' then some (')', .function)
  else none

/-- Read from the name to the end. -/
def behind? : List Char → Option (List Behind)
  | [] => some []
  | c :: cs =>
    if c = ')' then (behind? cs).map (.closing :: ·)
    else
      match bracket? c with
      | some (closes, level) =>
        match _found : enclosed? c closes 0 cs with
        | some (inside, rest) => (behind? rest).map (.level (level (String.ofList inside)) :: ·)
        | none => none
      | none => if isBlank c then behind? cs else none
termination_by cs => cs.length
decreasing_by
  · exact Nat.lt_succ_self _
  · exact Nat.lt_succ_of_lt (length_lt_of_enclosed? _found)
  · exact Nat.lt_succ_self _

def Front.levels : Front → List Declarator
  | .pointer qualifiers => qualifiers.reverse.map .qualifier ++ [.pointer]
  | .lvalueReference => [.lvalueReference]
  | .rvalueReference => [.rvalueReference]
  | .opening => []

/-- The levels of a declarator, outermost first. What stands in front waits for what stands behind, up to the
parentheses around both. -/
def levels? : List Behind → List Front → Option (List Declarator)
  | .level level :: behind, front => (levels? behind front).map (level :: ·)
  | .closing :: behind, .opening :: front => levels? behind front
  | [], .opening :: _ => none
  | behind, operator :: front => (levels? behind front).map (operator.levels ++ ·)
  | [], [] => some []
  | .closing :: _, [] => none
termination_by behind front => behind.length + front.length

/-- The name that a declarator declares, and its levels. -/
def read? (declarator : String) : Option (String × List Declarator) := do
  let (front, name, rest) ← front? [] declarator.toList
  return (name, ← levels? (← behind? rest) front)

variable {before : List Front} {cs rest : List Char}

theorem front?_pointer : front? before ('*' :: cs) = front? (.pointer [] :: before) cs := by
  rw [front?, if_pos rfl]

theorem front?_opening : front? before ('(' :: cs) = front? (.opening :: before) cs := by
  rw [front?, if_neg (by decide), if_pos rfl]

theorem front?_rvalueReference : front? before ('&' :: '&' :: cs) = front? (.rvalueReference :: before) cs := by
  rw [front?]
  rfl

theorem front?_lvalueReference (single : cs.head? ≠ some '&') :
    front? before ('&' :: cs) = front? (.lvalueReference :: before) cs := by
  rw [front?, if_neg (by decide), if_neg (by decide), if_pos rfl, if_neg single]

theorem front?_blank : front? before (' ' :: cs) = front? before cs := by
  rw [front?, if_neg (by decide), if_neg (by decide), if_neg (by decide), if_pos (by decide)]

theorem front?_word {word : String} (identifier : isIdentifier word)
    (ended : rest.head?.all (!isIdentifierChar ·)) :
    front? before (word.toList ++ rest) =
      if isQualifierWord word then
        match before with
        | .pointer qualifiers :: others => front? (.pointer (qualifiers ++ [word]) :: others) rest
        | _ => none
      else some (before, word, rest) := by
  obtain ⟨c, cs, chars, _, plain⟩ := Text.exists_of_isIdentifier identifier
  have first := plain c mem_cons_self
  have others : ∀ d ∈ cs, isIdentifierChar d := fun d listed => plain d (mem_cons_of_mem c listed)
  have apart {d : Char} (other : isIdentifierChar d = false) : c ≠ d := by
    rintro rfl
    rw [first] at other
    cases other
  have stops : rest.takeWhile isIdentifierChar = [] ∧ rest.dropWhile isIdentifierChar = rest := by
    cases rest with
    | nil => exact ⟨rfl, rfl⟩
    | cons d rest =>
      have other : isIdentifierChar d = false := by simpa using ended
      simp [other]
  have taken : (cs ++ rest).takeWhile isIdentifierChar = cs := by
    rw [takeWhile_append_of_pos others, stops.1, append_nil]
  have dropped : (cs ++ rest).dropWhile isIdentifierChar = rest := by
    rw [dropWhile_append_of_pos others, stops.2]
  have whole : String.ofList (c :: cs) = word := by rw [← chars, String.ofList_toList]
  rw [chars, cons_append, front?, if_neg (apart (by decide)), if_neg (apart (by decide)), if_neg (apart (by decide)),
    if_neg (by simp [Text.isBlank_of_isIdentifierChar first])]
  simp only [taken, dropped, whole, identifier, if_true]

theorem front?_name {name : String} (identifier : isIdentifier name) (free : isQualifierWord name = false)
    (ended : rest.head?.all (!isIdentifierChar ·)) :
    front? before (name.toList ++ rest) = some (before, name, rest) := by
  rw [front?_word identifier ended, free, if_neg Bool.false_ne_true]

theorem front?_qualifier {word : String} (qualifies : isQualifierWord word) (qualifiers : List String) :
    front? (.pointer qualifiers :: before) (' ' :: (word.toList ++ ' ' :: cs)) =
      front? (.pointer (qualifiers ++ [word]) :: before) cs := by
  have identifier : isIdentifier word := by
    simp only [isQualifierWord, Bool.or_eq_true, beq_iff_eq] at qualifies
    rcases qualifies with rfl | rfl <;> decide
  rw [front?_blank, front?_word identifier rfl, qualifies, if_pos rfl]
  exact front?_blank

/-- Every bracket of a text has its partner in the text. -/
def Balanced (opens closes : Char) (cs : List Char) : Prop :=
  cs.foldlM (deeper? opens closes) 0 = some 0

instance (opens closes : Char) (cs : List Char) : Decidable (Balanced opens closes cs) :=
  inferInstanceAs (Decidable (_ = _))

variable {opens closes : Char} {depth : Nat}

theorem enclosed?_append (balanced : cs.foldlM (deeper? opens closes) depth = some 0) (rest : List Char) :
    enclosed? opens closes depth (cs ++ closes :: rest) = some (cs, rest) := by
  induction cs generalizing depth with
  | nil =>
    obtain rfl : depth = 0 := by simpa using balanced
    simp [enclosed?, deeper?]
  | cons c cs ih =>
    rw [foldlM_cons] at balanced
    obtain ⟨after, step, balanced⟩ := bind_eq_some_iff.mp balanced
    simp only [cons_append, enclosed?, step, ih balanced, map_some]

theorem plain_of_bracket? {level : String → Declarator} (opened : bracket? opens = some (closes, level)) :
    isIdentifierChar opens = false ∧ isBlank closes = false := by
  unfold bracket? at opened
  split at opened
  next same =>
    cases same
    cases opened
    decide
  · split at opened
    next same =>
      cases same
      cases opened
      decide
    · cases opened

theorem behind?_closing : behind? (')' :: cs) = (behind? cs).map (.closing :: ·) := by
  rw [behind?, if_pos rfl]

theorem behind?_level {level : String → Declarator} (opened : bracket? opens = some (closes, level))
    (balanced : Balanced opens closes cs) (rest : List Char) :
    behind? (opens :: (cs ++ closes :: rest)) = (behind? rest).map (.level (level (String.ofList cs)) :: ·) := by
  have divided := enclosed?_append balanced rest
  have inward : opens ≠ ')' := by
    rintro rfl
    cases opened
  rw [behind?, if_neg inward, opened]
  dsimp only
  split
  next found =>
    cases divided.symm.trans found
    rfl
  next found => cases divided.symm.trans found

/-- Nothing is left to be read behind the name, up to the next parenthesis. -/
def Exhausted (behind : List Behind) : Prop :=
  behind.head?.all (· == .closing)

variable {behind : List Behind} {front : List Front}

theorem levels?_operator {operator : Front} (exhausted : Exhausted behind) (binds : operator ≠ .opening) :
    levels? behind (operator :: front) = (levels? behind front).map (operator.levels ++ ·) := by
  rw [levels?]
  · rintro level rest rfl
    cases exhausted
  · rintro rest _ rfl
    exact binds rfl
  · rintro _ rfl
    exact binds rfl

end FlatAbi.RightLeft
