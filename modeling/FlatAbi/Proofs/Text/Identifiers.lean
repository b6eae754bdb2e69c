import FlatAbi.Text.Basic

/-!
Identifiers, and names that join identifiers with `::`.
-/

namespace FlatAbi.Text

open Bool List

/-- A text that C takes for one identifier. -/
def isIdentifier (s : String) : Bool :=
  match s.toList with
  | [] => false
  | c :: rest => (c.isAlpha || c == '_') && rest.all isIdentifierChar

/-- One identifier, or several joined with `::`. -/
def IsQualifiedName (s : String) : Prop :=
  ∃ parts, parts ≠ [] ∧ (∀ part ∈ parts, isIdentifier part) ∧ s = join "::" parts

theorem toNat_of_isIdentifierChar {c : Char} (plain : isIdentifierChar c) :
    (65 ≤ c.toNat ∧ c.toNat ≤ 90) ∨ (97 ≤ c.toNat ∧ c.toNat ≤ 122) ∨ (48 ≤ c.toNat ∧ c.toNat ≤ 57) ∨ c.toNat = 95 := by
  change (((decide (c.val ≥ 65 ∧ c.val ≤ 90) || (decide (c.val ≥ 97) && decide (c.val ≤ 122))) ||
    (decide (c.val ≥ 48) && decide (c.val ≤ 57))) || c == '_') = true at plain
  simp only [or_eq_true, and_eq_true, decide_eq_true_eq, ge_iff_le, UInt32.le_iff_toNat_le, beq_iff_eq] at plain
  change (((65 ≤ c.toNat ∧ c.toNat ≤ 90) ∨ (97 ≤ c.toNat ∧ c.toNat ≤ 122)) ∨ (48 ≤ c.toNat ∧ c.toNat ≤ 57)) ∨ c = '_'
    at plain
  rcases plain with ((upper | lower) | digit) | rfl
  · exact .inl upper
  · exact .inr (.inl lower)
  · exact .inr (.inr (.inl digit))
  · exact .inr (.inr (.inr rfl))

theorem isBlank_of_isIdentifierChar {c : Char} (plain : isIdentifierChar c) : isBlank c = false := by
  have range := toNat_of_isIdentifierChar plain
  simp only [isBlank, or_eq_false_iff, and_eq_false_iff, decide_eq_false_iff_not, beq_eq_false_iff_ne]
  omega

theorem isWordChar_of_isIdentifierChar {c : Char} (plain : isIdentifierChar c) : isWordChar c := by
  have range := toNat_of_isIdentifierChar plain
  have ascii : c.toNat < 0x80 := by omega
  simp only [isWordChar, isAlphanumeric, isLetter, isNumeral, ascii, if_true]
  exact plain

theorem exists_of_isIdentifier {s : String} (identifier : isIdentifier s) :
    ∃ c cs, s.toList = c :: cs ∧ (c.isAlpha || c == '_') ∧ ∀ d ∈ c :: cs, isIdentifierChar d := by
  unfold isIdentifier at identifier
  cases chars : s.toList with
  | nil => simp [chars] at identifier
  | cons c cs =>
    rw [chars, and_eq_true, all_eq_true] at identifier
    refine ⟨c, cs, rfl, identifier.1, fun d listed => ?_⟩
    rcases mem_cons.mp listed with rfl | later
    · change ((d.isAlpha || d.isDigit) || d == '_')
      rcases or_eq_true_iff.mp identifier.1 with alpha | underscore
      · simp [alpha]
      · simp [underscore]
    · exact identifier.2 d later

theorem toList_join_cons (separator piece : String) (rest : List String) :
    (join separator (piece :: rest)).toList =
      piece.toList ++ (rest.map fun next => separator.toList ++ next.toList).flatten := by
  induction rest generalizing piece with
  | nil => simp [join]
  | cons next rest ih => simp [join, String.toList_append, ih, append_assoc]

theorem join_cons (separator first : String) {rest : List String} (more : rest ≠ []) :
    join separator (first :: rest) = first ++ separator ++ join separator rest := by
  cases rest with
  | nil => exact absurd rfl more
  | cons next rest => rfl

theorem toList_join (separator : String) (pieces : List String) :
    (join separator pieces).toList = separator.toList.intercalate (pieces.map String.toList) := by
  induction pieces with
  | nil => rfl
  | cons piece rest ih =>
    by_cases last : rest = []
    · subst last
      simp [join, intercalate]
    · rw [join_cons separator piece last, String.toList_append, String.toList_append, ih, map_cons,
        intercalate_cons_of_ne_nil (by simpa using last)]

end FlatAbi.Text
