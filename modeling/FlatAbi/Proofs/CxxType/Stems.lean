import FlatAbi.CxxType.Printer
import FlatAbi.CxxType.Reader
import FlatAbi.Proofs.CxxType.Renders
import Mathlib.Data.List.Chain

/-!
Stems: pointers, references and qualifiers over a plain base, which are printed in front of the rest.
-/

namespace FlatAbi.CxxType

open Declarator List Text Partial

open Token (Renders isNamePart)
open Chars (opensBlank closesBlank spaced)
open Text (isBlank isIdentifierChar IsQualifiedName)

variable {word : String} {rest words : List String} {parts : ObjectParts}

/-- A level that may stand between a base and its array bounds. -/
inductive IsPlainLevel : Declarator → Prop
  | pointer : IsPlainLevel .pointer
  | lvalueReference : IsPlainLevel .lvalueReference
  | rvalueReference : IsPlainLevel .rvalueReference
  | qualifier {word : String} (qualifies : isQualifierWord word) : IsPlainLevel (.qualifier word)

/-- A word of a base: a name that is neither a qualifier nor a word such as `struct`. -/
structure IsBaseWord (word : String) : Prop where
  name : IsQualifiedName word
  unqualified : isQualifierWord word = false
  unelaborated : isElaboration word = false

/-- Levels over a base of plain names. The levels are listed from the outside in; the innermost is not a qualifier,
as that would qualify the base, and two references never meet. -/
structure Stem where
  words : List String
  levels : List Declarator
  qualifiers : List String
  named : words ≠ []
  plain : ∀ word ∈ words, IsBaseWord word
  leveled : ∀ level ∈ levels, IsPlainLevel level
  innermost : levels.getLast?.all (!·.isQualifier)
  references : levels.IsChain fun outer inner => (outer.isReference && inner.isReference) = false
  qualified : qualifiers ∈ [[], ["const"], ["volatile"], ["const", "volatile"]]

variable {level : Declarator} {levels : List Declarator} {inner : List Char}

/-! ### Printing levels -/

def levelText : Declarator → List Char
  | .pointer => ['*']
  | .lvalueReference => ['&']
  | .rvalueReference => ['&', '&']
  | .qualifier words => words.toList
  | _ => []

/-- The character that the text of a level begins with; a qualifier is set off by a space. -/
def levelStart : Declarator → Char
  | .pointer => '*'
  | .lvalueReference | .rvalueReference => '&'
  | _ => ' '

/-- Levels, from the inside out, before the text that they stand around. -/
def fronted (inner : List Char) : List Declarator → List Char
  | [] => inner
  | .qualifier words :: rest => ' ' :: words.toList ++ spaced (fronted inner rest)
  | level :: rest => levelText level ++ fronted inner rest

theorem toList_wrap (plain : IsPlainLevel level) (rest : List Declarator) (part : Partial)
    (same : part.text.toList = fronted inner rest) :
    (part.wrap level).text.toList = fronted inner (level :: rest) := by
  cases plain with
  | pointer | lvalueReference | rvalueReference =>
    simp [wrap, Declarator.level, fronted, levelText, same, String.toList_append]
  | qualifier =>
    simp only [wrap, Declarator.level, fronted, ← same]
    by_cases bare : part.text = ""
    · simp [bare, spaced, String.toList_append]
    · have filled : part.text.toList ≠ [] := fun empty => bare (String.toList_eq_nil_iff.mp empty)
      simp [bare, Chars.spaced_of_ne_nil filled, String.toList_append]

theorem toList_foldr_wrap (leveled : ∀ level ∈ levels, IsPlainLevel level) (part : Partial) :
    (levels.foldr (fun level part => part.wrap level) part).text.toList = fronted part.text.toList levels := by
  induction levels with
  | nil => rfl
  | cons level rest ih =>
    exact toList_wrap (leveled level (by simp)) rest _ (ih fun next listed => leveled next (by simp [listed]))

theorem isQualifiedName_of_isQualifierWord (qualifies : isQualifierWord word) : IsQualifiedName word := by
  simp only [isQualifierWord, Bool.or_eq_true, beq_iff_eq] at qualifies
  rcases qualifies with rfl | rfl
  · exact ⟨["const"], by simp, by decide, rfl⟩
  · exact ⟨["volatile"], by simp, by decide, rfl⟩

theorem exists_fronted (inner : List Char) (leveled : ∀ level ∈ levels, IsPlainLevel level)
    (references : levels.IsChain fun inner outer => (outer.isReference && inner.isReference) = false) :
    ∃ front, fronted inner levels = front ++ inner ∧ Renders (levels.map levelText) front ∧
      front.head? = levels.head?.map levelStart := by
  induction levels with
  | nil => exact ⟨[], rfl, .nil, rfl⟩
  | cons level rest ih =>
    obtain ⟨apart, references⟩ := isChain_cons.mp references
    obtain ⟨front, whole, renders, start⟩ := ih (fun next listed => leveled next (by simp [listed])) references
    cases leveled level (by simp) with
    | pointer => exact ⟨'*' :: front, by simp [fronted, levelText, whole], .mark (.star _) renders, rfl⟩
    | lvalueReference =>
      refine ⟨'&' :: front, by simp [fronted, levelText, whole], .mark (.ampersand ?_) renders, rfl⟩
      rw [start]
      cases next : rest.head? with
      | none => rfl
      | some level =>
        have other := apart level next
        cases level <;> simp_all [Declarator.isReference, levelStart]
    | rvalueReference =>
      exact ⟨'&' :: '&' :: front, by simp [fronted, levelText, whole], .mark (.ampersands _) renders, rfl⟩
    | @qualifier word qualifies =>
      have name := isQualifiedName_of_isQualifierWord qualifies
      have space : isBlank ' ' := by decide
      have ended : isNamePart ' ' = false := by decide
      simp only [fronted, whole]
      by_cases empty : front ++ inner = []
      · obtain ⟨rfl, rfl⟩ := append_eq_nil_iff.mp empty
        exact ⟨' ' :: (word.toList ++ []), by simp [spaced], .blank ' ' space (.name word name rfl renders), rfl⟩
      · refine ⟨' ' :: (word.toList ++ ' ' :: front), by simp [Chars.spaced_of_ne_nil empty], ?_, rfl⟩
        exact .blank ' ' space (.name word name (by simp [ended]) (.blank ' ' space renders))

theorem closesBlank_fronted (leveled : ∀ level ∈ levels, IsPlainLevel level) (solid : closesBlank inner = false) :
    closesBlank (fronted inner levels) = false := by
  induction levels with
  | nil => exact solid
  | cons level rest ih =>
    have closes := ih fun next listed => leveled next (by simp [listed])
    have appended {text : List Char} (solid : closesBlank text = false) :
        closesBlank (text ++ fronted inner rest) = false := by
      by_cases empty : fronted inner rest = []
      · simpa [empty] using solid
      · rw [Chars.closesBlank_append text empty, closes]
    cases leveled level (by simp) with
    | pointer | lvalueReference | rvalueReference => exact appended (by decide)
    | @qualifier word qualifies =>
      simp only [fronted]
      by_cases empty : fronted inner rest = []
      · simp only [isQualifierWord, Bool.or_eq_true, beq_iff_eq] at qualifies
        rcases qualifies with rfl | rfl <;> simp [empty, spaced] <;> decide
      · rw [Chars.spaced_of_ne_nil empty, Chars.closesBlank_append _ (by simp), Chars.closesBlank_cons _ empty, closes]

/-! ### Printing stems -/

namespace Stem

variable (stem : Stem)

/-- The qualifiers of the base as one level. -/
def baseLevels : List Declarator :=
  if stem.qualifiers = [] then [] else [.qualifier (join " " stem.qualifiers)]

def type : CxxType :=
  ⟨join " " stem.words, stem.levels ++ stem.baseLevels⟩

/-- The tokens of a stem as they are written, the innermost level first. -/
def tokens : List (List Char) :=
  (stem.qualifiers ++ stem.words).map String.toList ++ stem.levels.reverse.map levelText

variable {around : List Declarator} (outside : around.getLast?.all (!·.isQualifier))

include outside

theorem getLast?_levels : (around ++ stem.levels).getLast?.any isQualifier = false := by
  have inside := stem.innermost
  rw [getLast?_append]
  cases last : stem.levels.getLast? with
  | some level =>
    rw [last] at inside
    simpa using inside
  | none => cases first : around.getLast? <;> simp_all

theorem writtenDeclarators_under : (stem.type.under around).writtenDeclarators = around ++ stem.levels := by
  have innermost := stem.getLast?_levels outside
  by_cases bare : stem.qualifiers = []
  · simp only [writtenDeclarators, under, type, baseLevels, bare, if_true, append_nil, innermost, Bool.false_eq_true,
      if_false]
  · simp only [writtenDeclarators, under, type, baseLevels, bare, if_false, ← append_assoc]
    simp [isQualifier, level]

theorem baseQualifier_under : (stem.type.under around).baseQualifier = join " " stem.qualifiers := by
  have innermost := stem.getLast?_levels outside
  by_cases bare : stem.qualifiers = []
  · simp only [baseQualifier, under, type, baseLevels, bare, if_true, append_nil]
    cases last : (around ++ stem.levels).getLast? with
    | none => rfl
    | some level =>
      rw [last, Option.any_some, isQualifier] at innermost
      rw [Option.map_some]
      cases found : level.level with
      | qualifier => simp [found] at innermost
      | _ => rfl
  · simp [baseQualifier, under, type, baseLevels, bare, ← append_assoc, Declarator.level]

theorem head_under : (stem.type.under around).head = join " " (stem.qualifiers ++ stem.words) := by
  have qualified := stem.qualified
  have named := stem.named
  simp only [mem_cons, not_mem_nil, or_false] at qualified
  rw [head, stem.baseQualifier_under outside]
  rcases qualified with same | same | same | same <;> rw [same]
  · rfl
  · exact (join_cons " " "const" named).symm
  · exact (join_cons " " "volatile" named).symm
  · change "const" ++ " " ++ "volatile" ++ " " ++ join " " stem.words =
      join " " ("const" :: "volatile" :: stem.words)
    rw [join_cons " " "const" (by simp), join_cons " " "volatile" named]
    simp only [String.append_assoc]

omit outside

theorem renders_join (names : ∀ word ∈ words, IsQualifiedName word) (filled : words ≠ []) {tokens : List (List Char)}
    {cs : List Char} (ended : cs.head?.all (!isNamePart ·)) (renders : Renders tokens cs) :
    Renders (words.map String.toList ++ tokens) ((join " " words).toList ++ cs) := by
  induction words with
  | nil => exact absurd rfl filled
  | cons word words ih =>
    by_cases last : words = []
    · subst last
      exact .name word (names word (by simp)) ended renders
    · have space : isBlank ' ' ∧ isNamePart ' ' = false := by decide
      have later := ih (fun next listed => names next (by simp [listed])) last
      rw [join_cons " " word last, String.toList_append, String.toList_append, append_assoc,
        append_assoc]
      exact .name word (names word (by simp)) (by simp [space]) (.blank ' ' space.1 later)

theorem isQualifierWord_of_mem {stem : Stem} (listed : word ∈ stem.qualifiers) : isQualifierWord word := by
  have qualified := stem.qualified
  simp only [mem_cons, not_mem_nil, or_false] at qualified
  rcases qualified with same | same | same | same <;> rw [same] at listed
  · cases listed
  · obtain rfl := mem_singleton.mp listed
    rfl
  · obtain rfl := mem_singleton.mp listed
    rfl
  · simp only [mem_cons, not_mem_nil, or_false] at listed
    rcases listed with rfl | rfl <;> rfl

theorem isQualifiedName_of_mem {stem : Stem} (listed : word ∈ stem.qualifiers ++ stem.words) :
    IsQualifiedName word := by
  rcases mem_append.mp listed with qualifier | base
  · exact isQualifiedName_of_isQualifierWord (isQualifierWord_of_mem qualifier)
  · exact (stem.plain word base).name

theorem levelStart_innermost {c : Char} (start : stem.levels.reverse.head?.map levelStart = some c) :
    c = '*' ∨ c = '&' := by
  have innermost := stem.innermost
  rw [head?_reverse] at start
  cases last : stem.levels.getLast? with
  | none => simp [last] at start
  | some level =>
    rw [last, Option.map_some, Option.some.injEq] at start
    rw [last] at innermost
    cases stem.leveled level (mem_of_getLast? last) with
    | pointer => exact .inl start.symm
    | lvalueReference | rvalueReference => exact .inr start.symm
    | qualifier => cases innermost

/-- A declarator that begins with a mark or a bracket goes after the base, with a space unless it is a bound. -/
theorem exists_declare {t : CxxType} {declarator : List Char}
    (written : (t.writtenDeclarators.foldl wrap ⟨"", false⟩).text.toList = declarator)
    (opens : declarator.head?.all (fun c => c == '*' || c == '&' || c == '[' || c == '('))
    (closes : closesBlank declarator = false) :
    ∃ gap, t.spelling.toList = t.head.toList ++ gap ++ declarator ∧
      (gap = [' '] ∨ gap = [] ∧ declarator.head?.all (· == '[')) := by
  have solid : opensBlank declarator = false := by
    cases declarator with
    | nil => rfl
    | cons c cs =>
      simp only [head?_cons, Option.all_some, Bool.or_eq_true, beq_iff_eq] at opens
      rcases opens with ((rfl | rfl) | rfl) | rfl <;> rfl
  have trimmed : trim (t.writtenDeclarators.foldl wrap ⟨"", false⟩).text = String.ofList declarator := by
    rw [trim, written, Chars.trim_of_solid solid closes]
  simp only [spelling, declare, trimmed]
  cases declarator with
  | nil => exact ⟨[], by simp, .inr ⟨rfl, rfl⟩⟩
  | cons c cs =>
    have filled : (String.ofList (c :: cs) == "") = false := by
      rw [beq_eq_false_iff_ne, ← String.toList_inj.ne]
      simp
    simp only [filled, Bool.false_eq_true, if_false]
    simp only [head?_cons, Option.all_some, Bool.or_eq_true, beq_iff_eq] at opens
    by_cases bracket : c = '['
    · subst bracket
      have tight : needsSpace (String.ofList ('[' :: cs)) = false := by
        simp only [needsSpace, String.toList_ofList]
        decide
      rw [tight, if_neg Bool.false_ne_true, String.toList_append, String.toList_ofList]
      exact ⟨[], by simp, .inr ⟨rfl, rfl⟩⟩
    · have spaced : needsSpace (String.ofList (c :: cs)) := by
        simp only [needsSpace, String.toList_ofList]
        rcases opens with ((rfl | rfl) | rfl) | rfl <;> first | rfl | exact absurd rfl bracket
      rw [spaced, if_pos rfl, String.toList_append, String.toList_append]
      exact ⟨[' '], by simp, .inl rfl⟩

theorem exists_spelling {inner : List Char} (outside : around.getLast?.all (!·.isQualifier))
    (written : (around.foldl wrap ⟨"", false⟩).text.toList = inner)
    (opens : inner.head?.all (fun c => c == '[' || c == '(')) (closes : closesBlank inner = false) :
    ∃ front, (stem.type.under around).spelling.toList = front ++ inner ∧ Renders stem.tokens front := by
  have leveled : ∀ level ∈ stem.levels.reverse, IsPlainLevel level := fun level listed =>
    stem.leveled level (by simpa using listed)
  obtain ⟨front, whole, renders, start⟩ := exists_fronted inner leveled (isChain_reverse.mpr stem.references)
  have declarator : ((stem.type.under around).writtenDeclarators.foldl wrap ⟨"", false⟩).text.toList =
      front ++ inner := by
    rw [stem.writtenDeclarators_under outside, foldl_append, ← reverse_reverse stem.levels, foldl_reverse,
      toList_foldr_wrap leveled, written, whole]
  have starts : ∀ c cs, front = c :: cs → c = '*' ∨ c = '&' := by
    rintro c cs rfl
    exact stem.levelStart_innermost start.symm
  have begins : (front ++ inner).head?.all (fun c => c == '*' || c == '&' || c == '[' || c == '(') := by
    cases front with
    | nil =>
      cases inner with
      | nil => rfl
      | cons c cs =>
        simp only [head?_cons, Option.all_some, Bool.or_eq_true] at opens
        rcases opens with bracket | parenthesis
        · simp [bracket]
        · simp [parenthesis]
    | cons c cs => rcases starts c cs rfl with rfl | rfl <;> rfl
  obtain ⟨gap, spelled, apart⟩ := exists_declare declarator begins (whole ▸ closesBlank_fronted leveled closes)
  rw [stem.head_under outside, append_assoc, ← append_assoc gap, ← append_assoc] at spelled
  refine ⟨_, spelled, renders_join (fun _ => isQualifiedName_of_mem) (by simp [stem.named]) ?_ ?_⟩
  · rcases apart with rfl | ⟨rfl, bracket⟩
    · rfl
    · cases front with
      | nil => rfl
      | cons c cs => rcases starts c cs rfl with rfl | rfl <;> cases bracket
  · rcases apart with rfl | ⟨rfl, _⟩
    · exact .blank ' ' (by decide) renders
    · exact renders

/-! ### Reading stems -/

theorem readTokens_levels {inside : Bool} {levels : List Declarator} (leveled : ∀ level ∈ levels, IsPlainLevel level)
    (marked : inside ∨ levels.head?.all (!·.isQualifier)) :
    readTokens inside ((levels.map levelText).map String.ofList) = .ok { levels := levels } := by
  induction levels generalizing inside with
  | nil => rfl
  | cons level rest ih =>
    have later : readTokens true ((rest.map levelText).map String.ofList) = .ok { levels := rest } :=
      ih (fun next listed => leveled next (by simp [listed])) (.inl rfl)
    rw [map_cons, map_cons, readTokens]
    cases leveled level (by simp) with
    | pointer | lvalueReference | rvalueReference => rw [later]; rfl
    | qualifier qualifies =>
      rw [levelText, String.ofList_toList, qualifies, if_pos rfl]
      rcases marked with rfl | marked
      · rw [later]
        rfl
      · cases marked

theorem levelOf?_name (name : IsQualifiedName word) : levelOf? word = none := by
  obtain ⟨c, cs, chars, start⟩ := Token.exists_start_of_isQualifiedName name
  have apart (mark : String) {d : Char} {ds : List Char} (marks : mark.toList = d :: ds)
      (other : (d.isAlpha || d == '_') = false) : (word == mark) = false := by
    rw [beq_eq_false_iff_ne]
    rintro rfl
    rw [marks, List.cons.injEq] at chars
    rw [← chars.1, other] at start
    cases start
  rw [levelOf?, apart "*" rfl rfl, apart "&" rfl rfl, apart "&&" rfl rfl]
  rfl

theorem readTokens_words (plain : ∀ word ∈ words, IsBaseWord word) (read : readTokens false rest = .ok parts) :
    readTokens false (words ++ rest) = .ok { parts with words := words ++ parts.words } := by
  induction words with
  | nil => exact read
  | cons word words ih =>
    have base := plain word (by simp)
    rw [cons_append, readTokens, base.unqualified, ih fun next listed => plain next (by simp [listed])]
    simp [levelOf?_name base.name, base.unelaborated, Except.map]

theorem readTokens_qualifiers {qualifiers : List String} (qualify : ∀ word ∈ qualifiers, isQualifierWord word)
    (read : readTokens false rest = .ok parts) :
    readTokens false (qualifiers ++ rest) = .ok { parts with qualifiers := qualifiers ++ parts.qualifiers } := by
  induction qualifiers with
  | nil => exact read
  | cons word qualifiers ih =>
    rw [cons_append, readTokens, qualify word (by simp), ih fun next listed => qualify next (by simp [listed])]
    simp [Except.map]

theorem readTokens_tokens : readTokens false (stem.tokens.map String.ofList) =
    .ok ⟨stem.words, stem.levels.reverse, stem.qualifiers⟩ := by
  have levels : readTokens false ((stem.levels.reverse.map levelText).map String.ofList) =
      .ok { levels := stem.levels.reverse } :=
    readTokens_levels (fun level listed => stem.leveled level (by simpa using listed))
      (.inr (by simpa using stem.innermost))
  have base := readTokens_words stem.plain levels
  have whole := readTokens_qualifiers (fun _ (listed : _ ∈ stem.qualifiers) => isQualifierWord_of_mem listed) base
  simpa [tokens, map_map, Function.comp_def] using whole

theorem baseLevel_qualifiers : baseLevel stem.qualifiers = stem.baseLevels := by
  have qualified := stem.qualified
  simp only [mem_cons, not_mem_nil, or_false] at qualified
  unfold baseLevels
  rcases qualified with same | same | same | same <;> rw [same] <;> rfl

theorem readObject_eq (spelling : List Char) {cs text : List Char} {bounds : List (List Char)}
    (taken : takeBounds cs = (text, bounds)) (scanned : Token.scan text = .ok stem.tokens) :
    readObject spelling cs = .ok (stem.type.under (bounds.map fun bound => .array (String.ofList bound))) := by
  have named : stem.words.isEmpty = false := by simpa using stem.named
  simp only [readObject, taken, tokenize, scanned, Except.mapError, stem.readTokens_tokens, named,
    stem.baseLevel_qualifiers, reverse_reverse]
  simp [under, type]

end Stem

end FlatAbi.CxxType
