import FlatAbi.Proofs.CxxType.FunctionPointers
import FlatAbi.Proofs.CxxType.RightLeft

/-!
The blanks of argument lists. All texts between the commas are kept, and with them the brackets.
-/

namespace FlatAbi.Chars

open List
open Text (isBlank)

variable {cs gap : List Char}

theorem trimEnd_append_blanks (cs : List Char) (blank : gap.all isBlank) : trimEnd (cs ++ gap) = trimEnd cs := by
  have skipped : ∀ c ∈ gap.reverse, isBlank c := by simpa using blank
  rw [trimEnd, reverse_append, dropWhile_append_of_pos skipped, trimEnd]

theorem trim_cons_blank {c : Char} (blank : isBlank c) (cs : List Char) : trim (c :: cs) = trim cs := by
  simp [trim, trimStart, blank]

theorem trim_append_blanks (cs : List Char) (blank : gap.all isBlank) : trim (cs ++ gap) = trim cs := by
  simp only [trim, trimStart, dropWhile_append]
  split
  next empty =>
    rw [List.isEmpty_iff.mp empty, dropWhile_eq_nil_iff.mpr (all_eq_true.mp blank)]
  · exact trimEnd_append_blanks _ blank

theorem exists_trim (cs : List Char) :
    ∃ lead gap, lead.all isBlank ∧ gap.all isBlank ∧ cs = lead ++ (trim cs ++ gap) := by
  refine ⟨cs.takeWhile isBlank, ((trimStart cs).reverse.takeWhile isBlank).reverse, all_takeWhile, ?_, ?_⟩
  · rw [all_reverse]
    exact all_takeWhile
  · rw [trim, trimEnd, ← reverse_append, takeWhile_append_dropWhile, reverse_reverse, trimStart,
      takeWhile_append_dropWhile]

end FlatAbi.Chars

namespace FlatAbi.Arguments

open List
open Text (isBlank)
open Chars (trim)

variable {cs lead gap : List Char} {texts : List (List Char)}

/-- The texts between the commas of an argument list, without the blanks around them. -/
def commaTexts (cs : List Char) : List (List Char) :=
  (cs.splitOn ',').map trim

theorem commaTexts_append (cs ds : List Char) : commaTexts (cs ++ ',' :: ds) = commaTexts cs ++ commaTexts ds := by
  simp [commaTexts, splitOn_append_cons_self]

theorem commaTexts_of_apart (apart : ',' ∉ cs) : commaTexts cs = [trim cs] := by
  rw [commaTexts, splitOn_eq_singleton apart, map_singleton]

theorem not_mem_of_blank (blank : gap.all isBlank) : ',' ∉ gap := by
  intro listed
  cases all_eq_true.mp blank ',' listed

theorem commaTexts_append_blanks (blank : gap.all isBlank) (apart : ',' ∉ lead) (cs : List Char) :
    commaTexts (lead ++ (cs ++ gap)) = commaTexts (lead ++ cs) := by
  induction cs generalizing lead with
  | nil =>
    have free : ',' ∉ lead ++ ([] ++ gap) := by simp [apart, not_mem_of_blank blank]
    rw [commaTexts_of_apart free, append_nil, commaTexts_of_apart apart, nil_append,
      Chars.trim_append_blanks lead blank]
  | cons d cs ih =>
    by_cases comma : d = ','
    · subst comma
      rw [cons_append, commaTexts_append, commaTexts_append]
      exact congrArg (commaTexts lead ++ ·) (ih not_mem_nil)
    · have longer : ',' ∉ lead ++ [d] := by simp [apart, Ne.symm comma]
      simpa using ih longer

theorem commaTexts_blanks_append (blank : gap.all isBlank) (cs : List Char) :
    commaTexts (gap ++ cs) = commaTexts cs := by
  induction gap with
  | nil => rfl
  | cons c gap ih =>
    obtain ⟨first, others⟩ : isBlank c ∧ gap.all isBlank := by simpa using blank
    have solid : ¬ (c == ',') := by
      rw [beq_iff_eq]
      rintro rfl
      cases first
    rw [← ih others, cons_append, commaTexts, commaTexts, splitOn_cons_eq_if_modifyHead, if_neg solid]
    cases splitOn ',' (gap ++ cs) with
    | nil => rfl
    | cons text rest => simp [Chars.trim_cons_blank first]

theorem commaTexts_trim (cs : List Char) : commaTexts (trim cs) = commaTexts cs := by
  obtain ⟨lead, gap, before, behind, same⟩ := Chars.exists_trim cs
  calc commaTexts (trim cs)
    _ = commaTexts (trim cs ++ gap) := (commaTexts_append_blanks behind not_mem_nil (trim cs)).symm
    _ = commaTexts (lead ++ (trim cs ++ gap)) := (commaTexts_blanks_append before _).symm
    _ = commaTexts cs := by rw [← same]

theorem commaTexts_intercalate (blank : gap.all isBlank) (several : texts ≠ []) :
    commaTexts ((',' :: gap).intercalate texts) = texts.flatMap commaTexts := by
  induction texts with
  | nil => exact absurd rfl several
  | cons text rest ih =>
    by_cases last : rest = []
    · subst last
      simp [intercalate]
    · rw [intercalate_cons_of_ne_nil last, append_assoc, cons_append, commaTexts_append,
        commaTexts_blanks_append blank, ih last, flatMap_cons]

theorem pieces_ne_nil (depth : Int) (cs : List Char) : pieces depth cs ≠ [] := by
  cases cs with
  | nil => simp [pieces]
  | cons c cs =>
    simp only [pieces]
    split
    · simp
    · cases pieces (depthAfter depth c) cs <;> simp [Chars.prepend]

theorem intercalate_pieces (depth : Int) (cs : List Char) : [','].intercalate (pieces depth cs) = cs := by
  induction cs generalizing depth with
  | nil => rfl
  | cons c cs ih =>
    simp only [pieces]
    split
    next comma =>
      obtain rfl : c = ',' := by simpa using (Bool.and_eq_true_iff.mp comma).1
      rw [intercalate_cons_of_ne_nil (pieces_ne_nil _ _), ih]
      rfl
    · rw [Chars.intercalate_prepend c (pieces_ne_nil _ _), ih]

theorem intercalate_concat (separator text : List Char) (several : texts ≠ []) :
    separator.intercalate (texts ++ [text]) = separator.intercalate texts ++ (separator ++ text) := by
  induction texts with
  | nil => exact absurd rfl several
  | cons first rest ih =>
    by_cases last : rest = []
    · subst last
      simp [intercalate]
    · rw [cons_append, intercalate_cons_of_ne_nil (by simp), intercalate_cons_of_ne_nil last, ih last]
      simp

theorem dropEmptyLast_eq (texts : List (List Char)) :
    dropEmptyLast texts = texts ∨ dropEmptyLast texts ++ [[]] = texts := by
  fun_induction dropEmptyLast texts with
  | case1 => exact .inl rfl
  | case2 piece empty =>
    rw [List.isEmpty_iff.mp empty]
    exact .inr rfl
  | case3 piece filled => exact .inl rfl
  | case4 piece next rest ih => exact ih.imp (congrArg (piece :: ·)) (congrArg (piece :: ·))

theorem commaTexts_respace {arguments : String} (ended : (trim arguments.toList).getLast? ≠ some ',') :
    commaTexts (respace arguments).toList = commaTexts arguments.toList := by
  generalize chars : arguments.toList = cs at ended
  have whole : commaTexts cs = ((pieces 0 cs).map trim).flatMap commaTexts := by
    conv_lhs => rw [← intercalate_pieces 0 cs]
    rw [commaTexts_intercalate all_nil (pieces_ne_nil 0 cs), flatMap_map]
    exact congrArg (flatMap · _) (funext fun text => (commaTexts_trim text).symm)
  have respaced : (respace arguments).toList = [',', ' '].intercalate (splitChars cs) := by
    rw [respace, Text.toList_join, split, chars, map_map]
    simp [Function.comp_def]
  rw [respaced, whole, splitChars]
  rcases dropEmptyLast_eq ((pieces 0 cs).map trim) with kept | dropped
  · rw [kept, commaTexts_intercalate rfl (by simpa using pieces_ne_nil 0 cs)]
  · by_cases empty : dropEmptyLast ((pieces 0 cs).map trim) = []
    · rw [← dropped, empty]
      rfl
    · -- the list ends with a comma and blanks
      obtain ⟨front, back, divided, fronts, backs⟩ := map_eq_append_iff.mp dropped.symm
      obtain ⟨last, rfl, blank⟩ := map_eq_singleton_iff.mp backs
      have several : front ≠ [] := by
        rintro rfl
        exact empty fronts.symm
      have same : cs = ([','].intercalate front ++ [',']) ++ last := by
        rw [append_assoc, ← intercalate_concat _ _ several, ← divided, intercalate_pieces]
      rw [same, Chars.trim_append_blanks _ (Chars.all_isBlank_of_trim blank),
        Chars.getLast?_trim _ (by decide)] at ended
      exact absurd rfl ended

section Marks

variable {marks : Char → Bool} (solid : ∀ c, isBlank c → marks c = false) (comma : marks ',' = false)

include solid in
theorem filter_trim (cs : List Char) : (trim cs).filter marks = cs.filter marks := by
  have empty {gap : List Char} (blank : gap.all isBlank) : gap.filter marks = [] := by
    rw [filter_eq_nil_iff]
    intro c listed
    simp [solid c (all_eq_true.mp blank c listed)]
  obtain ⟨lead, gap, before, behind, same⟩ := Chars.exists_trim cs
  conv_rhs => rw [same, filter_append, filter_append, empty before, empty behind]
  simp

include comma in
theorem filter_intercalate (texts : List (List Char)) :
    ([','].intercalate texts).filter marks = texts.flatten.filter marks := by
  induction texts with
  | nil => rfl
  | cons text rest ih =>
    by_cases last : rest = []
    · subst last
      simp [intercalate]
    · rw [intercalate_cons_of_ne_nil last]
      simp [ih, comma]

include solid comma in
theorem filter_commaTexts (cs : List Char) : (commaTexts cs).flatten.filter marks = cs.filter marks := by
  have whole : [','].intercalate (cs.splitOn ',') = cs := intercalate_splitOn ','
  conv_rhs => rw [← whole, filter_intercalate comma]
  simp [commaTexts, filter_flatten, Function.comp_def, filter_trim solid]

end Marks

theorem foldlM_deeper?_filter (opens closes : Char) (depth : Nat) (cs : List Char) :
    (cs.filter fun c => c == opens || c == closes).foldlM (RightLeft.deeper? opens closes) depth =
      cs.foldlM (RightLeft.deeper? opens closes) depth := by
  induction cs generalizing depth with
  | nil => rfl
  | cons c cs ih =>
    by_cases marks : (c == opens || c == closes)
    · simp [marks, ih]
    · obtain ⟨first, second⟩ : c ≠ opens ∧ c ≠ closes := by simpa using marks
      simp [ih, RightLeft.deeper?, first, second]

theorem balanced_respace {arguments : String} (ended : (trim arguments.toList).getLast? ≠ some ',')
    (balanced : RightLeft.Balanced '(' ')' arguments.toList) :
    RightLeft.Balanced '(' ')' (respace arguments).toList := by
  have solid (c : Char) (blank : isBlank c) : (c == '(' || c == ')') = false := by
    rw [Bool.or_eq_false_iff, beq_eq_false_iff_ne, beq_eq_false_iff_ne]
    constructor <;> rintro rfl <;> cases blank
  unfold RightLeft.Balanced
  rw [← foldlM_deeper?_filter, ← filter_commaTexts solid rfl, commaTexts_respace ended, filter_commaTexts solid rfl,
    foldlM_deeper?_filter, balanced]

end FlatAbi.Arguments
