import FlatAbi.Text.Basic
import Mathlib.Data.List.TakeWhile

/-!
Blanks in texts. A run of blanks becomes one space when more text follows.
-/

namespace FlatAbi.Chars

open List

open FlatAbi.Text (isBlank)

variable {c : Char} {cs front back : List Char}

/-- The text begins with a blank. -/
def opensBlank (cs : List Char) : Bool :=
  cs.head?.any isBlank

/-- The text ends with a blank. -/
def closesBlank (cs : List Char) : Bool :=
  cs.getLast?.any isBlank

/-- A space and the text, when there is any. -/
def spaced : List Char → List Char
  | [] => []
  | c :: cs => ' ' :: c :: cs

theorem spaced_of_ne_nil (filled : cs ≠ []) : spaced cs = ' ' :: cs := by
  cases cs with
  | nil => exact absurd rfl filled
  | cons c cs => rfl

theorem spaced_append (filled : front ≠ []) : spaced (front ++ back) = spaced front ++ back := by
  rw [spaced_of_ne_nil (by simp [filled]), spaced_of_ne_nil filled, cons_append]

theorem words_ne_nil_of_solid (solid : isBlank c = false) (cs : List Char) : words (c :: cs) ≠ [] := by
  simp only [words, solid, Bool.false_eq_true, if_false]
  split
  · simp
  · cases words cs <;> simp [prepend]

theorem nil_not_mem_words (cs : List Char) : [] ∉ words cs := by
  induction cs with
  | nil => simp [words]
  | cons c cs ih =>
    simp only [words]
    split
    · exact ih
    · split
      · simpa using ih
      · cases found : words cs with
        | nil => simp [prepend]
        | cons word rest =>
          rw [found] at ih
          simp only [prepend, mem_cons, not_or] at ih ⊢
          exact ⟨by simp, ih.2⟩

theorem intercalate_space_cons (word : List Char) {rest : List (List Char)} (full : [] ∉ rest) :
    [' '].intercalate (word :: rest) = word ++ spaced ([' '].intercalate rest) := by
  cases rest with
  | nil => simp [intercalate, spaced]
  | cons next rest =>
    cases next with
    | nil => simp at full
    | cons c next => cases rest <;> simp [intercalate, spaced]

theorem intercalate_prepend (c : Char) {separator : List Char} {pieces : List (List Char)} (filled : pieces ≠ []) :
    separator.intercalate (prepend c pieces) = c :: separator.intercalate pieces := by
  cases pieces with
  | nil => exact absurd rfl filled
  | cons piece rest => cases rest <;> simp [intercalate, prepend]

@[simp] theorem collapse_nil : collapse [] = [] := rfl

theorem collapse_cons_blank (blank : isBlank c) (cs : List Char) : collapse (c :: cs) = collapse cs := by
  simp [collapse, words, blank]

theorem collapse_cons_solid (solid : isBlank c = false) (cs : List Char) :
    collapse (c :: cs) = c :: if opensBlank cs then spaced (collapse cs) else collapse cs := by
  cases cs with
  | nil => simp [collapse, words, solid, opensBlank, intercalate]
  | cons next cs =>
    cases follows : isBlank next with
    | true =>
      have alone : words (c :: next :: cs) = [c] :: words (next :: cs) := by
        rw [words]
        simp [solid, follows]
      simp only [collapse, alone, opensBlank, head?_cons, Option.any_some, follows, if_true]
      rw [intercalate_space_cons _ (nil_not_mem_words _)]
      rfl
    | false =>
      have joined : words (c :: next :: cs) = prepend c (words (next :: cs)) := by
        rw [words]
        simp [solid, follows]
      simp only [collapse, joined, opensBlank, head?_cons, Option.any_some, follows, Bool.false_eq_true,
        if_false]
      exact intercalate_prepend c (words_ne_nil_of_solid follows cs)

theorem collapse_eq_nil_iff : collapse cs = [] ↔ cs.all isBlank := by
  induction cs with
  | nil => simp
  | cons c cs ih =>
    cases first : isBlank c with
    | true => rw [collapse_cons_blank first, ih, all_cons, first, Bool.true_and]
    | false => simp [collapse_cons_solid first, first]

theorem opensBlank_append (filled : front ≠ []) : opensBlank (front ++ back) = opensBlank front := by
  cases front with
  | nil => exact absurd rfl filled
  | cons c front => rfl

theorem closesBlank_cons (c : Char) (filled : cs ≠ []) : closesBlank (c :: cs) = closesBlank cs := by
  cases cs with
  | nil => exact absurd rfl filled
  | cons next cs => simp [closesBlank]

theorem closesBlank_append (front : List Char) (filled : back ≠ []) :
    closesBlank (front ++ back) = closesBlank back := by
  simp [closesBlank, getLast?_append, getLast?_eq_some_getLast filled]

theorem collapse_ne_nil_of_opens (filled : cs ≠ []) (solid : opensBlank cs = false) : collapse cs ≠ [] := by
  cases cs with
  | nil => exact absurd rfl filled
  | cons c cs => simp [collapse_cons_solid (show isBlank c = false from solid)]

theorem collapse_ne_nil_of_closes (filled : cs ≠ []) (solid : closesBlank cs = false) : collapse cs ≠ [] := by
  intro empty
  have blank := all_eq_true.mp (collapse_eq_nil_iff.mp empty) _ (getLast_mem filled)
  rw [closesBlank, getLast?_eq_some_getLast filled, Option.any_some, blank] at solid
  cases solid

theorem filter_collapse (cs : List Char) : (collapse cs).filter (!isBlank ·) = cs.filter (!isBlank ·) := by
  have space : isBlank ' ' := by decide
  induction cs with
  | nil => rfl
  | cons c cs ih =>
    cases first : isBlank c with
    | true => simp [collapse_cons_blank first, first, ih]
    | false =>
      have later : (spaced (collapse cs)).filter (!isBlank ·) = cs.filter (!isBlank ·) := by
        rw [← ih]
        cases collapse cs <;> simp [spaced, space]
      rw [collapse_cons_solid first]
      split <;> simp [first, ih, later]

theorem mem_collapse_iff {d : Char} (solid : isBlank d = false) : d ∈ collapse cs ↔ d ∈ cs := by
  have kept := congrArg (d ∈ ·) (filter_collapse cs)
  simpa [solid] using kept

@[simp] theorem opensBlank_collapse (cs : List Char) : opensBlank (collapse cs) = false := by
  induction cs with
  | nil => rfl
  | cons c cs ih =>
    cases first : isBlank c with
    | true => rw [collapse_cons_blank first, ih]
    | false => simp [collapse_cons_solid first, opensBlank, first]

theorem head?_collapse (solid : opensBlank cs = false) : (collapse cs).head? = cs.head? := by
  cases cs with
  | nil => rfl
  | cons c cs => simp [collapse_cons_solid (show isBlank c = false from solid)]

@[simp] theorem closesBlank_collapse (cs : List Char) : closesBlank (collapse cs) = false := by
  induction cs with
  | nil => rfl
  | cons c cs ih =>
    cases first : isBlank c with
    | true => rw [collapse_cons_blank first, ih]
    | false =>
      rw [collapse_cons_solid first]
      by_cases empty : collapse cs = []
      · simp [empty, spaced, closesBlank, first]
      · split
        · rw [spaced_of_ne_nil empty, closesBlank_cons _ (by simp), closesBlank_cons _ empty, ih]
        · rw [closesBlank_cons _ empty, ih]

theorem collapse_append_solid (closes : closesBlank front = false) (opens : opensBlank back = false) :
    collapse (front ++ back) = collapse front ++ collapse back := by
  induction front with
  | nil => rfl
  | cons c front ih =>
    by_cases last : front = []
    · subst last
      have solid : isBlank c = false := closes
      simp [collapse_cons_solid solid, opens, spaced]
    · rw [closesBlank_cons _ last] at closes
      have filled := collapse_ne_nil_of_closes last closes
      cases first : isBlank c with
      | true => rw [cons_append, collapse_cons_blank first, collapse_cons_blank first, ih closes]
      | false =>
        rw [cons_append, collapse_cons_solid first, collapse_cons_solid first, ih closes,
          opensBlank_append last, spaced_append filled]
        split <;> rfl

/-- Before text that begins without a blank, the blanks at the end of a text come down to one at most. -/
theorem collapse_append (front : List Char) (opens : opensBlank back = false) :
    ∃ gap, gap.all isBlank ∧ collapse (front ++ back) = collapse front ++ gap ++ collapse back := by
  induction front with
  | nil => exact ⟨[], rfl, rfl⟩
  | cons c front ih =>
    obtain ⟨gap, blank, same⟩ := ih
    cases first : isBlank c with
    | true => exact ⟨gap, blank, by rw [cons_append, collapse_cons_blank first, collapse_cons_blank first, same]⟩
    | false =>
      rw [cons_append, collapse_cons_solid first, collapse_cons_solid first, same]
      by_cases empty : front = []
      · subst empty
        refine ⟨[], rfl, ?_⟩
        have tight : collapse back = gap ++ collapse back := by simpa using same
        simp [opens, ← tight, spaced]
      · rw [opensBlank_append empty]
        by_cases hidden : collapse front = []
        · -- The text so far is blank after its first character, so that the gap starts there.
          have first : opensBlank front := by
            cases solid : opensBlank front with
            | true => rfl
            | false => exact absurd hidden (collapse_ne_nil_of_opens empty solid)
          rw [hidden, first, if_pos rfl, if_pos rfl]
          by_cases rest : gap ++ collapse back = []
          · exact ⟨[], rfl, by simp_all [spaced]⟩
          · refine ⟨' ' :: gap, by simpa [isBlank] using blank, ?_⟩
            rw [nil_append, spaced_of_ne_nil rest]
            simp [spaced]
        · refine ⟨gap, blank, ?_⟩
          rw [append_assoc, spaced_append hidden]
          split <;> simp

theorem collapse_append_blanks (cs gap : List Char) (blank : gap.all isBlank) : collapse (cs ++ gap) = collapse cs := by
  induction cs with
  | nil => exact collapse_eq_nil_iff.mpr blank
  | cons c cs ih =>
    cases first : isBlank c with
    | true => rw [cons_append, collapse_cons_blank first, collapse_cons_blank first, ih]
    | false =>
      rw [cons_append, collapse_cons_solid first, collapse_cons_solid first, ih]
      by_cases empty : cs = []
      · simp [empty, spaced]
      · rw [opensBlank_append empty]

theorem collapse_word {word : List Char} (filled : word ≠ []) (solid : ∀ c ∈ word, isBlank c = false) (cs : List Char) :
    collapse (word ++ cs) = word ++ if opensBlank cs then spaced (collapse cs) else collapse cs := by
  induction word with
  | nil => exact absurd rfl filled
  | cons c word ih =>
    have first := solid c (by simp)
    rw [cons_append, collapse_cons_solid first]
    cases word with
    | nil => rfl
    | cons next word =>
      have follows : isBlank next = false := solid next (by simp)
      rw [ih (by simp) fun d listed => solid d (by simp [listed])]
      simp [opensBlank, follows]

@[simp] theorem collapse_collapse (cs : List Char) : collapse (collapse cs) = collapse cs := by
  induction cs with
  | nil => rfl
  | cons c cs ih =>
    cases first : isBlank c with
    | true => rw [collapse_cons_blank first, ih]
    | false =>
      rw [collapse_cons_solid first]
      by_cases empty : collapse cs = []
      · simp [empty, collapse_cons_solid first, spaced]
      · split
        · have space : isBlank ' ' := by decide
          rw [spaced_of_ne_nil empty, collapse_cons_solid first, collapse_cons_blank space, ih]
          simp [opensBlank, space, spaced_of_ne_nil empty]
        · rw [collapse_cons_solid first, opensBlank_collapse, ih]
          rfl

theorem trimStart_of_solid (opens : opensBlank cs = false) : trimStart cs = cs := by
  cases cs with
  | nil => rfl
  | cons c cs => simp [trimStart, show isBlank c = false from opens]

theorem trimEnd_append (closes : closesBlank cs = false) (gap : List Char) (blank : gap.all isBlank) :
    trimEnd (cs ++ gap) = cs := by
  have skipped : (gap.reverse ++ cs.reverse).dropWhile isBlank = cs.reverse := by
    rw [dropWhile_append_of_pos fun d listed => all_eq_true.mp blank d (by simpa using listed)]
    cases last : cs.reverse with
    | nil => rfl
    | cons c rest =>
      have solid : isBlank c = false := by
        simpa [closesBlank, getLast?_eq_head?_reverse, last] using closes
      simp [solid]
  rw [trimEnd, reverse_append, skipped, reverse_reverse]

theorem trimEnd_append_cons (front : List Char) (solid : isBlank c = false) (cs : List Char) :
    trimEnd (front ++ c :: cs) = front ++ c :: trimEnd cs := by
  simp only [trimEnd, reverse_append, reverse_cons, append_assoc, singleton_append]
  rw [dropWhile_append]
  split
  next blank => simp [isEmpty_iff.mp blank, solid]
  · simp

theorem trim_of_solid (opens : opensBlank cs = false) (closes : closesBlank cs = false) : trim cs = cs := by
  rw [trim, trimStart_of_solid opens]
  simpa using trimEnd_append closes [] rfl

theorem getLast?_trim (front : List Char) (solid : isBlank c = false) : (trim (front ++ [c])).getLast? = some c := by
  have kept : ∃ rest, trimStart (front ++ [c]) = rest ++ [c] := by
    rw [trimStart, dropWhile_append]
    split
    · exact ⟨[], by simp [solid]⟩
    · exact ⟨_, rfl⟩
  obtain ⟨rest, same⟩ := kept
  have closes : closesBlank (rest ++ [c]) = false := by simpa [closesBlank] using solid
  have whole := trimEnd_append closes [] rfl
  rw [append_nil] at whole
  rw [trim, same, whole, getLast?_concat]

theorem all_isBlank_of_trim (empty : trim cs = []) : cs.all isBlank := by
  simp only [trim, trimEnd, trimStart, reverse_eq_nil_iff, dropWhile_eq_nil_iff, mem_reverse] at empty
  rw [all_eq_true]
  intro c listed
  rw [← takeWhile_append_dropWhile (p := isBlank) (l := cs), mem_append] at listed
  rcases listed with taken | left
  · exact all_eq_true.mp all_takeWhile c taken
  · exact empty c left

theorem trim_of_blank (blank : cs.all isBlank) : trim cs = [] := by
  simp [trim, trimEnd, trimStart, dropWhile_eq_nil_iff.mpr (all_eq_true.mp blank)]

theorem trim_append {lead gap : List Char} (before : lead.all isBlank) (behind : gap.all isBlank)
    (filled : cs ≠ []) (opens : opensBlank cs = false) (closes : closesBlank cs = false) :
    trim (lead ++ cs ++ gap) = cs := by
  have skipped : trimStart (lead ++ (cs ++ gap)) = cs ++ gap := by
    rw [trimStart, dropWhile_append_of_pos (all_eq_true.mp before)]
    exact trimStart_of_solid (by rwa [opensBlank_append filled])
  rw [append_assoc, trim, skipped, trimEnd_append closes gap behind]

end FlatAbi.Chars
