import FlatAbi.CxxType.Arguments
import FlatAbi.Proofs.Text.Blanks

/-!
Argument lists. Texts without a comma outside their brackets are told apart after they were joined.
-/

namespace FlatAbi.Arguments

open Chars List Bool

open FlatAbi.Text (isBlank)
open Chars (opensBlank closesBlank collapse spaced)

variable {depth after : Int} {text cs : List Char} {arguments : List (List Char)}

/-- The bracket depth behind a text, unless it has a comma outside all brackets. -/
def depthThrough? (depth : Int) : List Char → Option Int
  | [] => some depth
  | c :: cs =>
    let after := depthAfter depth c
    if c == ',' && after == 0 then none else depthThrough? after cs

/-- The text of one argument: not blank, its brackets closed, and without a comma outside them. -/
structure IsArgument (text : List Char) : Prop where
  closed : depthThrough? 0 text = some 0
  solid : text.all isBlank = false

theorem pieces_append_comma (closed : depthThrough? depth text = some 0) (cs : List Char) :
    pieces depth (text ++ ',' :: cs) = text :: pieces 0 cs := by
  induction text generalizing depth with
  | nil =>
    obtain rfl : depth = 0 := by simpa [depthThrough?] using closed
    simp [pieces, depthAfter]
  | cons c text ih =>
    simp only [depthThrough?] at closed
    rw [cons_append, pieces]
    split at closed
    · cases closed
    next apart =>
      simp only [apart, ih closed, prepend]
      rfl

theorem pieces_of_closed (closed : depthThrough? depth text = some after) : pieces depth text = [text] := by
  induction text generalizing depth with
  | nil => rfl
  | cons c text ih =>
    simp only [depthThrough?] at closed
    rw [pieces]
    split at closed
    · cases closed
    next apart =>
      simp only [apart, ih closed, prepend]
      rfl

theorem pieces_intercalate (several : arguments ≠ []) (plain : ∀ text ∈ arguments, IsArgument text) :
    pieces 0 ([','].intercalate arguments) = arguments := by
  induction arguments with
  | nil => exact absurd rfl several
  | cons text rest ih =>
    have closed := (plain text (by simp)).closed
    by_cases last : rest = []
    · subst last
      simpa [intercalate] using pieces_of_closed closed
    · rw [intercalate_cons_of_ne_nil last, append_assoc, singleton_append, pieces_append_comma closed,
        ih last fun next listed => plain next (by simp [listed])]

theorem dropEmptyLast_of_full {texts : List (List Char)} (full : ∀ text ∈ texts, text ≠ []) :
    dropEmptyLast texts = texts := by
  induction texts with
  | nil => rfl
  | cons text rest ih =>
    cases rest with
    | nil => simp [dropEmptyLast, full text (by simp)]
    | cons next rest => rw [dropEmptyLast, ih fun other listed => full other (by simp [listed])]

/-- Arguments that are joined with commas are told apart again. -/
theorem splitChars_intercalate (plain : ∀ text ∈ arguments, IsArgument text) :
    splitChars ([','].intercalate arguments) = arguments.map trim := by
  by_cases empty : arguments = []
  · subst empty
    rfl
  · rw [splitChars, pieces_intercalate empty plain]
    apply dropEmptyLast_of_full
    intro text listed
    obtain ⟨argument, among, rfl⟩ := mem_map.mp listed
    intro empty
    have solid := (plain argument among).solid
    rw [all_isBlank_of_trim empty] at solid
    cases solid

theorem depthThrough?_cons_blank {c : Char} (blank : isBlank c) (cs : List Char) :
    depthThrough? depth (c :: cs) = depthThrough? depth cs := by
  have other {d : Char} (solid : isBlank d = false) : (c == d) = false := by
    rw [beq_eq_false_iff_ne]
    rintro rfl
    rw [solid] at blank
    cases blank
  simp [depthThrough?, depthAfter, other (d := ',') rfl, other (d := '(') rfl, other (d := '<') rfl,
    other (d := '[') rfl, other (d := ')') rfl, other (d := '>') rfl, other (d := ']') rfl]

theorem depthThrough?_spaced (cs : List Char) : depthThrough? depth (spaced cs) = depthThrough? depth cs := by
  cases cs with
  | nil => rfl
  | cons c cs => exact depthThrough?_cons_blank rfl _

theorem depthThrough?_collapse (cs : List Char) : depthThrough? depth (collapse cs) = depthThrough? depth cs := by
  induction cs generalizing depth with
  | nil => rfl
  | cons c cs ih =>
    cases first : isBlank c with
    | true => rw [collapse_cons_blank first, ih, depthThrough?_cons_blank first]
    | false =>
      rw [collapse_cons_solid first, depthThrough?, depthThrough?]
      split
      · rfl
      · split
        · rw [depthThrough?_spaced, ih]
        · rw [ih]

variable {lead gap : List Char}

theorem depthThrough?_blanks (before : lead.all isBlank) (behind : gap.all isBlank) (text : List Char) :
    depthThrough? depth (lead ++ text ++ gap) = depthThrough? depth text := by
  induction lead with
  | nil =>
    rw [nil_append]
    induction text generalizing depth with
    | nil =>
      rw [nil_append]
      induction gap with
      | nil => rfl
      | cons c gap ih =>
        rw [all_cons, and_eq_true] at behind
        rw [depthThrough?_cons_blank behind.1, ih behind.2]
    | cons c text ih => simp only [cons_append, depthThrough?, ih]
  | cons c lead ih =>
    rw [all_cons, and_eq_true] at before
    rw [cons_append, cons_append, depthThrough?_cons_blank before.1, ih before.2]

theorem collapse_ne_nil (plain : IsArgument text) : collapse text ≠ [] := by
  intro empty
  have solid := plain.solid
  rw [collapse_eq_nil_iff.mp empty] at solid
  cases solid

theorem collapse_intercalate_ne_nil (several : arguments ≠ []) (plain : ∀ text ∈ arguments, IsArgument text) :
    collapse ([','].intercalate arguments) ≠ [] := by
  intro empty
  have blank := all_eq_true.mp (collapse_eq_nil_iff.mp empty)
  cases arguments with
  | nil => exact several rfl
  | cons text rest =>
    have solid := (plain text (by simp)).solid
    rw [eq_false_iff, Ne, all_eq_true] at solid
    apply solid
    intro c listed
    apply blank
    cases rest <;> simp [intercalate, listed]

theorem IsArgument.spaced (plain : IsArgument text) : IsArgument (' ' :: text) where
  closed := by rw [depthThrough?_cons_blank rfl, plain.closed]
  solid := by rw [all_cons, plain.solid, Bool.and_false]

theorem IsArgument.squeezed (plain : IsArgument text) (before : lead.all isBlank)
    (behind : gap.all isBlank) : IsArgument (lead ++ collapse text ++ gap) where
  closed := by rw [depthThrough?_blanks before behind, depthThrough?_collapse, plain.closed]
  solid := by
    cases first : collapse text with
    | nil => exact absurd first (collapse_ne_nil plain)
    | cons c cs =>
      have opens := opensBlank_collapse text
      rw [first] at opens
      simp [show isBlank c = false from opens]

theorem IsArgument.trim_squeezed (plain : IsArgument text) (before : lead.all isBlank)
    (behind : gap.all isBlank) : trim (lead ++ collapse text ++ gap) = collapse text :=
  trim_append before behind (collapse_ne_nil plain) (opensBlank_collapse text) (closesBlank_collapse text)

theorem exists_collapse_comma (plain : ∀ text ∈ arguments, IsArgument text) (several : arguments ≠ []) :
    ∃ lead : List Char, lead.all isBlank ∧
      collapse (',' :: [','].intercalate arguments) = ',' :: (lead ++ collapse ([','].intercalate arguments)) := by
  rw [collapse_cons_solid (by decide)]
  split
  · exact ⟨[' '], rfl, by rw [spaced_of_ne_nil (collapse_intercalate_ne_nil several plain)]; rfl⟩
  · exact ⟨[], rfl, rfl⟩

/-- A joined list that is brought to single spaces is the list of the texts at single spaces, up to blanks around
them. -/
theorem exists_squeezed (before : lead.all isBlank) (behind : gap.all isBlank)
    (plain : ∀ text ∈ arguments, IsArgument text) (several : arguments ≠ []) :
    ∃ texts, lead ++ collapse ([','].intercalate arguments) ++ gap = [','].intercalate texts ∧
      (∀ text ∈ texts, IsArgument text) ∧ texts.map trim = arguments.map collapse := by
  induction arguments generalizing lead with
  | nil => exact absurd rfl several
  | cons text rest ih =>
    have first := plain text (by simp)
    by_cases last : rest = []
    · subst last
      refine ⟨[lead ++ collapse text ++ gap], by simp [intercalate], ?_, ?_⟩
      · simpa only [mem_singleton, forall_eq] using first.squeezed before behind
      · rw [map_singleton, first.trim_squeezed before behind, map_singleton]
    · have later : ∀ next ∈ rest, IsArgument next := fun next listed => plain next (by simp [listed])
      have comma : opensBlank (',' :: [','].intercalate rest) = false := rfl
      obtain ⟨middle, blank, divided⟩ := collapse_append text comma
      obtain ⟨lead', blank', spread⟩ := exists_collapse_comma later last
      obtain ⟨texts, joined, plains, trims⟩ := ih blank' later last
      have filled : texts ≠ [] := by
        rintro rfl
        exact last (map_eq_nil_iff.mp trims.symm)
      refine ⟨(lead ++ collapse text ++ middle) :: texts, ?_, ?_, ?_⟩
      · rw [intercalate_cons_of_ne_nil last, intercalate_cons_of_ne_nil filled, ← joined, append_assoc text,
          singleton_append, divided, spread]
        simp
      · intro argument listed
        rcases mem_cons.mp listed with rfl | among
        · exact first.squeezed before blank
        · exact plains argument among
      · rw [map_cons, map_cons, first.trim_squeezed before blank, trims]

theorem splitChars_squeezed (before : lead.all isBlank) (behind : gap.all isBlank)
    (plain : ∀ text ∈ arguments, IsArgument text) :
    splitChars (lead ++ collapse ([','].intercalate arguments) ++ gap) = arguments.map collapse := by
  by_cases empty : arguments = []
  · subst empty
    have closed : depthThrough? 0 (lead ++ collapse ([','].intercalate []) ++ gap) = some 0 :=
      depthThrough?_blanks before behind []
    have blank : (lead ++ collapse ([','].intercalate []) ++ gap).all isBlank := by
      change (lead ++ [] ++ gap).all isBlank
      simp only [all_append, before, behind, all_nil, Bool.true_and]
    rw [splitChars, pieces_of_closed closed, map_singleton, trim_of_blank blank]
    rfl
  · obtain ⟨texts, joined, plains, trims⟩ := exists_squeezed before behind plain empty
    rw [joined, splitChars_intercalate plains, trims]

end FlatAbi.Arguments
