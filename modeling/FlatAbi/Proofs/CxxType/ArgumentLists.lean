import FlatAbi.Proofs.CxxType.ArgumentSpacing

/-!
Argument lists as text. Splitting at the commas outside all brackets undoes joining.
-/

namespace FlatAbi.Arguments

open List Bool CxxType
open Text (join toList_join)
open Chars (trim)
open CxxType (spacedOut)

variable {depth : Int} {text : List Char} {argument : String} {arguments : List String}

/-- How many more brackets a text opens than it closes. It is negative where the text closes too many. -/
def bracketDepth (text : List Char) : Int :=
  text.countP (['(', '<', '['].contains ·) - text.countP ([')', '>', ']'].contains ·)

/-- An argument as it stands in a list: some text without blanks around it that ends at depth zero and has no comma at
depth zero. -/
structure IsWritten (argument : String) : Prop where
  nonempty : argument ≠ ""
  trimmed : Text.trim argument = argument
  closed : bracketDepth argument.toList = 0
  grouped : ∀ i (bound : i < argument.toList.length), argument.toList[i] = ',' →
    bracketDepth (argument.toList.take i) ≠ 0

instance (argument : String) : Decidable (IsWritten argument) :=
  decidable_of_iff (argument ≠ "" ∧ Text.trim argument = argument ∧ bracketDepth argument.toList = 0 ∧
      ∀ i (bound : i < argument.toList.length), argument.toList[i] = ',' → bracketDepth (argument.toList.take i) ≠ 0)
    ⟨fun ⟨nonempty, trimmed, closed, grouped⟩ => ⟨nonempty, trimmed, closed, grouped⟩,
      fun written => ⟨written.nonempty, written.trimmed, written.closed, written.grouped⟩⟩

theorem bracketDepth_cons (c : Char) (text : List Char) :
    bracketDepth (c :: text) = bracketDepth [c] + bracketDepth text := by
  simp only [bracketDepth, countP_cons, countP_nil]
  omega

theorem depthAfter_eq (depth : Int) (c : Char) : depthAfter depth c = depth + bracketDepth [c] := by
  simp only [depthAfter, bracketDepth, countP_singleton, contains_cons, contains_nil, Bool.or_false,
    ← Bool.or_assoc]
  split
  next opens =>
    have other : (c == ')' || c == '>' || c == ']') = false := by
      simp only [or_eq_true, beq_iff_eq] at opens
      rcases opens with (rfl | rfl) | rfl <;> rfl
    simp [other]
  · split <;> omega

/-- The scan carries its depth through a text in which no comma stands at depth zero. -/
theorem depthThrough?_of_grouped (grouped : ∀ i (bound : i < text.length), text[i] = ',' →
    depth + bracketDepth (text.take i) ≠ 0) : depthThrough? depth text = some (depth + bracketDepth text) := by
  induction text generalizing depth with
  | nil => simp [depthThrough?, bracketDepth]
  | cons c text ih =>
    have inside : ¬ (c == ',' && depthAfter depth c == 0) := by
      rw [and_eq_true, beq_iff_eq, beq_iff_eq]
      rintro ⟨rfl, top⟩
      rw [depthAfter_eq] at top
      exact grouped 0 (by simp) rfl top
    -- the rest is entered at the depth behind `c`, so that its commas are as deep as before
    have later : ∀ i (bound : i < text.length), text[i] = ',' →
        depthAfter depth c + bracketDepth (text.take i) ≠ 0 := by
      intro i bound comma
      rw [depthAfter_eq, Int.add_assoc, ← bracketDepth_cons]
      exact grouped (i + 1) (by simpa using bound) comma
    rw [depthThrough?, if_neg inside, ih later, depthAfter_eq, Int.add_assoc, ← bracketDepth_cons]

theorem IsWritten.isArgument (written : IsWritten argument) : IsArgument argument.toList where
  closed := by
    rw [depthThrough?_of_grouped (by simpa using written.grouped), written.closed]
    rfl
  solid := by
    rw [eq_false_iff]
    intro blank
    have empty := written.trimmed
    rw [Text.trim, Chars.trim_of_blank blank] at empty
    exact written.nonempty empty.symm

theorem map_trim_of_written (written : ∀ argument ∈ arguments, IsWritten argument) :
    ((arguments.map String.toList).map trim).map String.ofList = arguments := by
  rw [map_map, map_map]
  calc arguments.map ((String.ofList ∘ trim) ∘ String.toList)
    _ = arguments.map id := map_congr_left fun argument listed => (written argument listed).trimmed
    _ = arguments := map_id arguments

/-- Splitting an argument list undoes joining its arguments, whether a space follows each comma or not. -/
theorem split_join (written : ∀ argument ∈ arguments, IsWritten argument) :
    split (join "," arguments) = arguments ∧ split (join ", " arguments) = arguments := by
  have plain : ∀ text ∈ arguments.map String.toList, IsArgument text :=
    forall_mem_map.mpr fun argument listed => (written argument listed).isArgument
  have tight : (join "," arguments).toList = [','].intercalate (arguments.map String.toList) :=
    toList_join "," arguments
  have loose : (join ", " arguments).toList = [','].intercalate (spacedOut (arguments.map String.toList)) := by
    rw [intercalate_spacedOut]
    exact toList_join ", " arguments
  constructor
  · rw [split, tight, splitChars_intercalate plain, map_trim_of_written written]
  · rw [split, loose, splitChars_intercalate (isArgument_spacedOut plain),
      map_spacedOut (Chars.trim_cons_blank rfl), map_trim_of_written written]

theorem split_join_nested :
    split (join "," ["int", "void (*)(T<a, b>, char[2])", ">,<"]) = ["int", "void (*)(T<a, b>, char[2])", ">,<"] ∧
      split (join ", " ["int", "void (*)(T<a, b>, char[2])", ">,<"]) =
        ["int", "void (*)(T<a, b>, char[2])", ">,<"] :=
  split_join (by decide)

end FlatAbi.Arguments
