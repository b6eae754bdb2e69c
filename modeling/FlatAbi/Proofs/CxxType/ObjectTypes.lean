import FlatAbi.Proofs.CxxType.Stems
import Mathlib.Data.List.Induction

/-!
Object types: array bounds around a stem. Reading the spelling of an object type gives that type.
-/

namespace FlatAbi.CxxType

open Chars List

open Token (Renders)
open Chars (opensBlank closesBlank collapse)
open Text (isBlank isIdentifierChar)

variable {bound cs text : List Char} {bounds : List (List Char)}

/-- The text of a bound at single spaces and without brackets. -/
structure IsBound (bound : List Char) : Prop where
  single : collapse bound = bound
  unopened : '[' ∉ bound
  unclosed : ']' ∉ bound

/-- The bounds as they are written. -/
def boundsText (bounds : List (List Char)) : List Char :=
  (bounds.map fun bound => '[' :: bound ++ [']']).flatten

theorem boundsText_cons (bound : List Char) (bounds : List (List Char)) :
    boundsText (bound :: bounds) = '[' :: bound ++ ']' :: boundsText bounds := by
  simp [boundsText]

theorem boundsText_append (bounds : List (List Char)) (bound : List Char) :
    boundsText (bounds ++ [bound]) = boundsText bounds ++ '[' :: bound ++ [']'] := by
  simp [boundsText]

theorem closesBlank_boundsText (bounds : List (List Char)) : closesBlank (boundsText bounds) = false := by
  cases bounds using reverseRec with
  | nil => rfl
  | append_singleton bounds bound =>
    rw [boundsText_append, closesBlank_append _ (by simp)]
    decide

theorem opensBlank_boundsText (bounds : List (List Char)) : opensBlank (boundsText bounds) = false := by
  cases bounds with
  | nil => rfl
  | cons bound bounds =>
    rw [boundsText_cons]
    rfl

theorem collapse_boundsText (plain : ∀ bound ∈ bounds, IsBound bound) :
    collapse (boundsText bounds) = boundsText bounds := by
  induction bounds with
  | nil => rfl
  | cons bound bounds ih =>
    have single := (plain bound (by simp)).single
    have bracket : isBlank '[' = false ∧ isBlank ']' = false := by decide
    have opens : opensBlank bound = false := by
      rw [← single]
      exact opensBlank_collapse bound
    have closes : closesBlank ('[' :: bound) = false := by
      by_cases empty : bound = []
      · subst empty
        decide
      · rw [closesBlank_cons _ empty, ← single]
        exact closesBlank_collapse bound
    rw [boundsText_cons, collapse_append_solid closes (by exact bracket.2), collapse_cons_solid bracket.1, opens,
      collapse_cons_solid bracket.2, opensBlank_boundsText, ih fun next listed => plain next (by simp [listed])]
    simp [single]

theorem closingBound?_eq (unclosed : ']' ∉ bound) (cs : List Char) :
    closingBound? (bound ++ ']' :: cs) = if cs.all isBlank then some (trim bound) else none := by
  have passed : ∀ c ∈ bound, (c != ']') := fun c listed => by
    rw [bne_iff_ne]
    rintro rfl
    exact unclosed listed
  rw [closingBound?, dropWhile_append_of_pos passed, takeWhile_append_of_pos passed]
  simp

theorem lastBound?_append (unopened : '[' ∉ text) (cs : List Char) :
    lastBound? (text ++ cs) = (lastBound? cs).map fun (before, bound) => (text ++ before, bound) := by
  induction text with
  | nil => simp
  | cons c text ih =>
    have other : (c == '[') = false := by
      rw [beq_eq_false_iff_ne]
      rintro rfl
      exact unopened (by simp)
    rw [cons_append, lastBound?, ih fun later => unopened (by simp [later])]
    simp [other, Function.comp_def]

/-- An earlier bound does not close the text, so the last one is found. -/
theorem lastBound?_boundsText (plain : ∀ bound ∈ bounds, IsBound bound) (last : IsBound bound) :
    lastBound? (boundsText (bounds ++ [bound])) = some (boundsText bounds, bound) := by
  induction bounds with
  | nil =>
    have trimmed : trim bound = bound := by
      rw [← last.single]
      exact trim_of_solid (opensBlank_collapse bound) (closesBlank_collapse bound)
    have found := closingBound?_eq last.unclosed []
    simp only [all_nil, if_true, trimmed] at found
    simp [boundsText, lastBound?, found]
  | cons first bounds ih =>
    have earlier := plain first (by simp)
    have later := ih fun next listed => plain next (by simp [listed])
    have more : (boundsText (bounds ++ [bound])).all isBlank = false := by
      have bracket : isBlank '[' = false := by decide
      cases bounds <;> simp [boundsText, bracket]
    have unopened : '[' ∉ first ++ [']'] := by simp [earlier.unopened]
    have skipped := lastBound?_append unopened (boundsText (bounds ++ [bound]))
    rw [later, append_assoc, singleton_append] at skipped
    rw [cons_append, boundsText_cons, cons_append, lastBound?, closingBound?_eq earlier.unclosed, more]
    simp [skipped, boundsText_cons]

theorem lastBound?_of_unopened (unopened : '[' ∉ text) : lastBound? text = none := by
  simpa [lastBound?] using lastBound?_append unopened []

theorem takeBounds_of_unopened (unopened : '[' ∉ text) : takeBounds text = (text, []) := by
  rw [takeBounds]
  split
  next found => simp [lastBound?_of_unopened unopened] at found
  · rfl

theorem takeBounds_append (closes : closesBlank text = false) (unopened : '[' ∉ text) {gap : List Char}
    (blank : gap.all isBlank) (filled : bounds ≠ []) (plain : ∀ bound ∈ bounds, IsBound bound) :
    takeBounds (text ++ gap ++ boundsText bounds) = (text, bounds) := by
  have front : '[' ∉ text ++ gap := by
    intro listed
    rcases mem_append.mp listed with inside | inside
    · exact unopened inside
    · exact absurd (all_eq_true.mp blank _ inside) (by decide)
  induction bounds using reverseRec with
  | nil => exact absurd rfl filled
  | append_singleton bounds bound ih =>
    have found := lastBound?_append front (boundsText (bounds ++ [bound]))
    rw [lastBound?_boundsText (fun next listed => plain next (by simp [listed])) (plain bound (by simp)),
      Option.map_some] at found
    rw [takeBounds]
    split
    next before last first =>
      rw [found, Option.some.injEq, Prod.mk.injEq] at first
      obtain ⟨rfl, rfl⟩ := first
      by_cases empty : bounds = []
      · subst empty
        rw [show boundsText [] = [] from rfl, append_nil, trimEnd_append closes gap blank,
          takeBounds_of_unopened unopened]
      · have kept : trimEnd (text ++ gap ++ boundsText bounds) = text ++ gap ++ boundsText bounds := by
          have solid : closesBlank (text ++ gap ++ boundsText bounds) = false := by
            rw [closesBlank_append _ (by cases bounds <;> simp_all [boundsText]), closesBlank_boundsText]
          simpa using trimEnd_append solid [] rfl
        rw [kept, ih empty fun next listed => plain next (by simp [listed])]
    next missing =>
      rw [found] at missing
      cases missing

theorem toList_foldl_bounds (bounds : List String) (part : Partial) (level : part.fronted = false) :
    ((bounds.map Declarator.array).foldl Partial.wrap part).text.toList =
      part.text.toList ++ boundsText (bounds.map String.toList) := by
  induction bounds generalizing part with
  | nil => simp [boundsText]
  | cons bound bounds ih =>
    rw [map_cons, foldl_cons, ih _ rfl]
    simp [Partial.wrap, Declarator.level, Partial.grouped, level, boundsText, String.toList_append]

theorem functionParts?_of_unopened (unopened : '(' ∉ cs) : functionParts? cs = none := by
  induction cs with
  | nil => rfl
  | cons c cs ih =>
    have other : (c == '(') = false := by
      rw [beq_eq_false_iff_ne]
      rintro rfl
      exact unopened (by simp)
    simp [functionParts?, other, ih fun later => unopened (by simp [later])]

theorem getLast?_of_suffix {rest : List Char} (suffix : rest <:+ cs) (filled : rest ≠ []) :
    rest.getLast? = cs.getLast? := by
  obtain ⟨front, rfl⟩ := suffix
  rw [getLast?_append, getLast?_eq_some_getLast filled, Option.some_or]

theorem suffix_of_pointerKind? {outer : Declarator} {rest : List Char} (found : pointerKind? cs = some (outer, rest)) :
    rest <:+ cs := by
  unfold pointerKind? at found
  split at found
  · obtain ⟨_, rfl⟩ : _ ∧ _ := by simpa using found
    exact suffix_cons _ _
  · obtain ⟨_, rfl⟩ : _ ∧ _ := by simpa using found
    exact suffix_cons _ _
  · simp only at found
    split at found
    next star =>
      split at found
      · obtain ⟨_, rfl⟩ : _ ∧ _ := by simpa using found
        refine IsSuffix.trans (suffix_cons '*' _) ?_
        rw [← star]
        exact dropWhile_suffix _
      · cases found
    · cases found

theorem argumentText?_of_bracket (closed : cs.getLast? = some ']') : argumentText? cs = none := by
  obtain ⟨front, rfl⟩ := getLast?_eq_some_iff.mp closed
  have reversed : (front ++ [']']).reverse = ']' :: front.reverse := by simp
  have bracket : (']' != ')') := by decide
  simp only [argumentText?, reversed, takeWhile_cons, dropWhile_cons, bracket, if_true, reverse_cons]
  -- What follows the last parenthesis ends with the bracket, so it is neither blank nor `const`.
  have last := getLast?_trim (front.reverse.takeWhile (· != ')')).reverse (show isBlank ']' = false by decide)
  split
  · split
    next empty =>
      rw [isEmpty_iff.mp empty] at last
      cases last
    · split
      next word =>
        rw [eq_of_beq word] at last
        cases last
      · rfl
  · rfl

theorem functionTail?_of_bracket (closed : cs.getLast? = some ']') : functionTail? cs = none := by
  unfold functionTail?
  cases kind : pointerKind? (cs.dropWhile isBlank) with
  | none => rfl
  | some found =>
    obtain ⟨outer, afterKind⟩ := found
    have kindEnd : afterKind <:+ cs := (suffix_of_pointerKind? kind).trans (dropWhile_suffix _)
    simp only [Option.bind_eq_bind, Option.bind_some]
    split
    next afterGroup group =>
      have groupEnd : afterGroup <:+ cs :=
        ((suffix_cons ')' _).trans (group ▸ dropWhile_suffix _)).trans kindEnd
      split
      next inside opened =>
        have insideEnd : inside <:+ cs :=
          ((suffix_cons '(' _).trans (opened ▸ dropWhile_suffix _)).trans groupEnd
        by_cases empty : inside = []
        · subst empty
          rfl
        · rw [argumentText?_of_bracket ((getLast?_of_suffix insideEnd empty).trans closed), Option.bind_none]
      · rfl
    · rfl

theorem functionParts?_of_bracket (closed : cs.getLast? = some ']') : functionParts? cs = none := by
  induction cs with
  | nil => rfl
  | cons c cs ih =>
    by_cases last : cs = []
    · subst last
      obtain rfl : c = ']' := by simpa using closed
      rfl
    · have closed : cs.getLast? = some ']' := (getLast?_of_suffix (suffix_cons c cs) last).trans closed
      simp [functionParts?, functionTail?_of_bracket closed, ih closed]

theorem readChars_eq_readObject (filled : collapse cs ≠ []) (object : functionParts? (collapse cs) = none) :
    readChars cs = readObject cs (collapse cs) := by
  rw [readChars]
  simp only [isEmpty_eq_false_iff.mpr filled]
  split
  · contradiction
  · split
    · rfl
    next found =>
      rw [object] at found
      cases found

theorem Stem.readChars_append (stem : Stem) {front : List Char} (renders : Renders stem.tokens front)
    (plain : ∀ bound ∈ bounds, IsBound bound) :
    readChars (front ++ boundsText bounds) =
      .ok (stem.type.under (bounds.map fun bound => .array (String.ofList bound))) := by
  obtain ⟨gap, blank, single⟩ := collapse_append front (opensBlank_boundsText bounds)
  rw [collapse_boundsText plain] at single
  have squeezed := renders.collapse
  have unopened : '[' ∉ collapse front := squeezed.not_mem (by decide) (by decide) (by decide)
  have filled : collapse front ≠ [] := by
    intro empty
    rw [empty] at squeezed
    have tokenless : stem.tokens = [] := by simpa using squeezed.scan_eq.symm.trans Renders.nil.scan_eq
    simp [Stem.tokens, stem.named] at tokenless
  have taken : takeBounds (collapse (front ++ boundsText bounds)) = (collapse front, bounds) := by
    by_cases empty : bounds = []
    · subst empty
      simpa [boundsText] using takeBounds_of_unopened unopened
    · rw [single]
      exact takeBounds_append (closesBlank_collapse front) unopened blank empty plain
  have object : functionParts? (collapse (front ++ boundsText bounds)) = none := by
    cases bounds using reverseRec with
    | nil => simpa [boundsText] using functionParts?_of_unopened (squeezed.not_mem (by decide) (by decide) (by decide))
    | append_singleton earlier bound =>
      rw [single, boundsText_append]
      exact functionParts?_of_bracket (by rw [← append_assoc, getLast?_concat])
  rw [readChars_eq_readObject (by rw [single]; simp [filled]) object, stem.readObject_eq _ taken squeezed.scan_eq]

theorem Stem.read_spelling (stem : Stem) : read stem.type.spelling = .ok stem.type := by
  obtain ⟨front, spelled, renders⟩ := stem.exists_spelling (rfl : ([] : List Declarator).getLast?.all _) rfl rfl rfl
  have back := stem.readChars_append renders (forall_mem_nil IsBound)
  simpa [read, under, boundsText] using spelled ▸ back

/-- A stem with array bounds around it. -/
def IsObject (t : CxxType) : Prop :=
  ∃ (stem : Stem) (bounds : List String), (∀ bound ∈ bounds, IsBound bound.toList) ∧
    t = stem.type.under (bounds.map .array)

/-- Reading undoes printing on object types. -/
theorem read_spelling_of_isObject {t : CxxType} (object : t.IsObject) : read t.spelling = .ok t := by
  obtain ⟨stem, bounds, plain, rfl⟩ := object
  have outside : (bounds.map Declarator.array).getLast?.all (!·.isQualifier) = true := by
    rw [getLast?_map]
    cases bounds.getLast? <;> rfl
  have written := toList_foldl_bounds bounds ⟨"", false⟩ rfl
  rw [String.toList_empty, nil_append] at written
  have opens : (boundsText (bounds.map String.toList)).head?.all (fun c => c == '[' || c == '(') = true := by
    cases bounds <;> rfl
  obtain ⟨front, spelled, renders⟩ := stem.exists_spelling outside written opens (closesBlank_boundsText _)
  rw [read, spelled, stem.readChars_append renders (by simpa using plain), map_map]
  simp [Function.comp_def]

theorem read_spelling_constPointers :
    read (spelling ⟨"ns::Box Ptr", [.array "2 * N", .qualifier "const", .pointer, .lvalueReference,
      .qualifier "const"]⟩) =
      .ok ⟨"ns::Box Ptr", [.array "2 * N", .qualifier "const", .pointer, .lvalueReference, .qualifier "const"]⟩ := by
  refine read_spelling_of_isObject ⟨⟨["ns::Box", "Ptr"], [.qualifier "const", .pointer, .lvalueReference], ["const"],
    by simp, ?_, ?_, rfl, by simp [Declarator.isReference], by simp⟩, ["2 * N"], ?_, rfl⟩
  · intro word listed
    simp only [mem_cons, not_mem_nil, or_false] at listed
    rcases listed with rfl | rfl
    · exact ⟨⟨["ns", "Box"], by simp, by decide, rfl⟩, rfl, rfl⟩
    · exact ⟨⟨["Ptr"], by simp, by decide, rfl⟩, rfl, rfl⟩
  · simp only [mem_cons, not_mem_nil, or_false, forall_eq_or_imp, forall_eq]
    exact ⟨.qualifier rfl, .pointer, .lvalueReference⟩
  · simp only [mem_cons, not_mem_nil, or_false, forall_eq]
    exact ⟨by decide, by decide, by decide⟩

end FlatAbi.CxxType
