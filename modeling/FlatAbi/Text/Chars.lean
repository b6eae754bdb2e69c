import FlatAbi.Text.Blank

/-!
Operations on lists of characters. Every function is structural on the text.
-/

namespace FlatAbi.Chars

open FlatAbi.Text (isBlank)

def trimStart (cs : List Char) : List Char :=
  cs.dropWhile isBlank

def trimEnd (cs : List Char) : List Char :=
  (cs.reverse.dropWhile isBlank).reverse

def trim (cs : List Char) : List Char :=
  trimEnd (trimStart cs)

/-- Put a character in front of the first piece of a nonempty list of pieces. -/
def prepend (c : Char) : List (List Char) → List (List Char)
  | [] => [[c]]
  | piece :: rest => (c :: piece) :: rest

/-- The maximal runs of characters without a blank. -/
def words : List Char → List (List Char)
  | [] => []
  | c :: cs =>
    if isBlank c then words cs
    else if cs.head?.all isBlank then [c] :: words cs
    else prepend c (words cs)

def collapse (cs : List Char) : List Char :=
  [' '].intercalate (words cs)

/-- Words and one separator between any two of them take no more room than the text. -/
theorem length_words_le (cs : List Char) :
    (words cs).flatten.length + (words cs).length ≤
      cs.length + if cs.head?.all isBlank then 0 else 1 := by
  induction cs with
  | nil => simp [words]
  | cons c cs ih =>
    simp only [words, List.head?_cons, Option.all_some, List.length_cons]
    by_cases blank : isBlank c
    · simp only [blank, if_true]
      split at ih <;> omega
    · simp only [blank, Bool.false_eq_true, if_false]
      by_cases lone : cs.head?.all isBlank
      · simp only [lone, if_true, List.flatten_cons, List.length_append, List.length_cons, List.length_nil] at ih ⊢
        omega
      · simp only [lone, Bool.false_eq_true, if_false] at ih ⊢
        cases found : words cs with
        | nil => simp [prepend]
        | cons word rest =>
          simp only [found, prepend, List.flatten_cons, List.length_append, List.length_cons] at ih ⊢
          omega

theorem length_intercalate_le (c : Char) (pieces : List (List Char)) :
    ([c].intercalate pieces).length ≤ pieces.flatten.length + (pieces.length - 1) := by
  induction pieces with
  | nil => simp [List.intercalate]
  | cons piece rest ih =>
    cases rest with
    | nil => simp [List.intercalate]
    | cons next rest =>
      simp only [List.intercalate, List.intersperse_cons_cons, List.flatten_cons, List.length_append,
        List.length_cons, List.length_nil] at ih ⊢
      omega

theorem length_collapse_le (cs : List Char) : (collapse cs).length ≤ cs.length := by
  have room := length_words_le cs
  have joined := length_intercalate_le ' ' (words cs)
  unfold collapse
  by_cases empty : words cs = []
  · simp [empty, List.intercalate]
  · have filled := List.length_pos_iff.mpr empty
    split at room <;> omega

def cut (separator : List Char) : List Char → Option (List Char × List Char)
  | [] => if separator.isEmpty then some ([], []) else none
  | c :: cs =>
    if separator.isPrefixOf (c :: cs) then some ([], (c :: cs).drop separator.length)
    else (cut separator cs).map fun (before, after) => (c :: before, after)

def occurs (part cs : List Char) : Bool :=
  (cut part cs).isSome

/-- Split at the occurrences of a nonempty `separator`, from the left and without overlap; `skip` characters of
a separator already recognised are still to be passed over. -/
def splitFrom (separator : List Char) : Nat → List Char → List (List Char)
  | _, [] => [[]]
  | skip + 1, _ :: cs => splitFrom separator skip cs
  | 0, c :: cs =>
    if separator.isPrefixOf (c :: cs) then [] :: splitFrom separator (separator.length - 1) cs
    else prepend c (splitFrom separator 0 cs)

def splitOn (separator cs : List Char) : List (List Char) :=
  splitFrom separator 0 cs

def replace (part replacement cs : List Char) : List Char :=
  replacement.intercalate (splitOn part cs)

/-- Replace the first occurrence of `part`; an empty part occurs at the start. -/
def replaceFirst (part replacement cs : List Char) : List Char :=
  match cut part cs with
  | some (before, after) => before ++ replacement ++ after
  | none => cs

def endsWith (tail cs : List Char) : Bool :=
  tail.reverse.isPrefixOf cs.reverse

end FlatAbi.Chars
