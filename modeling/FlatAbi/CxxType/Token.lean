import FlatAbi.Text.Basic

/-!
Tokens of a type spelling. Each scanner returns the text it takes and the rest.
-/

namespace FlatAbi.Token

open FlatAbi.Text (isBlank)

variable {cs taken rest : List Char}

def isNameStart (c : Char) : Bool :=
  c.isAlpha || c == '_' || c == '~' || c == '$'

def isNamePart (c : Char) : Bool :=
  Text.isWordChar c || c == '$'

def name? : List Char → Option (List Char × List Char)
  | [] => none
  | c :: cs =>
    if isNameStart c then some (c :: cs.takeWhile isNamePart, cs.dropWhile isNamePart) else none

/-- A further component of a qualified name: `::` and a name, with blanks allowed before both. -/
def component? (cs : List Char) : Option (List Char × List Char) :=
  match cs.dropWhile isBlank with
  | ':' :: ':' :: afterColons =>
    (name? (afterColons.dropWhile isBlank)).map fun (name, rest) =>
      (cs.takeWhile isBlank ++ [':', ':'] ++ afterColons.takeWhile isBlank ++ name, rest)
  | _ => none

theorem name?_append (found : name? cs = some (taken, rest)) : taken ++ rest = cs := by
  cases cs with
  | nil => simp [name?] at found
  | cons c cs =>
    simp only [name?] at found
    split at found
    · simp only [Option.some.injEq, Prod.mk.injEq] at found
      obtain ⟨rfl, rfl⟩ := found
      simp [List.takeWhile_append_dropWhile]
    · simp at found

theorem name?_nonempty (found : name? cs = some (taken, rest)) : taken ≠ [] := by
  cases cs with
  | nil => simp [name?] at found
  | cons c cs =>
    simp only [name?] at found
    split at found
    · simp only [Option.some.injEq, Prod.mk.injEq] at found
      obtain ⟨rfl, _⟩ := found
      simp
    · simp at found

theorem component?_append (found : component? cs = some (taken, rest)) : taken ++ rest = cs := by
  simp only [component?] at found
  split at found
  next afterColons colons =>
    obtain ⟨⟨name, after⟩, scanned, same⟩ := Option.map_eq_some_iff.mp found
    simp only [Prod.mk.injEq] at same
    obtain ⟨rfl, rfl⟩ := same
    have inner := name?_append scanned
    have outer := List.takeWhile_append_dropWhile (p := isBlank) (l := cs)
    have middle := List.takeWhile_append_dropWhile (p := isBlank) (l := afterColons)
    calc
      _ = cs.takeWhile isBlank ++ ':' :: ':' :: (afterColons.takeWhile isBlank ++ (name ++ after)) := by
            simp
      _ = cs := by rw [inner, middle, ← colons, outer]
  · simp at found

theorem component?_length (found : component? cs = some (taken, rest)) : rest.length < cs.length := by
  have whole := component?_append found
  have nonempty : taken ≠ [] := by
    simp only [component?] at found
    split at found
    · obtain ⟨⟨name, after⟩, _, same⟩ := Option.map_eq_some_iff.mp found
      simp only [Prod.mk.injEq] at same
      obtain ⟨rfl, _⟩ := same
      simp
    · simp at found
  rw [← whole, List.length_append]
  have := List.length_pos_iff.mpr nonempty
  omega

def components (cs : List Char) : List Char × List Char :=
  match _found : component? cs with
  | some (taken, rest) =>
    let (more, after) := components rest
    (taken ++ more, after)
  | none => ([], cs)
termination_by cs.length
decreasing_by exact component?_length _found

/-- Template arguments: from `<` to the last `>` before any parenthesis. -/
def template? (cs : List Char) : Option (List Char × List Char) :=
  match cs.dropWhile isBlank with
  | '<' :: afterOpen =>
    let run := afterOpen.takeWhile fun c => c != '(' && c != ')'
    let inner := (run.reverse.dropWhile (· != '>')).reverse
    if inner.isEmpty then none
    else some (cs.takeWhile isBlank ++ '<' :: inner, afterOpen.drop inner.length)
  | _ => none

def qualified? (cs : List Char) : Option (List Char × List Char) :=
  (name? cs).map fun (first, afterFirst) =>
    let (more, afterMore) := components afterFirst
    match template? afterMore with
    | some (arguments, rest) => (first ++ more ++ arguments, rest)
    | none => (first ++ more, afterMore)

def rooted? : List Char → Option (List Char × List Char)
  | ':' :: ':' :: cs =>
    match cs.dropWhile isBlank with
    | c :: rest =>
      if c.isAlpha || c == '_' then
        let part := fun d => Text.isWordChar d || d == ':'
        some ([':', ':'] ++ cs.takeWhile isBlank ++ c :: rest.takeWhile part, rest.dropWhile part)
      else none
    | [] => none
  | _ => none

def token? : List Char → Option (List Char × List Char)
  | '.' :: '.' :: '.' :: rest => some (['.', '.', '.'], rest)
  | '&' :: '&' :: rest => some (['&', '&'], rest)
  | '*' :: rest => some (['*'], rest)
  | '&' :: rest => some (['&'], rest)
  | cs => (qualified? cs).or (rooted? cs)

/-- A token's text: blanks collapsed, and none around `::`. -/
def normalize (taken : List Char) : List Char :=
  Chars.replace [':', ':', ' '] [':', ':'] (Chars.replace [' ', ':', ':'] [':', ':'] (Chars.collapse taken))

theorem components_append (cs : List Char) : (components cs).1 ++ (components cs).2 = cs := by
  fun_induction components cs with
  | case1 cs taken rest found more after split ih =>
    rw [split] at ih
    simpa [List.append_assoc, ih] using component?_append found
  | case2 cs => rfl

theorem template?_append (found : template? cs = some (taken, rest)) : taken ++ rest = cs := by
  simp only [template?] at found
  split at found
  next afterOpen opened =>
    split at found
    · simp at found
    · simp only [Option.some.injEq, Prod.mk.injEq] at found
      obtain ⟨rfl, rfl⟩ := found
      have outer := List.takeWhile_append_dropWhile (p := isBlank) (l := cs)
      have inner : ((afterOpen.takeWhile fun c => c != '(' && c != ')').reverse.dropWhile
          (· != '>')).reverse <+: afterOpen := by
        refine List.IsPrefix.trans ?_ (List.takeWhile_prefix (fun c => c != '(' && c != ')'))
        have ended := List.dropWhile_suffix (· != '>')
          (l := (afterOpen.takeWhile fun c => c != '(' && c != ')').reverse)
        simpa using List.reverse_prefix.mpr ended
      have joined := List.prefix_iff_eq_append.mp inner
      calc
        _ = cs.takeWhile isBlank ++ '<' :: afterOpen := by
              rw [List.append_assoc, List.cons_append, joined]
        _ = cs := by rw [← opened, outer]
  · simp at found

theorem qualified?_append (found : qualified? cs = some (taken, rest)) : taken ++ rest = cs := by
  obtain ⟨⟨first, afterFirst⟩, scanned, same⟩ := Option.map_eq_some_iff.mp found
  have whole := name?_append scanned
  have split := components_append afterFirst
  dsimp only at same
  cases arguments : template? (components afterFirst).2 with
  | none =>
    simp only [arguments, Prod.mk.injEq] at same
    obtain ⟨rfl, rfl⟩ := same
    rw [List.append_assoc, split, whole]
  | some result =>
    have inner : result.1 ++ result.2 = _ := template?_append arguments
    simp only [arguments, Prod.mk.injEq] at same
    obtain ⟨rfl, rfl⟩ := same
    rw [List.append_assoc, inner, List.append_assoc, split, whole]

theorem qualified?_nonempty (found : qualified? cs = some (taken, rest)) : taken ≠ [] := by
  obtain ⟨⟨first, afterFirst⟩, scanned, same⟩ := Option.map_eq_some_iff.mp found
  have started := name?_nonempty scanned
  dsimp only at same
  split at same
  · simp only [Prod.mk.injEq] at same
    obtain ⟨rfl, _⟩ := same
    simp [started]
  · simp only [Prod.mk.injEq] at same
    obtain ⟨rfl, _⟩ := same
    simp [started]

theorem rooted?_append (found : rooted? cs = some (taken, rest)) : taken ++ rest = cs := by
  unfold rooted? at found
  split at found
  next cs =>
    split at found
    next c body opened =>
      split at found
      · simp only [Option.some.injEq, Prod.mk.injEq] at found
        obtain ⟨rfl, rfl⟩ := found
        have outer := List.takeWhile_append_dropWhile (p := isBlank) (l := cs)
        have inner := List.takeWhile_append_dropWhile
          (p := fun d => Text.isWordChar d || d == ':') (l := body)
        calc
          _ = ':' :: ':' :: (cs.takeWhile isBlank ++ (c :: body)) := by simp [inner]
          _ = ':' :: ':' :: cs := by rw [← opened, outer]
      · simp at found
    · simp at found
  · simp at found

theorem rooted?_nonempty (found : rooted? cs = some (taken, rest)) : taken ≠ [] := by
  unfold rooted? at found
  split at found
  · split at found
    · split at found
      · simp only [Option.some.injEq, Prod.mk.injEq] at found
        obtain ⟨rfl, _⟩ := found
        simp
      · simp at found
    · simp at found
  · simp at found

theorem token?_append (found : token? cs = some (taken, rest)) : taken ++ rest = cs := by
  unfold token? at found
  split at found
  all_goals try (simp only [Option.some.injEq, Prod.mk.injEq] at found; obtain ⟨rfl, rfl⟩ := found; rfl)
  cases named : qualified? cs with
  | some result =>
    rw [named, Option.some_or] at found
    exact qualified?_append (named.trans found)
  | none =>
    rw [named, Option.none_or] at found
    exact rooted?_append found

theorem token?_nonempty (found : token? cs = some (taken, rest)) : taken ≠ [] := by
  unfold token? at found
  split at found
  all_goals try (simp only [Option.some.injEq, Prod.mk.injEq] at found; obtain ⟨rfl, rfl⟩ := found; simp)
  cases named : qualified? cs with
  | some result =>
    rw [named, Option.some_or] at found
    exact qualified?_nonempty (named.trans found)
  | none =>
    rw [named, Option.none_or] at found
    exact rooted?_nonempty found

theorem token?_length (found : token? cs = some (taken, rest)) : rest.length < cs.length := by
  rw [← token?_append found, List.length_append]
  have := List.length_pos_iff.mpr (token?_nonempty found)
  omega

def scan (cs : List Char) : Except (List Char) (List (List Char)) :=
  match _found : token? (cs.dropWhile isBlank) with
  | some (taken, rest) => (scan rest).map (normalize taken :: ·)
  | none => if (cs.dropWhile isBlank).isEmpty then .ok [] else .error cs
termination_by cs.length
decreasing_by
  have shorter := token?_length _found
  have dropped := (List.dropWhile_suffix (l := cs) isBlank).length_le
  omega

end FlatAbi.Token
