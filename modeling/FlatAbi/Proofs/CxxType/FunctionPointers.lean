import FlatAbi.Proofs.CxxType.Arguments
import FlatAbi.Proofs.CxxType.Conservation
import FlatAbi.Proofs.CxxType.ObjectTypes

/-!
Function pointers read back, but for the `const` of a member function, which is printed in the wrong place.
-/

namespace FlatAbi.CxxType

open Chars List Arguments Function

open Arguments (IsArgument)
open Token (Renders)
open Chars (opensBlank closesBlank collapse spaced)
open Text (isBlank IsQualifiedName)

variable {cs front : List Char} {t : CxxType} {outer : Declarator} {arguments : List (List Char)}

/-! ### Reading by what a text is at single spaces -/

/-- The levels of a function pointer around its result type. -/
def functionLevels (outer : Declarator) (arguments : String) (isConst : Bool) : List Declarator :=
  outer :: (if isConst then [.qualifier "const"] else []) ++ [.function arguments]

theorem readChars_of_parts {parts : FunctionParts} (found : functionParts? (collapse cs) = some parts) :
    readChars cs = (readChars parts.result).map fun result => result.under
      (functionLevels parts.outer (Text.join "," (Arguments.split (String.ofList parts.arguments))) parts.isConst) := by
  have filled : (collapse cs).isEmpty = false := by
    cases shape : collapse cs with
    | nil => simp [shape, functionParts?] at found
    | cons => rfl
  rw [readChars]
  simp only [filled, Bool.false_eq_true, if_false]
  split
  next absent =>
    rw [found] at absent
    cases absent
  next other same =>
    rw [found, Option.some.injEq] at same
    subst same
    cases readChars parts.result with
    | error reason => rfl
    | ok result =>
      change Except.ok _ = Except.ok _
      simp [under, functionLevels]

theorem readObject_eq_ok {spelling : List Char} (read : readObject spelling cs = .ok t) :
    (∃ tokens, tokenize (takeBounds cs).1 = .ok tokens) ∧
      (∀ bound ∈ (takeBounds cs).2, .array (String.ofList bound) ∈ t.declarators) ∧
      ∀ other, readObject other cs = .ok t := by
  unfold readObject at read ⊢
  cases scanned : tokenize (takeBounds cs).1 with
  | error cause => simp [scanned] at read
  | ok tokens =>
    simp only [scanned] at read ⊢
    cases parsed : readTokens false (tokens.map String.ofList) with
    | error token => simp [parsed] at read
    | ok parts =>
      simp only [parsed] at read ⊢
      split at read
      · cases read
      next filled =>
        cases read
        refine ⟨⟨tokens, rfl⟩, fun bound listed => ?_, fun _ => if_neg filled⟩
        exact mem_append_left _ (mem_append_left _ (mem_map.mpr ⟨bound, listed, rfl⟩))

theorem readChars_of_collapse {cs' : List Char} (same : collapse cs' = collapse cs) (read : readChars cs = .ok t) :
    readChars cs' = .ok t := by
  have filled : collapse cs ≠ [] := by
    intro empty
    simp [readChars, empty] at read
  cases found : functionParts? (collapse cs) with
  | none =>
    rw [readChars_eq_readObject filled found] at read
    rw [readChars_eq_readObject (same ▸ filled) (same ▸ found), same]
    exact (readObject_eq_ok read).2.2 cs'
  | some parts => rwa [readChars_of_parts (same ▸ found), ← readChars_of_parts found]

/-! ### Taking function pointers apart -/

/-- What stands before the name in a function pointer: a pointer, a reference, or a pointer to a member of a class. -/
inductive IsPointerKind : Declarator → Prop
  | pointer : IsPointerKind .pointer
  | reference : IsPointerKind .lvalueReference
  | member {owner : String} (name : IsQualifiedName owner) : IsPointerKind (.memberPointer owner)

def kindText : Declarator → List Char
  | .lvalueReference => ['&']
  | .memberPointer owner => owner.toList ++ [':', ':', '*']
  | _ => ['*']

def constText (isConst : Bool) : List Char :=
  if isConst then [' ', 'c', 'o', 'n', 's', 't'] else []

theorem pointerKind?_kindText (kind : IsPointerKind outer) (cs : List Char) :
    pointerKind? (kindText outer ++ cs) = some (outer, cs) := by
  cases kind with
  | pointer | reference => rfl
  | @member owner name =>
    obtain ⟨c, chars, same, start⟩ := Token.exists_start_of_isQualifiedName name
    have part : ∀ d ∈ owner.toList ++ [':', ':'], (Text.isWordChar d || d == ':') := by
      intro d listed
      rcases mem_append.mp listed with inside | colon
      · rcases Token.solid_of_isQualifiedName name d inside with plain | rfl
        · simp [Text.isWordChar_of_isIdentifierChar plain]
        · simp
      · obtain rfl : d = ':' := by simpa using colon
        simp
    have star : (Text.isWordChar '*' || '*' == ':') = false := by decide
    have text : kindText (.memberPointer owner) ++ cs = (owner.toList ++ [':', ':']) ++ '*' :: cs := by simp [kindText]
    have longer : (owner.toList ++ [':', ':']).length > 2 := by simp [same]
    rw [text]
    unfold pointerKind?
    split
    next opened =>
      rw [same] at opened
      obtain ⟨rfl, _⟩ : c = '*' ∧ _ := by simpa using opened
      cases start
    next opened =>
      rw [same] at opened
      obtain ⟨rfl, _⟩ : c = '&' ∧ _ := by simpa using opened
      cases start
    · simp only [takeWhile_append_of_pos part, dropWhile_append_of_pos part, takeWhile_cons,
        dropWhile_cons, star, Bool.false_eq_true, if_false, append_nil]
      have ends : endsWith [':', ':'] (owner.toList ++ [':', ':']) := by simp [endsWith]
      rw [ends, decide_eq_true longer, Bool.and_self, if_pos rfl, length_append]
      simp

theorem argumentText?_eq (text : List Char) (isConst : Bool) :
    argumentText? (text ++ ')' :: constText isConst) = some (text, isConst) := by
  have word : trim [' ', 'c', 'o', 'n', 's', 't'] = ['c', 'o', 'n', 's', 't'] := by decide
  cases isConst with
  | false => simp [argumentText?, constText, trim, trimStart, trimEnd]
  | true => simp [argumentText?, constText, word]

theorem solid_kindText (kind : IsPointerKind outer) : ∀ c ∈ kindText outer, isBlank c = false := by
  cases kind with
  | pointer | reference => exact forall_mem_singleton.mpr rfl
  | member name =>
    intro c listed
    rcases mem_append.mp listed with inside | mark
    · exact Token.isBlank_of_isQualifiedName name inside
    · have colon : isBlank ':' = false ∧ isBlank '*' = false := by decide
      simp only [mem_cons, not_mem_nil, or_false] at mark
      rcases mark with rfl | rfl | rfl
      · exact colon.1
      · exact colon.1
      · exact colon.2

theorem kindText_ne_nil (outer : Declarator) : kindText outer ≠ [] := by
  cases outer <;> simp [kindText]

theorem functionTail?_eq (kind : IsPointerKind outer) (text : List Char) (isConst : Bool) :
    functionTail? (kindText outer ++ ')' :: '(' :: (text ++ ')' :: constText isConst)) =
      some (outer, text, isConst) := by
  have opens : opensBlank (kindText outer ++ ')' :: '(' :: (text ++ ')' :: constText isConst)) = false := by
    cases chars : kindText outer with
    | nil => exact absurd chars (kindText_ne_nil outer)
    | cons c cs => exact solid_kindText kind c (by simp [chars])
  have parentheses : isBlank ')' = false ∧ isBlank '(' = false := by decide
  unfold functionTail?
  rw [show dropWhile isBlank (kindText outer ++ _) = _ from trimStart_of_solid opens, pointerKind?_kindText kind]
  simp [parentheses, argumentText?_eq]

theorem functionParts?_skip (unopened : '(' ∉ front) (cs : List Char) :
    functionParts? (front ++ cs) =
      (functionParts? cs).map fun parts => { parts with result := front ++ parts.result } := by
  induction front with
  | nil => simp
  | cons c front ih =>
    have other : (c == '(') = false := by
      rw [beq_eq_false_iff_ne]
      rintro rfl
      exact unopened (by simp)
    rw [cons_append, functionParts?, ih fun later => unopened (by simp [later])]
    simp [other, comp_def]

theorem functionParts?_append {arguments : List Char} {isConst : Bool} (unopened : '(' ∉ front)
    (tail : functionTail? cs = some (outer, arguments, isConst)) :
    functionParts? (front ++ '(' :: cs) = some ⟨front, outer, arguments, isConst⟩ := by
  rw [functionParts?_skip unopened]
  simp [functionParts?, tail]

/-- The text of a function pointer behind its result type. -/
def functionText (outer : Declarator) (arguments : List (List Char)) (isConst : Bool) : List Char :=
  '(' :: kindText outer ++ ')' :: '(' :: ([','].intercalate arguments ++ ')' :: constText isConst)

/-- At single spaces a function pointer is still of its form, with blanks around the arguments. -/
theorem exists_collapse_functionText (kind : IsPointerKind outer) (front text : List Char) (isConst : Bool) :
    ∃ gap lead rest, gap.all isBlank ∧ lead.all isBlank ∧ rest.all isBlank ∧
      collapse (front ++ ('(' :: kindText outer ++ ')' :: '(' :: (text ++ ')' :: constText isConst))) =
        (collapse front ++ gap) ++ '(' :: (kindText outer ++ ')' :: '(' ::
          ((lead ++ collapse text ++ rest) ++ ')' :: constText isConst)) := by
  have parentheses : isBlank '(' = false ∧ isBlank ')' = false := by decide
  have closing : collapse (')' :: constText isConst) = ')' :: constText isConst := by cases isConst <;> decide
  obtain ⟨gap, blank, before⟩ := collapse_append front
    (show opensBlank ('(' :: kindText outer ++ ')' :: '(' :: (text ++ ')' :: constText isConst)) = false
      from parentheses.1)
  obtain ⟨rest, behind, inside⟩ := collapse_append text
    (show opensBlank (')' :: constText isConst) = false from parentheses.2)
  rw [closing] at inside
  have word : ∀ c ∈ '(' :: kindText outer ++ [')', '('], isBlank c = false := by
    intro c listed
    simp only [cons_append, mem_cons, mem_append, not_mem_nil, or_false] at listed
    rcases listed with rfl | inside | rfl | rfl
    · exact parentheses.1
    · exact solid_kindText kind c inside
    · exact parentheses.2
    · exact parentheses.1
  have group := collapse_word (by simp) word (text ++ ')' :: constText isConst)
  rw [inside] at group
  have opened : '(' :: kindText outer ++ ')' :: '(' :: (text ++ ')' :: constText isConst) =
      ('(' :: kindText outer ++ [')', '(']) ++ (text ++ ')' :: constText isConst) := by simp
  rw [before, opened, group]
  cases opensBlank (text ++ ')' :: constText isConst) with
  | true =>
    rw [if_pos rfl, spaced_of_ne_nil (by simp)]
    exact ⟨gap, [' '], rest, blank, rfl, behind, by simp⟩
  | false => exact ⟨gap, [], rest, blank, rfl, behind, by simp⟩

theorem readChars_functionText (kind : IsPointerKind outer) (plain : ∀ text ∈ arguments, IsArgument text)
    (isConst : Bool) (unopened : '(' ∉ front) (read : readChars front = .ok t) :
    readChars (front ++ functionText outer arguments isConst) = .ok (t.under
      (functionLevels outer (Text.join "," ((arguments.map collapse).map String.ofList)) isConst)) := by
  obtain ⟨gap, lead, rest, blank, before, behind, single⟩ :=
    exists_collapse_functionText kind front ([','].intercalate arguments) isConst
  have clear : '(' ∉ collapse front ++ gap := by
    intro listed
    rcases mem_append.mp listed with inside | inside
    · exact unopened ((mem_collapse_iff (by decide)).mp inside)
    · exact absurd (all_eq_true.mp blank _ inside) (by decide)
  have found := functionParts?_append clear
    (functionTail?_eq kind (lead ++ collapse ([','].intercalate arguments) ++ rest) isConst)
  rw [← single] at found
  have result : readChars (collapse front ++ gap) = .ok t :=
    readChars_of_collapse (by rw [collapse_append_blanks _ gap blank, collapse_collapse]) read
  rw [functionText, readChars_of_parts found, result, Except.map, Arguments.split, String.toList_ofList,
    splitChars_squeezed before behind plain]

/-! ### Result types -/

theorem takeBounds_of_nil (empty : (takeBounds cs).2 = []) : (takeBounds cs).1 = cs := by
  unfold takeBounds at empty ⊢
  split at empty
  · simp at empty
  · rfl

variable {stem : Stem}

theorem Stem.mem_declarators {level : Declarator} (listed : level ∈ stem.type.declarators) :
    IsPlainLevel level ∨ ∃ words, level = .qualifier words := by
  rcases mem_append.mp listed with among | base
  · exact .inl (stem.leveled level among)
  · simp only [baseLevels] at base
    split at base
    · cases base
    · exact .inr ⟨_, mem_singleton.mp base⟩

theorem Stem.parts_of_read (read : readChars cs = .ok stem.type) : functionParts? (collapse cs) = none := by
  cases found : functionParts? (collapse cs) with
  | none => rfl
  | some parts =>
    rw [readChars_of_parts found] at read
    cases result : readChars parts.result with
    | error reason =>
      rw [result] at read
      cases read
    | ok inner =>
      rw [result, Except.map, Except.ok.injEq] at read
      have listed : Declarator.function (Text.join "," (Arguments.split (String.ofList parts.arguments))) ∈
          stem.type.declarators := by
        rw [← read]
        simp [under, functionLevels]
      rcases Stem.mem_declarators listed with plain | ⟨words, same⟩
      · cases plain
      · cases same

theorem Stem.scan_of_read (read : readChars cs = .ok stem.type) : ∃ tokens, Token.scan (collapse cs) = .ok tokens := by
  have filled : collapse cs ≠ [] := by
    intro empty
    simp [readChars, empty] at read
  rw [readChars_eq_readObject filled (Stem.parts_of_read read)] at read
  obtain ⟨⟨tokens, scanned⟩, bounds, _⟩ := readObject_eq_ok read
  have empty : (takeBounds (collapse cs)).2 = [] := by
    refine eq_nil_iff_forall_not_mem.mpr fun bound listed => ?_
    rcases Stem.mem_declarators (bounds bound listed) with plain | ⟨words, same⟩
    · cases plain
    · cases same
  rw [takeBounds_of_nil empty] at scanned
  exact ⟨tokens, tokenize_eq_ok_iff.mp scanned⟩

theorem Stem.unopened_of_read (read : readChars cs = .ok stem.type) : '(' ∉ cs := by
  obtain ⟨tokens, scanned⟩ := Stem.scan_of_read read
  exact fun listed => Token.not_mem_of_scan scanned ((mem_collapse_iff (by decide)).mpr listed)

/-! ### Printing function pointers -/

/-- Each text but the first, after a space. -/
def spacedOut : List (List Char) → List (List Char)
  | [] => []
  | text :: rest => text :: rest.map (' ' :: ·)

theorem intercalate_spacedOut (texts : List (List Char)) :
    [','].intercalate (spacedOut texts) = [',', ' '].intercalate texts := by
  cases texts with
  | nil => rfl
  | cons text rest =>
    induction rest generalizing text with
    | nil => rfl
    | cons next rest ih =>
      have spaced : [','].intercalate ((' ' :: next) :: rest.map (' ' :: ·)) =
          ' ' :: [','].intercalate (next :: rest.map (' ' :: ·)) := by
        cases rest <;> simp [intercalate]
      rw [spacedOut, map_cons, intercalate_cons_cons, intercalate_cons_cons, spaced,
        show [','].intercalate (next :: rest.map (' ' :: ·)) = _ from ih next]
      simp

theorem isArgument_spacedOut {texts : List (List Char)} (plain : ∀ text ∈ texts, IsArgument text) :
    ∀ text ∈ spacedOut texts, IsArgument text := by
  cases texts with
  | nil => exact plain
  | cons first rest =>
    intro text listed
    rcases mem_cons.mp listed with rfl | later
    · exact plain text mem_cons_self
    · obtain ⟨next, among, rfl⟩ := mem_map.mp later
      exact (plain next (mem_cons_of_mem first among)).spaced

theorem isArgument_collapse (plain : ∀ text ∈ arguments, IsArgument text) :
    ∀ text ∈ arguments.map collapse, IsArgument text := by
  intro text listed
  obtain ⟨argument, among, rfl⟩ := mem_map.mp listed
  simpa using (plain argument among).squeezed all_nil all_nil

theorem map_spacedOut {trimmed : List Char → List Char} (passes : ∀ text, trimmed (' ' :: text) = trimmed text)
    (texts : List (List Char)) : (spacedOut texts).map trimmed = texts.map trimmed := by
  cases texts with
  | nil => rfl
  | cons first rest => simp [spacedOut, comp_def, passes]

theorem toList_respace (plain : ∀ text ∈ arguments, IsArgument text) :
    (respace (Text.join "," ((arguments.map collapse).map String.ofList))).toList =
      [','].intercalate (spacedOut (arguments.map collapse)) := by
  have whole : (Text.join "," ((arguments.map collapse).map String.ofList)).toList =
      [','].intercalate (arguments.map collapse) := by
    rw [Text.toList_join, map_map]
    simp [comp_def]
  have trimmed : (arguments.map collapse).map trim = arguments.map collapse := by
    rw [map_map]
    exact map_congr_left fun text _ =>
      trim_of_solid (opensBlank_collapse text) (closesBlank_collapse text)
  rw [respace, Text.toList_join, Arguments.split, whole, splitChars_intercalate (isArgument_collapse plain),
    trimmed, intercalate_spacedOut]
  simp [comp_def]

theorem toList_foldl_functionLevels (kind : IsPointerKind outer) (arguments : String) (isConst : Bool) :
    ((functionLevels outer arguments isConst).foldl Partial.wrap ⟨"", false⟩).text.toList =
      '(' :: (if isConst then ' ' :: 'c' :: 'o' :: 'n' :: 's' :: 't' :: ' ' :: kindText outer else kindText outer) ++
        ')' :: '(' :: ((respace arguments).toList ++ [')']) := by
  cases kind <;> cases isConst <;>
    simp [functionLevels, Partial.wrap, Declarator.level, Partial.grouped, kindText, String.toList_append]

/-- A function pointer as it is printed, without the `const` of a member function, is read back. -/
theorem read_spelling_functionLevels (stem : Stem) (kind : IsPointerKind outer)
    (plain : ∀ text ∈ arguments, IsArgument text) :
    read (stem.type.under
      (functionLevels outer (Text.join "," ((arguments.map collapse).map String.ofList)) false)).spelling =
        .ok (stem.type.under
          (functionLevels outer (Text.join "," ((arguments.map collapse).map String.ofList)) false)) := by
  have written := toList_foldl_functionLevels kind (Text.join "," ((arguments.map collapse).map String.ofList)) false
  rw [toList_respace plain] at written
  have closes : closesBlank ('(' :: kindText outer ++ ')' :: '(' ::
      ([','].intercalate (spacedOut (arguments.map collapse)) ++ [')'])) = false := by
    rw [← cons_append, ← cons_append, ← append_assoc, closesBlank_append _ (by simp)]
    decide
  obtain ⟨front, spelled, renders⟩ := stem.exists_spelling rfl written rfl closes
  have result : readChars front = .ok stem.type := by
    simpa [boundsText, under] using stem.readChars_append renders (forall_mem_nil IsBound)
  have back := readChars_functionText kind (isArgument_spacedOut (isArgument_collapse plain)) false
    (renders.not_mem (by decide) (by decide) (by decide)) result
  have same : (spacedOut (arguments.map collapse)).map collapse = arguments.map collapse := by
    rw [map_spacedOut (collapse_cons_blank rfl), map_map]
    simp [comp_def]
  rw [same] at back
  rw [read, spelled]
  exact back

/-! ### The `const` of a member function -/

/-- A group that opens with `const`, behind text without brackets. -/
def OpensConst (cs : List Char) : Prop :=
  ∃ front rest, cs = front ++ '(' :: ' ' :: 'c' :: 'o' :: 'n' :: 's' :: 't' :: rest ∧ '(' ∉ front ∧ '[' ∉ front ∧
    rest.head?.all (· == ' ')

theorem OpensConst.collapse (opens : OpensConst cs) : OpensConst (collapse cs) := by
  obtain ⟨front, rest, rfl, group, bracket, apart⟩ := opens
  have parenthesis : isBlank '(' = false ∧ isBlank ' ' := by decide
  have word : ∀ c ∈ ['c', 'o', 'n', 's', 't'], isBlank c = false := by
    have solid : ['c', 'o', 'n', 's', 't'].all (!isBlank ·) := rfl
    simpa using solid
  obtain ⟨gap, blank, same⟩ := collapse_append front
    (show opensBlank ('(' :: ' ' :: 'c' :: 'o' :: 'n' :: 's' :: 't' :: rest) = false from parenthesis.1)
  have inside := collapse_word (by simp) word rest
  have squeezed : collapse ('(' :: ' ' :: 'c' :: 'o' :: 'n' :: 's' :: 't' :: rest) = '(' :: ' ' :: 'c' :: 'o' :: 'n' ::
      's' :: 't' :: if opensBlank rest then spaced (collapse rest) else collapse rest := by
    rw [collapse_cons_solid parenthesis.1, collapse_cons_blank parenthesis.2,
      show collapse ('c' :: 'o' :: 'n' :: 's' :: 't' :: rest) = _ from inside]
    rfl
  have clear {d : Char} (solid : isBlank d = false) (absent : d ∉ front) : d ∉ collapse front ++ gap := by
    intro listed
    rcases mem_append.mp listed with inside | inside
    · exact absent ((mem_collapse_iff solid).mp inside)
    · rw [all_eq_true.mp blank _ inside] at solid
      cases solid
  refine ⟨collapse front ++ gap, _, by rw [same, squeezed], clear parenthesis.1 group, clear rfl bracket, ?_⟩
  exact Token.head?_gap_all apart rfl

theorem functionTail?_const {rest : List Char} (apart : rest.head?.all (· == ' ')) :
    functionTail? (' ' :: 'c' :: 'o' :: 'n' :: 's' :: 't' :: rest) = none := by
  have kind : pointerKind? ('c' :: 'o' :: 'n' :: 's' :: 't' :: rest) = none := by
    have part : ∀ d ∈ ['c', 'o', 'n', 's', 't'], (Text.isWordChar d || d == ':') :=
      all_eq_true.mp rfl
    have run : ('c' :: 'o' :: 'n' :: 's' :: 't' :: rest).dropWhile (fun d => Text.isWordChar d || d == ':') =
        rest.dropWhile fun d => Text.isWordChar d || d == ':' := dropWhile_append_of_pos part
    unfold pointerKind?
    simp only [run]
    cases rest with
    | nil => rfl
    | cons c rest =>
      obtain rfl : c = ' ' := by simpa using apart
      rfl
  have blanks : isBlank ' ' ∧ isBlank 'c' = false := by decide
  simp [functionTail?, blanks, kind]

theorem OpensConst.parts {parts : FunctionParts} (opens : OpensConst cs) (found : functionParts? cs = some parts) :
    OpensConst parts.result := by
  obtain ⟨front, rest, rfl, group, bracket, apart⟩ := opens
  rw [functionParts?_skip group, functionParts?] at found
  simp only [functionTail?_const apart, ite_self] at found
  have word := functionParts?_skip (show '(' ∉ [' ', 'c', 'o', 'n', 's', 't'] by decide) rest
  rw [show functionParts? (' ' :: 'c' :: 'o' :: 'n' :: 's' :: 't' :: rest) = _ from word] at found
  cases later : functionParts? rest with
  | none => simp [later] at found
  | some inner =>
    simp only [later, Option.map_some, Option.some.injEq] at found
    subst found
    refine ⟨front, inner.result, by simp, group, bracket, ?_⟩
    cases rest with
    | nil => cases later
    | cons c rest =>
      obtain rfl : c = ' ' := by simpa using apart
      obtain ⟨_, _, rfl⟩ := Option.map_eq_some_iff.mp (show (functionParts? rest).map _ = some inner from later)
      rfl

theorem mem_takeBounds {rest : List Char} (unopened : '[' ∉ front) (same : cs = front ++ '(' :: rest) :
    '(' ∈ (takeBounds cs).1 := by
  fun_induction takeBounds cs generalizing rest with
  | case1 cs before bound found text bounds taken ih =>
    have skipped := lastBound?_append (show '[' ∉ front ++ ['('] by simp [unopened]) rest
    rw [append_assoc, singleton_append, ← same, found] at skipped
    obtain ⟨⟨inner, _⟩, _, kept⟩ := Option.map_eq_some_iff.mp skipped.symm
    rw [Prod.mk.injEq, append_assoc, singleton_append] at kept
    have trimmed := trimEnd_append_cons front (show isBlank '(' = false by decide) inner
    rw [kept.1] at trimmed
    simpa only [taken] using ih trimmed
  | case2 => simp [same]

theorem OpensConst.not_read (opens : OpensConst cs) (t : CxxType) : readChars cs ≠ .ok t := by
  fun_induction readChars cs generalizing t with
  | case1 => simp
  | case2 cs _ _ found =>
    intro read
    obtain ⟨front, rest, same, _, bracket, _⟩ := opens.collapse
    have kept := mem_takeBounds bracket same
    obtain ⟨⟨tokens, scanned⟩, _⟩ := readObject_eq_ok read
    exact Token.not_mem_of_scan (tokenize_eq_ok_iff.mp scanned) kept
  | case3 cs _ _ parts found ih =>
    have result := ih (opens.collapse.parts found)
    cases inner : readChars parts.result with
    | ok t => exact absurd inner (result t)
    | error reason =>
      intro read
      cases read

/-! ### Function pointer spellings -/

/-- The spelling of a function pointer with the given result type, kind of pointer and arguments. -/
def functionSpelling (result : String) (outer : Declarator) (arguments : List String) (isConst : Bool) : String :=
  result ++ " (" ++ String.ofList (kindText outer) ++ ")(" ++ Text.join "," arguments ++ ")" ++
    if isConst then " const" else ""

theorem toList_functionSpelling (result : String) (outer : Declarator) (arguments : List String) (isConst : Bool) :
    (functionSpelling result outer arguments isConst).toList =
      (result.toList ++ [' ']) ++ functionText outer (arguments.map String.toList) isConst := by
  cases isConst <;> simp [functionSpelling, functionText, constText, Text.toList_join, String.toList_append]

/-- The type that the spelling of a function pointer is read as. -/
def functionPointer (result : CxxType) (outer : Declarator) (arguments : List String) (isConst : Bool) : CxxType :=
  result.under (functionLevels outer
    (Text.join "," (((arguments.map String.toList).map collapse).map String.ofList)) isConst)

theorem read_functionSpelling {result : String} {arguments : List String} (isConst : Bool)
    (read : CxxType.read result = .ok stem.type) (kind : IsPointerKind outer)
    (plain : ∀ argument ∈ arguments, IsArgument argument.toList) :
    CxxType.read (functionSpelling result outer arguments isConst) =
      .ok (functionPointer stem.type outer arguments isConst) := by
  have front : readChars (result.toList ++ [' ']) = .ok stem.type :=
    readChars_of_collapse (collapse_append_blanks _ [' '] (by decide)) read
  rw [CxxType.read, toList_functionSpelling]
  exact readChars_functionText kind (by simpa using plain) isConst (Stem.unopened_of_read front) front

theorem not_read_spelling_const (stem : Stem) (kind : IsPointerKind outer) (arguments : List String) (t : CxxType) :
    read (functionPointer stem.type outer arguments true).spelling ≠ .ok t := by
  have written := toList_foldl_functionLevels kind
    (Text.join "," (((arguments.map String.toList).map collapse).map String.ofList)) true
  obtain ⟨front, spelled, renders⟩ := stem.exists_spelling rfl written rfl (by
    rw [← cons_append, ← cons_append, ← append_assoc, closesBlank_append _ (by simp)]
    decide)
  rw [read, functionPointer, spelled]
  refine OpensConst.not_read ⟨front, _, rfl, ?_, ?_, rfl⟩ t
  · exact renders.not_mem (by decide) (by decide) (by decide)
  · exact renders.not_mem (by decide) (by decide) (by decide)

/-- A function pointer is read, and so is its own spelling, but for the pointer to a `const` member function: that is
spelled in a way that cannot be read. -/
theorem functionSpelling_roundTrip {stem : Stem} {result : String} {arguments : List String} (isConst : Bool)
    (read : CxxType.read result = .ok stem.type) (kind : IsPointerKind outer)
    (plain : ∀ argument ∈ arguments, IsArgument argument.toList) :
    ∃ t, CxxType.read (functionSpelling result outer arguments isConst) = .ok t ∧
      (isConst = false → CxxType.read t.spelling = .ok t) ∧
      (isConst = true → ∀ other, CxxType.read t.spelling ≠ .ok other) := by
  refine ⟨_, read_functionSpelling isConst read kind plain, ?_, ?_⟩
  · rintro rfl
    exact read_spelling_functionLevels stem kind (by simpa using plain)
  · rintro rfl
    exact not_read_spelling_const stem kind arguments

def constCharPointer : Stem where
  words := ["char"]
  levels := [.pointer]
  qualifiers := ["const"]
  named := by simp
  plain := by simpa using ⟨⟨["char"], by simp, by decide, rfl⟩, rfl, rfl⟩
  leveled := by simpa using IsPlainLevel.pointer
  innermost := rfl
  references := by simp
  qualified := by simp

theorem read_constCharPointer : read "const char *" = .ok constCharPointer.type := by
  have spelled : constCharPointer.type.spelling = "const char *" := by decide
  rw [← spelled, constCharPointer.read_spelling]

theorem functionSpelling_roundTrip_callback :
    ∃ t, read (functionSpelling "const char *" (.memberPointer "ns::C") ["int", " void (*)(T<a, b>)"] false) = .ok t ∧
      (false = false → read t.spelling = .ok t) ∧ (false = true → ∀ other, read t.spelling ≠ .ok other) :=
  functionSpelling_roundTrip false read_constCharPointer (.member ⟨["ns", "C"], by simp, by decide, rfl⟩) (by
    simp only [mem_cons, not_mem_nil, or_false, forall_eq_or_imp, forall_eq]
    exact ⟨⟨by decide, by decide⟩, ⟨by decide, by decide⟩⟩)

theorem constMember_not_read_back :
    ∃ t, read "const char * (C::*)(int) const" = .ok t ∧ ∀ other, read t.spelling ≠ .ok other := by
  have kind : IsPointerKind (.memberPointer "C") := .member ⟨["C"], by simp, by decide, rfl⟩
  have plain : ∀ argument ∈ ["int"], IsArgument argument.toList := by
    simp only [mem_singleton, forall_eq]
    exact ⟨by decide, by decide⟩
  have spelled : functionSpelling "const char *" (.memberPointer "C") ["int"] true =
      "const char * (C::*)(int) const" := by
    decide
  rw [← spelled]
  exact ⟨_, read_functionSpelling true read_constCharPointer kind plain,
    not_read_spelling_const constCharPointer kind _⟩

end FlatAbi.CxxType
