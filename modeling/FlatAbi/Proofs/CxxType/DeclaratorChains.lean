import FlatAbi.Proofs.CxxType.ArgumentSpacing
import Mathlib.Data.List.Forall2

/-!
Declarations read back. The declarator that is printed for a chain is read as that chain.
-/

namespace FlatAbi.CxxType

open RightLeft Declarator List Option Partial CxxType Arguments Chars Function
open Text (isBlank isIdentifier isIdentifierChar)

/-- The text of an argument list: its parentheses are closed, and it does not end with a comma. -/
structure IsArgumentList (arguments : String) : Prop where
  balanced : Balanced '(' ')' arguments.toList
  ended : (trim arguments.toList).getLast? ≠ some ','

/-- Pointers, arrays and functions, outermost first. Qualifiers stand outside pointers. -/
inductive IsChain : List Declarator → Prop
  | nil : IsChain []
  | pointer {qualifiers : List String} {rest : List Declarator}
      (qualify : ∀ word ∈ qualifiers, isQualifierWord word) (inner : IsChain rest) :
      IsChain (qualifiers.map .qualifier ++ .pointer :: rest)
  | array {bound : String} {rest : List Declarator} (balanced : Balanced '[' ']' bound.toList) (inner : IsChain rest) :
      IsChain (.array bound :: rest)
  | function {arguments : String} {rest : List Declarator} (list : IsArgumentList arguments) (inner : IsChain rest) :
      IsChain (.function arguments :: rest)

/-- Two levels are the same, up to the blanks beside the commas and at the ends of argument lists. -/
inductive SpacedAlike : Declarator → Declarator → Prop
  | same (level : Declarator) : SpacedAlike level level
  | function {one two : String} (texts : commaTexts one.toList = commaTexts two.toList) :
      SpacedAlike (.function one) (.function two)

/-! ### Printed declarators -/

/-- How the text of a declarator is read when more is written around it: its characters on both sides of the name, what
they are taken for, and the levels that come of it. -/
structure Reads (name : String) (left right : List Char) (front : List Front) (behind : List Behind) (part : Partial)
    (levels : List Declarator) : Prop where
  text : part.text.toList = left ++ (name.toList ++ right)
  opens : ∀ c ∈ left.head?, c = '*' ∨ c = '&' ∨ c = '('
  closes : ∀ c ∈ right.getLast?, isBlank c = false
  ended : right.head?.all (!isIdentifierChar ·)
  front_eq : ∀ before c cs, isIdentifierChar c →
    front? before (left ++ c :: cs) = front? (front ++ before) (c :: cs)
  behind_eq : ∀ cs, behind? (right ++ cs) = (behind? cs).map (behind ++ ·)
  -- a level behind the name would be read before the last one in front of it
  levels_eq : ∀ behind' front', (part.fronted → Exhausted behind') →
    levels? (behind ++ behind') (front ++ front') = (levels? behind' front').map (levels ++ ·)

/-- A declarator is read as some levels around the name. -/
def ReadsAs (name : String) (part : Partial) (levels : List Declarator) : Prop :=
  ∃ left right front behind, Reads name left right front behind part levels

variable {name : String} {part : Partial} {levels : List Declarator} {left right : List Char} {front : List Front}
  {behind : List Behind}

theorem reads_name (name : String) : Reads name [] [] [] [] ⟨name, false⟩ [] where
  text := by simp
  opens := by simp
  closes := by simp
  ended := rfl
  front_eq _ _ _ _ := rfl
  behind_eq cs := by simp
  levels_eq behind' front' _ := by simp

section

variable (reads : Reads name left right front behind part levels)

include reads

theorem Reads.operator {operator : Front} {mark : Char}
    {more : List Char} {wrapped : Partial} (written : wrapped.text.toList = mark :: more ++ part.text.toList)
    (fronted : wrapped.fronted) (marks : mark = '*' ∨ mark = '&') (binds : operator ≠ .opening)
    (scanned : ∀ before c cs, isIdentifierChar c →
      front? before (mark :: more ++ (left ++ c :: cs)) = front? (operator :: before) (left ++ c :: cs)) :
    Reads name (mark :: more ++ left) right (front ++ [operator]) behind wrapped (levels ++ operator.levels) where
  text := by rw [written, reads.text, append_assoc]
  opens c listed := by
    cases listed
    exact marks.imp_right .inl
  closes := reads.closes
  ended := reads.ended
  front_eq before c cs plain := by
    rw [append_assoc, scanned before c cs plain, reads.front_eq _ c cs plain, append_assoc,
      singleton_append]
  behind_eq := reads.behind_eq
  levels_eq behind' front' exhausted := by
    rw [append_assoc, singleton_append, reads.levels_eq _ _ fun _ => exhausted fronted,
      levels?_operator (exhausted fronted) binds, Option.map_map]
    simp [comp_def]

theorem Reads.group :
    Reads name ('(' :: left) (right ++ [')']) (front ++ [.opening]) (behind ++ [.closing])
      ⟨"(" ++ part.text ++ ")", false⟩ levels where
  text := by simp [reads.text]
  opens := by simp
  closes := by simp; decide
  ended := by
    cases right with
    | nil => rfl
    | cons c right => exact reads.ended
  front_eq before c cs plain := by
    rw [cons_append, front?_opening, reads.front_eq _ c cs plain, append_assoc, singleton_append]
  behind_eq cs := by
    rw [append_assoc, reads.behind_eq, singleton_append, behind?_closing, Option.map_map]
    simp [comp_def]
  levels_eq behind' front' _ := by
    have exhausted : Exhausted (.closing :: behind') := rfl
    rw [append_assoc, append_assoc, singleton_append, singleton_append,
      reads.levels_eq _ _ fun _ => exhausted, levels?]

theorem Reads.bracket (unfronted : part.fronted = false) {opens closes : Char} {level : String → Declarator}
    (opened : bracket? opens = some (closes, level)) {inside text : String}
    (balanced : Balanced opens closes inside.toList)
    (written : text.toList = part.text.toList ++ opens :: (inside.toList ++ [closes])) :
    Reads name left (right ++ opens :: (inside.toList ++ [closes])) front (behind ++ [.level (level inside)])
      ⟨text, false⟩ (levels ++ [level inside]) where
  text := by simp [written, reads.text]
  opens := reads.opens
  closes c listed := by
    rw [← cons_append, ← append_assoc, getLast?_concat] at listed
    cases listed
    exact (plain_of_bracket? opened).2
  ended := by
    cases right with
    | nil => simp [(plain_of_bracket? opened).1]
    | cons c right => exact reads.ended
  front_eq := reads.front_eq
  behind_eq cs := by
    have read := behind?_level opened balanced cs
    rw [String.ofList_toList] at read
    rw [append_assoc, reads.behind_eq, cons_append, append_assoc, singleton_append, read,
      Option.map_map]
    simp [comp_def]
  levels_eq behind' front' _ := by
    rw [append_assoc, singleton_append, reads.levels_eq _ _ (by simp [unfronted]), levels?, Option.map_map]
    simp [comp_def]

end

theorem ReadsAs.bracket (reads : ReadsAs name part levels) {opens closes : Char} {level : String → Declarator}
    (opened : bracket? opens = some (closes, level)) {inside : String} (balanced : Balanced opens closes inside.toList)
    {text : String} (written : text.toList = part.grouped.toList ++ opens :: (inside.toList ++ [closes])) :
    ReadsAs name ⟨text, false⟩ (levels ++ [level inside]) := by
  obtain ⟨left, right, front, behind, reads⟩ := reads
  obtain ⟨content, fronted⟩ := part
  cases fronted with
  | false => exact ⟨_, _, _, _, reads.bracket rfl opened balanced written⟩
  | true => exact ⟨_, _, _, _, reads.group.bracket rfl opened balanced written⟩

/-- The text of qualifiers behind a pointer, in the order in which they are written. -/
def qualifierText (words : List String) : List Char :=
  words.flatMap fun word => ' ' :: (word.toList ++ [' '])

theorem front?_qualifierText {words : List String} (qualify : ∀ word ∈ words, isQualifierWord word)
    (before : List Front) (qualifiers : List String) (cs : List Char) :
    front? (.pointer qualifiers :: before) (qualifierText words ++ cs) =
      front? (.pointer (qualifiers ++ words) :: before) cs := by
  induction words generalizing qualifiers with
  | nil => simp [qualifierText]
  | cons word words ih =>
    have others := ih (fun next listed => qualify next (mem_cons_of_mem word listed)) (qualifiers ++ [word])
    rw [append_assoc, singleton_append] at others
    rw [← others, ← front?_qualifier (qualify word mem_cons_self)]
    simp [qualifierText]

theorem toList_foldl_qualifiers (qualifiers : List String) (part : Partial) (filled : part.text ≠ "") :
    ((qualifiers.map .qualifier).foldl wrap part).text.toList =
      qualifierText qualifiers.reverse ++ part.text.toList := by
  induction qualifiers generalizing part with
  | nil => simp [qualifierText]
  | cons word rest ih =>
    have step : (part.wrap (.qualifier word)).text = " " ++ word ++ " " ++ part.text := by
      simp [wrap, level, filled]
    rw [map_cons, foldl_cons, ih _ (by simp [step]), step]
    simp [qualifierText]

theorem ReadsAs.pointer (reads : ReadsAs name part levels) (named : name ≠ "") {qualifiers : List String}
    (qualify : ∀ word ∈ qualifiers, isQualifierWord word) :
    ReadsAs name (((qualifiers.map .qualifier).foldl wrap part).wrap .pointer)
      (levels ++ (qualifiers.map .qualifier ++ [.pointer])) := by
  obtain ⟨left, right, front, behind, reads⟩ := reads
  have filled : part.text ≠ "" := by
    intro empty
    have text := reads.text
    simp [empty, named] at text
  have written : (((qualifiers.map .qualifier).foldl wrap part).wrap .pointer).text.toList =
      '*' :: qualifierText qualifiers.reverse ++ part.text.toList := by
    simp [wrap, level, toList_foldl_qualifiers qualifiers part filled]
  have scanned (before : List Front) (c : Char) (cs : List Char) (_ : isIdentifierChar c) :
      front? before ('*' :: qualifierText qualifiers.reverse ++ (left ++ c :: cs)) =
        front? (.pointer qualifiers.reverse :: before) (left ++ c :: cs) := by
    rw [cons_append, front?_pointer, front?_qualifierText (by simpa using qualify), nil_append]
  have pointed := reads.operator written rfl (.inl rfl) (by simp) scanned
  rw [Front.levels, reverse_reverse] at pointed
  exact ⟨_, _, _, _, pointed⟩

theorem readsAs_reference (name : String) {level : Declarator} (isReference : level.isReference) :
    ReadsAs name (wrap ⟨name, false⟩ level) [level] := by
  have start := reads_name name
  have apart {c : Char} (plain : isIdentifierChar c) : c ≠ '&' := by
    rintro rfl
    cases plain
  cases level with
  | lvalueReference =>
    have written : (wrap ⟨name, false⟩ .lvalueReference).text.toList = '&' :: [] ++ name.toList := by
      simp [wrap, Declarator.level]
    exact ⟨_, _, _, _, start.operator written rfl (.inr rfl) (by simp) fun _ c _ plain =>
      front?_lvalueReference (by simpa using apart plain)⟩
  | rvalueReference =>
    have written : (wrap ⟨name, false⟩ .rvalueReference).text.toList = '&' :: ['&'] ++ name.toList := by
      simp [wrap, Declarator.level]
    exact ⟨_, _, _, _, start.operator written rfl (.inr rfl) (by simp) fun _ _ _ _ => front?_rvalueReference⟩
  | _ => cases isReference

variable {chain : List Declarator}

theorem IsChain.readsAs (isChain : IsChain chain) (named : name ≠ "") (reads : ReadsAs name part levels) :
    ∃ inner, Forall₂ SpacedAlike inner chain ∧ ReadsAs name (chain.foldl wrap part) (levels ++ inner) := by
  induction isChain generalizing part levels with
  | nil => exact ⟨[], .nil, by simpa using reads⟩
  | @pointer qualifiers rest qualify _ ih =>
    obtain ⟨inner, alike, reads⟩ := ih (reads.pointer named qualify)
    have same : Forall₂ SpacedAlike (qualifiers.map .qualifier) (qualifiers.map .qualifier) :=
      forall₂_same.mpr fun level _ => .same level
    exact ⟨qualifiers.map .qualifier ++ .pointer :: inner, rel_append same (.cons (.same _) alike),
      by simpa using reads⟩
  | @array bound rest balanced _ ih =>
    have step : ReadsAs name (part.wrap (.array bound)) (levels ++ [.array bound]) :=
      reads.bracket rfl balanced (by simp)
    obtain ⟨inner, alike, reads⟩ := ih step
    exact ⟨.array bound :: inner, .cons (.same _) alike, by simpa using reads⟩
  | @function arguments rest list _ ih =>
    have balanced := balanced_respace list.ended list.balanced
    have step : ReadsAs name (part.wrap (.function arguments)) (levels ++ [.function (respace arguments)]) :=
      reads.bracket rfl balanced (by simp)
    obtain ⟨inner, alike, reads⟩ := ih step
    have texts := commaTexts_respace list.ended
    exact ⟨.function (respace arguments) :: inner, .cons (.function texts) alike, by simpa using reads⟩

/-! ### Declarations -/

theorem ReadsAs.read?_eq (reads : ReadsAs name part levels) (identifier : isIdentifier name)
    (free : isQualifierWord name = false) : read? part.text = some (name, levels) := by
  obtain ⟨left, right, front, behind, reads⟩ := reads
  obtain ⟨c, cs, chars, _, plain⟩ := Text.exists_of_isIdentifier identifier
  have fronts : front? [] part.text.toList = some (front, name, right) := by
    rw [reads.text, chars, cons_append, reads.front_eq [] c _ (plain c mem_cons_self), ← cons_append,
      ← chars, front?_name identifier free reads.ended, append_nil]
  have behinds : behind? right = some behind := by simpa [behind?] using reads.behind_eq []
  have whole : levels? behind front = some levels := by simpa [levels?] using reads.levels_eq [] [] fun _ => rfl
  simp [read?, fronts, behinds, whole]

theorem isLetter_of_isAlpha {c : Char} (alpha : c.isAlpha) : Text.isLetter c := by
  have plain : isIdentifierChar c := by simp [isIdentifierChar, Char.isAlphanum, alpha]
  have range := Text.toNat_of_isIdentifierChar plain
  rw [Text.isLetter, if_pos (by omega), alpha]

theorem ReadsAs.ends (reads : ReadsAs name part levels) (identifier : isIdentifier name) :
    needsSpace part.text ∧ Text.trim part.text = part.text := by
  obtain ⟨left, right, front, behind, reads⟩ := reads
  obtain ⟨c, cs, chars, start, plain⟩ := Text.exists_of_isIdentifier identifier
  have closes : closesBlank part.text.toList = false := by
    rw [reads.text, closesBlank_append _ (by simp [chars]), closesBlank, getLast?_append,
      Option.any_eq_false]
    intro d last
    cases final : right.getLast? with
    | none =>
      rw [final, none_or] at last
      exact Text.isBlank_of_isIdentifierChar (plain d (chars ▸ mem_of_getLast? last))
    | some e =>
      rw [final, some_or, Option.some.injEq] at last
      exact last ▸ reads.closes e final
  cases left with
  | nil =>
    have text : part.text.toList = c :: (cs ++ right) := by simp [reads.text, chars]
    have opens : opensBlank part.text.toList = false := by
      simpa [text, opensBlank] using Text.isBlank_of_isIdentifierChar (plain c mem_cons_self)
    refine ⟨?_, by rw [Text.trim, trim_of_solid opens closes, String.ofList_toList]⟩
    rcases Bool.or_eq_true_iff.mp start with alpha | underscore
    · simp [needsSpace, text, isLetter_of_isAlpha alpha]
    · simp [needsSpace, text, underscore]
  | cons d left =>
    have opens : opensBlank part.text.toList = false := by
      rcases reads.opens d rfl with rfl | rfl | rfl <;> (rw [reads.text]; rfl)
    refine ⟨?_, by rw [Text.trim, trim_of_solid opens closes, String.ofList_toList]⟩
    rcases reads.opens d rfl with rfl | rfl | rfl <;> simp [needsSpace, reads.text]

theorem ReadsAs.declare_eq {t : CxxType} {written : List Declarator} (same : t.writtenDeclarators = written)
    (reads : ReadsAs name (written.foldl wrap ⟨name, false⟩) levels) (identifier : isIdentifier name) :
    t.declare name = t.head ++ " " ++ (written.foldl wrap ⟨name, false⟩).text := by
  obtain ⟨spaces, trimmed⟩ := reads.ends identifier
  have filled : (written.foldl wrap ⟨name, false⟩).text ≠ "" := by
    intro empty
    rw [empty] at spaces
    cases spaces
  rw [declare, same]
  simp only [trimmed, spaces, beq_eq_false_iff_ne.mpr filled, if_true, Bool.false_eq_true, if_false]

theorem declared_qualified (base : String) (chain : List Declarator) {word : String} (filled : word ≠ "") :
    (mk base (chain ++ [.qualifier word])).writtenDeclarators = chain ∧
      (mk base (chain ++ [.qualifier word])).head = word ++ " " ++ base := by
  constructor
  · simp [writtenDeclarators, isQualifier, level]
  · simp [head, baseQualifier, level, filled]

theorem declared_unqualified (base : String) (innermost : ∀ level ∈ chain.getLast?, level.isQualifier = false) :
    (mk base chain).writtenDeclarators = chain ∧ (mk base chain).head = base := by
  have plain : chain.getLast?.any isQualifier = false := (Option.any_eq_false _ _).mpr innermost
  have bare : (mk base chain).baseQualifier = "" := by
    unfold baseQualifier
    cases last : chain.getLast? with
    | none => rfl
    | some level =>
      rw [last, any_some, isQualifier] at plain
      rw [map_some]
      cases found : level.level with
      | qualifier words => simp [found] at plain
      | _ => rfl
  simp [writtenDeclarators, head, plain, bare]

theorem isQualifier_of_isReference {level : Declarator} (isReference : level.isReference) :
    level.isQualifier = false := by
  cases level with
  | lvalueReference | rvalueReference => rfl
  | _ => cases isReference

theorem innermost_cons {first : Declarator} {rest : List Declarator} (plain : first.isQualifier = false)
    (innermost : ∀ level ∈ rest.getLast?, level.isQualifier = false) :
    ∀ level ∈ (first :: rest).getLast?, level.isQualifier = false := by
  intro level last
  rw [getLast?_cons] at last
  cases inner : rest.getLast? with
  | none =>
    obtain rfl : first = level := by simpa [inner] using last
    exact plain
  | some next =>
    obtain rfl : next = level := by simpa [inner] using last
    exact innermost next inner

theorem IsChain.innermost (isChain : IsChain chain) : ∀ level ∈ chain.getLast?, level.isQualifier = false := by
  induction isChain with
  | nil => simp
  | @pointer qualifiers rest _ _ ih =>
    rw [getLast?_append, getLast?_cons, some_or, ← getLast?_cons]
    exact innermost_cons rfl ih
  | array _ _ ih => exact innermost_cons rfl ih
  | function _ _ ih => exact innermost_cons rfl ih

/-- The declaration of a name with a chain of levels, under a reference or not and over a qualified base or not, is the
base and a declarator that is read as these levels around the name. -/
theorem declare_reads_back {base name : String} {reference : Option Declarator} {chain : List Declarator}
    {qualifier : Option String} (identifier : isIdentifier name = true) (free : isQualifierWord name = false)
    (isReference : ∀ level ∈ reference, level.isReference = true) (isChain : IsChain chain)
    (qualifies : ∀ word ∈ qualifier, isQualifierWord word = true) :
    ∃ declarator levels,
      (mk base (reference.toList ++ chain ++ (qualifier.map Declarator.qualifier).toList)).declare name =
          (qualifier.elim base fun word => word ++ " " ++ base) ++ " " ++ declarator ∧
        read? declarator = some (name, levels) ∧ Forall₂ SpacedAlike levels (reference.toList ++ chain) := by
  have named : name ≠ "" := by
    rintro rfl
    cases identifier
  have start : ReadsAs name (reference.toList.foldl wrap ⟨name, false⟩) reference.toList := by
    cases reference with
    | none => exact ⟨_, _, _, _, reads_name name⟩
    | some level => exact readsAs_reference name (isReference level rfl)
  obtain ⟨inner, alike, reads⟩ := isChain.readsAs named start
  rw [← foldl_append] at reads
  have same : Forall₂ SpacedAlike reference.toList reference.toList :=
    forall₂_same.mpr fun level _ => .same level
  refine ⟨_, reference.toList ++ inner, ?_, reads.read?_eq identifier free, rel_append same alike⟩
  cases qualifier with
  | some word =>
    have filled : word ≠ "" := by
      rintro rfl
      cases qualifies "" rfl
    obtain ⟨written, head⟩ := declared_qualified base (reference.toList ++ chain) filled
    simp only [map_some, toList_some, elim_some]
    rw [reads.declare_eq written identifier, head]
  | none =>
    have innermost : ∀ level ∈ (reference.toList ++ chain).getLast?, level.isQualifier = false := by
      cases reference with
      | none => exact isChain.innermost
      | some level => exact innermost_cons (isQualifier_of_isReference (isReference level rfl)) isChain.innermost
    obtain ⟨written, head⟩ := declared_unqualified base innermost
    simp only [map_none, toList_none, append_nil, elim_none]
    rw [reads.declare_eq written identifier, head]

/-- An array of constant pointers to functions. -/
def callbackTable : List Declarator :=
  [.array "3", .qualifier "const", .pointer, .function "int,char (*)[2]", .pointer]

theorem isChain_callbackTable : IsChain callbackTable := by
  have list : IsArgumentList "int,char (*)[2]" := ⟨by decide +kernel, by decide +kernel⟩
  have result : IsChain [.pointer] := @IsChain.pointer [] [] (by simp) .nil
  have entry : IsChain [.qualifier "const", .pointer, .function "int,char (*)[2]", .pointer] :=
    @IsChain.pointer ["const"] _ (by simp [isQualifierWord]) (.function list result)
  exact .array (by decide +kernel) entry

theorem declare_reads_back_callbackTable :
    ∃ declarator levels,
      (mk "int" (.lvalueReference :: callbackTable ++ [.qualifier "volatile"])).declare "x" =
          "volatile" ++ " " ++ "int" ++ " " ++ declarator ∧
        read? declarator = some ("x", levels) ∧ Forall₂ SpacedAlike levels (.lvalueReference :: callbackTable) :=
  @declare_reads_back "int" "x" (some .lvalueReference) callbackTable (some "volatile") (by decide) (by decide)
    (by simp [Declarator.isReference]) isChain_callbackTable (by simp [isQualifierWord])

example :
    (mk "int" (.lvalueReference :: callbackTable)).declare "x" = "int *(* const (&x)[3])(int, char (*)[2])" := by
  decide +kernel

end FlatAbi.CxxType
