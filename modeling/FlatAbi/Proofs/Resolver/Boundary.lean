import FlatAbi.Proofs.CxxType.ArgumentSpacing
import FlatAbi.Proofs.Declaration.Loaded
import FlatAbi.Proofs.Naming.Identifiers
import FlatAbi.Proofs.Resolver.Categories
import FlatAbi.Proofs.Resolver.Lookup

/-!
What crosses the C boundary. Types that are spelled as they were resolved can bring C++ to the header.
-/

namespace FlatAbi

open SymbolTable Chars Declarator List CxxType Partial Site

/-! ### Texts of C -/

variable {levels : List Declarator} {outer : Declarator} {table : SymbolTable}

namespace Chars

open Text (isBlank)

variable {c : Char} {cs front back : List Char}

def isC (cs : List Char) : Bool :=
  !occurs ['&'] cs && !occurs [':', ':'] cs

@[simp]
theorem isC_nil : isC [] := by
  rfl

theorem isC_cons (c : Char) (cs : List Char) :
    isC (c :: cs) = (c != '&' && !(c == ':' && cs.head? == some ':') && isC cs) := by
  have here (part : List Char) : occurs part (c :: cs) = (part.isPrefixOf (c :: cs) || occurs part cs) := by
    simp only [occurs, cut]
    split <;> simp_all
  have reference : ['&'].isPrefixOf (c :: cs) = (c == '&') := by
    simp [isPrefixOf, Bool.beq_comm]
  have scope : [':', ':'].isPrefixOf (c :: cs) = (c == ':' && cs.head? == some ':') := by
    cases cs <;> simp [isPrefixOf, Bool.beq_comm]
  rw [isC, isC, here, here, reference, scope]
  cases h : c == '&' <;> simp [bne, h, Bool.and_left_comm]

theorem isC_append_cons (apart : (c == ':') = false) (front back : List Char) :
    isC (front ++ c :: back) = (isC front && (c != '&' && isC back)) := by
  induction front with
  | nil => simp [isC_cons, apart]
  | cons d front ih =>
    have next : ((front ++ c :: back).head? == some ':') = (front.head? == some ':') := by
      cases front <;> simp [apart]
    rw [cons_append, isC_cons, isC_cons, ih, next, Bool.and_assoc _ (isC front)]

theorem isC_append (apart : back.head? ≠ some ':') (front : List Char) :
    isC (front ++ back) = (isC front && isC back) := by
  cases back with
  | nil => simp
  | cons c back =>
    have apart : (c == ':') = false := by simpa using apart
    simp [isC_append_cons apart, isC_cons, apart]

theorem isC_of_append (clean : isC (front ++ back)) : isC back := by
  induction front with
  | nil => exact clean
  | cons c front ih =>
    rw [cons_append, isC_cons, Bool.and_eq_true] at clean
    exact ih clean.2

theorem isC_of_forall (clean : ∀ c ∈ cs, c ≠ '&' ∧ c ≠ ':') : isC cs := by
  induction cs with
  | nil => rfl
  | cons c cs ih =>
    obtain ⟨⟨reference, scope⟩, clean⟩ := forall_mem_cons.mp clean
    simp [isC_cons, reference, scope, ih clean]

theorem clean_of_isBlank (blank : isBlank c) : c ≠ '&' ∧ c ≠ ':' := by
  constructor <;> (rintro rfl; exact absurd blank (by decide))

theorem isC_trim (cs : List Char) : isC (trim cs) = isC cs := by
  obtain ⟨lead, gap, before, behind, same⟩ := exists_trim cs
  have gaps : isC gap := isC_of_forall fun c listed => clean_of_isBlank (all_eq_true.mp behind c listed)
  have ended : gap.head? ≠ some ':' := by
    intro first
    exact (clean_of_isBlank (all_eq_true.mp behind _ (mem_of_head? first))).2 rfl
  have skipped (text : List Char) : isC (lead ++ text) = isC text := by
    clear same
    induction lead with
    | nil => rfl
    | cons c lead ih =>
      obtain ⟨blank, before⟩ := forall_mem_cons.mp (all_eq_true.mp before)
      rw [cons_append, isC_cons, ih (all_eq_true.mpr before)]
      simp [clean_of_isBlank blank]
  rw [same, skipped, isC_append ended, gaps, Bool.and_true, ← same]

/-- The first character that is not blank is a colon. -/
def opensColon (cs : List Char) : Bool :=
  (trimStart cs).head? == some ':'

theorem opensColon_append_cons (solid : isBlank c = false) (apart : c ≠ ':') (front back : List Char) :
    opensColon (front ++ c :: back) = opensColon front := by
  rw [opensColon, opensColon, trimStart, trimStart, dropWhile_append]
  split
  next blank => simp [isEmpty_iff.mp blank, solid, apart]
  next filled =>
    cases rest : front.dropWhile isBlank with
    | nil => simp [rest] at filled
    | cons d rest => rfl

theorem head?_trim (closed : opensColon cs = false) : (trim cs).head? ≠ some ':' := by
  intro first
  have shorter : trim cs <+: trimStart cs := by
    rw [trim, trimEnd, ← reverse_suffix, reverse_reverse]
    exact dropWhile_suffix _
  obtain ⟨rest, same⟩ := shorter
  rw [opensColon, ← same, head?_append, first] at closed
  cases closed

end Chars

namespace Text

/-- Neither a reference nor a scope is written in the text. -/
def isC (s : String) : Bool :=
  !occurs "&" s && !occurs "::" s

theorem isC_eq (s : String) : isC s = Chars.isC s.toList := by
  rfl

theorem clean_of_isPlain {s : String} (plain : isPlain s) {c : Char} (listed : c ∈ s.toList) : c ≠ '&' ∧ c ≠ ':' := by
  have fits := all_eq_true.mp plain c listed
  constructor <;> (rintro rfl; exact absurd fits (by decide))

theorem isC_of_isPlain {s : String} (plain : isPlain s) : isC s :=
  isC_of_forall fun _ listed => clean_of_isPlain plain listed

end Text

/-! ### Spellings of C -/

namespace Declarator

/-- A level that can be read off a spelling. -/
def isRead : Declarator → Bool
  | .qualifier words => ["const", "volatile", "const volatile"].contains words
  | .other _ => false
  | _ => true

/-- What is written for a level is C. -/
def isC : Declarator → Bool
  | .lvalueReference | .rvalueReference | .memberPointer _ => false
  | .array bound => Text.isC bound
  | .function arguments => Text.isC (Arguments.respace arguments)
  | .pointer | .qualifier _ | .other _ => true

end Declarator

namespace CxxType

variable {t : CxxType} {d : Declarator}

open Declarator (isRead)

variable {cs : List Char}

theorem words_of_isRead {words : String} (read : (qualifier words).isRead) :
    words = "const" ∨ words = "volatile" ∨ words = "const volatile" := by
  simpa [isRead] using read

theorem level_of_isRead (read : d.isRead) : d.level = d := by
  cases d with
  | other => cases read
  | _ => rfl

theorem isC_of_isRead {words : String} (read : (qualifier words).isRead) : Chars.isC words.toList := by
  rcases words_of_isRead read with rfl | rfl | rfl <;> decide

theorem isC_grouped (part : Partial) : Chars.isC part.grouped.toList = Chars.isC part.text.toList := by
  unfold Partial.grouped
  split
  · simp [String.toList_append, isC_append_cons, isC_cons]
  · rfl

theorem isC_wrap (read : d.isRead) (part : Partial) :
    Chars.isC (part.wrap d).text.toList = (Chars.isC part.text.toList && d.isC) := by
  cases d with
  | pointer | lvalueReference | rvalueReference =>
    simp [wrap, level, Declarator.isC, String.toList_append, isC_cons]
  | memberPointer owner =>
    rw [Declarator.isC, Bool.and_false, ← Bool.not_eq_true]
    intro clean
    simp only [wrap, level, String.append_assoc, String.toList_append] at clean
    have scope := isC_of_append clean
    simp [isC_cons] at scope
  | qualifier words =>
    simp only [wrap, level, Declarator.isC, Bool.and_true]
    split
    next absent => simp_all [String.toList_append, isC_cons, isC_of_isRead read]
    · simp [String.toList_append, isC_cons, isC_append_cons, isC_of_isRead read]
  | array | function =>
    simp [wrap, level, Declarator.isC, Text.isC_eq, String.toList_append,
      isC_append_cons, isC_grouped]
  | other code => cases read

theorem opensColon_wrap (read : d.isRead) (clean : d.isC) {part : Partial}
    (closed : opensColon part.text.toList = false) : opensColon (part.wrap d).text.toList = false := by
  have grouped : opensColon part.grouped.toList = false := by
    unfold Partial.grouped
    split
    · simp [String.toList_append, opensColon, Chars.trimStart, Text.isBlank]
    · exact closed
  cases d with
  | pointer => simp [wrap, level, String.toList_append, opensColon, Chars.trimStart, Text.isBlank]
  | lvalueReference | rvalueReference | memberPointer owner => cases clean
  | qualifier words =>
    rcases words_of_isRead read with rfl | rfl | rfl <;> simp only [wrap, level] <;> split <;>
      simp [String.toList_append, opensColon, Chars.trimStart, Text.isBlank]
  | array | function =>
    simpa [wrap, level, String.toList_append, opensColon_append_cons, Text.isBlank] using grouped
  | other code => cases read

theorem isC_foldl (read : ∀ d ∈ levels, d.isRead) (part : Partial) :
    Chars.isC (levels.foldl wrap part).text.toList =
      (Chars.isC part.text.toList && levels.all Declarator.isC) := by
  induction levels generalizing part with
  | nil => simp
  | cons d levels ih =>
    obtain ⟨first, read⟩ := forall_mem_cons.mp read
    rw [foldl_cons, ih read, isC_wrap first, all_cons, Bool.and_assoc]

theorem opensColon_foldl (read : ∀ d ∈ levels, d.isRead) (clean : levels.all Declarator.isC) (part : Partial)
    (closed : opensColon part.text.toList = false) :
    opensColon (levels.foldl wrap part).text.toList = false := by
  induction levels generalizing part with
  | nil => exact closed
  | cons d levels ih =>
    obtain ⟨first, read⟩ := forall_mem_cons.mp read
    rw [all_cons, Bool.and_eq_true] at clean
    exact ih read clean.2 _ (opensColon_wrap first clean.1 closed)

theorem isC_head (read : ∀ d ∈ t.declarators, d.isRead) : Chars.isC t.head.toList = Chars.isC t.base.toList := by
  unfold head
  split
  · rfl
  · have clean : Chars.isC t.baseQualifier.toList := by
      unfold baseQualifier
      split
      next words innermost =>
        obtain ⟨d, last, level⟩ := Option.map_eq_some_iff.mp innermost
        have read := read d (mem_of_getLast? last)
        rw [level_of_isRead read] at level
        exact isC_of_isRead (level ▸ read)
      · rfl
    simp [String.toList_append, isC_append_cons, clean]

theorem all_writtenDeclarators (t : CxxType) :
    t.writtenDeclarators.all Declarator.isC = t.declarators.all Declarator.isC := by
  unfold writtenDeclarators
  split
  next qualified =>
    cases last : t.declarators.getLast? with
    | none =>
      rw [last] at qualified
      cases qualified
    | some d =>
      rw [last, Option.any_some] at qualified
      have clean : d.isC := by
        cases d with
        | qualifier | other | pointer => rfl
        | _ => cases qualified
      conv => rhs; rw [← dropLast_append_getLast? d last]
      simp [clean]
  · rfl

section

variable (read : ∀ d ∈ t.declarators, d.isRead)

include read

theorem isC_spelling : Text.isC t.spelling = (Text.isC t.base && t.declarators.all Declarator.isC) := by
  have written : ∀ d ∈ t.writtenDeclarators, d.isRead := by
    intro d listed
    unfold writtenDeclarators at listed
    split at listed
    · exact read d ((dropLast_sublist _).subset listed)
    · exact read d listed
  have levels := isC_foldl written ⟨"", false⟩
  have closed := fun clean => opensColon_foldl written clean ⟨"", false⟩ rfl
  rw [all_writtenDeclarators t] at levels closed
  rw [Text.isC_eq, Text.isC_eq, ← isC_head read, spelling, declare, Text.trim]
  generalize (t.writtenDeclarators.foldl wrap ⟨"", false⟩).text.toList = text at levels closed ⊢
  generalize t.declarators.all Declarator.isC = clean at levels closed ⊢
  have trimmed : Chars.isC (Chars.trim text) = clean := by rw [isC_trim, levels]; rfl
  split
  next bare =>
    have empty : Chars.trim text = [] := by simpa using congrArg String.toList (eq_of_beq bare)
    rw [← trimmed, empty]
    exact (Bool.and_true _).symm
  · split
    · simp [String.toList_append, isC_append_cons, trimmed]
    · rw [String.toList_append, String.toList_ofList]
      cases clean with
      | true => rw [isC_append (head?_trim (closed rfl)), trimmed]
      | false =>
        rw [Bool.and_false, ← Bool.not_eq_true]
        intro joined
        rw [isC_of_append joined] at trimmed
        cases trimmed

theorem isC_spelling_eq (base : Text.isC t.base) : Text.isC t.spelling = t.declarators.all Declarator.isC := by
  rw [isC_spelling read, base, Bool.true_and]

theorem isRead_assignable : ∀ d ∈ t.assignable.declarators, d.isRead := by
  have stripped : ∀ d ∈ t.stripQualifiers.declarators, d.isRead :=
    fun d listed => read d (mem_filter.mp listed).1
  unfold assignable
  cases levels : t.stripQualifiers.declarators with
  | nil => simp [decayOutermost]
  | cons d rest =>
    rw [levels] at stripped
    obtain ⟨first, inner⟩ := forall_mem_cons.mp stripped
    refine forall_mem_cons.mpr ⟨?_, inner⟩
    split
    · rfl
    · exact first

theorem isRead_withOutermost : ∀ d ∈ (t.withOutermost .pointer).declarators, d.isRead :=
  forall_mem_cons.mpr ⟨rfl, fun d listed =>
    read d ((dropWhile_suffix _).subset (mem_of_mem_tail listed))⟩

end

/-! ### Levels that are read -/

theorem isRead_of_readTokens {inside : Bool} {tokens : List String} {parts : ObjectParts}
    (read : readTokens inside tokens = .ok parts) : ∀ d ∈ parts.levels, d.isRead := by
  induction tokens generalizing inside parts with
  | nil =>
    cases read
    simp
  | cons token rest ih =>
    simp only [readTokens] at read
    split at read
    next qualifies =>
      obtain ⟨parts, found, rfl⟩ := map_eq_ok read
      split
      · refine forall_mem_cons.mpr ⟨?_, ih found⟩
        rcases Bool.or_eq_true_iff.mp qualifies with word | word <;> rw [eq_of_beq word] <;> decide
      · exact (ih found :)
    · split at read
      next level isLevel =>
        obtain ⟨parts, found, rfl⟩ := map_eq_ok read
        refine forall_mem_cons.mpr ⟨?_, ih found⟩
        unfold levelOf? at isLevel
        repeat' split at isLevel
        all_goals cases isLevel
        all_goals rfl
      · split at read
        · exact ih read
        · split at read
          · cases read
          · obtain ⟨parts, found, rfl⟩ := map_eq_ok read
            exact (ih found :)

theorem isRead_baseLevel (qualifiers : List String) : ∀ d ∈ baseLevel qualifiers, d.isRead := by
  have words : ["const", "volatile"].filter qualifiers.contains ∈
      [[], ["const"], ["volatile"], ["const", "volatile"]] := by
    rw [filter_cons, filter_cons]
    split <;> split <;> simp
  unfold baseLevel
  generalize ["const", "volatile"].filter qualifiers.contains = listed at words
  revert listed
  decide

theorem isRead_of_pointerKind {rest : List Char} (found : pointerKind? cs = some (outer, rest)) : outer.isRead := by
  unfold pointerKind? at found
  split at found
  · cases found
    rfl
  · cases found
    rfl
  · dsimp only at found
    repeat' split at found
    all_goals cases found
    rfl

theorem isRead_of_functionTail {arguments : List Char} {isConst : Bool}
    (found : functionTail? cs = some (outer, arguments, isConst)) : outer.isRead := by
  obtain ⟨⟨kind, afterKind⟩, pointer, found⟩ := Option.bind_eq_some_iff.mp found
  dsimp only at found
  split at found
  · split at found
    · obtain ⟨_, _, found⟩ := Option.bind_eq_some_iff.mp found
      cases found
      exact isRead_of_pointerKind pointer
    · cases found
  · cases found

theorem isRead_of_functionParts {parts : FunctionParts} (found : functionParts? cs = some parts) :
    parts.outer.isRead := by
  induction cs generalizing parts with
  | nil => cases found
  | cons c cs ih =>
    simp only [functionParts?] at found
    split at found
    next outer arguments isConst here =>
      cases found
      split at here
      · exact isRead_of_functionTail here
      · cases here
    · obtain ⟨inner, inside, rfl⟩ := Option.map_eq_some_iff.mp found
      exact (ih inside :)

theorem isRead_of_readObject {spelling : List Char} (read : readObject spelling cs = .ok t) :
    ∀ d ∈ t.declarators, d.isRead := by
  unfold readObject at read
  split at read
  split at read
  · cases read
  · split at read
    · cases read
    next parts parsed =>
      split at read
      · cases read
      · cases read
        intro d listed
        simp only [mem_append, mem_map, mem_reverse] at listed
        rcases listed with (⟨bound, _, rfl⟩ | level) | qualifier
        · rfl
        · exact isRead_of_readTokens parsed d level
        · exact isRead_baseLevel _ d qualifier

theorem isRead_of_readChars (read : readChars cs = .ok t) : ∀ d ∈ t.declarators, d.isRead := by
  induction size : cs.length using Nat.strongRecOn generalizing cs t with
  | _ size ih =>
    subst size
    cases found : functionParts? (collapse cs) with
    | none =>
      have filled : collapse cs ≠ [] := by
        intro empty
        simp [readChars, empty] at read
      rw [readChars_eq_readObject filled found] at read
      exact isRead_of_readObject read
    | some parts =>
      have shorter := Nat.lt_of_lt_of_le (functionParts?_result_length found) (length_collapse_le cs)
      rw [readChars_of_parts found] at read
      obtain ⟨result, inner, rfl⟩ := map_eq_ok read
      intro d listed
      simp only [under, functionLevels, mem_append, mem_cons, not_mem_nil, or_false] at listed
      rcases listed with ((rfl | const) | rfl) | level
      · exact isRead_of_functionParts found
      · split at const
        · rw [mem_singleton.mp const]
          decide
        · cases const
      · rfl
      · exact ih _ shorter inner rfl d level

end CxxType

/-! ### Names in C -/

theorem Chars.flatten_words (cs : List Char) : (words cs).flatten = cs.filter (!Text.isBlank ·) := by
  induction cs with
  | nil => rfl
  | cons c cs ih =>
    rw [words, filter_cons, ← ih]
    cases Text.isBlank c with
    | true => rfl
    | false =>
      simp only [Bool.not_false, Bool.false_eq_true, if_true, if_false]
      split
      · rfl
      · cases words cs <;> rfl

theorem isC_of_isBuiltinName {base : String} (builtin : isBuiltinName base) : Text.isC base := by
  have plain : ∀ word ∈ Text.words base, Text.isPlain word := by
    have known : ∀ word ∈ builtinWords ++ scalarTypedefs, Text.isPlain word := by decide
    unfold isBuiltinName at builtin
    intro word listed
    split at builtin
    · cases builtin
    next single same =>
      rw [same, mem_singleton] at listed
      subst listed
      exact known word (by simpa using builtin)
    · exact known word (mem_append_left _ (by simpa using all_eq_true.mp builtin word listed))
  refine isC_of_forall fun c listed => ?_
  cases blank : Text.isBlank c with
  | true => exact clean_of_isBlank blank
  | false =>
    have solid : c ∈ (Chars.words base.toList).flatten := by simp [flatten_words, listed, blank]
    obtain ⟨word, member, inside⟩ := mem_flatten.mp solid
    exact Text.clean_of_isPlain (plain (String.ofList word) (mem_map_of_mem member)) (by simpa using inside)

theorem Text.isPlain_join {parts : List String} (plain : ∀ part ∈ parts, isPlain part) : isPlain (join "_" parts) := by
  induction parts with
  | nil => rfl
  | cons part rest ih =>
    obtain ⟨first, plain⟩ := forall_mem_cons.mp plain
    cases rest with
    | nil => exact first
    | cons next rest =>
      change isPlain (part ++ "_" ++ join "_" (next :: rest))
      rw [isPlain_append, isPlain_append, first, ih plain]
      decide

theorem SymbolTable.isPlain_opaqueName {t : CxxType} {scope : String}
    (read : ∀ d ∈ (table.resolve t scope).declarators, d.isRead) :
    Text.isPlain (table.opaqueName t scope) := by
  have handle (h : CxxType) (read : ∀ d ∈ h.declarators, d.isRead) : Text.isPlain ("SWIGTYPE" ++ h.handleName) := by
    have codes : ∀ code ∈ (h.stripQualifiers.declarators.map handleCode ++ [Text.flattenName h.base]).filter
        (· != ""), Text.isPlain code := by
      intro code listed
      rcases mem_append.mp (mem_filter.mp listed).1 with level | base
      · obtain ⟨d, member, rfl⟩ := mem_map.mp level
        have read := read d (mem_filter.mp member).1
        cases d with
        | other => cases read
        | array | memberPointer =>
          simp only [handleCode, Declarator.level, Text.isPlain_append, Text.isPlain_flattenName]
          decide
        | function => exact show Text.isPlain "f" = true by decide
        | qualifier => rfl
        | pointer | lvalueReference | rvalueReference => decide
      · rw [mem_singleton.mp base, Text.isPlain_flattenName]
    rw [handleName, Text.isPlain_append, Text.isPlain_append, Text.isPlain_join codes]
    decide
  have bare : ∀ d ∈ (table.resolve t scope).stripQualifiers.declarators, d.isRead :=
    fun d listed => read d (mem_filter.mp listed).1
  unfold opaqueName
  dsimp only
  generalize (table.resolve t scope).stripQualifiers = stripped at bare ⊢
  refine handle _ ?_
  split
  next absent => simp [addPointer, absent, isRead]
  next d rest levels =>
    split
    · rw [levels] at bare
      exact forall_mem_cons.mpr ⟨rfl, fun e listed => bare e (mem_cons_of_mem _ listed)⟩
    · exact bare

namespace Naming

variable {config : Config}

theorem isPlain_globalPart (config : Config) : Text.isPlain (config.globalPart?.getD "") := by
  unfold Config.globalPart?
  split
  · split
    · rfl
    · exact Text.isPlain_flattenName _
  · rfl

theorem isPlain_proxyName (config : Config) {s : Site} (plain : Text.isPlain s.decl.symbol) :
    Text.isPlain (proxyName config s) := by
  unfold proxyName
  split
  next part found =>
    have lead : Text.isPlain part := by
      unfold proxyPart? at found
      split at found
      · rw [← Option.some.inj found, Text.isPlain_flattenName]
      · dsimp only at found
        split at found
        · rw [← Option.some.inj found, isPlain_globalPart]
        · cases found
    rw [Text.isPlain_append, Text.isPlain_append, lead, plain]
    decide
  · exact plain

theorem isPlain_freePart (plain : Text.isPlain config.moduleName) (s : Site) : Text.isPlain (freePart config s) := by
  have scope : Text.isPlain ((scopePart? s).getD "") := by
    unfold scopePart?
    split
    · split
      · exact Text.isPlain_flattenName _
      · rfl
    · rfl
  unfold freePart Text.orElse
  split
  · split
    · exact plain
    · exact isPlain_globalPart config
  · exact scope

theorem isC_enumType (named : Text.isPlain config.moduleName) {s : Site}
    (owned : ∀ owner ∈ s.enclosingClass?, Text.isPlain owner.decl.symbol) (tag : Text.isPlain s.decl.shortName)
    (typedef : Text.isPlain (s.decl.attr "tdname").display) :
    Text.isC ((enumType? config s).getD "int") := by
  have lead : Text.isPlain (enumPart config s) := by
    unfold enumPart
    split
    next owner found => exact isPlain_proxyName config (owned owner found)
    · exact isPlain_freePart named s
  have joined {name : String} (plain : Text.isPlain name) : Text.isPlain (enumPart config s ++ "_" ++ name) := by
    rw [Text.isPlain_append, Text.isPlain_append, lead, plain]
    decide
  unfold enumType? enumTag?
  dsimp only
  split
  · exact Text.isC_of_isPlain (joined typedef)
  · split
    · decide
    · change Text.isC ("enum " ++ _)
      refine isC_of_forall fun c listed => ?_
      rw [String.toList_append, mem_append] at listed
      rcases listed with keyword | name
      · replace keyword : c ∈ ['e', 'n', 'u', 'm', ' '] := keyword
        simp only [mem_cons, not_mem_nil, or_false] at keyword
        rcases keyword with rfl | rfl | rfl | rfl | rfl <;> decide
      · exact Text.clean_of_isPlain (joined tag) name

end Naming

/-! ### C types -/

/-- The names that C types take over from a declaration as they are consist of characters that C has. -/
structure Declaration.HasCNames (d : Declaration) : Prop where
  symbol : d.kind = .classDecl → Text.isPlain d.symbol
  tag : d.kind = .enumDecl → Text.isPlain d.shortName
  typedef : d.kind = .enumDecl → Text.isPlain (d.attr "tdname").display

namespace Resolver

theorem isC_pointer {name : String} (plain : Text.isPlain name) : Text.isC (name ++ " *") := by
  have clean := Text.isC_of_isPlain plain
  rw [Text.isC_eq] at clean ⊢
  simp [String.toList_append, isC_append_cons, isC_cons, clean]

/-- A mutable reference to a builtin type becomes a pointer. -/
theorem assignable_of_builtinRef {resolved : CxxType} {scope : String}
    (classified : table.Classified resolved scope .builtinRef) : resolved.assignable.declarators = [.pointer] := by
  generalize same : Category.builtinRef = category at classified
  have builtin : category.isBuiltin := same ▸ rfl
  cases classified with
  | void => cases same
  | @function fits => cases fits <;> cases same
  | builtin =>
    unfold scalarCategory at same
    unfold CxxType.assignable
    split at same
    · cases same
    next level => rw [level]; rfl
    next level => rw [level]; rfl
    · cases same
  | enumeration => rw [(scalarCategory_isBuiltin false resolved).1] at builtin; cases builtin
  | cls => rw [(classCategory_isBuiltin resolved).1] at builtin; cases builtin
  | unknown => rw [(unknownCategory_isBuiltin resolved).1] at builtin; cases builtin

/-- The type whose levels a C type writes as they are. -/
def written? (resolved : CxxType) : Category → Option CxxType
  | .builtinPointer => some (if resolved.isArray then resolved.withOutermost .pointer else resolved)
  | .enumPointer => some resolved.assignable
  | .functionPointer => some resolved
  | _ => none

section tree

variable {config : Config} {tree : Node} {t : CxxType} {scope : String} {side : Side} {category : Category}
  {c : CRendering}

variable (named : Text.isPlain config.moduleName)
  (names : ∀ s ∈ (root tree).walk, s.decl.HasCNames)
  (types : ∀ s ∈ (root tree).walk, s.decl.HasReadTypes)

include names

theorem isPlain_enclosingClass {site owner : Site} (member : site ∈ (root tree).walk)
    (encloses : site.enclosingClass? = some owner) : Text.isPlain owner.decl.symbol := by
  obtain ⟨closest, isClass⟩ := Option.filter_eq_some_iff.mp encloses
  rcases above_of_mem_walk member _ (mem_of_closest closest) with outside | ⟨outer, inside, same⟩
  · cases outside
  · have plain := (names outer inside).symbol
    rw [decl, same] at plain
    exact plain (eq_of_beq isClass)

include named in
theorem isC_enumCType (name scope : String) (side : Side) :
    Text.isC (enumCType ⟨config, .ofTree (.root tree)⟩ ((ofTree (.root tree)).enum? name scope) side) := by
  unfold enumCType
  split
  next enum found =>
    obtain ⟨member, _, isEnum, _⟩ := mem_walk_of_named (m := .enumeration) found
    exact Naming.isC_enumType named (fun owner encloses => isPlain_enclosingClass names member encloses)
      ((names enum member).tag isEnum) ((names enum member).typedef isEnum)
  · decide

omit names

include types in
theorem isRead_resolve {spelling : String} (read : CxxType.read spelling = .ok t) (scope : String) :
    ∀ d ∈ ((ofTree (.root tree)).resolve t scope).declarators, d.isRead := by
  refine forall_resolveFrom (fun entry listed target written => ?_) (isRead_of_readChars read)
  have member := (mem_typedefs_ofTree listed).1
  obtain ⟨_, read⟩ := types entry.2 member target (by simp [Declaration.types, written])
  exact isRead_of_readChars read

include names in
theorem isC_proxyPointer {name : String} {cls : Site}
    (found : (ofTree (.root tree)).class? name scope = some cls) :
    Text.isC (Naming.proxyName config cls ++ " *") := by
  obtain ⟨member, _, isClass, _⟩ := mem_walk_of_named (m := .cls) found
  exact isC_pointer (Naming.isPlain_proxyName config ((names cls member).symbol isClass))

include named names types in
/-- The C type of a type that was read off a spelling is C, unless levels are written as they are and one of them is not
C, or the result of a pointer to a function is not. -/
theorem cType_isC_iff (cxx : config.cplusplus = true) {spelling : String} (read : CxxType.read spelling = .ok t)
    (known : (ofTree (.root tree)).category t scope = .ok category)
    (rendered : cType ⟨config, .ofTree (.root tree)⟩ t scope side = .ok c) :
    Text.isC c.text = true ↔
      ∀ written ∈ written? ((ofTree (.root tree)).resolve t scope) category,
        written.declarators.all Declarator.isC = true ∧
          (category = .functionPointer → Text.isC written.base = true) := by
  obtain ⟨_, same, rfl⟩ := (cType_eq_ok_iff cxx).mp rendered
  obtain rfl := Except.ok.inj (known.symm.trans same)
  have classified := SymbolTable.classified known
  have levels := isRead_resolve types read scope
  have unknown := isC_pointer (isPlain_opaqueName levels)
  unfold cTypeOf opaquePointer
  dsimp only
  generalize (ofTree (.root tree)).resolve t scope = resolved at classified levels ⊢
  have enum := isC_enumCType named names resolved.base scope side
  have builtin : category.isBuiltin = true → Text.isC resolved.base = true := by
    rw [classified.isBuiltin_eq, Bool.and_eq_true, Bool.and_eq_true]
    exact fun builtin => isC_of_isBuiltinName builtin.1.1
  cases category with
  | void =>
    simp only [written?, Option.not_mem_none, false_implies, implies_true, iff_true]
    decide
  | builtin | builtinConstRef => simp [written?, builtin rfl]
  | builtinRef =>
    have text := isC_spelling_eq (isRead_assignable levels) (builtin rfl)
    simp [written?, text, assignable_of_builtinRef classified, Declarator.isC]
  | builtinPointer =>
    simp only [written?, Option.mem_some, forall_eq', reduceCtorEq, false_implies, and_true]
    split
    · rw [isC_spelling_eq (isRead_withOutermost levels) (builtin rfl)]
    · rw [isC_spelling_eq levels (builtin rfl)]
  | enumeration | enumConstRef => simpa [written?] using enum
  | enumPointer =>
    simp only [written?, Option.mem_some, forall_eq', reduceCtorEq, false_implies, and_true]
    exact Bool.eq_iff_iff.mp (isC_spelling_eq (isRead_assignable levels) enum)
  | functionPointer => simp [written?, isC_spelling levels, and_comm]
  | classPointer | classRef | classValue =>
    simp only [written?, Option.not_mem_none, false_implies, implies_true, iff_true]
    split
    · decide
    · split
      next found => exact isC_proxyPointer names found
      · exact unknown
  | unknownPointer | unknownRef | unknownValue =>
    simp only [written?, Option.not_mem_none, false_implies, implies_true, iff_true]
    split
    · decide
    · exact unknown

end tree

def paletteTree : Node :=
  .mk (.named .moduleDecl "m") [.mk (.named .enumDecl "Color") []]

def paletteConfig : Config where
  givenModule := .string "m"

theorem paletteTree_names : ∀ s ∈ (root paletteTree).walk, s.decl.HasCNames := by
  refine forall_mem_cons.mpr ⟨⟨?_, ?_, ?_⟩, forall_mem_cons.mpr ⟨⟨?_, ?_, ?_⟩, forall_mem_nil _⟩⟩ <;> decide

theorem paletteTree_types : ∀ s ∈ (root paletteTree).walk, s.decl.HasReadTypes := by
  refine forall_mem_cons.mpr ⟨?_, forall_mem_cons.mpr ⟨?_, forall_mem_nil _⟩⟩ <;> exact forall_mem_nil _

/-- A table of pointers to an enum has a C type. -/
theorem cType_isC_iff_palette :
    ∃ c, cType ⟨paletteConfig, .ofTree (.root paletteTree)⟩ ⟨"Color", [.array "4", .pointer]⟩ "" .header = .ok c ∧
      Text.isC c.text = true := by
  have known : (ofTree (.root paletteTree)).category ⟨"Color", [.array "4", .pointer]⟩ "" = .ok .enumPointer :=
    eq_ok_of_toOption (by decide +kernel)
  have resolved : (ofTree (.root paletteTree)).resolve ⟨"Color", [.array "4", .pointer]⟩ "" =
      ⟨"Color", [.array "4", .pointer]⟩ := by decide +kernel
  have read : CxxType.read "Color *[4]" = .ok ⟨"Color", [.array "4", .pointer]⟩ := eq_ok_of_toOption (by decide +kernel)
  have rendered : cType ⟨paletteConfig, .ofTree (.root paletteTree)⟩ ⟨"Color", [.array "4", .pointer]⟩ "" .header =
      .ok _ :=
    (cType_eq_ok_iff rfl).mpr ⟨_, known, rfl⟩
  refine ⟨_, rendered, (cType_isC_iff (by decide) paletteTree_names paletteTree_types rfl read known rendered).mpr ?_⟩
  rw [resolved]
  rintro _ ⟨⟩
  decide

/-- A reference to a pointer reaches the header as it is. -/
theorem reference_crosses :
    CxxType.read "int *&" = .ok ⟨"int", [.lvalueReference, .pointer]⟩ ∧
      cType ⟨paletteConfig, .ofTree (.root paletteTree)⟩ ⟨"int", [.lvalueReference, .pointer]⟩ "" .header =
        .ok ⟨"int *&", []⟩ ∧ Text.occurs "&" "int *&" = true :=
  ⟨eq_ok_of_toOption (by decide +kernel), eq_ok_of_toOption (by decide +kernel), by decide⟩

end Resolver

end FlatAbi
