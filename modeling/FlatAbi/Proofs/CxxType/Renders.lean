import FlatAbi.CxxType.Token
import FlatAbi.Proofs.Text.Blanks
import FlatAbi.Proofs.Text.Identifiers

/-!
Texts that write a list of tokens. Scanning such a text gives the tokens back.
-/

namespace FlatAbi

open List Chars Text

open FlatAbi.Text (isBlank isIdentifier isIdentifierChar IsQualifiedName)

/-! ### Replacing what does not occur -/

theorem Chars.splitFrom_of_absent {part cs : List Char} {d : Char} (listed : d ∈ part) (absent : d ∉ cs) :
    splitFrom part 0 cs = [cs] := by
  induction cs with
  | nil => rfl
  | cons c cs ih =>
    have apart : part.isPrefixOf (c :: cs) = false := by
      cases found : part.isPrefixOf (c :: cs) with
      | false => rfl
      | true => exact absurd (( isPrefixOf_iff_prefix.mp found).subset listed) absent
    rw [splitFrom, apart, ih (fun later => absent (mem_cons_of_mem c later))]
    rfl

theorem Chars.replace_of_absent {part cs : List Char} {d : Char} (replacement : List Char) (listed : d ∈ part)
    (absent : d ∉ cs) : replace part replacement cs = cs := by
  simp [replace, splitOn, splitFrom_of_absent listed absent, intercalate]

namespace Token

open Chars (opensBlank collapse spaced)

variable {tokens : List (List Char)} {word cs rest : List Char}

theorem isNamePart_of_isIdentifierChar {c : Char} (plain : isIdentifierChar c) : isNamePart c := by
  simp [isNamePart, isWordChar_of_isIdentifierChar plain]

/-- Text after a word that is not taken for more of the word. -/
structure Apart (cs : List Char) : Prop where
  ended : cs.head?.all (!isNamePart ·)
  plain : (cs.dropWhile isBlank).head?.all (fun c => c != ':' && c != '<')

variable {name : String}

theorem name?_identifier (identifier : isIdentifier name) (ended : cs.head?.all (!isNamePart ·)) :
    name? (name.toList ++ cs) = some (name.toList, cs) := by
  obtain ⟨c, chars, same, start, plain⟩ := exists_of_isIdentifier identifier
  have taken : ∀ d ∈ chars, isNamePart d := fun d listed =>
    isNamePart_of_isIdentifierChar (plain d (by simp [listed]))
  have stops : cs.takeWhile isNamePart = [] ∧ cs.dropWhile isNamePart = cs := by
    cases cs with
    | nil => exact ⟨rfl, rfl⟩
    | cons d cs =>
      have other : isNamePart d = false := by simpa using ended
      simp [other]
  have starts : isNameStart c := by
    simp only [isNameStart, Bool.or_eq_true] at start ⊢
    exact .inl (.inl start)
  rw [same, cons_append, name?, if_pos starts, takeWhile_append_of_pos taken,
    dropWhile_append_of_pos taken, stops.1, stops.2, append_nil]

theorem component?_identifier (identifier : isIdentifier name) (ended : cs.head?.all (!isNamePart ·)) :
    component? (':' :: ':' :: name.toList ++ cs) = some (':' :: ':' :: name.toList, cs) := by
  have solid : opensBlank (name.toList ++ cs) = false := by
    obtain ⟨c, chars, same, _, plain⟩ := exists_of_isIdentifier identifier
    rw [same]
    exact isBlank_of_isIdentifierChar (plain c (by simp))
  have kept := trimStart_of_solid solid
  have empty : (name.toList ++ cs).takeWhile isBlank = [] := by
    have whole := takeWhile_append_dropWhile (p := isBlank) (l := name.toList ++ cs)
    rw [show (name.toList ++ cs).dropWhile isBlank = _ from kept] at whole
    simpa using whole
  have colon : isBlank ':' = false := by decide
  simp only [component?, cons_append, dropWhile_cons, colon, Bool.false_eq_true, if_false,
    takeWhile_cons, empty, nil_append, append_nil]
  rw [show (name.toList ++ cs).dropWhile isBlank = _ from kept, name?_identifier identifier ended]
  rfl

theorem component?_of_apart (apart : Apart cs) : component? cs = none := by
  have plain := apart.plain
  unfold component?
  split
  next found =>
    rw [found] at plain
    simp at plain
  · rfl

theorem template?_of_apart (apart : Apart cs) : template? cs = none := by
  have plain := apart.plain
  unfold template?
  split
  next found =>
    rw [found] at plain
    simp at plain
  · rfl

theorem components_of_apart (apart : Apart cs) : components cs = ([], cs) := by
  unfold components
  split
  next found => simp [component?_of_apart apart] at found
  · rfl

theorem ended_of_apart (names : List String) (apart : Apart cs) :
    ((names.map fun name => ':' :: ':' :: name.toList).flatten ++ cs).head?.all (!isNamePart ·) := by
  cases names with
  | nil => exact apart.ended
  | cons next names =>
    have colon : isNamePart ':' = false := by decide
    simp [colon]

theorem components_identifiers (names : List String) (identifiers : ∀ name ∈ names, isIdentifier name)
    (apart : Apart cs) :
    components ((names.map fun name => ':' :: ':' :: name.toList).flatten ++ cs) =
      ((names.map fun name => ':' :: ':' :: name.toList).flatten, cs) := by
  induction names with
  | nil => exact components_of_apart apart
  | cons name names ih =>
    have taken := component?_identifier (identifiers name (by simp)) (ended_of_apart names apart)
    have others := ih fun next listed => identifiers next (by simp [listed])
    rw [map_cons, flatten_cons, append_assoc]
    unfold components
    split
    next first after found =>
      rw [taken] at found
      obtain ⟨rfl, rfl⟩ : _ ∧ _ := by simpa using found
      rw [others]
    next found => rw [taken] at found; cases found

section

variable (qualified : IsQualifiedName name)

include qualified

theorem solid_of_isQualifiedName : ∀ c ∈ name.toList, isIdentifierChar c ∨ c = ':' := by
  obtain ⟨parts, filled, identifiers, rfl⟩ := qualified
  have plain {part : String} (listed : part ∈ parts) : ∀ c ∈ part.toList, isIdentifierChar c := by
    obtain ⟨first, chars, same, _, plain⟩ := exists_of_isIdentifier (identifiers part listed)
    rw [same]
    exact plain
  cases parts with
  | nil => exact absurd rfl filled
  | cons part others =>
    intro c listed
    rw [toList_join_cons, mem_append, mem_flatten] at listed
    rcases listed with first | ⟨piece, later, inside⟩
    · exact .inl (plain (by simp) c first)
    · obtain ⟨next, among, rfl⟩ := mem_map.mp later
      rcases mem_append.mp inside with colon | inside
      · exact .inr (by simpa using colon)
      · exact .inl (plain (by simp [among]) c inside)

theorem isBlank_of_isQualifiedName {c : Char} (listed : c ∈ name.toList) : isBlank c = false := by
  rcases solid_of_isQualifiedName qualified c listed with plain | rfl
  · exact isBlank_of_isIdentifierChar plain
  · decide

theorem exists_start_of_isQualifiedName : ∃ c chars, name.toList = c :: chars ∧ (c.isAlpha || c == '_') := by
  obtain ⟨parts, filled, identifiers, rfl⟩ := qualified
  cases parts with
  | nil => exact absurd rfl filled
  | cons part others =>
    obtain ⟨c, chars, same, start, _⟩ := exists_of_isIdentifier (identifiers part (by simp))
    rw [toList_join_cons, same]
    exact ⟨c, _, rfl, start⟩

theorem qualified?_name (apart : Apart cs) : qualified? (name.toList ++ cs) = some (name.toList, cs) := by
  obtain ⟨parts, filled, identifiers, rfl⟩ := qualified
  cases parts with
  | nil => exact absurd rfl filled
  | cons part others =>
    have first := name?_identifier (identifiers part (by simp)) (ended_of_apart others apart)
    have further := components_identifiers others (fun next listed => identifiers next (by simp [listed])) apart
    have spelled : (join "::" (part :: others)).toList =
        part.toList ++ (others.map fun next => ':' :: ':' :: next.toList).flatten :=
      toList_join_cons "::" part others
    rw [spelled, append_assoc, qualified?, first, Option.map_some]
    simp only [further, template?_of_apart apart]

theorem token?_name (apart : Apart cs) : token? (name.toList ++ cs) = some (name.toList, cs) := by
  have found := qualified?_name qualified apart
  obtain ⟨c, chars, same, start⟩ := exists_start_of_isQualifiedName qualified
  rw [same, cons_append] at found ⊢
  -- A letter or an underscore does not begin a mark or the ellipsis.
  unfold token?
  split
  next opened =>
    obtain ⟨rfl, _⟩ : c = '.' ∧ _ := by simpa using opened
    cases start
  next opened =>
    obtain ⟨rfl, _⟩ : c = '&' ∧ _ := by simpa using opened
    cases start
  next opened =>
    obtain ⟨rfl, _⟩ : c = '*' ∧ _ := by simpa using opened
    cases start
  next opened =>
    obtain ⟨rfl, _⟩ : c = '&' ∧ _ := by simpa using opened
    cases start
  · rw [found, Option.some_or]

end

theorem normalize_of_solid (solid : ∀ c ∈ word, isBlank c = false) : normalize word = word := by
  have space : ' ' ∉ word := fun listed => absurd (solid ' ' listed) (by decide)
  have single : collapse word = word := by
    by_cases empty : word = []
    · simp [empty]
    · simpa [spaced] using collapse_word empty solid []
  rw [normalize, single, replace_of_absent _ (d := ' ') (by simp) space,
    replace_of_absent _ (d := ' ') (by simp) space]

/-! ### Rendered tokens -/

/-- A mark of a level. The single `&` may not be followed by another. -/
inductive IsMark : List Char → List Char → Prop
  | star (cs : List Char) : IsMark ['*'] cs
  | ampersand {cs : List Char} (single : cs.head?.all (· != '&')) : IsMark ['&'] cs
  | ampersands (cs : List Char) : IsMark ['&', '&'] cs

/-- The text writes the tokens, with blanks around them. -/
inductive Renders : List (List Char) → List Char → Prop
  | nil : Renders [] []
  | blank {tokens : List (List Char)} {cs : List Char} (c : Char) (blank : isBlank c) :
      Renders tokens cs → Renders tokens (c :: cs)
  | name {tokens : List (List Char)} {cs : List Char} (name : String) (qualified : IsQualifiedName name)
      (ended : cs.head?.all (!isNamePart ·)) :
      Renders tokens cs → Renders (name.toList :: tokens) (name.toList ++ cs)
  | mark {tokens : List (List Char)} {cs mark : List Char} (follows : IsMark mark cs) :
      Renders tokens cs → Renders (mark :: tokens) (mark ++ cs)

theorem token?_ampersand (single : cs.head?.all (· != '&')) : token? ('&' :: cs) = some (['&'], cs) := by
  cases cs with
  | nil => rfl
  | cons c cs =>
    have other : c ≠ '&' := by simpa using single
    unfold token?
    split <;> simp_all

theorem scan_cons_blank {c : Char} (blank : isBlank c) (scanned : scan cs = .ok tokens) :
    scan (c :: cs) = .ok tokens := by
  rw [scan] at scanned ⊢
  rw [dropWhile_cons, if_pos blank]
  split at scanned
  · exact scanned
  · split at scanned
    next empty => rwa [if_pos empty]
    · cases scanned

variable {taken : List Char}

theorem scan_token (opens : opensBlank cs = false) (found : token? cs = some (taken, rest)) :
    scan cs = (scan rest).map (normalize taken :: ·) := by
  rw [scan, show cs.dropWhile isBlank = cs from trimStart_of_solid opens]
  split
  next first =>
    rw [found] at first
    obtain ⟨rfl, rfl⟩ : _ ∧ _ := by simpa using first
    rfl
  next absent =>
    rw [found] at absent
    cases absent

theorem head?_gap_all {p : Char → Bool} (first : cs.head?.all p) (space : p ' ') :
    (if opensBlank cs then spaced (collapse cs) else collapse cs).head?.all p := by
  cases opens : opensBlank cs with
  | false => simpa [head?_collapse opens] using first
  | true =>
    simp only [if_true]
    cases Chars.collapse cs with
    | nil => rfl
    | cons c rest => simpa [spaced] using space

namespace Renders

theorem plain (renders : Renders tokens cs) : (cs.dropWhile isBlank).head?.all (fun c => c != ':' && c != '<') := by
  induction renders with
  | nil => rfl
  | blank c blank _ ih => rwa [dropWhile_cons, if_pos blank]
  | name name qualified =>
    obtain ⟨c, chars, same, start⟩ := exists_start_of_isQualifiedName qualified
    have solid := isBlank_of_isQualifiedName qualified (c := c) (by simp [same])
    have colon : c ≠ ':' := by rintro rfl; cases start
    have angle : c ≠ '<' := by rintro rfl; cases start
    simp [same, solid, colon, angle]
  | mark follows =>
    have star : isBlank '*' = false := by decide
    have ampersand : isBlank '&' = false := by decide
    cases follows <;> simp [star, ampersand]

theorem scan_eq (renders : Renders tokens cs) : scan cs = .ok tokens := by
  induction renders with
  | nil => simp [scan, token?, qualified?, name?, rooted?]
  | blank c blank _ ih => exact scan_cons_blank blank ih
  | @name tokens cs name qualified ended later ih =>
    have solid {c : Char} := isBlank_of_isQualifiedName (c := c) qualified
    obtain ⟨c, chars, same, _⟩ := exists_start_of_isQualifiedName qualified
    have opens : opensBlank (name.toList ++ cs) = false := by
      rw [same]
      exact solid (by simp [same])
    rw [scan_token opens (token?_name qualified ⟨ended, later.plain⟩), ih, normalize_of_solid fun c => solid]
    rfl
  | @mark tokens cs mark follows later ih =>
    have found : token? (mark ++ cs) = some (mark, cs) := by
      cases follows with
      | star | ampersands => rfl
      | ampersand single => exact token?_ampersand single
    have solid : ∀ c ∈ mark, isBlank c = false := by
      cases follows <;> simp <;> decide
    have opens : opensBlank (mark ++ cs) = false := by
      cases follows <;> exact solid _ mem_cons_self
    rw [scan_token opens found, ih, normalize_of_solid solid]
    rfl

theorem gap (renders : Renders tokens (Chars.collapse cs)) :
    Renders tokens (if opensBlank cs then spaced (Chars.collapse cs) else Chars.collapse cs) := by
  split
  · cases found : Chars.collapse cs with
    | nil => rwa [found] at renders
    | cons c rest =>
      rw [found] at renders
      exact .blank ' ' (by decide) renders
  · exact renders

theorem collapse (renders : Renders tokens cs) : Renders tokens (Chars.collapse cs) := by
  induction renders with
  | nil => exact .nil
  | blank c blank _ ih => rwa [collapse_cons_blank blank]
  | @name tokens cs name qualified ended later ih =>
    obtain ⟨c, chars, same, _⟩ := exists_start_of_isQualifiedName qualified
    rw [collapse_word (by simp [same]) fun c listed => isBlank_of_isQualifiedName qualified listed]
    exact .name name qualified (head?_gap_all ended (by decide)) ih.gap
  | @mark tokens cs mark follows later ih =>
    have single : mark ≠ [] ∧ ∀ c ∈ mark, isBlank c = false := by
      cases follows <;> simp <;> decide
    rw [collapse_word single.1 single.2]
    refine .mark ?_ ih.gap
    cases follows with
    | star => exact .star _
    | ampersands => exact .ampersands _
    | ampersand single => exact .ampersand (head?_gap_all single (by decide))

theorem not_mem {d : Char} (renders : Renders tokens cs) (solid : isBlank d = false)
    (unnamed : isIdentifierChar d = false) (unmarked : d ∉ [':', '*', '&']) : d ∉ cs := by
  simp only [mem_cons, not_mem_nil, or_false, not_or] at unmarked
  induction renders with
  | nil => simp
  | blank c blank _ ih =>
    have other : d ≠ c := by
      rintro rfl
      rw [solid] at blank
      cases blank
    simp [other, ih]
  | name name qualified _ _ ih =>
    intro listed
    rcases mem_append.mp listed with inside | later
    · rcases solid_of_isQualifiedName qualified d inside with plain | colon
      · rw [unnamed] at plain
        cases plain
      · exact unmarked.1 colon
    · exact ih later
  | mark follows _ ih => cases follows <;> simp [unmarked, ih]

end Renders

/-! ### Texts without parentheses -/

theorem not_mem_blanks (cs : List Char) : '(' ∉ cs.takeWhile isBlank := fun listed =>
  absurd (all_eq_true.mp all_takeWhile _ listed) (by decide)

theorem not_mem_of_name? (found : name? cs = some (taken, rest)) : '(' ∉ taken := by
  unfold name? at found
  split at found
  · cases found
  next c cs =>
    split at found
    next start =>
      obtain ⟨rfl, _⟩ : _ ∧ _ := by simpa using found
      intro listed
      rcases mem_cons.mp listed with rfl | later
      · cases start
      · exact absurd (all_eq_true.mp all_takeWhile _ later) (by decide)
    · cases found

theorem not_mem_of_component? (found : component? cs = some (taken, rest)) : '(' ∉ taken := by
  unfold component? at found
  split at found
  · obtain ⟨⟨name, after⟩, scanned, same⟩ := Option.map_eq_some_iff.mp found
    obtain ⟨rfl, _⟩ : _ ∧ _ := by simpa using same
    simp [not_mem_blanks, not_mem_of_name? scanned]
  · cases found

theorem not_mem_components (cs : List Char) : '(' ∉ (components cs).1 := by
  fun_induction components cs with
  | case1 cs taken rest found more after same ih =>
    rw [same] at ih
    simp [not_mem_of_component? found, ih]
  | case2 => simp

theorem not_mem_of_template? (found : template? cs = some (taken, rest)) : '(' ∉ taken := by
  unfold template? at found
  split at found
  next afterOpen _ =>
    simp only at found
    split at found
    · cases found
    · obtain ⟨rfl, _⟩ : _ ∧ _ := by simpa using found
      simp only [mem_append, not_mem_blanks, mem_cons, mem_reverse, false_or, not_or]
      refine ⟨by decide, fun listed => ?_⟩
      have run := mem_reverse.mp ((dropWhile_suffix _).subset listed)
      exact absurd (all_eq_true.mp all_takeWhile _ run) (by decide)
  · cases found

theorem not_mem_of_qualified? (found : qualified? cs = some (taken, rest)) : '(' ∉ taken := by
  obtain ⟨⟨first, afterFirst⟩, scanned, same⟩ := Option.map_eq_some_iff.mp found
  have started := not_mem_of_name? scanned
  have further := not_mem_components afterFirst
  dsimp only at same
  split at same
  next arguments after template =>
    obtain ⟨rfl, _⟩ : _ ∧ _ := by simpa using same
    simp [started, further, not_mem_of_template? template]
  · obtain ⟨rfl, _⟩ : _ ∧ _ := by simpa using same
    simp [started, further]

theorem not_mem_of_rooted? (found : rooted? cs = some (taken, rest)) : '(' ∉ taken := by
  unfold rooted? at found
  split at found
  next cs =>
    split at found
    next c body _ =>
      simp only at found
      split at found
      next start =>
        obtain ⟨rfl, _⟩ : _ ∧ _ := by simpa using found
        have other : '(' ≠ c := by
          rintro rfl
          cases start
        have part : '(' ∉ body.takeWhile fun d => isWordChar d || d == ':' := fun listed =>
          absurd (all_eq_true.mp all_takeWhile _ listed) (by decide)
        simp [not_mem_blanks, other, part]
      · cases found
    · cases found
  · cases found

theorem not_mem_of_token? (found : token? cs = some (taken, rest)) : '(' ∉ taken := by
  unfold token? at found
  split at found
  · obtain ⟨rfl, _⟩ : _ ∧ _ := by simpa using found
    decide
  · obtain ⟨rfl, _⟩ : _ ∧ _ := by simpa using found
    decide
  · obtain ⟨rfl, _⟩ : _ ∧ _ := by simpa using found
    decide
  · obtain ⟨rfl, _⟩ : _ ∧ _ := by simpa using found
    decide
  · rcases Option.or_eq_some_iff.mp found with named | ⟨_, rooted⟩
    · exact not_mem_of_qualified? named
    · exact not_mem_of_rooted? rooted

/-- No token takes a parenthesis, so a text that has one is not scanned. -/
theorem not_mem_of_scan (scanned : scan cs = .ok tokens) : '(' ∉ cs := by
  fun_induction scan cs generalizing tokens with
  | case1 cs taken rest found ih =>
    cases later : scan rest with
    | error text =>
      rw [later] at scanned
      cases scanned
    | ok others =>
      rw [← takeWhile_append_dropWhile (p := isBlank) (l := cs), ← token?_append found]
      simp [not_mem_blanks, not_mem_of_token? found, ih later]
  | case2 cs missing blank =>
    rw [← takeWhile_append_dropWhile (p := isBlank) (l := cs), isEmpty_iff.mp blank, append_nil]
    exact not_mem_blanks cs
  | case3 => cases scanned

end Token

end FlatAbi
