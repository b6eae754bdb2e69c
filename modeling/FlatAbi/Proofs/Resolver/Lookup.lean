import FlatAbi.Proofs.CxxType.Renders
import FlatAbi.Resolver.Symbols

/-!
Looking a name up searches the tree, under ever shorter parts of a scope.
-/

namespace FlatAbi.SymbolTable

open List Text

/-- What a name can be looked up as. -/
inductive Meaning where
  | cls
  | enumeration
  | typedef

def named? (table : SymbolTable) : Meaning → String → String → Option Site
  | .cls => table.class?
  | .enumeration => table.enum?
  | .typedef => table.typedef?

/-- The typedef attribute of a site stands for a name, which is qualified with the scope of the site. -/
def IsAlias (s : Site) (name : String) : Prop :=
  (s.decl.attr "tdname").truthy ∧
    if s.scopeName = "" then s.decl.attr "tdname" = .string name
    else name = s.scopeName ++ "::" ++ (s.decl.attr "tdname").display

/-- A site introduces a name. A class has to be named for both its names; an unnamed enum has its typedef name only. -/
def Introduces (s : Site) (m : Meaning) (name : String) : Prop :=
  match m with
  | .cls => s.kind = .classDecl ∧ s.decl.hasName ∧ (name = s.qualifiedName ∨ IsAlias s name)
  | .enumeration =>
    s.kind = .enumDecl ∧
      (s.decl.hasName ∧ (s.decl.attr "unnamed").truthy = false ∧ name = s.qualifiedName ∨ IsAlias s name)
  | .typedef =>
    s.kind = .typedefDecl ∧ s.decl.hasName ∧ s.decl.type.isSome ∧ name = s.qualifiedName

/-- The first of some sites that introduces a name. -/
def IsFirst (sites : List Site) (m : Meaning) (name : String) (s : Site) : Prop :=
  Introduces s m name ∧ ∃ before after, sites = before ++ s :: after ∧ ∀ earlier ∈ before, ¬ Introduces earlier m name

/-- The components of a scope, outermost first. -/
def components (scope : String) : List String :=
  (Text.splitOn "::" scope).filter (· != "")

/-- A name qualified with components of a scope. -/
def within (kept : List String) (name : String) : String :=
  join "::" (kept ++ [name])

theorem mem_aliasNames_iff {s : Site} {name : String} : name ∈ aliasNames s ↔ IsAlias s name := by
  unfold aliasNames IsAlias
  generalize s.decl.attr "tdname" = written
  cases truthy : written.truthy with
  | false => simp [truthy]
  | true =>
    by_cases toplevel : s.scopeName = ""
    · cases written <;> simp [truthy, toplevel, Value.asString?, eq_comm]
    · simp [truthy, toplevel]

/-- The names under which a site is filed. -/
def namesAs : Meaning → Site → List String
  | .cls => classNames
  | .enumeration => enumNames
  | .typedef => typedefNames

theorem mem_namesAs_iff {m : Meaning} {s : Site} {name : String} : name ∈ namesAs m s ↔ Introduces s m name := by
  cases m with
  | cls => simp only [namesAs, classNames, Introduces, ← mem_aliasNames_iff]; grind
  | enumeration => simp only [namesAs, enumNames, Introduces, ← mem_aliasNames_iff]; grind
  | typedef => simp only [namesAs, typedefNames, Introduces]; grind

theorem lookup_flatMap (names : Site → List String) (sites : List Site) (name : String) :
    (sites.flatMap fun s => (names s).map (·, s)).lookup name = sites.find? fun s => (names s).contains name := by
  have entries (s : Site) (own : List String) (rest : List (String × Site)) :
      (own.map (·, s) ++ rest).lookup name = if own.contains name then some s else rest.lookup name := by
    induction own with
    | nil => rfl
    | cons first others ih =>
      rw [map_cons, cons_append, lookup_cons, contains_cons, ih]
      cases name == first <;> rfl
  induction sites with
  | nil => rfl
  | cons s rest ih =>
    rw [flatMap_cons, entries, find?_cons, ih]
    cases (names s).contains name <;> rfl

/-- The site that a table has for a qualified name. -/
def filed? (root : Site) (m : Meaning) (name : String) : Option Site :=
  root.walk.find? fun s => (namesAs m s).contains name

variable {root : Site} {m : Meaning}

theorem filed?_eq_some_iff {name : String} {s : Site} : filed? root m name = some s ↔ IsFirst root.walk m name s := by
  simp only [filed?, IsFirst, find?_eq_some_iff_append, Bool.not_eq_true', contains_iff_mem,
    ← Bool.not_eq_true, mem_namesAs_iff]

theorem filed?_eq_none_iff {name : String} : filed? root m name = none ↔ ∀ s ∈ root.walk, ¬ Introduces s m name := by
  simp only [filed?, find?_eq_none, contains_iff_mem, mem_namesAs_iff]

theorem named?_eq (name scope : String) :
    (ofTree root).named? m name scope = (candidates (normalizeName name) scope).findSome? (filed? root m) := by
  have entries : ∀ candidate, (match m with
      | .cls => (ofTree root).classes
      | .enumeration => (ofTree root).enums
      | .typedef => (ofTree root).typedefs).lookup candidate = filed? root m candidate := by
    intro candidate
    rw [ofTree, ofSites_eq]
    cases m <;> exact lookup_flatMap _ _ candidate
  cases m <;> exact congrArg (fun f => findSome? f _) (funext entries)

variable {name : String}

theorem mem_walk_of_named {scope : String} {s : Site} (found : (ofTree root).named? m name scope = some s) :
    s ∈ root.walk ∧ ∃ key, Introduces s m key := by
  rw [named?_eq] at found
  obtain ⟨key, _, filed⟩ := exists_of_findSome?_eq_some found
  obtain ⟨introduces, before, after, walk, _⟩ := filed?_eq_some_iff.mp filed
  exact ⟨by simp [walk], key, introduces⟩

/-- The parts of a scope are asked for from the longest to the shortest; they are given innermost first here. -/
theorem findSome?_candidatesFrom {f : String → Option Site} {s : Site} (parts : List String) :
    (candidatesFrom name parts).findSome? f = some s ↔
      ∃ kept, kept <:+ parts ∧ f (within kept.reverse name) = some s ∧
        ∀ longer, longer <:+ parts → kept.length < longer.length → f (within longer.reverse name) = none := by
  induction parts with
  | nil =>
    simp only [candidatesFrom, suffix_nil, exists_eq_left, forall_eq, Nat.lt_irrefl, false_implies, and_true,
      findSome?_singleton]
    rfl
  | cons part rest ih =>
    rw [candidatesFrom, findSome?_cons]
    rw [show join "::" ((part :: rest).reverse ++ [name]) = within (part :: rest).reverse name from rfl]
    have shorter {kept : List String} (suffix : kept <:+ rest) : kept.length < (part :: rest).length :=
      Nat.lt_succ_of_le suffix.length_le
    cases whole : f (within (part :: rest).reverse name) with
    | some found =>
      constructor
      · rintro ⟨⟩
        refine ⟨_, suffix_rfl, whole, fun longer suffix more => ?_⟩
        exact absurd suffix.length_le (Nat.not_le.mpr more)
      · rintro ⟨kept, suffix, finds, longest⟩
        rcases suffix_cons_iff.mp suffix with rfl | inner
        · exact whole.symm.trans finds
        · rw [longest _ suffix_rfl (shorter inner)] at whole
          cases whole
    | none =>
      dsimp only
      rw [ih]
      constructor
      · rintro ⟨kept, inner, finds, longest⟩
        refine ⟨kept, inner.trans (suffix_cons _ _), finds, fun longer suffix more => ?_⟩
        rcases suffix_cons_iff.mp suffix with rfl | innerToo
        · exact whole
        · exact longest longer innerToo more
      · rintro ⟨kept, suffix, finds, longest⟩
        rcases suffix_cons_iff.mp suffix with rfl | inner
        · rw [whole] at finds
          cases finds
        · exact ⟨kept, inner, finds, fun longer innerToo => longest longer (innerToo.trans (suffix_cons _ _))⟩

theorem mem_candidatesFrom_iff {candidate : String} (parts : List String) :
    candidate ∈ candidatesFrom name parts ↔ ∃ kept, kept <:+ parts ∧ within kept.reverse name = candidate := by
  induction parts with
  | nil => simp [candidatesFrom, within, join, eq_comm]
  | cons part rest ih =>
    rw [candidatesFrom, mem_cons, ih]
    simp only [suffix_cons_iff, or_and_right, exists_or, exists_eq_left]
    rw [eq_comm]
    rfl

/-- A name is looked up as in a search of the whole tree: it means the first site that introduces it under the longest
part of the scope for which there is such a site, and nothing if there is none for any part. -/
theorem named?_searches (root : Site) (m : Meaning) (name scope : String) :
    (∀ s, (ofTree root).named? m name scope = some s ↔
      ∃ kept, kept <+: components scope ∧ IsFirst root.walk m (within kept (normalizeName name)) s ∧
        ∀ longer, longer <+: components scope → kept.length < longer.length →
          ∀ other ∈ root.walk, ¬ Introduces other m (within longer (normalizeName name))) ∧
    ((ofTree root).named? m name scope = none ↔
      ∀ kept, kept <+: components scope →
        ∀ other ∈ root.walk, ¬ Introduces other m (within kept (normalizeName name))) := by
  have reversed (kept : List String) : kept <+: components scope ↔ kept.reverse <:+ (components scope).reverse :=
    reverse_suffix.symm
  rw [named?_eq, show candidates (normalizeName name) scope = candidatesFrom _ (components scope).reverse from rfl]
  refine ⟨fun s => ?_, ?_⟩
  · rw [findSome?_candidatesFrom]
    constructor
    · rintro ⟨kept, suffix, first, longest⟩
      refine ⟨kept.reverse, ?_, filed?_eq_some_iff.mp first, fun longer isPrefix more => ?_⟩
      · simpa [reversed] using suffix
      · rw [← filed?_eq_none_iff]
        simpa using longest longer.reverse ((reversed longer).mp isPrefix) (by simpa using more)
    · rintro ⟨kept, isPrefix, first, longest⟩
      refine ⟨kept.reverse, (reversed kept).mp isPrefix, by simpa [filed?_eq_some_iff] using first, ?_⟩
      intro longer suffix more
      rw [filed?_eq_none_iff]
      exact longest longer.reverse (by simpa [reversed] using suffix) (by simpa using more)
  · rw [findSome?_eq_none_iff]
    constructor
    · intro absent kept isPrefix
      rw [← filed?_eq_none_iff]
      exact absent _ ((mem_candidatesFrom_iff _).mpr ⟨kept.reverse,
        (reversed kept).mp isPrefix, by rw [reverse_reverse]⟩)
    · intro absent candidate listed
      obtain ⟨kept, suffix, rfl⟩ := (mem_candidatesFrom_iff _).mp listed
      rw [filed?_eq_none_iff]
      exact absent kept.reverse (by simpa [reversed] using suffix)

/-- A struct without a tag, known by its typedef name only. -/
def untaggedModule : Node :=
  .mk (.named .moduleDecl "geometry")
    [.mk { kind := .classDecl, attributes := [("tdname", .string "Point")] } []]

/-- The typedef name of a class that is not named itself is not found. -/
theorem untaggedModule_unfound :
    (∃ s ∈ (Site.root untaggedModule).walk, s.kind = .classDecl ∧ IsAlias s "Point") ∧
      (ofTree (.root untaggedModule)).named? .cls "Point" "" = none := by
  refine ⟨⟨⟨.declared [0], _, _⟩, mem_cons_of_mem _ mem_cons_self, rfl, rfl, rfl⟩, ?_⟩
  decide

theorem normalizeName_of_solid (solid : ∀ c ∈ name.toList, isBlank c = false) :
    normalizeName name = if startsWith "::" name then dropStart 2 name else name := by
  have trimmed : trim name = name := by
    have end_solid {found : Option Char} (inside : ∀ c, found = some c → c ∈ name.toList) :
        found.any isBlank = false := by
      cases found with
      | none => rfl
      | some c => exact solid c (inside c rfl)
    have bare := Chars.trim_of_solid (end_solid fun _ => mem_of_head?) (end_solid fun _ => mem_of_getLast?)
    rw [trim, bare, String.ofList_toList]
  have kept {keyword : String} (spaced : ' ' ∈ keyword.toList) : dropKeyword name keyword = name := by
    rw [dropKeyword, if_neg]
    intro starts
    have blank := solid ' ' (( isPrefixOf_iff_prefix.mp starts).subset spaced)
    cases blank
  simp only [normalizeName, trimmed, foldl_cons, foldl_nil]
  rw [kept (by decide), kept (by decide), kept (by decide), kept (by decide)]

theorem normalizeName_of_isQualifiedName (qualified : IsQualifiedName name) : normalizeName name = name := by
  rw [normalizeName_of_solid fun c listed => Token.isBlank_of_isQualifiedName qualified listed, if_neg]
  obtain ⟨c, rest, chars, start⟩ := Token.exists_start_of_isQualifiedName qualified
  intro starts
  rw [startsWith, chars] at starts
  obtain ⟨rfl, _⟩ := cons_prefix_cons.mp ( isPrefixOf_iff_prefix.mp starts)
  cases start

theorem normalizeName_absolute (qualified : IsQualifiedName name) : normalizeName ("::" ++ name) = name := by
  have chars : ("::" ++ name).toList = ':' :: ':' :: name.toList := String.toList_append
  rw [normalizeName_of_solid, if_pos]
  · rw [dropStart, chars]
    exact String.ofList_toList
  · rw [startsWith, chars]
    exact isPrefixOf_iff_prefix.mpr (prefix_append [':', ':'] name.toList)
  · intro c listed
    rw [chars] at listed
    rcases mem_cons.mp listed with rfl | listed
    · decide
    rcases mem_cons.mp listed with rfl | listed
    · decide
    · exact Token.isBlank_of_isQualifiedName qualified listed

/-- A leading `::` does not lift a name out of its scope: the absolute name means what the name means at the top exactly
if each site that has the name in an inner scope is also first of that name at the top, or is hidden further in. -/
theorem absolute_name_iff (root : Site) (m : Meaning) (qualified : IsQualifiedName name) (scope : String) :
    (ofTree root).named? m ("::" ++ name) scope = (ofTree root).named? m name "" ↔
      ∀ kept s, kept <+: components scope → kept ≠ [] → IsFirst root.walk m (within kept name) s →
        IsFirst root.walk m name s ∨
          ∃ longer, longer <+: components scope ∧ kept.length < longer.length ∧
            ∃ other ∈ root.walk, Introduces other m (within longer name) := by
  have top : (ofTree root).named? m name "" = filed? root m name := by
    rw [named?_eq, normalizeName_of_isQualifiedName qualified]
    exact findSome?_singleton
  have reversed (kept : List String) : kept <+: components scope ↔ kept.reverse <:+ (components scope).reverse :=
    reverse_suffix.symm
  rw [top, named?_eq, normalizeName_absolute qualified,
    show candidates name scope = candidatesFrom name (components scope).reverse from rfl]
  constructor
  · intro same kept s isPrefix _ first
    refine Classical.or_iff_not_imp_right.mpr fun outermost => filed?_eq_some_iff.mp (same.symm.trans ?_)
    refine (findSome?_candidatesFrom _).mpr ⟨kept.reverse, (reversed kept).mp isPrefix, ?_, ?_⟩
    · rw [reverse_reverse]
      exact filed?_eq_some_iff.mpr first
    · intro longer suffix more
      refine filed?_eq_none_iff.mpr fun other listed introduces =>
        outermost ⟨longer.reverse, ?_, ?_, other, listed, introduces⟩
      · simpa [reversed] using suffix
      · simpa using more
  · intro inner
    cases found : (candidatesFrom name (components scope).reverse).findSome? (filed? root m) with
    | none =>
      have listed : name ∈ candidatesFrom name (components scope).reverse :=
        (mem_candidatesFrom_iff _).mpr ⟨[], nil_suffix, rfl⟩
      exact (findSome?_eq_none_iff.mp found name listed).symm
    | some s =>
      obtain ⟨kept, suffix, first, longest⟩ := (findSome?_candidatesFrom _).mp found
      by_cases outer : kept = []
      · subst outer
        exact first.symm
      · have isPrefix : kept.reverse <+: components scope := by simpa [reversed] using suffix
        rcases inner kept.reverse s isPrefix (by simpa using outer)
          (filed?_eq_some_iff.mp first) with top | ⟨longer, more⟩
        · exact (filed?_eq_some_iff.mpr top).symm
        · obtain ⟨isPrefix, more, other, listed, introduces⟩ := more
          have absent := longest longer.reverse ((reversed longer).mp isPrefix) (by simpa using more)
          rw [reverse_reverse] at absent
          exact absurd introduces (filed?_eq_none_iff.mp absent other listed)

/-- A class at the top and one of the same name in a namespace, which has no pen of its own. -/
def drawingModule : Node :=
  .mk (.named .moduleDecl "drawing")
    [.mk (.named .classDecl "Shape") [],
     .mk (.named .classDecl "Pen") [],
     .mk (.named .namespaceDecl "draw")
      [.mk (.named .classDecl "Shape") []]]

theorem absolute_name_iff_drawingModule :
    IsQualifiedName "Pen" ∧
      (ofTree (.root drawingModule)).named? .cls "::Pen" "draw" =
        (ofTree (.root drawingModule)).named? .cls "Pen" "" := by
  have qualified : IsQualifiedName "Pen" := ⟨["Pen"], by decide, by decide, rfl⟩
  refine ⟨qualified, (absolute_name_iff (.root drawingModule) .cls qualified "draw").mpr ?_⟩
  intro kept s isPrefix inner first
  have absent : filed? (.root drawingModule) .cls (within kept "Pen") = none := by
    obtain rfl : kept = ["draw"] := by
      rw [show components "draw" = ["draw"] by decide] at isPrefix
      rcases prefix_cons_iff.mp isPrefix with rfl | ⟨rest, rfl, ends⟩
      · exact absurd rfl inner
      · rw [prefix_nil.mp ends]
    decide
  rw [filed?_eq_some_iff.mpr first] at absent
  cases absent

/-- Seen from the namespace, the absolute name means the class in the namespace. -/
theorem drawingModule_rebinds :
    IsQualifiedName "Shape" ∧
      ((ofTree (.root drawingModule)).named? .cls "::Shape" "draw").map (·.id) = some (.declared [2, 0]) ∧
      ((ofTree (.root drawingModule)).named? .cls "Shape" "").map (·.id) = some (.declared [0]) :=
  ⟨⟨["Shape"], by decide, by decide, rfl⟩, by decide, by decide⟩

end FlatAbi.SymbolTable
