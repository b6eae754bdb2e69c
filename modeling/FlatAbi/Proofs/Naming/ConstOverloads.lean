import FlatAbi.Proofs.Naming.Keys
import FlatAbi.Proofs.Naming.Overloads

/-!
A `const` method beside one that is not. Two spellings of one type leave both with one name.
-/

namespace FlatAbi

open Members Wrapper List Naming FlatAbi.Module NameBook

variable {r : Resolver} {cls f g : Site} {abstract : Bool} {declared : List Own} {handed : List Callable}

/-- A public method of a class that is called on an object. -/
structure IsOwnMethod (cls f : Site) : Prop where
  listed : f ∈ cls.children
  function : f.kind = .functionDecl
  shown : f.decl.isIgnored = false
  exposed : f.decl.isPublic
  member : f.decl.isFriend = false
  bound : f.decl.isStatic = false

/-- The callable of a method. -/
def methodOf (cls f : Site) : Callable where
  site := f
  role := .method
  symbol := f.decl.symbolValue
  result := f.decl.type.getD .void
  parameters := f.decl.parameters
  owner := some cls

namespace IsOwnMethod

section

variable (method : IsOwnMethod cls f) (owned : own r cls abstract = .ok declared)

include method owned

theorem mem_declared : ⟨f, [methodOf cls f]⟩ ∈ declared := by
  have children : declared.map (·.child) = cls.children := map_of_mapM_ok (fun _ _ found => (own_child found).1) owned
  have listed : f ∈ declared.map (·.child) := children ▸ method.listed
  obtain ⟨o, member, same⟩ := mem_map.mp listed
  obtain ⟨child, _, found⟩ := exists_of_mem_mapM_ok owned o member
  obtain rfl : child = f := (own_child found).1.symm.trans same
  simp only [method.shown, method.exposed, Bool.not_true, Bool.or_self, Bool.false_eq_true, if_false, ofChild,
    method.function, method.member, method.bound] at found
  obtain ⟨_, given, rfl⟩ := map_eq_ok found
  obtain ⟨_, _, given⟩ := bind_eq_ok given
  cases given
  exact member

theorem mem_all (handed : List Callable) : methodOf cls f ∈ declared.flatMap (·.callables) ++ handed :=
  mem_append_left _ (mem_flatMap.mpr ⟨_, method.mem_declared owned, by simp⟩)

theorem mem_inOrder (handed : List Callable) :
    .callable (markOverload (declared.flatMap (·.callables) ++ handed) (methodOf cls f)) ∈
      inOrder cls abstract declared handed := by
  refine mem_append_left _ (mem_append_left _ (mem_flatMap.mpr ⟨_, method.mem_declared owned, ?_⟩))
  simp [ofOwn, method.shown, method.function]

end

end IsOwnMethod

/-- The parameter types of a method as they are written. -/
def writtenTypes (f : Site) : List (Option CxxType) :=
  f.decl.parameters.map (·.type)

/-- The parameter types of a method after typedefs are resolved. -/
def resolvedTypes (table : SymbolTable) (f : Site) : List (Option CxxType) :=
  (writtenTypes f).map (·.map (table.resolve · f.scopeName))

theorem SymbolTable.overloadCode_of_resolved {table : SymbolTable} {t t' : CxxType} {scope : String}
    (same : table.resolve t scope = table.resolve t' scope) :
    table.overloadCode t scope = table.overloadCode t' scope := by
  rw [overloadCode, overloadCode, same]

theorem IsOwnMethod.scopeName_eq (one : IsOwnMethod cls f) (two : IsOwnMethod cls g) : f.scopeName = g.scopeName := by
  rw [Site.scopeName, Site.scopeName, Site.above_of_mem_childrenFrom one.listed,
    Site.above_of_mem_childrenFrom two.listed]

theorem IsOwnMethod.typeCodes_eq {table : SymbolTable} (one : IsOwnMethod cls f) (two : IsOwnMethod cls g)
    (resolved : resolvedTypes table f = resolvedTypes table g) :
    typeCodes table (methodOf cls f) = typeCodes table (methodOf cls g) := by
  have codes (s : Site) : typeCodes table (methodOf cls s) =
      (writtenTypes s).filterMap (Option.map (table.overloadCode · s.scopeName)) := by
    rw [writtenTypes, filterMap_map, typeCodes, map_filterMap]
    rfl
  have factors : Function.FactorsThrough (Option.map (table.overloadCode · g.scopeName))
      (Option.map (table.resolve · g.scopeName)) := by
    intro t t' same
    cases t <;> cases t' <;> simp only [Option.map_none, Option.map_some, reduceCtorEq, Option.some.injEq] at same ⊢
    exact SymbolTable.overloadCode_of_resolved same
  obtain ⟨code, coded⟩ := (Function.factorsThrough_iff _).mp factors
  rw [resolvedTypes, resolvedTypes, one.scopeName_eq two] at resolved
  rw [codes f, codes g, one.scopeName_eq two, coded, ← filterMap_map, resolved, filterMap_map]

theorem Naming.overloadSuffix_const_ne (codes : List String) :
    overloadSuffix codes true ≠ overloadSuffix codes false := by
  intro same
  have lengths := congrArg String.length same
  simp [overloadSuffix] at lengths

theorem methodOf_eq_iff : methodOf cls f = methodOf cls g ↔ f = g :=
  ⟨congrArg Callable.site, congrArg (methodOf cls)⟩

theorem sameParameters_methodOf (cls f g : Site) :
    sameParameters (methodOf cls f) (methodOf cls g) ↔ writtenTypes f = writtenTypes g :=
  beq_iff_eq

theorem markOverload_methodOf {all : List Callable} (several : 2 ≤ (methodGroup all (methodOf cls f)).length) :
    markOverload all (methodOf cls f) =
      { methodOf cls f with
        overloaded := true
        constOverloaded := isConstTwin (methodGroup all (methodOf cls f)) (methodOf cls f) } := by
  have method : isMethod (methodOf cls f) := rfl
  unfold markOverload
  rw [method, if_neg (by simp [isConstructor, methodOf]), if_pos (by simpa using several)]

theorem wrapperName_methodOf {all : List Callable} (config : Config) (codes : List String)
    (several : 2 ≤ (methodGroup all (methodOf cls f)).length) :
    wrapperName config (markOverload all (methodOf cls f)) codes =
      proxyName config cls ++ "_" ++ f.decl.symbolValue.display ++
        Naming.overloadSuffix codes (isConstTwin (methodGroup all (methodOf cls f)) (methodOf cls f)) := by
  rw [markOverload_methodOf several]
  rfl

theorem typeCodes_markOverload {all : List Callable} (table : SymbolTable) (c : Callable) :
    typeCodes table (markOverload all c) = typeCodes table c := by
  unfold markOverload
  split
  · rfl
  · split <;> rfl

section Pair

variable {all : List Callable} (symbol : f.decl.symbolValue = g.decl.symbolValue)

include symbol

theorem methodGroup_eq : methodGroup all (methodOf cls f) = methodGroup all (methodOf cls g) := by
  have same : (methodOf cls f).symbol = (methodOf cls g).symbol := symbol
  rw [methodGroup, methodGroup, same]

theorem mem_methodGroup (listed : methodOf cls g ∈ all) : methodOf cls g ∈ methodGroup all (methodOf cls f) := by
  have method : isMethod (methodOf cls g) := rfl
  rw [methodGroup_eq symbol]
  exact mem_filter.mpr ⟨listed, by simp [method]⟩

theorem two_le_methodGroup (one : methodOf cls f ∈ all) (two : methodOf cls g ∈ all) (apart : f ≠ g) :
    2 ≤ (methodGroup all (methodOf cls f)).length := by
  have distinct : [methodOf cls f, methodOf cls g].Nodup := by simp [methodOf_eq_iff, apart]
  refine (subperm_of_subset distinct fun c listed => ?_).length_le
  rcases mem_pair.mp listed with rfl | rfl
  · exact mem_methodGroup rfl one
  · exact mem_methodGroup symbol two

theorem isConstTwin_iff (two : methodOf cls g ∈ all) (const : f.decl.isConst) (mutable : g.decl.isConst = false)
    (pair : ∀ c ∈ methodGroup all (methodOf cls f), c = methodOf cls f ∨ c = methodOf cls g) :
    isConstTwin (methodGroup all (methodOf cls f)) (methodOf cls f) ↔ writtenTypes f = writtenTypes g := by
  have isConst : (methodOf cls f).decl.isConst := const
  have notConst : (methodOf cls g).decl.isConst = false := mutable
  rw [isConstTwin, isConst, Bool.true_and, any_eq_true]
  constructor
  · rintro ⟨other, listed, matching⟩
    rw [Bool.and_eq_true] at matching
    rcases pair other listed with rfl | rfl
    · rw [isConst] at matching
      cases matching.1
    · exact ((sameParameters_methodOf cls g f).mp matching.2).symm
  · intro written
    refine ⟨methodOf cls g, mem_methodGroup symbol two, ?_⟩
    rw [notConst, (sameParameters_methodOf cls g f).mpr written.symm]
    rfl

omit symbol in
theorem isConstTwin_of_mutable {group : List Callable} (mutable : g.decl.isConst = false) :
    isConstTwin group (methodOf cls g) = false := by
  have notConst : (methodOf cls g).decl.isConst = false := mutable
  rw [isConstTwin, notConst, Bool.false_and]

theorem wrapperNames_ne_iff {codes : List String} (one : methodOf cls f ∈ all) (two : methodOf cls g ∈ all)
    (const : f.decl.isConst) (mutable : g.decl.isConst = false)
    (pair : ∀ c ∈ methodGroup all (methodOf cls f), c = methodOf cls f ∨ c = methodOf cls g) (config : Config) :
    wrapperName config (markOverload all (methodOf cls f)) codes ≠
        wrapperName config (markOverload all (methodOf cls g)) codes ↔
      writtenTypes f = writtenTypes g := by
  have apart : f ≠ g := by
    rintro rfl
    rw [const] at mutable
    cases mutable
  have several := two_le_methodGroup symbol one two apart
  have several' : 2 ≤ (methodGroup all (methodOf cls g)).length := methodGroup_eq symbol ▸ several
  rw [wrapperName_methodOf config _ several, wrapperName_methodOf config _ several', isConstTwin_of_mutable mutable,
    symbol, ne_eq, String.append_right_inj, ← isConstTwin_iff symbol two const mutable pair]
  cases isConstTwin (methodGroup all (methodOf cls f)) (methodOf cls f) with
  | true => simpa using overloadSuffix_const_ne codes
  | false => simp

end Pair

theorem NameBook.name_after {book : NameBook} {c c' : Callable} {config : Config} {codes codes' : List String}
    (apart : c.key ≠ c'.key) (unfiled : ∀ entry ∈ book, entry.1 ≠ c'.key) :
    ((book.name config c codes).2.name config c' codes').1 = wrapperName config c' codes' := by
  refine name_of_unfiled ?_ config codes'
  exact forall_mem_cons.mpr ⟨apart, unfiled⟩

/-- Two methods of a symbol, one of them `const`, that no third one shares the symbol with and whose parameter types are
the same once resolved, are both among the members of the class. They get different names exactly if their parameter
types are written the same. -/
theorem const_overload_names_ne_iff (owned : own r cls abstract = .ok declared) (one : IsOwnMethod cls f)
    (two : IsOwnMethod cls g) (apart : f.id ≠ g.id) (symbol : f.decl.symbolValue = g.decl.symbolValue)
    (const : f.decl.isConst = true) (mutable : g.decl.isConst = false)
    (resolved : resolvedTypes r.table f = resolvedTypes r.table g)
    (pair : ∀ c ∈ methodGroup (declared.flatMap (·.callables) ++ handed) (methodOf cls f),
      c = methodOf cls f ∨ c = methodOf cls g) :
    ∃ c c', .callable c ∈ inOrder cls abstract declared handed ∧ .callable c' ∈ inOrder cls abstract declared handed ∧
      c.site = f ∧ c'.site = g ∧
      ∀ (config : Config) (book : NameBook), (∀ entry ∈ book, entry.1.node ≠ f.id ∧ entry.1.node ≠ g.id) →
        ((book.name config c (typeCodes r.table c)).1 ≠
            ((book.name config c (typeCodes r.table c)).2.name config c' (typeCodes r.table c')).1 ↔
          writtenTypes f = writtenTypes g) := by
  refine ⟨_, _, one.mem_inOrder owned handed, two.mem_inOrder owned handed, congrArg Prod.fst (markOverload_place _ _),
    congrArg Prod.fst (markOverload_place _ _), fun config book unfiled => ?_⟩
  rw [typeCodes_markOverload, typeCodes_markOverload, ← one.typeCodes_eq two resolved, name_of_unfiled, name_after]
  · exact wrapperNames_ne_iff symbol (one.mem_all owned handed) (two.mem_all owned handed) const mutable pair config
  · rw [(markOverload_key _ _).1, (markOverload_key _ _).1]
    exact fun same => apart (congrArg NameKey.node same)
  · rw [(markOverload_key _ _).1]
    exact fun entry filed same => (unfiled entry filed).2 (congrArg NameKey.node same)
  · rw [(markOverload_key _ _).1]
    exact fun entry filed same => (unfiled entry filed).1 (congrArg NameKey.node same)

namespace ConstTwins

def method (spelling : String) (isConst : Bool) : Node :=
  .mk
    { Declaration.named .functionDecl "f" with
      isConst := isConst
      parameters := [{ name := .string "x", type := some ⟨spelling, []⟩ }] } []

/-- A class with two methods `f`. The one that is not `const` takes an `Int`, the other one a type that is given. -/
def job (spelling : String) : Job where
  config := { givenModule := .string "m", exceptions := false, facade := false }
  root := .root <| .mk (.named .moduleDecl "m")
    [ .mk { Declaration.named .typedefDecl "Int" with type := some ⟨"int", []⟩ } [],
      .mk (.named .classDecl "C")
        [method "Int" false, method spelling true] ]
  typemaps := {}

def site (spelling : String) (path : List Nat) : Site :=
  ((job spelling).root.descend? path).getD (job spelling).root

def twins (spelling : String) : Site :=
  site spelling [1]

theorem isOwnMethod_mutable : IsOwnMethod (twins "Int") (site "Int" [1, 0]) :=
  ⟨.head _, rfl, rfl, rfl, rfl, rfl⟩

theorem isOwnMethod_const : IsOwnMethod (twins "Int") (site "Int" [1, 1]) :=
  ⟨.tail _ (.head _), rfl, rfl, rfl, rfl, rfl⟩

end ConstTwins

open ConstTwins

theorem const_overload_names_ne_int :
    ∃ declared c c', own (resolver (job "Int")) (twins "Int") false = .ok declared ∧
      .callable c ∈ inOrder (twins "Int") false declared [] ∧ .callable c' ∈ inOrder (twins "Int") false declared [] ∧
      c.site = site "Int" [1, 1] ∧ c'.site = site "Int" [1, 0] ∧
      (NameBook.name [] (job "Int").config c (typeCodes (resolver (job "Int")).table c)).1 ≠
        ((NameBook.name [] (job "Int").config c (typeCodes (resolver (job "Int")).table c)).2.name
          (job "Int").config c' (typeCodes (resolver (job "Int")).table c')).1 := by
  have owned : own (resolver (job "Int")) (twins "Int") false =
      .ok [⟨site "Int" [1, 0], [methodOf (twins "Int") (site "Int" [1, 0])]⟩,
        ⟨site "Int" [1, 1], [methodOf (twins "Int") (site "Int" [1, 1])]⟩] := rfl
  obtain ⟨c, c', listed, listed', place, place', names⟩ := const_overload_names_ne_iff owned isOwnMethod_const
    isOwnMethod_mutable (by decide) rfl rfl rfl (by decide +kernel)
    (fun c grouped => (mem_pair.mp (mem_of_mem_filter grouped)).symm)
  exact ⟨_, c, c', owned, listed, listed', place, place',
    (names (job "Int").config [] (fun _ filed => by cases filed)).mpr rfl⟩

/-- Of two spellings of a type one method is lost. -/
theorem const_overload_lost :
    resolvedTypes (resolver (job "int")).table (site "int" [1, 1]) =
        resolvedTypes (resolver (job "int")).table (site "int" [1, 0]) ∧
      (run (job "int")).toOption.map (fun draft =>
        (draft.symbols.map (·.name.display), draft.diagnostics.map (·.message))) =
          some (["C", "C_f_i", "C_new", "C_delete"], ["Wrapper C_f_i already defined, C::f skipped"]) := by
  constructor <;> decide +kernel

end FlatAbi
