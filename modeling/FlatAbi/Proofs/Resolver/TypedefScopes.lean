import FlatAbi.Proofs.Resolver.Transparency

/-!
The scopes in which a typedef is resolved and classified. What is left is classified where the name was written.
-/

namespace FlatAbi.SymbolTable

open Relation Declaration

variable {table : SymbolTable} {name scope : String} {site : Site} {target : CxxType}

theorem resolve_typedef (isName : isBuiltinName name = false) (found : table.typedef? name scope = some site)
    (typed : site.decl.type = some target)
    (apart : ∀ other, ¬ table.Meets (target.base, site.scopeName) name other) :
    table.resolve ⟨name, []⟩ scope = table.resolve target site.scopeName := by
  have opened : table.resolve ⟨name, []⟩ scope =
      table.resolveFrom (strike name (name :: table.typedefBases)) target site.scopeName := by
    unfold resolve
    rw [resolveFrom, if_neg (by simp [CxxType.isBuiltin, isName]), dif_pos List.mem_cons_self, found]
    simp only [typed]
    rfl
  rw [opened]
  refine (SameTypedefs.of_eq rfl).resolveFrom_eq fun spelling other meets => mem_strike_iff found typed ?_
  rintro rfl
  exact apart other meets

/-- The category of a type without typedefs, seen from a scope. -/
def classify (table : SymbolTable) (resolved : CxxType) (scope : String) : Except TypeSyntaxError Category :=
  if resolved.isVoid then .ok .void
  else if (resolved.isPointer || resolved.isMemberPointer) && resolved.pop.isFunction then do
    if ← table.isCSignature resolved.pop scope then return .functionPointer else return .unknownPointer
  else .ok (table.objectCategory resolved scope)

theorem category_eq_classify (t : CxxType) (scope : String) :
    table.category t scope = table.classify (table.resolve t scope) scope := rfl

/-- The base of a type is seen alike from two scopes: as an enum, or else as a class, unless the declarators make no
difference between a class and an unknown name. -/
def BaseAlike (table : SymbolTable) (resolved : CxxType) (one two : String) : Prop :=
  table.isEnumBased resolved one = table.isEnumBased resolved two ∧
    (table.isEnumBased resolved one ∨ classCategory resolved = unknownCategory resolved ∨
      (table.class? resolved.base one).isSome = (table.class? resolved.base two).isSome)

/-- Two scopes see the same in a type without typedefs: a pointer to a function by the result and the arguments of the
function, any other type by its base. -/
def SeenAlike (table : SymbolTable) (resolved : CxxType) (one two : String) : Prop :=
  resolved.isVoid ∨
    if (resolved.isPointer || resolved.isMemberPointer) && resolved.pop.isFunction then
      table.isCSignature resolved.pop one = table.isCSignature resolved.pop two
    else resolved.isBuiltin ∨ table.BaseAlike resolved one two

theorem scalarCategory_ne_classCategory (resolved : CxxType) :
    scalarCategory false resolved ≠ classCategory resolved := by
  unfold scalarCategory classCategory
  repeat' split
  all_goals simp

theorem scalarCategory_ne_unknownCategory (resolved : CxxType) :
    scalarCategory false resolved ≠ unknownCategory resolved := by
  unfold scalarCategory unknownCategory
  repeat' split
  all_goals simp

theorem objectCategory_eq_iff {resolved : CxxType} {one two : String} :
    table.objectCategory resolved one = table.objectCategory resolved two ↔
      resolved.isBuiltin ∨ table.BaseAlike resolved one two := by
  have class_ne := scalarCategory_ne_classCategory resolved
  have unknown_ne := scalarCategory_ne_unknownCategory resolved
  unfold objectCategory BaseAlike
  cases resolved.isBuiltin with
  | true => simp
  | false =>
    cases table.isEnumBased resolved one <;> cases table.isEnumBased resolved two <;>
      cases (table.class? resolved.base one).isSome <;> cases (table.class? resolved.base two).isSome <;>
      simp [class_ne, unknown_ne, class_ne.symm, unknown_ne.symm, eq_comm]

theorem functionCategory_eq_iff {one two : Except TypeSyntaxError Bool} :
    (do if ← one then return Category.functionPointer else return .unknownPointer) =
        (do if ← two then return Category.functionPointer else return .unknownPointer) ↔ one = two := by
  constructor
  · intro same
    cases one with
    | error cause =>
      cases two with
      | error other => exact congrArg Except.error (Except.error.inj same)
      | ok plain => cases plain <;> cases same
    | ok plain =>
      cases two with
      | error other => cases plain <;> cases same
      | ok plain' => cases plain <;> cases plain' <;> cases same <;> rfl
  · rintro rfl
    rfl

theorem classify_eq_iff {resolved : CxxType} {one two : String} :
    table.classify resolved one = table.classify resolved two ↔ table.SeenAlike resolved one two := by
  unfold classify SeenAlike
  cases resolved.isVoid with
  | true => simp
  | false =>
    simp only [Bool.false_eq_true, if_false, false_or]
    split
    · exact functionCategory_eq_iff
    · rw [Except.ok.injEq]
      exact objectCategory_eq_iff

/-- The name of a typedef that lies on no cycle, with no other typedef of the same spelling on its way, has the category
of the type that it stands for, seen where the typedef is declared, exactly when what is left of the type is seen alike
from there and from where the name is written. -/
theorem category_typedef_iff (isName : isBuiltinName name = false) (found : table.typedef? name scope = some site)
    (typed : site.decl.type = some target)
    (acyclic : ∀ spelling, ¬ table.Meets (target.base, site.scopeName) spelling site)
    (single : ∀ other, table.Meets (target.base, site.scopeName) name other → other = site) :
    table.category ⟨name, []⟩ scope = table.category target site.scopeName ↔
      table.SeenAlike (table.resolve target site.scopeName) scope site.scopeName := by
  have apart (other : Site) : ¬ table.Meets (target.base, site.scopeName) name other := by
    intro meets
    obtain rfl := single other meets
    exact acyclic name meets
  rw [category_eq_classify, category_eq_classify, resolve_typedef isName found typed apart]
  exact classify_eq_iff

/-- A class and a typedef of it in a namespace, and two typedefs of one name in and outside another namespace. -/
def scopedModule : Node :=
  .mk (.named .moduleDecl "m")
    [ .mk (.named .namespaceDecl "a")
        [ .mk (.named .classDecl "Box") [],
          .mk { named .typedefDecl "Item" with type := some ⟨"Box", []⟩ } [] ],
      .mk { named .typedefDecl "Count" with type := some ⟨"int", []⟩ } [],
      .mk { named .typedefDecl "Total" with type := some ⟨"Count", []⟩ } [],
      .mk (.named .namespaceDecl "b")
        [ .mk { named .typedefDecl "Count" with type := some ⟨"Total", []⟩ } [] ] ]

def scopedTable : SymbolTable :=
  .ofTree (.root scopedModule)

/-- The typedef that a name means in the module, by its type and its scope. -/
def scopedTypedef (name scope : String) : Option (Option CxxType × String) :=
  (scopedTable.typedef? name scope).map fun site => (site.decl.type, site.scopeName)

theorem exists_of_scopedTypedef {name scope declaredIn : String} {type : Option CxxType}
    (known : scopedTypedef name scope = some (type, declaredIn)) :
    ∃ site, scopedTable.typedef? name scope = some site ∧ site.decl.type = type ∧ site.scopeName = declaredIn := by
  obtain ⟨site, found, same⟩ := Option.map_eq_some_iff.mp known
  cases same
  exact ⟨site, found, rfl, rfl⟩

theorem Meets.along {name scope spelling declaredIn : String} {type : CxxType} {site : Site}
    (meets : scopedTable.Meets (name, scope) spelling site)
    (known : scopedTypedef name scope = some (some type, declaredIn)) :
    spelling = name ∧ site.decl.type = some type ∧ site.scopeName = declaredIn ∨
      scopedTable.Meets (type.base, declaredIn) spelling site := by
  obtain ⟨first, isFirst, typed, rfl⟩ := exists_of_scopedTypedef known
  rcases meets.cases with ⟨_, ⟨rfl, found⟩ | ⟨_, ⟨second, target, found, typed', rfl⟩, rest⟩⟩
  · obtain rfl := Option.some.inj (isFirst.symm.trans found)
    exact .inl ⟨rfl, typed, rfl⟩
  · obtain rfl := Option.some.inj (isFirst.symm.trans found)
    obtain rfl := Option.some.inj (typed.symm.trans typed')
    exact .inr rest

theorem Meets.of_count {spelling : String} {site : Site} (meets : scopedTable.Meets ("Count", "") spelling site) :
    spelling = "Count" ∧ site.decl.type = some ⟨"int", []⟩ ∧ site.scopeName = "" := by
  have known : scopedTypedef "Count" "" = some (some ⟨"int", []⟩, "") := by decide +kernel
  refine (meets.along known).resolve_right fun rest => ?_
  exact absurd rest.cases.1 (by decide +kernel)

theorem category_typedef_iff_scopedModule :
    ∃ site, scopedTable.typedef? "Total" "b" = some site ∧ site.decl.type = some ⟨"Count", []⟩ ∧ site.scopeName = "" ∧
      (scopedTable.category ⟨"Total", []⟩ "b" = scopedTable.category ⟨"Count", []⟩ site.scopeName ↔
        scopedTable.SeenAlike (scopedTable.resolve ⟨"Count", []⟩ site.scopeName) "b" site.scopeName) := by
  have known : scopedTypedef "Total" "b" = some (some ⟨"Count", []⟩, "") := by decide +kernel
  obtain ⟨site, found, typed, declared⟩ := exists_of_scopedTypedef known
  refine ⟨site, found, typed, declared, category_typedef_iff (by decide +kernel) found typed ?_ ?_⟩
  · rw [declared]
    intro spelling meets
    have builtin := meets.of_count.2.1
    simp [typed] at builtin
  · rw [declared]
    intro other meets
    exact absurd meets.of_count.1 (by decide)

/-- Seen from outside its namespace, the typedef of a class is that of an unknown name. A typedef that stands for
another one of the same spelling is not followed to the end. -/
theorem scopedModule_classified_apart :
    (∃ site, scopedTable.typedef? "a::Item" "" = some site ∧ site.decl.type = some ⟨"Box", []⟩ ∧ site.scopeName = "a" ∧
      (∀ spelling, ¬ scopedTable.Meets ("Box", "a") spelling site) ∧
      scopedTable.category ⟨"a::Item", []⟩ "" = .ok .unknownValue ∧
      scopedTable.category ⟨"Box", []⟩ "a" = .ok .classValue) ∧
    ∃ site, scopedTable.typedef? "Count" "b" = some site ∧ site.decl.type = some ⟨"Total", []⟩ ∧ site.scopeName = "b" ∧
      (∀ spelling, ¬ scopedTable.Meets ("Total", "b") spelling site) ∧
      scopedTable.category ⟨"Count", []⟩ "b" = .ok .unknownValue ∧
      scopedTable.category ⟨"Total", []⟩ "b" = .ok .builtin := by
  constructor
  · have item : scopedTypedef "a::Item" "" = some (some ⟨"Box", []⟩, "a") := by decide +kernel
    have box : scopedTypedef "Box" "a" = none := by decide +kernel
    obtain ⟨site, found, typed, declared⟩ := exists_of_scopedTypedef item
    refine ⟨site, found, typed, declared, fun spelling meets => ?_, eq_ok_of_toOption (by decide +kernel),
      eq_ok_of_toOption (by decide +kernel)⟩
    have unknown : scopedTable.typedef? "Box" "a" = none := Option.map_eq_none_iff.mp box
    rcases meets.cases with ⟨_, ⟨_, known⟩ | ⟨_, ⟨_, _, known, _⟩, _⟩⟩
    · simp [unknown] at known
    · simp [unknown] at known
  · have count : scopedTypedef "Count" "b" = some (some ⟨"Total", []⟩, "b") := by decide +kernel
    have total : scopedTypedef "Total" "b" = some (some ⟨"Count", []⟩, "") := by decide +kernel
    obtain ⟨site, found, typed, declared⟩ := exists_of_scopedTypedef count
    refine ⟨site, found, typed, declared, fun spelling meets => ?_, eq_ok_of_toOption (by decide +kernel),
      eq_ok_of_toOption (by decide +kernel)⟩
    -- the other typedefs on the way stand outside the namespace
    rcases meets.along total with outside | meets
    · simp [declared] at outside
    · have outside := meets.of_count.2.2
      simp [declared] at outside

end FlatAbi.SymbolTable
