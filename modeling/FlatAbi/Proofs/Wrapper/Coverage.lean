import FlatAbi.Proofs.Facade.Needs
import FlatAbi.Proofs.Wrapper.Alignment

/-!
The default typemaps cover every category but void, so that a wrapper is skipped for a void type only.
-/

namespace FlatAbi

open Emit Bool List CxxType

variable {position : Nat} {method : Method} {category : Category} {p : TypedParameter}

/-- A type that is `void` under nothing but qualifiers. -/
def CxxType.IsQualifiedVoid (t : CxxType) : Prop :=
  t.base = "void" ∧ ∀ d ∈ t.declarators, d.isQualifier

theorem CxxType.isVoid_iff (t : CxxType) : t.isVoid ↔ t.IsQualifiedVoid := by
  simp [isVoid, IsQualifiedVoid, stripQualifiers, filter_eq_nil_iff]

theorem Category.mem_all (category : Category) : category ∈ all := by
  cases category <;> decide

/-- The two conversions that every wrapper looks for. -/
def Method.isConversion : Method → Bool
  | .input | .output => true
  | _ => false

theorem defaultCode?_isSome_iff (conversion : method.isConversion) (category : Category) :
    (defaultCode? method category).isSome ↔ category ≠ .void := by
  cases method with
  | input | output => cases category <;> simp [defaultCode?]
  | ctype | check | freearg => cases conversion

namespace Wrapper

variable {job : Job} {r : Resolver} {c : Callable}

theorem resolve_isVoid_iff {t : CxxType} (known : categoryOf r c t = .ok category) :
    category = .void ↔ (r.table.resolve t c.site.scopeName).isVoid := by
  have category := Resolver.category_of_categoryAt known
  rw [Site.display_scopeValue] at category
  exact (SymbolTable.classified category).void_iff

/-- Under default typemaps only `void` is not converted. -/
theorem typemap_eq_none {t : CxxType} (defaults : job.typemaps.useDefaults) (conversion : method.isConversion)
    (absent : typemap? job r method t c.site.scopeName (some category) = none) :
    category = .void ∧
      job.typemaps.userTypemap? method [t, r.table.resolve t c.site.scopeName] (some category) = none := by
  unfold typemap? TypemapTable.lookup at absent
  split at absent
  · cases absent
  next unruled =>
    rw [if_pos defaults, Option.map_eq_none_iff] at absent
    refine ⟨Decidable.byContradiction fun other => ?_, unruled⟩
    have covered := (defaultCode?_isSome_iff conversion category).mpr other
    rw [show defaultCode? method category = none from absent] at covered
    cases covered

/-- The result is `void` under another name, and no rule of the user converts it. -/
def losesResult (job : Job) (r : Resolver) (c : Callable) : Bool :=
  let resolved := r.table.resolve c.result c.site.scopeName
  !c.result.isVoid && resolved.isVoid &&
    (job.typemaps.userTypemap? .output [c.result, resolved] (some .void)).isNone

variable {warning : String}

theorem halted_ne_skipped {α : Type} {result : Except Halt α} :
    result.mapError Stop.halted ≠ .error (.skipped warning) := by
  cases result <;> simp [Except.mapError]

theorem losesResult_of_skipped (defaults : job.typemaps.useDefaults)
    (skipped : convertedResult job r c = .error (.skipped warning)) : losesResult job r c := by
  unfold convertedResult at skipped
  split at skipped
  · cases skipped
  next valued =>
    rcases bind_eq_error skipped with impossible | ⟨category, known, skipped⟩
    · exact absurd impossible halted_ne_skipped
    · split at skipped
      next absent =>
        obtain ⟨rfl, unruled⟩ := typemap_eq_none defaults rfl absent
        have isVoid := (resolve_isVoid_iff (mapError_eq_ok_iff.mp known)).mp rfl
        simp [losesResult, valued, isVoid, unruled]
      · cases skipped

theorem losesResult_of_converted {result : Option ConvertedResult} (converted : convertedResult job r c = .ok result) :
    losesResult job r c = false := by
  unfold convertedResult at converted
  split at converted
  next isVoid => simp [losesResult, isVoid]
  · obtain ⟨category, known, converted⟩ := bind_eq_ok converted
    have known := mapError_eq_ok_iff.mp known
    rw [eq_false_iff]
    intro loses
    simp only [losesResult, and_eq_true, Option.isNone_iff_eq_none] at loses
    obtain rfl := (resolve_isVoid_iff known).mpr loses.1.2
    have absent : typemap? job r .output c.result c.site.scopeName (some .void) = none := by
      unfold typemap? TypemapTable.lookup
      rw [loses.2]
      simp [defaultCode?]
    rw [absent] at converted
    cases converted

/-- A parameter is `void`, and no rule of the user converts it. -/
def losesParameter (job : Job) (r : Resolver) (c : Callable) (t : CxxType) : Bool :=
  let resolved := r.table.resolve t c.site.scopeName
  resolved.isVoid && (job.typemaps.userTypemap? .input [t, resolved] (some .void)).isNone

/-- All parameters and the result are converted. -/
def isConvertible (job : Job) (r : Resolver) (c : Callable) : Bool :=
  (c.parameters.filterMap (·.type)).all (fun t => !losesParameter job r c t) && !losesResult job r c

theorem losesParameter_of_skipped {cName warning : String} (defaults : job.typemaps.useDefaults)
    (skipped : argument job r c position cName p = .error (.skipped warning)) : losesParameter job r c p.type := by
  rcases bind_eq_error skipped with impossible | ⟨category, known, skipped⟩
  · exact absurd impossible halted_ne_skipped
  · split at skipped
    next absent =>
      obtain ⟨rfl, unruled⟩ := typemap_eq_none defaults rfl absent
      have isVoid := (resolve_isVoid_iff (mapError_eq_ok_iff.mp known)).mp rfl
      simp [losesParameter, isVoid, unruled]
    · cases skipped

theorem losesParameter_of_argument {cName : String} {a : Argument} (found : argument job r c position cName p = .ok a) :
    losesParameter job r c p.type = false := by
  obtain ⟨category, known, found⟩ := bind_eq_ok found
  rw [eq_false_iff]
  intro loses
  simp only [losesParameter, and_eq_true, Option.isNone_iff_eq_none] at loses
  obtain rfl := (resolve_isVoid_iff (mapError_eq_ok_iff.mp known)).mpr loses.1
  have absent : typemap? job r .input p.type c.site.scopeName (some .void) = none := by
    unfold typemap? TypemapTable.lookup
    rw [loses.2]
    simp [defaultCode?]
  rw [absent] at found
  cases found

theorem exists_losesParameter_of_skipped {listed : List (TypedParameter × String)} (defaults : job.typemaps.useDefaults)
    (skipped : argumentsFrom job r c position listed = .error (.skipped warning)) :
    ∃ p ∈ listed.map (·.1), losesParameter job r c p.type := by
  induction listed generalizing position with
  | nil => cases skipped
  | cons first rest ih =>
    rcases bind_eq_error skipped with here | ⟨_, _, skipped⟩
    · exact ⟨first.1, by simp, losesParameter_of_skipped defaults here⟩
    · rcases bind_eq_error skipped with later | ⟨_, _, impossible⟩
      · obtain ⟨p, member, loses⟩ := ih later
        exact ⟨p, mem_cons_of_mem _ member, loses⟩
      · cases impossible

variable {parameters : List TypedParameter}

theorem isConvertible_iff (typed : typedParameters c = .ok parameters) :
    isConvertible job r c ↔
      (∀ p ∈ parameters, losesParameter job r c p.type = false) ∧ losesResult job r c = false := by
  rw [isConvertible, typedParameters_map typed, all_map, and_eq_true, all_eq_true]
  simp

theorem isConvertible_of_plan {p : Plan} (typed : typedParameters c = .ok parameters)
    (planned : plan job r c parameters = .ok p) : isConvertible job r c := by
  obtain ⟨_, found, converted⟩ := plan_eq_ok planned
  have named : parameters.length ≤ (parameterNames (firstPosition c) (parameters.map (·.name))).length := by
    simp [parameterNames, parameterNamesFrom_length]
  have kept : ∀ p ∈ parameters, losesParameter job r c p.type = false := by
    rw [← map_fst_zip named, forall_mem_map]
    refine ((forall₂_and_left (R := fun _ _ => True) _ _).mp ((arguments_eq_ok found).imp ?_)).1
    rintro _ _ ⟨_, same⟩
    exact ⟨losesParameter_of_argument same, trivial⟩
  exact (isConvertible_iff typed).mpr ⟨kept, losesResult_of_converted converted⟩

theorem not_isConvertible_of_skipped (defaults : job.typemaps.useDefaults)
    (typed : typedParameters c = .ok parameters) (skipped : plan job r c parameters = .error (.skipped warning)) :
    isConvertible job r c = false := by
  rw [eq_false_iff, ne_eq, isConvertible_iff typed]
  rintro ⟨kept, returned⟩
  rcases bind_eq_error skipped with skipped | ⟨_, _, skipped⟩
  · rcases bind_eq_error skipped with impossible | ⟨_, _, skipped⟩
    · exact absurd impossible halted_ne_skipped
    · rcases bind_eq_error skipped with impossible | ⟨_, _, skipped⟩
      · exact absurd impossible halted_ne_skipped
      · obtain ⟨p, listed, loses⟩ := exists_losesParameter_of_skipped defaults skipped
        obtain ⟨⟨p, name⟩, member, rfl⟩ := mem_map.mp listed
        rw [kept p (of_mem_zip member).1] at loses
        cases loses
  · rcases bind_eq_error skipped with skipped | ⟨_, _, impossible⟩
    · rw [losesResult_of_skipped defaults skipped] at returned
      cases returned
    · cases impossible

/-- Every category that a type has is listed; it is void exactly for a type that resolves to qualified `void`, the
defaults have both conversions for all others, and a class category has its class. Where the defaults are in use, a
callable for which no wrapper is written has a symbol that is taken, or a parameter that resolves to `void`, or a result
that is `void` by a typedef. -/
theorem categories_covered :
    (∀ (table : SymbolTable) (t : CxxType) (scope : String) (category : Category),
      table.category t scope = .ok category →
        category ∈ Category.all ∧ (category = .void ↔ (table.resolve t scope).IsQualifiedVoid) ∧
        ((defaultCode? .input category).isSome = true ↔ category ≠ .void) ∧
        ((defaultCode? .output category).isSome = true ↔ category ≠ .void) ∧
        (category.isClass = true → (table.class? (table.resolve t scope).base scope).isSome = true)) ∧
    ∀ (job : Job) (c : Callable) (before after : Draft), job.typemaps.useDefaults = true →
      Ends (write job c) before (.ok none) after →
        (∃ symbol names, before.isDefined symbol = true ∧
          after = warnedIn c.site (takenWarning c symbol) { before with names := names }) ∨
        (∃ p ∈ c.parameters, ∃ t ∈ p.type, (before.table.resolve t c.site.scopeName).IsQualifiedVoid) ∨
        ¬ c.result.IsQualifiedVoid ∧ (before.table.resolve c.result c.site.scopeName).IsQualifiedVoid := by
  constructor
  · intro table t scope category known
    have classified := SymbolTable.classified known
    exact ⟨category.mem_all, classified.void_iff.trans (isVoid_iff _), defaultCode?_isSome_iff rfl category,
      defaultCode?_isSome_iff rfl category, classified.exists_class⟩
  · intro job c before after defaults ends
    cases writeEnd_of_ends ends survives_ok with
    | taken defined => exact .inl ⟨_, _, defined, rfl⟩
    | unconverted cxx typed planned =>
      simp only [← isVoid_iff]
      have lost := not_isConvertible_of_skipped defaults typed planned
      simp only [isConvertible, and_eq_false_iff, all_eq_false, not_eq_true', not_eq_false] at lost
      refine .inr (lost.imp ?_ fun result => ?_)
      · rintro ⟨t, written, parameter⟩
        obtain ⟨p, listed, typed⟩ := mem_filterMap.mp written
        simp only [losesParameter, and_eq_true] at parameter
        exact ⟨p, listed, t, typed, parameter.1⟩
      · simp only [losesResult, not_eq_false', and_eq_true, not_eq_true'] at result
        exact ⟨eq_false_iff.mp result.1.1, result.1.2⟩

/-- A function with a parameter that is `void` behind a typedef. -/
def closeNode : Node :=
  .mk { Declaration.named .functionDecl "close" with parameters := [{ type := some ⟨"Handle", []⟩ }] } []

def handleModule : Job :=
  .ofNodes [.mk { Declaration.named .typedefDecl "Handle" with type := some .void } [], closeNode]

def closeCallable : Callable :=
  { site := ⟨.declared [1], closeNode, handleModule.root.inside⟩, role := .function, symbol := .string "close",
    result := .void, parameters := closeNode.decl.parameters }

theorem categories_covered_handleModule :
    ∃ after, Ends (write handleModule closeCallable) (.ofTree handleModule.root) (.ok none) after ∧
      ∃ p ∈ closeNode.decl.parameters, ∃ t ∈ p.type,
        ((SymbolTable.ofTree handleModule.root).resolve t "").IsQualifiedVoid := by
  have skipped : ((write handleModule closeCallable).run.run (.ofTree handleModule.root)).1.toOption.map Option.isNone =
      some true := by
    decide +kernel
  obtain ⟨written, ended, unwritten⟩ := Option.map_eq_some_iff.mp skipped
  have ends := ends_self (write handleModule closeCallable) (.ofTree handleModule.root)
  rw [eq_ok_of_toOption ended, Option.isNone_iff_eq_none.mp unwritten] at ends
  refine ⟨_, ends, ?_⟩
  rcases categories_covered.2 _ _ _ _ rfl ends with ⟨_, _, taken, _⟩ | parameter | result
  · cases taken
  · exact parameter
  · exact absurd ((isVoid_iff _).mp rfl) result.1

end Wrapper

end FlatAbi
