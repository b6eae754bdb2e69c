import FlatAbi.Proofs.Emission.Ends

/-!
Argument texts that cannot be read. A classification fails only with the failure of such a text.
-/

namespace FlatAbi

open List CxxType

variable {cause : TypeSyntaxError} {pending : List String}

namespace CxxType

variable {t : CxxType}

/-- Why an argument text cannot be read. Empty arguments and `void` are never read. -/
def textFailure? (text : String) : Option TypeSyntaxError :=
  if text != "" && text != "void" then
    match read text with
    | .ok _ => none
    | .error cause => some cause
  else none

/-- Why the arguments of one level cannot be read. -/
def levelFailures (d : Declarator) : List TypeSyntaxError :=
  match d.level with
  | .function arguments => (Arguments.split arguments).filterMap textFailure?
  | _ => []

/-- Why arguments of function levels in a type cannot be read. -/
def failures (t : CxxType) : List TypeSyntaxError :=
  t.declarators.flatMap levelFailures

theorem failures_subset_iff {known : List TypeSyntaxError} :
    t.failures ⊆ known ↔ ∀ d ∈ t.declarators, levelFailures d ⊆ known := by
  simp only [failures, subset_def, mem_flatMap]
  exact ⟨fun within d member cause failed => within ⟨d, member, failed⟩,
    fun levels cause ⟨d, member, failed⟩ => levels d member failed⟩

theorem failures_subset_of_subset {other : CxxType} (fewer : t.declarators ⊆ other.declarators) :
    t.failures ⊆ other.failures :=
  failures_subset_iff.mpr fun d member => failures_subset_iff.mp (Subset.refl other.failures) d (fewer member)

theorem failures_pop (t : CxxType) : t.pop.failures ⊆ t.failures :=
  failures_subset_of_subset fun _ member =>
    (dropWhile_suffix Declarator.isQualifier).subset (mem_of_mem_tail member)

theorem failures_stripQualifiers (t : CxxType) : t.stripQualifiers.failures ⊆ t.failures :=
  failures_subset_of_subset filter_sublist.subset

theorem failures_under (t : CxxType) (outer : List Declarator) :
    (t.under outer).failures = outer.flatMap levelFailures ++ t.failures :=
  flatMap_append

theorem mem_failures_of_functionArguments (failed : t.functionArguments = .error cause) : cause ∈ t.failures := by
  unfold functionArguments at failed
  split at failed
  · rename_i arguments isFunction
    obtain ⟨d, outermost, level⟩ := Option.map_eq_some_iff.mp isFunction
    have member : d ∈ t.declarators :=
      (dropWhile_suffix Declarator.isQualifier).subset (mem_of_head? outermost)
    obtain ⟨text, listed, unread⟩ := exists_of_mapM_error failed
    obtain ⟨listed, counts⟩ := mem_filter.mp listed
    refine mem_flatMap.mpr ⟨d, member, ?_⟩
    rw [levelFailures, level]
    refine mem_filterMap.mpr ⟨text, listed, ?_⟩
    rw [textFailure?, if_pos counts, unread]
  · cases failed

end CxxType

namespace Declaration

/-- The types that a declaration is written with. -/
def types (d : Declaration) : List CxxType :=
  d.type.toList ++ d.parameters.filterMap (·.type)

/-- Why argument texts in the types of a declaration cannot be read. -/
def failures (d : Declaration) : List TypeSyntaxError :=
  d.types.flatMap CxxType.failures

variable {d : Declaration} {t : CxxType}

theorem types_failures (listed : t ∈ d.types) : t.failures ⊆ d.failures :=
  fun _ found => mem_flatMap.mpr ⟨t, listed, found⟩

theorem type_failures (written : d.type = some t) : t.failures ⊆ d.failures :=
  types_failures (by simp [types, written])

end Declaration

namespace SymbolTable

variable {table : SymbolTable} {known : List TypeSyntaxError} {t : CxxType} {scope : String}

/-- What cannot be read in the typedefs of a table is known. -/
def KnowsFailures (table : SymbolTable) (known : List TypeSyntaxError) : Prop :=
  ∀ entry ∈ table.typedefs, entry.2.decl.failures ⊆ known

theorem exists_entry_of_find {entries : List (String × Site)} {name : String} {site : Site}
    (found : find? entries name scope = some site) : ∃ key, (key, site) ∈ entries := by
  obtain ⟨candidate, _, looked⟩ := exists_of_findSome?_eq_some found
  obtain ⟨before, after, entries, _⟩ := List.lookup_eq_some_iff.mp looked
  exact ⟨candidate, by simp [entries]⟩

theorem forall_resolveFrom {P : Declarator → Prop}
    (typedefs : ∀ entry ∈ table.typedefs, ∀ target, entry.2.decl.type = some target → ∀ d ∈ target.declarators, P d)
    (levels : ∀ d ∈ t.declarators, P d) : ∀ d ∈ (table.resolveFrom pending t scope).declarators, P d := by
  fun_induction resolveFrom table pending t scope with
  | case1 | case2 | case3 | case5 => exact levels
  | case4 pending t scope _ _ site found target written ih =>
    obtain ⟨key, listed⟩ := exists_entry_of_find found
    exact ih (forall_mem_append.mpr ⟨levels, typedefs _ listed target written⟩)

theorem resolveFrom_failures (knows : table.KnowsFailures known) (within : t.failures ⊆ known) :
    (table.resolveFrom pending t scope).failures ⊆ known := by
  refine failures_subset_iff.mpr (forall_resolveFrom (fun entry listed target written => ?_)
    (failures_subset_iff.mp within))
  exact failures_subset_iff.mp (Subset.trans (Declaration.type_failures written) (knows entry listed))

/-- A type that cannot be classified has an argument text that cannot be read, or a typedef on its way has one. -/
theorem category_failure (knows : table.KnowsFailures known) (within : t.failures ⊆ known)
    (failed : table.category t scope = .error cause) : cause ∈ known := by
  have resolved : (table.resolve t scope).failures ⊆ known := resolveFrom_failures knows within
  unfold category at failed
  dsimp only at failed
  split at failed
  · cases failed
  · split at failed
    · rcases bind_eq_error failed with failed | ⟨_, _, failed⟩
      · rcases bind_eq_error failed with unread | ⟨_, _, impossible⟩
        · exact resolved (failures_pop _ (mem_failures_of_functionArguments unread))
        · cases impossible
      · split at failed <;> cases failed
    · cases failed

end SymbolTable

end FlatAbi
