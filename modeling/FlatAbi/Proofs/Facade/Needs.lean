import FlatAbi.Facade.Basic
import FlatAbi.Proofs.Resolver.Categories
import FlatAbi.Proofs.Wrapper.Outcome

/-!
What the types of facade members need, the prototype of the wrapper needs as well.
-/

namespace FlatAbi

open Emit List

variable {p : Plan} {parameters : List TypedParameter}

/-- No rule of the user gives a C type. -/
def TypemapTable.HasNoCType (table : TypemapTable) : Prop :=
  (∀ entry ∈ table.byType, entry.1.1 ≠ .ctype) ∧ ∀ entry ∈ table.byCategory, entry.1.1 ≠ .ctype

instance (table : TypemapTable) : Decidable table.HasNoCType :=
  inferInstanceAs (Decidable (_ ∧ _))

theorem lookup_eq_none_of_method {α : Type} [BEq α] [LawfulBEq α] {method : Method} {key : α}
    {entries : List ((Method × α) × Typemap)} (absent : ∀ entry ∈ entries, entry.1.1 ≠ method) :
    entries.lookup (method, key) = none := by
  rw [lookup_eq_none_iff]
  intro entry member
  have other := absent entry member
  simp only [bne_iff_ne, ne_eq]
  intro same
  exact other (congrArg Prod.fst same).symm

theorem TypemapTable.HasNoCType.lookup_eq_none {table : TypemapTable} (untyped : table.HasNoCType)
    (types : List CxxType) (category : Option Category) : table.lookup .ctype types category = .none := by
  have byType (t : CxxType) : table.forType? .ctype t = .none := lookup_eq_none_of_method untyped.1
  have byCategory : table.forCategory? .ctype category = .none := by
    cases category with
    | none => rfl
    | some c => exact lookup_eq_none_of_method untyped.2
  have user : table.userTypemap? .ctype types category = .none := by
    simp [userTypemap?, byType, byCategory]
  cases category <;> simp [TypemapTable.lookup, user, defaultCode?]

variable {job : Job} {r : Resolver} {c : Callable} {t : CxxType} {category : Category}

namespace Resolver

variable {rendering : FacadeRendering}

theorem plainFacade_needs {scope : String} (cxx : r.config.cplusplus)
    (known : r.table.category t scope = .ok category) (rendered : r.plainFacade t scope = .ok rendering) :
    rendering.needs = (r.cTypeOf t scope .header category).needs := by
  simp only [plainFacade, cType, cxx, known, Bool.not_true, Bool.false_eq_true, if_false] at rendered
  cases rendered
  rfl

variable {scope : Value} (cxx : r.config.cplusplus) (known : r.categoryAt t scope = .ok category)

include cxx known

theorem facadeParameterAt_needs (rendered : r.facadeParameterAt t scope = .ok rendering) :
    rendering.needs ⊆ (r.cTypeOf t scope.display .header category).needs := by
  have found := category_of_categoryAt known
  obtain ⟨_, _, rendered⟩ := bind_eq_ok rendered
  obtain ⟨_, _, rendered⟩ := bind_eq_ok rendered
  obtain ⟨other, same, rendered⟩ := bind_eq_ok (mapError_eq_ok_iff.mp rendered)
  cases found.symm.trans same
  split at rendered
  · rw [plainFacade_needs cxx found rendered]
    exact Subset.refl _
  · split at rendered <;> rw [← Except.ok.inj rendered] <;> exact nil_subset _

theorem facadeResultAt_needs (rendered : r.facadeResultAt t scope = .ok rendering) :
    rendering.needs ⊆ (r.cTypeOf t scope.display .header category).needs := by
  have found := category_of_categoryAt known
  obtain ⟨_, _, rendered⟩ := bind_eq_ok rendered
  obtain ⟨_, _, rendered⟩ := bind_eq_ok rendered
  obtain ⟨other, same, rendered⟩ := bind_eq_ok rendered
  cases found.symm.trans (mapError_eq_ok_iff.mp same)
  split at rendered
  · cases rendered
    exact nil_subset _
  · cases rendered
  · cases rendered
  · split at rendered
    · rw [plainFacade_needs cxx found (mapError_eq_ok_iff.mp rendered)]
      exact Subset.refl _
    · cases rendered
      unfold facadeObject
      split <;> exact nil_subset _

end Resolver

namespace Wrapper

theorem cTypeOf_eq (plain : job.typemaps.HasNoCType) (scope : String) (side : Side) :
    cTypeOf job r t scope category side = r.cTypeOf t scope side category := by
  rw [cTypeOf, typemap?, plain.lookup_eq_none]

theorem plan_category (planned : plan job r c parameters = .ok p) :
    ∀ a ∈ p.args, categoryOf r c a.type = .ok a.category := by
  obtain ⟨_, found, _⟩ := plan_eq_ok planned
  intro a listed
  obtain ⟨_, _, _, same⟩ := exists_of_mem_right (arguments_eq_ok found) listed
  exact (argument_eq_ok same).2.2

theorem convertedResult_category {result : ConvertedResult} (found : convertedResult job r c = .ok (some result)) :
    result.type = c.result ∧ categoryOf r c c.result = .ok result.category := by
  unfold convertedResult at found
  split at found
  · cases found
  · obtain ⟨category, known, found⟩ := bind_eq_ok found
    split at found
    · cases found
    · cases found
      exact ⟨rfl, mapError_eq_ok_iff.mp known⟩

theorem convertedResult_isVoid (found : convertedResult job r c = .ok none) : c.result.isVoid := by
  unfold convertedResult at found
  split at found
  · assumption
  · obtain ⟨category, _, found⟩ := bind_eq_ok found
    split at found <;> cases found

theorem Plan.subset_headerNeeds (listed : (t, category) ∈ p.prototypeTypes) :
    (cTypeOf job r t p.scope category .header).needs ⊆ p.headerNeeds job r :=
  fun _ needed => mem_flatMap.mpr ⟨_, listed, needed⟩

end Wrapper

/-- A facade member can only need what is listed. -/
structure Facade.Covered (r : Resolver) (needs : List Need) (c : Callable) (inputs : List Wrapper.TypedParameter) :
    Prop where
  result : ∀ rendering, Facade.result r c = .ok rendering → rendering.needs ⊆ needs
  parameter : ∀ p ∈ inputs, ∀ rendering, r.facadeParameterAt p.type c.site.scopeValue = .ok rendering →
    rendering.needs ⊆ needs

open Wrapper

/-- The prototype of a wrapper needs all that the facade member for it does. -/
theorem Wrapper.Plan.covered (cxx : r.config.cplusplus) (plain : job.typemaps.HasNoCType)
    (planned : plan job r c parameters = .ok p) :
    Facade.Covered r (p.headerNeeds job r) c (p.visible.map fun a => ⟨some a.cName, a.type⟩) := by
  have categories := plan_category planned
  obtain ⟨rfl, _, converted⟩ := plan_eq_ok planned
  -- a type of the prototype is declared under the scope that the facade resolves it in
  have declared {t : CxxType} {category : Category} (listed : (t, category) ∈ p.prototypeTypes) :
      (r.cTypeOf t p.callable.site.scopeValue.display .header category).needs ⊆ p.headerNeeds job r := by
    have subset : (cTypeOf job r t p.scope category .header).needs ⊆ p.headerNeeds job r :=
      Plan.subset_headerNeeds listed
    rw [cTypeOf_eq plain] at subset
    rw [Site.display_scopeValue]
    exact subset
  refine ⟨fun rendering rendered => ?_, fun parameter member rendering rendered => ?_⟩
  · unfold Facade.result at rendered
    split at rendered
    · rw [← Except.ok.inj rendered]
      exact nil_subset _
    · rename_i returns
      cases returned : p.result with
      | none => exact absurd (convertedResult_isVoid (returned ▸ converted)) returns
      | some result =>
        obtain ⟨type, category⟩ := convertedResult_category (returned ▸ converted)
        refine Subset.trans (Resolver.facadeResultAt_needs cxx category rendered) (declared ?_)
        simp [Plan.prototypeTypes, returned, type]
  · obtain ⟨a, visible, rfl⟩ := mem_map.mp member
    have category := categories a (mem_filter.mp visible).1
    refine Subset.trans (Resolver.facadeParameterAt_needs cxx category rendered) (declared ?_)
    exact mem_append_left _ (mem_map.mpr ⟨a, visible, rfl⟩)

end FlatAbi
