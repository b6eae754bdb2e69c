import FlatAbi.Proofs.Emission.Failures
import FlatAbi.Proofs.Resolver.Agreement

/-!
Wrappers by resolvers that agree on the types of a callable are the same.
-/

namespace FlatAbi

open Emit List Naming Resolver

/-- The types of a callable are seen. -/
structure Callable.Sees (Seen : String → Prop) (c : Callable) : Prop where
  result : Seen c.result.base
  parameters : ∀ p ∈ c.parameters, ∀ t, p.type = some t → Seen t.base

namespace Wrapper

variable {Seen : String → Prop} {job : Job} {r r' : Resolver} {c : Callable} {t : CxxType}
  (same : r.SameSeen Seen r')

variable {parameters : List TypedParameter}

theorem typedParameters_seen (sees : c.Sees Seen) (typed : typedParameters c = .ok parameters) :
    ∀ p ∈ parameters, Seen p.type.base := by
  intro p listed
  obtain ⟨declared, member, written⟩ := typedParameters_types typed p listed
  exact sees.parameters declared member p.type written

include same

theorem categoryOf_agree (seen : Seen t.base) : categoryOf r c t = categoryOf r' c t :=
  same.categoryAt_eq seen _

theorem typemap_agree (method : Method) (t : CxxType) (scope : String) (category : Option Category) :
    typemap? job r method t scope category = typemap? job r' method t scope category := by
  rw [typemap?, typemap?, same.tables.resolve_eq]

theorem argument_agree {p : TypedParameter} (seen : Seen p.type.base) (position : Nat) (cName : String) :
    argument job r c position cName p = argument job r' c position cName p := by
  simp only [argument, categoryOf_agree same seen, typemap_agree same, same.tables.qualified_eq seen]

theorem argumentsFrom_agree {listed : List (TypedParameter × String)} (seen : ∀ p ∈ listed, Seen p.1.type.base)
    (position : Nat) : argumentsFrom job r c position listed = argumentsFrom job r' c position listed := by
  induction listed generalizing position with
  | nil => rfl
  | cons first rest ih =>
    have others := ih (fun p member => seen p (by simp [member])) (position + 1)
    simp only [argumentsFrom, argument_agree same (seen first (by simp)), others]

theorem convertedResult_agree (sees : c.Sees Seen) : convertedResult job r c = convertedResult job r' c := by
  simp only [convertedResult, categoryOf_agree same sees.result, typemap_agree same,
    same.tables.qualified_eq sees.result]

theorem plan_agree (sees : c.Sees Seen) (seen : ∀ p ∈ parameters, Seen p.type.base) :
    plan job r c parameters = plan job r' c parameters := by
  have zipped (names : List String) : ∀ p ∈ parameters.zip names, Seen p.1.type.base :=
    fun p member => seen p.1 (of_mem_zip member).1
  have codes : (parameters.map fun p => r.table.overloadCode p.type c.site.scopeName) =
      parameters.map fun p => r'.table.overloadCode p.type c.site.scopeName :=
    map_congr_left fun p _ => same.tables.overloadCode_eq _ p.type
  simp only [plan, arguments, argumentsFrom_agree same (zipped _), convertedResult_agree same sees, codes]

theorem cTypeOf_agree (seen : Seen t.base) (scope : String) (category : Category) (side : Side) :
    cTypeOf job r t scope category side = cTypeOf job r' t scope category side := by
  simp only [cTypeOf, typemap_agree same, same.tables.qualified_eq seen, same.cTypeOf_eq seen]

theorem checkCTypeOf_agree (seen : Seen t.base) (scope : String) (category : Category) :
    checkCTypeOf job r t scope category = checkCTypeOf job r' t scope category := by
  simp only [checkCTypeOf, typemap_agree same, same.checkCType_eq seen]

omit same

/-- The types of a plan are seen. -/
structure Plan.Sees (Seen : String → Prop) (p : Plan) : Prop where
  args : ∀ a ∈ p.args, Seen a.type.base
  result : ∀ result, p.result = some result → Seen result.type.base

theorem plan_sees {p : Plan} (sees : c.Sees Seen) (seen : ∀ p ∈ parameters, Seen p.type.base)
    (planned : plan job r c parameters = .ok p) : p.Sees Seen := by
  refine ⟨fun a listed => ?_, fun result found => ?_⟩
  · obtain ⟨parameter, member, type⟩ := plan_types planned a listed
    exact type ▸ seen parameter member
  · obtain ⟨_, _, converted⟩ := plan_eq_ok planned
    rw [found] at converted
    unfold convertedResult at converted
    split at converted
    · cases converted
    · obtain ⟨category, _, converted⟩ := bind_eq_ok converted
      split at converted <;> cases converted
      exact sees.result

namespace Plan

variable {p : Plan} (sees : p.Sees Seen)

include same sees

theorem signature_agree (symbol : String) (side : Side) :
    p.signature job r symbol side = p.signature job r' symbol side := by
  have visible : (p.visible.map fun a => (⟨a.cName, .c (p.argumentType job r side a).text⟩ : SignatureParameter)) =
      p.visible.map fun a => ⟨a.cName, .c (p.argumentType job r' side a).text⟩ := by
    refine map_congr_left fun a member => ?_
    rw [argumentType, argumentType, cTypeOf_agree same (sees.args a (mem_filter.mp member).1)]
  have result : p.resultType job r side = p.resultType job r' side := by
    unfold resultType
    cases found : p.result with
    | none => rfl
    | some result => exact cTypeOf_agree same (sees.result result found) _ _ _
  simp only [signature, visible, result]

theorem prepareHeader_agree : p.prepareHeader job r = p.prepareHeader job r' := by
  have seen : ∀ entry ∈ p.prototypeTypes, Seen entry.1.base := by
    intro entry listed
    rcases mem_append.mp listed with listed | listed
    · obtain ⟨a, member, rfl⟩ := mem_map.mp listed
      exact sees.args a (mem_filter.mp member).1
    · obtain ⟨result, member, rfl⟩ := mem_map.mp listed
      exact sees.result result (Option.mem_toList.mp member)
  have listed : Forall₂ (fun entry other => entry = other ∧ Seen entry.1.base) p.prototypeTypes p.prototypeTypes :=
    forall₂_same.mpr fun entry member => ⟨rfl, seen entry member⟩
  refine forM_eq_of_forall₂ listed ?_
  rintro ⟨t, category⟩ _ ⟨rfl, first⟩
  simp only [checkCTypeOf_agree same first, cTypeOf_agree same first]

end Plan

omit same

/-! ### Other configurations -/

variable {job' : Job} (typemaps : job.typemaps = job'.typemaps) {config config' : Config} {table : SymbolTable}

include typemaps

theorem argumentsFrom_congr : argumentsFrom job ⟨config, table⟩ c = argumentsFrom job' ⟨config', table⟩ c := by
  funext position listed
  induction listed generalizing position with
  | nil => rfl
  | cons first rest ih =>
    simp only [argumentsFrom, ih, argument, typemap?, typemaps]
    rfl

theorem plan_congr (parameters : List TypedParameter) :
    plan job ⟨config, table⟩ c parameters = plan job' ⟨config', table⟩ c parameters := by
  have arguments : argumentsFrom job ⟨config, table⟩ c = argumentsFrom job' ⟨config', table⟩ c :=
    argumentsFrom_congr typemaps
  simp only [plan, Wrapper.arguments, arguments, convertedResult, typemap?, typemaps]
  rfl

variable (proxies : proxyName config = proxyName config')
  (enums : enumType? config = enumType? config')

include proxies enums

theorem cTypeOf_congr : cTypeOf job ⟨config, table⟩ = cTypeOf job' ⟨config', table⟩ := by
  funext t scope category side
  simp only [cTypeOf, typemap?, typemaps, Resolver.cTypeOf, enumCType, opaquePointer, proxies, enums]

theorem writeConverted_congr (own : proxyName job.config = proxyName job'.config) (p : Plan)
    (symbol : String) : writeConverted job ⟨config, table⟩ p symbol =
      writeConverted job' ⟨config', table⟩ p symbol := by
  have self : p.selfParameter job = p.selfParameter job' := by
    funext side
    cases side <;> simp only [Plan.selfParameter, Plan.selfStruct, own]
  have types : cTypeOf job ⟨config, table⟩ = cTypeOf job' ⟨config', table⟩ := cTypeOf_congr typemaps proxies enums
  have result : p.resultType job ⟨config, table⟩ = p.resultType job' ⟨config', table⟩ := by
    funext side
    rw [Plan.resultType, Plan.resultType, types]
  simp only [writeConverted, Plan.signature, Plan.argumentType, Plan.prepareHeader, checkCTypeOf, typemap?, Plan.body,
    Plan.locals, Plan.resultConversion, self, types, result, typemaps]
  rfl

end Wrapper

end FlatAbi
