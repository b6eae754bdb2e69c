import FlatAbi.Emission.Variable
import FlatAbi.Proofs.Resolver.Chains
import FlatAbi.Proofs.Resolver.Failures

/-!
Resolvers that agree: under one configuration, they find the same types under the names that are seen.
-/

namespace FlatAbi

open Variable SymbolTable

/-- Tables that find the same types under the names that are seen. What typedefs stand for is seen. -/
structure SymbolTable.SameSeen (Seen : String → Prop) (table table' : SymbolTable) : Prop where
  enums : table.enums = table'.enums
  typedefs : table.typedefs = table'.typedefs
  classes : ∀ name scope, Seen name → table.class? name scope = table'.class? name scope
  targets : ∀ entry ∈ table.typedefs, ∀ t, entry.2.decl.type = some t → Seen t.base

namespace SymbolTable.SameSeen

variable {Seen : String → Prop} {table table' : SymbolTable} (same : SameSeen Seen table table')

include same

theorem enum_eq (name scope : String) : table.enum? name scope = table'.enum? name scope := by
  rw [enum?, enum?, same.enums]

theorem typedefBases_eq : table.typedefBases = table'.typedefBases := by
  rw [typedefBases, typedefBases, same.typedefs]

theorem resolve_eq (t : CxxType) (scope : String) : table.resolve t scope = table'.resolve t scope :=
  (SameTypedefs.of_eq same.typedefs).resolveFrom_eq fun _ _ _ => by rw [same.typedefBases_eq]

theorem checkResolve_eq (t : CxxType) (scope : Value) : table.checkResolve t scope = table'.checkResolve t scope :=
  (SameTypedefs.of_eq same.typedefs).checkFrom_eq fun _ _ => by rw [same.typedefBases_eq]

theorem checkType_eq (t : CxxType) (scope : Value) : table.checkType t scope = table'.checkType t scope := by
  simp only [checkType, same.checkResolve_eq, same.resolve_eq]

theorem isEnumBased_eq (t : CxxType) (scope : String) : table.isEnumBased t scope = table'.isEnumBased t scope := by
  rw [isEnumBased, isEnumBased, same.enum_eq]

theorem enumOf_eq (t : CxxType) (scope : String) : table.enumOf? t scope = table'.enumOf? t scope := by
  simp only [enumOf?, same.resolve_eq, same.enum_eq]

theorem seen_resolve {t : CxxType} (seen : Seen t.base) (scope : String) : Seen (table.resolve t scope).base := by
  unfold resolve
  generalize t.base :: table.typedefBases = pending
  fun_induction resolveFrom table pending t scope with
  | case1 | case2 | case3 | case5 => exact seen
  | case4 pending t scope named isOpen site found target typed ih =>
    obtain ⟨key, listed⟩ := exists_entry_of_find found
    exact ih (same.targets _ listed target typed)

variable {t : CxxType} (seen : Seen t.base) (scope : String)

include seen

theorem category_eq : table.category t scope = table'.category t scope := by
  have found := same.classes _ scope (same.seen_resolve seen scope)
  rw [same.resolve_eq] at found
  simp only [category, isCSignature, objectCategory, same.resolve_eq, same.isEnumBased_eq, found]

theorem qualified_eq : table.qualified t scope = table'.qualified t scope := by
  have found := same.classes _ scope (same.seen_resolve seen scope)
  rw [same.resolve_eq] at found
  simp only [qualified, same.resolve_eq, same.enum_eq, found]

omit seen

theorem overloadCode_eq (t : CxxType) : table.overloadCode t scope = table'.overloadCode t scope := by
  simp only [overloadCode, baseCode, same.resolve_eq, same.isEnumBased_eq]

end SymbolTable.SameSeen

/-- Resolvers with one configuration that find the same types under the names that are seen. -/
structure Resolver.SameSeen (Seen : String → Prop) (r r' : Resolver) : Prop where
  config : r.config = r'.config
  tables : r.table.SameSeen Seen r'.table

namespace Resolver.SameSeen

variable {Seen : String → Prop} {r r' : Resolver} (same : r.SameSeen Seen r') {t : CxxType}

include same

theorem opaquePointer_eq (scope : String) : r.opaquePointer t scope = r'.opaquePointer t scope := by
  simp only [opaquePointer, opaqueName, same.tables.resolve_eq]

variable (seen : Seen t.base)

include seen

theorem class_eq (scope : String) :
    r.table.class? (r'.table.resolve t scope).base scope = r'.table.class? (r'.table.resolve t scope).base scope := by
  have found := same.tables.classes _ scope (same.tables.seen_resolve seen scope)
  rwa [same.tables.resolve_eq] at found

theorem categoryAt_eq (scope : Value) : r.categoryAt t scope = r'.categoryAt t scope := by
  rw [categoryAt, categoryAt, same.tables.checkType_eq, same.tables.category_eq seen]

theorem cTypeOf_eq (scope : String) (side : Side) (category : Category) :
    r.cTypeOf t scope side category = r'.cTypeOf t scope side category := by
  simp only [cTypeOf, enumCType, same.tables.resolve_eq, same.tables.enum_eq, same.class_eq seen, same.opaquePointer_eq,
    same.config]

theorem checkCType_eq (scope : String) (category : Category) :
    r.checkCType t scope category = r'.checkCType t scope category := by
  simp only [checkCType, same.tables.resolve_eq, same.tables.enum_eq, same.class_eq seen]

theorem classOf_eq (scope : String) (category : Category) :
    r.classOf? t scope category = r'.classOf? t scope category := by
  simp only [classOf?, same.tables.resolve_eq, same.class_eq seen]

theorem plainFacade_eq (scope : String) : r.plainFacade t scope = r'.plainFacade t scope := by
  have types : r.cTypeOf t scope .header = r'.cTypeOf t scope .header := funext (same.cTypeOf_eq seen scope .header)
  simp only [plainFacade, cType, same.config, same.tables.resolve_eq, same.tables.category_eq seen, types]

theorem facadeParameterAt_eq (scope : Value) : r.facadeParameterAt t scope = r'.facadeParameterAt t scope := by
  simp only [facadeParameterAt, checkFacadeParameter, facadeParameter, same.categoryAt_eq seen, same.classOf_eq seen,
    same.checkCType_eq seen, same.tables.category_eq seen, same.plainFacade_eq seen, same.tables.resolve_eq]

theorem facadeResultAt_eq (scope : Value) : r.facadeResultAt t scope = r'.facadeResultAt t scope := by
  simp only [facadeResultAt, checkFacadeResult, facadeResult, facadeObject, same.categoryAt_eq seen,
    same.classOf_eq seen, same.checkCType_eq seen, same.tables.category_eq seen, same.plainFacade_eq seen,
    same.tables.resolve_eq]

omit seen

theorem cVariable_eq (site : Site) : cVariable? r site = cVariable? r' site := by
  simp only [cVariable?, anonymousInstance, checkEnum, namedType?,
    same.config, same.tables.checkResolve_eq, same.tables.resolve_eq, same.tables.enumOf_eq]

end Resolver.SameSeen

end FlatAbi
