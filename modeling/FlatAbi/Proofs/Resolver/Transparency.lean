import FlatAbi.Proofs.Facade.Needs
import FlatAbi.Proofs.Resolver.Chains
import FlatAbi.Proofs.Resolver.Failures

/-!
The name of a typedef resolves like the type that it stands for, as long as the two mean the same in both scopes.
-/

namespace FlatAbi

open List

namespace Site

theorem toplevel {site : Site} (toplevel : site.scope? = none) :
    site.scopeName = "" ∧ site.checkScope = .ok () ∧ site.scopeValue = .string "" := by
  have names : scopeNameOf site.above = "" ∧ checkScopeOf site.above = .ok () := by
    unfold scope? at toplevel
    generalize site.above = above at toplevel
    -- includes and imports are passed, and the first other node around the site opens no scope
    induction above with
    | nil => exact ⟨rfl, rfl⟩
    | cons entry rest ih =>
      obtain ⟨id, n⟩ := entry
      unfold scopeNameOf checkScopeOf
      cases kind : n.kind <;> simp_all [closest, Site.kind]
  refine ⟨names.1, names.2, ?_⟩
  unfold scopeValue
  rw [toplevel]

end Site

namespace SymbolTable

variable {table : SymbolTable} {name : String}

/-- A name that, seen from a scope, is the name of a typedef outside all namespaces and classes; what it stands for
means the same in that scope, and its chain of typedefs does not come back to the name. -/
structure Alias (table : SymbolTable) (scope name : String) (target : CxxType) : Prop where
  isName : isBuiltinName name = false
  declared : ∃ site, table.typedef? name scope = some site ∧ site.scope? = none ∧ site.decl.type = some target
  unshadowed : target.isBuiltin ∨ table.typedef? target.base scope = table.typedef? target.base ""
  acyclic : ¬ table.Comes (target.base, "") name

variable {scope : String} {target : CxxType}

theorem Alias.of_typedefs {table' : SymbolTable} (isAlias : table.Alias scope name target)
    (same : table.typedefs = table'.typedefs) : table'.Alias scope name target := by
  have found (name scope : String) : table.typedef? name scope = table'.typedef? name scope := by
    rw [typedef?, typedef?, same]
  have step : table.Step = table'.Step := by
    unfold Step
    simp only [found]
  obtain ⟨isName, declared, unshadowed, acyclic⟩ := isAlias
  rw [found] at declared
  rw [found, found] at unshadowed
  rw [Comes, step] at acyclic
  exact ⟨isName, declared, unshadowed, acyclic⟩

theorem mem_typedefBases {site : Site} (found : table.typedef? name scope = some site)
    (typed : site.decl.type = some target) : target.base ∈ table.typedefBases := by
  obtain ⟨key, listed⟩ := exists_entry_of_find found
  exact mem_filterMap.mpr ⟨(key, site), listed, by simp [typed]⟩

theorem mem_strike_iff {site : Site} (found : table.typedef? name scope = some site)
    (typed : site.decl.type = some target) {other : String} (differs : other ≠ name) :
    other ∈ strike name (name :: table.typedefBases) ↔ other ∈ target.base :: table.typedefBases := by
  have listed := mem_typedefBases found typed
  simp only [strike, mem_filter, mem_cons, bne_iff_ne]
  constructor
  · rintro ⟨same | member, _⟩
    · exact absurd same differs
    · exact .inr member
  · rintro (rfl | member)
    · exact ⟨.inr listed, differs⟩
    · exact ⟨.inr member, differs⟩

theorem Alias.pending_iff (isAlias : table.Alias scope name target) {other : String}
    (comes : table.Comes (target.base, "") other) :
    other ∈ strike name (name :: table.typedefBases) ↔ other ∈ target.base :: table.typedefBases := by
  obtain ⟨site, found, _, typed⟩ := isAlias.declared
  exact mem_strike_iff found typed fun same => isAlias.acyclic (same ▸ comes)

theorem Alias.resolve_eq (isAlias : table.Alias scope name target) :
    table.resolve ⟨name, []⟩ scope = table.resolve target scope := by
  obtain ⟨site, found, toplevel, typed⟩ := isAlias.declared
  have opened : table.resolve ⟨name, []⟩ scope =
      table.resolveFrom (strike name (name :: table.typedefBases)) target "" := by
    unfold resolve
    rw [resolveFrom, if_neg (by simp [CxxType.isBuiltin, isAlias.isName]), dif_pos mem_cons_self, found]
    simp only [typed, (Site.toplevel toplevel).1]
    rfl
  rw [opened, (SameTypedefs.of_eq rfl).resolveFrom_eq fun _ _ meets => isAlias.pending_iff meets.comes]
  -- only the first name of the chain is looked up in the scope itself
  unfold resolve
  rw [resolveFrom, resolveFrom.eq_def table _ target scope]
  split
  · rfl
  · rename_i named
    rw [isAlias.unshadowed.resolve_left named]

theorem Alias.checkResolve_eq {scope : Value} (isAlias : table.Alias scope.display name target)
    (text : scope.checkText = .ok ()) : table.checkResolve ⟨name, []⟩ scope = table.checkResolve target scope := by
  obtain ⟨site, found, toplevel, typed⟩ := isAlias.declared
  have opened : table.checkResolve ⟨name, []⟩ scope =
      table.checkFrom (strike name (name :: table.typedefBases)) target (.string "") := by
    obtain ⟨_, checked, value⟩ := Site.toplevel toplevel
    unfold checkResolve
    rw [checkFrom, if_neg (by simp [CxxType.isBuiltin, isAlias.isName]), dif_pos mem_cons_self, found, text]
    simp only [typed, checked, value]
    rfl
  rw [opened, (SameTypedefs.of_eq rfl).checkFrom_eq fun _ => isAlias.pending_iff]
  unfold checkResolve
  rw [checkFrom, checkFrom.eq_def table _ target scope]
  split
  · rfl
  · rename_i named
    rw [isAlias.unshadowed.resolve_left named, text]
    rfl

end SymbolTable

end FlatAbi
