import FlatAbi.Proofs.Emission.Ends

/-!
How the category of a type comes about, from what its base is and then from its declarators.
-/

namespace FlatAbi

def CxxType.isFunctionPointer (t : CxxType) : Bool :=
  (t.isPointer || t.isMemberPointer) && t.pop.isFunction

def Category.isBuiltin : Category → Bool
  | .builtin | .builtinConstRef | .builtinRef | .builtinPointer => true
  | _ => false

namespace SymbolTable

variable {table : SymbolTable} {t resolved : CxxType} {scope : String} {category : Category}

/-- The ways in which a resolved type has a category. -/
inductive Classified (table : SymbolTable) (resolved : CxxType) (scope : String) : Category → Prop where
  | void (isVoid : resolved.isVoid) : Classified table resolved scope .void
  | function {fits : Bool} (valued : resolved.isVoid = false) (function : resolved.isFunctionPointer)
      (signature : table.isCSignature resolved.pop scope = .ok fits) :
      Classified table resolved scope (if fits then .functionPointer else .unknownPointer)
  | builtin (valued : resolved.isVoid = false) (object : resolved.isFunctionPointer = false)
      (builtin : resolved.isBuiltin) : Classified table resolved scope (scalarCategory true resolved)
  | enumeration (valued : resolved.isVoid = false) (object : resolved.isFunctionPointer = false)
      (named : resolved.isBuiltin = false) (based : table.isEnumBased resolved scope) :
      Classified table resolved scope (scalarCategory false resolved)
  | cls (valued : resolved.isVoid = false) (object : resolved.isFunctionPointer = false)
      (named : resolved.isBuiltin = false) (known : (table.class? resolved.base scope).isSome) :
      Classified table resolved scope (classCategory resolved)
  | unknown (valued : resolved.isVoid = false) (object : resolved.isFunctionPointer = false)
      (named : resolved.isBuiltin = false) : Classified table resolved scope (unknownCategory resolved)

theorem classified (known : table.category t scope = .ok category) :
    Classified table (table.resolve t scope) scope category := by
  unfold SymbolTable.category at known
  dsimp only at known
  generalize table.resolve t scope = resolved at known ⊢
  cases isVoid : resolved.isVoid with
  | true =>
    rw [isVoid] at known
    cases known
    exact .void isVoid
  | false =>
    rw [isVoid, if_neg Bool.false_ne_true] at known
    change (if resolved.isFunctionPointer then _ else _) = _ at known
    cases function : resolved.isFunctionPointer with
    | true =>
      rw [function, if_pos rfl] at known
      obtain ⟨fits, signature, known⟩ := bind_eq_ok known
      cases fits <;> cases known
      · exact .function isVoid function signature
      · exact .function isVoid function signature
    | false =>
      rw [function, if_neg Bool.false_ne_true] at known
      cases known
      unfold objectCategory
      split
      next builtin => exact .builtin isVoid function builtin
      next named =>
        rw [Bool.not_eq_true] at named
        split
        next based => exact .enumeration isVoid function named based
        · split
          next found => exact .cls isVoid function named found
          · exact .unknown isVoid function named

theorem scalarCategory_isBuiltin (builtin : Bool) (resolved : CxxType) :
    (scalarCategory builtin resolved).isBuiltin = builtin ∧ (scalarCategory builtin resolved).isClass = false ∧
      scalarCategory builtin resolved ≠ .void := by
  unfold scalarCategory
  repeat' split
  all_goals cases builtin <;> simp_all [Category.isBuiltin, Category.isClass]

theorem classCategory_isBuiltin (resolved : CxxType) :
    (classCategory resolved).isBuiltin = false ∧ classCategory resolved ≠ .void := by
  unfold classCategory
  repeat' split
  all_goals simp [Category.isBuiltin]

theorem unknownCategory_isBuiltin (resolved : CxxType) :
    (unknownCategory resolved).isBuiltin = false ∧ (unknownCategory resolved).isClass = false ∧
      unknownCategory resolved ≠ .void := by
  unfold unknownCategory
  repeat' split
  all_goals simp [Category.isBuiltin, Category.isClass]

namespace Classified

section

variable (classified : Classified table resolved scope category)

include classified

theorem void_iff : category = .void ↔ resolved.isVoid := by
  cases classified with
  | void isVoid => simp [isVoid]
  | @function fits valued => cases fits <;> simp [valued]
  | builtin valued => simp [valued, (scalarCategory_isBuiltin true resolved).2.2]
  | enumeration valued => simp [valued, (scalarCategory_isBuiltin false resolved).2.2]
  | cls valued => simp [valued, (classCategory_isBuiltin resolved).2]
  | unknown valued => simp [valued, (unknownCategory_isBuiltin resolved).2.2]

theorem exists_class (isClass : category.isClass) : (table.class? resolved.base scope).isSome := by
  cases classified with
  | void => cases isClass
  | @function fits => cases fits <;> cases isClass
  | builtin => rw [(scalarCategory_isBuiltin true resolved).2.1] at isClass; cases isClass
  | enumeration => rw [(scalarCategory_isBuiltin false resolved).2.1] at isClass; cases isClass
  | cls _ _ _ known => exact known
  | unknown => rw [(unknownCategory_isBuiltin resolved).2.1] at isClass; cases isClass

theorem isBuiltin_eq :
    category.isBuiltin = (resolved.isBuiltin && !resolved.isVoid && !resolved.isFunctionPointer) := by
  cases classified with
  | void isVoid => simp [isVoid, Category.isBuiltin]
  | @function fits _ function => cases fits <;> simp [function, Category.isBuiltin]
  | builtin valued object builtin => simp [valued, object, builtin, (scalarCategory_isBuiltin true resolved).1]
  | enumeration _ _ named => simp [named, (scalarCategory_isBuiltin false resolved).1]
  | cls _ _ named => simp [named, (classCategory_isBuiltin resolved).1]
  | unknown _ _ named => simp [named, (unknownCategory_isBuiltin resolved).1]

end

end Classified

end SymbolTable

namespace Resolver

variable {r : Resolver} {t : CxxType} {side : Side} {c : CRendering}

theorem category_of_categoryAt {scope : Value} {category : Category} (known : r.categoryAt t scope = .ok category) :
    r.table.category t scope.display = .ok category := by
  obtain ⟨_, _, known⟩ := bind_eq_ok known
  exact mapError_eq_ok_iff.mp known

theorem cType_of_cTypeAt {scope : Value} (rendered : r.cTypeAt t scope side = .ok c) :
    r.cType t scope.display side = .ok c := by
  obtain ⟨_, _, rendered⟩ := bind_eq_ok rendered
  refine mapError_eq_ok_iff.mp (?_ : Halt.ofUnreadable _ = _)
  split at rendered
  · obtain ⟨_, _, rendered⟩ := bind_eq_ok rendered
    obtain ⟨_, _, rendered⟩ := bind_eq_ok rendered
    exact rendered
  · exact rendered

theorem cType_eq_ok_iff {scope : String} (cxx : r.config.cplusplus) :
    r.cType t scope side = .ok c ↔
      ∃ category, r.table.category t scope = .ok category ∧ c = r.cTypeOf t scope side category := by
  simp only [cType, cxx, Bool.not_true, Bool.false_eq_true, if_false]
  cases r.table.category t scope with
  | error cause => simp [Except.map]
  | ok category => simp [Except.map, eq_comm]

end Resolver

end FlatAbi
