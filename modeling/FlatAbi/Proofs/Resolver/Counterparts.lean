import FlatAbi.Emission.Members
import FlatAbi.Proofs.Emission.Ends
import FlatAbi.Proofs.Resolver.Chains

/-!
Two trees side by side. A pairing says which sites are twins, and tables that find twins resolve types alike.
-/

namespace FlatAbi

open Site SymbolTable List Naming

/-- Which identities and which sites of two trees belong together. -/
structure Pairing where
  SameId : NodeId → NodeId → Prop
  Twin : Site → Site → Prop
  biunique : ∀ {i i' j j'}, SameId i i' → SameId j j' → (i = j ↔ i' = j')
  sameId : ∀ {s s'}, Twin s s' → SameId s.id s'.id
  decl : ∀ {s s'}, Twin s s' → s.decl = s'.decl
  frame : ∀ {s s'}, Twin s s' → SameFrame s.above s'.above
  children : ∀ {s s'}, Twin s s' → s.kind = .classDecl ∨ s.kind = .enumDecl →
    Forall₂ Twin s.children s'.children
  implicit : ∀ {s s'}, Twin s s' → ∀ destructor,
    SameId (Members.implicitId s destructor) (Members.implicitId s' destructor)

variable {pairing : Pairing}

namespace Pairing

theorem namesake {s s' : Site} (twin : pairing.Twin s s') : Namesake s s' :=
  .of_decl (pairing.decl twin) (pairing.frame twin)

theorem kind {s s' : Site} (twin : pairing.Twin s s') : s.kind = s'.kind :=
  congrArg Declaration.kind (pairing.decl twin)

theorem id_beq {s s' t t' : Site} (twin : pairing.Twin s s') (twinToo : pairing.Twin t t') :
    (s.id == t.id) = (s'.id == t'.id) := by
  have same := pairing.biunique (pairing.sameId twin) (pairing.sameId twinToo)
  rw [Bool.eq_iff_iff, beq_iff_eq, beq_iff_eq]
  exact same

theorem option_eq_iff {i i' j j' : Option NodeId} (same : Option.Rel pairing.SameId i i')
    (sameToo : Option.Rel pairing.SameId j j') : i = j ↔ i' = j' := by
  cases same with
  | none => cases sameToo <;> simp
  | some one =>
    cases sameToo with
    | none => simp
    | some two => simpa using pairing.biunique one two

/-- Twins that are classes. -/
def TwinClass (pairing : Pairing) (cls cls' : Site) : Prop :=
  pairing.Twin cls cls' ∧ cls.kind = .classDecl

theorem TwinClass.children {cls cls' : Site} (twins : pairing.TwinClass cls cls') :
    Forall₂ pairing.Twin cls.children cls'.children :=
  pairing.children twins.1 (.inl twins.2)

end Pairing

/-- Tables that find twins under every name. -/
structure SymbolTable.Counterpart (pairing : Pairing) (table table' : SymbolTable) : Prop where
  classes : ∀ key, Option.Rel pairing.TwinClass (table.classes.lookup key) (table'.classes.lookup key)
  enums : ∀ key, Option.Rel pairing.Twin (table.enums.lookup key) (table'.enums.lookup key)
  typedefs : ∀ key, Option.Rel pairing.Twin (table.typedefs.lookup key) (table'.typedefs.lookup key)
  bases : ∀ name, name ∈ table.typedefBases ↔ name ∈ table'.typedefBases
  size : table.classes.length = table'.classes.length

namespace SymbolTable.Counterpart

variable {table table' : SymbolTable} (tables : Counterpart pairing table table')

include tables

theorem class_rel (name scope : String) :
    Option.Rel pairing.TwinClass (table.class? name scope) (table'.class? name scope) :=
  rel_findSome tables.classes

theorem enum_rel (name scope : String) : Option.Rel pairing.Twin (table.enum? name scope) (table'.enum? name scope) :=
  rel_findSome tables.enums

theorem typedef_rel (name scope : String) :
    Option.Rel pairing.Twin (table.typedef? name scope) (table'.typedef? name scope) :=
  rel_findSome tables.typedefs

theorem sameTypedefs : table.SameTypedefs table' := fun name scope => by
  refine rel_elim (tables.typedef_rel name scope) .none fun site site' twin => ?_
  exact .some ⟨congrArg Declaration.type (pairing.decl twin), pairing.namesake twin⟩

theorem pending_iff (base name : String) : name ∈ base :: table.typedefBases ↔ name ∈ base :: table'.typedefBases := by
  rw [mem_cons, mem_cons, tables.bases]

theorem resolve_eq (t : CxxType) (scope : String) : table.resolve t scope = table'.resolve t scope :=
  tables.sameTypedefs.resolveFrom_eq fun _ _ _ => tables.pending_iff t.base _

theorem checkResolve_eq (t : CxxType) (scope : Value) : table.checkResolve t scope = table'.checkResolve t scope :=
  tables.sameTypedefs.checkFrom_eq fun _ _ => tables.pending_iff t.base _

/-! ### Categories and codes

Types that resolve alike have the same category and the same codes, whichever names they are written with. -/

theorem enumOf_rel (t : CxxType) (scope : String) :
    Option.Rel pairing.Twin (table.enumOf? t scope) (table'.enumOf? t scope) := by
  simp only [enumOf?, tables.resolve_eq]
  split
  · exact .none
  · exact tables.enum_rel _ scope

theorem isEnumBased_eq (t : CxxType) (scope : String) : table.isEnumBased t scope = table'.isEnumBased t scope := by
  rw [isEnumBased, isEnumBased, isSome_eq_of_rel (tables.enum_rel t.base scope)]

variable {t t' : CxxType} {scope : String}

theorem checkType_eq {scope : Value} (checked : table.checkResolve t scope = table'.checkResolve t' scope)
    (same : table.resolve t scope.display = table'.resolve t' scope.display) :
    table.checkType t scope = table'.checkType t' scope := by
  simp only [checkType, checked, same, tables.checkResolve_eq]

section

variable (same : table.resolve t scope = table'.resolve t' scope)

include same

theorem qualified_eq : table.qualified t scope = table'.qualified t' scope := by
  simp only [qualified, same]
  split
  · rfl
  · have found : Option.Rel pairing.Twin
        ((table.class? (table'.resolve t' scope).base scope).or (table.enum? (table'.resolve t' scope).base scope))
        ((table'.class? (table'.resolve t' scope).base scope).or
          (table'.enum? (table'.resolve t' scope).base scope)) := by
      exact rel_elim (tables.class_rel (table'.resolve t' scope).base scope) (tables.enum_rel _ scope)
        fun _ _ twins => .some twins.1
    refine rel_elim found rfl fun _ _ twin => ?_
    simp only [pairing.decl twin, (pairing.namesake twin).qualifiedName]

theorem category_eq : table.category t scope = table'.category t' scope := by
  simp only [category, isCSignature, objectCategory, same, tables.resolve_eq,
    tables.isEnumBased_eq, isSome_eq_of_rel (tables.class_rel _ scope)]

theorem overloadCode_eq : table.overloadCode t scope = table'.overloadCode t' scope := by
  simp only [overloadCode, baseCode, same, tables.isEnumBased_eq]

end

end SymbolTable.Counterpart

/-! ### Tables of two trees -/

namespace SymbolTable

variable {table table' : SymbolTable} {s s' : Site}

theorem classNames_eq (twin : pairing.Twin s s') : classNames s = classNames s' := by
  have same := pairing.namesake twin
  simp only [classNames, aliasNames, pairing.decl twin, pairing.kind twin, same.qualifiedName, same.scopeName]

theorem enumNames_eq (twin : pairing.Twin s s') : enumNames s = enumNames s' := by
  have same := pairing.namesake twin
  simp only [enumNames, aliasNames, pairing.decl twin, pairing.kind twin, same.qualifiedName, same.scopeName]

theorem typedefNames_eq (twin : pairing.Twin s s') : typedefNames s = typedefNames s' := by
  simp only [typedefNames, pairing.decl twin, pairing.kind twin, (pairing.namesake twin).qualifiedName]

theorem checkNames_eq (twin : pairing.Twin s s') : checkNames s = checkNames s' := by
  have same := pairing.namesake twin
  simp only [checkNames, checkOwnName, checkAlias, pairing.decl twin, pairing.kind twin, same.checkQualified,
    same.qualifiedValue, same.checkScope, same.scopeName]

/-- Entries under the same names, in the same order. -/
abbrev SameEntries (Rel : Site → Site → Prop) : List (String × Site) → List (String × Site) → Prop :=
  Forall₂ fun entry entry' => entry.1 = entry'.1 ∧ Rel entry.2 entry'.2

theorem SameEntries.of_names {Rel : Site → Site → Prop} {names names' : List String} (same : names = names')
    (related : names ≠ [] → Rel s s') : SameEntries Rel (names.map (·, s)) (names'.map (·, s')) := by
  subst same
  refine rel_map (R := fun one two => one = two ∧ one ∈ names) ?_ (forall₂_same.mpr fun _ listed => ⟨rfl, listed⟩)
  rintro one two ⟨rfl, listed⟩
  exact ⟨rfl, related (ne_nil_of_mem listed)⟩

theorem SameEntries.lookup {Rel : Site → Site → Prop} {entries entries' : List (String × Site)}
    (same : SameEntries Rel entries entries') (key : String) :
    Option.Rel Rel (entries.lookup key) (entries'.lookup key) := by
  induction same with
  | nil => exact .none
  | @cons entry entry' _ _ first _ ih =>
    obtain ⟨name, site⟩ := entry
    obtain ⟨_, site'⟩ := entry'
    obtain ⟨rfl, related⟩ := first
    rw [lookup_cons, lookup_cons]
    dsimp only
    split
    · exact .some related
    · exact ih

/-- Tables with twins under the same names, in the same order. -/
structure Aligned (pairing : Pairing) (table table' : SymbolTable) : Prop where
  classes : SameEntries pairing.TwinClass table.classes table'.classes
  enums : SameEntries pairing.Twin table.enums table'.enums
  typedefs : SameEntries pairing.Twin table.typedefs table'.typedefs

theorem Aligned.counterpart (aligned : Aligned pairing table table') : table.Counterpart pairing table' where
  classes := aligned.classes.lookup
  enums := aligned.enums.lookup
  typedefs := aligned.typedefs.lookup
  bases name := by
    have bases : table.typedefBases = table'.typedefBases :=
      filterMap_eq_of_forall₂ aligned.typedefs fun _ _ entry =>
        congrArg (fun d : Declaration => d.type.map (·.base)) (pairing.decl entry.2)
    rw [bases]
  size := aligned.classes.length_eq

theorem classes_aligned (twin : pairing.Twin s s') :
    SameEntries pairing.TwinClass ((classNames s).map (·, s)) ((classNames s').map (·, s')) := by
  refine .of_names (classNames_eq twin) fun named => ⟨twin, ?_⟩
  unfold classNames at named
  split at named
  · rename_i isClass
    simpa using (Bool.and_eq_true_iff.mp isClass).1
  · exact absurd rfl named

theorem Aligned.register (aligned : Aligned pairing table table') (twin : pairing.Twin s s') :
    Aligned pairing (table.register s) (table'.register s') where
  classes := rel_append aligned.classes (classes_aligned twin)
  enums := rel_append aligned.enums (SameEntries.of_names (enumNames_eq twin) fun _ => twin)
  typedefs := rel_append aligned.typedefs (SameEntries.of_names (typedefNames_eq twin) fun _ => twin)

/-- Sites of a kind that introduces no type are not on file. -/
def IsFiled (s : Site) : Prop :=
  s.kind = .classDecl ∨ s.kind = .enumDecl ∨ s.kind = .typedefDecl

theorem names_of_not_filed (unfiled : ¬ IsFiled s) :
    classNames s = [] ∧ enumNames s = [] ∧ typedefNames s = [] ∧ checkNames s = .ok () := by
  simp only [IsFiled, not_or] at unfiled
  obtain ⟨isNoClass, isNoEnum, isNoTypedef⟩ := unfiled
  refine ⟨by simp [classNames, isNoClass], by simp [enumNames, isNoEnum], by simp [typedefNames, isNoTypedef], ?_⟩
  unfold checkNames
  split <;> first | contradiction | rfl

theorem register_of_not_filed (table : SymbolTable) (unfiled : ¬ IsFiled s) : table.register s = table := by
  obtain ⟨classes, enums, typedefs, _⟩ := names_of_not_filed unfiled
  simp [register, classes, enums, typedefs]

/-- The kinds of sites on file. -/
def filesKind (kind : Kind) : Bool :=
  kind == .classDecl || kind == .enumDecl || kind == .typedefDecl

theorem not_filed_of_kind (unfiled : filesKind s.kind = false) : ¬ IsFiled s := by
  simp only [filesKind, Bool.or_eq_false_iff, beq_eq_false_iff_ne] at unfiled
  simp only [IsFiled, not_or]
  exact ⟨unfiled.1.1, unfiled.1.2, unfiled.2⟩

theorem ofTree_eq (root : Site) : ofTree root = ofSites (root.walk.filter fun s => filesKind s.kind) := by
  unfold ofTree ofSites
  generalize ({} : SymbolTable) = table
  induction root.walk generalizing table with
  | nil => rfl
  | cons first rest ih =>
    rw [foldl_cons, filter_cons, ih]
    split
    · rfl
    · rename_i unfiled
      rw [register_of_not_filed table (not_filed_of_kind (Bool.eq_false_iff.mpr unfiled))]

theorem checkTree_eq_filed (root : Site) :
    checkTree root = (root.walk.filter fun s => filesKind s.kind).forM checkNames := by
  unfold checkTree
  induction root.walk with
  | nil => rfl
  | cons first rest ih =>
    rw [filter_cons]
    split
    · exact congrArg (checkNames first >>= ·) (funext fun _ => ih)
    · rename_i unfiled
      have skipped := (names_of_not_filed (not_filed_of_kind (Bool.eq_false_iff.mpr unfiled))).2.2.2
      rw [← ih, List.forM, skipped]
      rfl

theorem Aligned.ofSites {sites sites' : List Site}
    (listed : Forall₂ (fun s s' => pairing.Twin s s' ∨ ¬ IsFiled s ∧ ¬ IsFiled s') sites sites') :
    Aligned pairing (.ofSites sites) (.ofSites sites') := by
  have from_tables {table table' : SymbolTable} (aligned : Aligned pairing table table') :
      Aligned pairing (sites.foldl SymbolTable.register table) (sites'.foldl SymbolTable.register table') := by
    induction listed generalizing table table' with
    | nil => exact aligned
    | cons both _ ih =>
      refine ih ?_
      rcases both with twin | ⟨unfiled, unfiledToo⟩
      · exact aligned.register twin
      · rw [register_of_not_filed table unfiled, register_of_not_filed table' unfiledToo]
        exact aligned
  exact from_tables ⟨.nil, .nil, .nil⟩

section

variable {root root' : Site}
  (walks : Forall₂ (fun s s' => pairing.Twin s s' ∨ ¬ IsFiled s ∧ ¬ IsFiled s') root.walk root'.walk)

include walks

theorem Aligned.ofTree : Aligned pairing (.ofTree root) (.ofTree root') :=
  Aligned.ofSites walks

theorem checkTree_eq : checkTree root = checkTree root' := by
  refine forM_eq_of_forall₂ walks fun s s' both => ?_
  rcases both with twin | ⟨unfiled, unfiledToo⟩
  · exact checkNames_eq twin
  · rw [(names_of_not_filed unfiled).2.2.2, (names_of_not_filed unfiledToo).2.2.2]

end

end SymbolTable

/-! ### Types in C -/

namespace Resolver

variable {config : Config} {table table' : SymbolTable} {t t' : CxxType} {scope : String}
  (tables : table.Counterpart pairing table')

include tables

theorem categoryAt_eq {scope : Value} (checked : table.checkResolve t scope = table'.checkResolve t' scope)
    (same : table.resolve t scope.display = table'.resolve t' scope.display) :
    categoryAt ⟨config, table⟩ t scope = categoryAt ⟨config, table'⟩ t' scope := by
  simp only [categoryAt, tables.checkType_eq checked same, tables.category_eq same]

theorem cTypeOf_eq (same : table.resolve t scope = table'.resolve t' scope) (side : Side) (category : Category) :
    cTypeOf ⟨config, table⟩ t scope side category = cTypeOf ⟨config, table'⟩ t' scope side category := by
  have enum : enumCType ⟨config, table⟩ (table.enum? (table.resolve t scope).base scope) side =
      enumCType ⟨config, table'⟩ (table'.enum? (table'.resolve t' scope).base scope) side := by
    rw [same]
    refine rel_elim (tables.enum_rel (table'.resolve t' scope).base scope) rfl fun _ _ twin => ?_
    cases side with
    | header => simp only [enumCType, enumType_eq config (pairing.namesake twin)]
    | implementation => rfl
  have opaquePointer : opaquePointer ⟨config, table⟩ t scope = opaquePointer ⟨config, table'⟩ t' scope := by
    simp only [opaquePointer, opaqueName, same]
  simp only [cTypeOf, enum, opaquePointer]
  rw [same]
  refine rel_elim (tables.class_rel (table'.resolve t' scope).base scope) rfl fun _ _ twins => ?_
  simp only [proxyName_eq config (pairing.namesake twins.1)]

theorem checkCType_eq (same : table.resolve t scope = table'.resolve t' scope) (category : Category) :
    checkCType ⟨config, table⟩ t scope category = checkCType ⟨config, table'⟩ t' scope category := by
  simp only [checkCType, same]
  generalize (table'.resolve t' scope).base = base
  refine rel_elim (tables.enum_rel base scope) ?_ fun _ _ enums => ?_
  · refine rel_elim (tables.class_rel base scope) rfl fun _ _ classes => ?_
    simp only [checkProxy_eq (pairing.namesake classes.1)]
  · simp only [checkEnumType_eq (pairing.namesake enums)]
    refine rel_elim (tables.class_rel base scope) rfl fun _ _ classes => ?_
    simp only [checkProxy_eq (pairing.namesake classes.1)]

/-! ### Types in the facade -/

theorem classOf_rel (config : Config) (t : CxxType) (scope : String) (category : Category) :
    Option.Rel pairing.TwinClass (classOf? ⟨config, table⟩ t scope category)
      (classOf? ⟨config, table'⟩ t scope category) := by
  simp only [classOf?, tables.resolve_eq]
  split
  · exact tables.class_rel _ scope
  · exact .none

theorem plainFacade_eq (t : CxxType) (scope : String) :
    plainFacade ⟨config, table⟩ t scope = plainFacade ⟨config, table'⟩ t scope := by
  have cTypes : cTypeOf ⟨config, table⟩ t scope .header = cTypeOf ⟨config, table'⟩ t scope .header :=
    funext (cTypeOf_eq tables (tables.resolve_eq t scope) .header)
  simp only [plainFacade, cType, tables.resolve_eq, tables.category_eq (tables.resolve_eq t scope), cTypes]

theorem checkFacade_eq (config : Config) (same : table.resolve t scope = table'.resolve t scope) (category : Category) :
    checkFacadeParameter ⟨config, table⟩ t scope category = checkFacadeParameter ⟨config, table'⟩ t scope category ∧
      checkFacadeResult ⟨config, table⟩ t scope category = checkFacadeResult ⟨config, table'⟩ t scope category := by
  unfold checkFacadeParameter checkFacadeResult
  refine rel_elim (classOf_rel tables config t scope category) ?_ fun _ _ twins => ?_
  · exact ⟨checkCType_eq tables same category, checkCType_eq tables same category⟩
  · simp only [pairing.decl twins.1, and_self]

theorem facadeParameterAt_eq (t : CxxType) (scope : Value) :
    facadeParameterAt ⟨config, table⟩ t scope = facadeParameterAt ⟨config, table'⟩ t scope := by
  have same := tables.resolve_eq t scope.display
  simp only [facadeParameterAt, facadeParameter, categoryAt_eq tables (tables.checkResolve_eq t scope) same,
    tables.category_eq same, same, plainFacade_eq tables]
  refine congrArg₂ (· >>= ·) rfl (funext fun category => ?_)
  rw [(checkFacade_eq tables config same category).1]
  refine congrArg₂ (· >>= ·) rfl (funext fun _ => congrArg Halt.ofUnreadable ?_)
  refine congrArg₂ (· >>= ·) rfl (funext fun category => ?_)
  refine rel_elim (classOf_rel tables config t scope.display category) rfl fun _ _ twins => ?_
  simp only [pairing.decl twins.1]

theorem facadeResultAt_eq (t : CxxType) (scope : Value) :
    facadeResultAt ⟨config, table⟩ t scope = facadeResultAt ⟨config, table'⟩ t scope := by
  have same := tables.resolve_eq t scope.display
  simp only [facadeResultAt, facadeResult, categoryAt_eq tables (tables.checkResolve_eq t scope) same,
    tables.category_eq same, plainFacade_eq tables]
  refine congrArg₂ (· >>= ·) rfl (funext fun category => ?_)
  rw [(checkFacade_eq tables config same category).2]
  refine congrArg₂ (· >>= ·) rfl (funext fun _ => congrArg₂ (· >>= ·) rfl (funext fun category => ?_))
  split
  · rfl
  · rfl
  · rfl
  · refine rel_elim (classOf_rel tables config t scope.display category) rfl fun _ _ twins => ?_
    simp only [facadeObject, pairing.decl twins.1, same]

end Resolver

end FlatAbi
