import FlatAbi.Proofs.Declaration.Walk
import FlatAbi.Proofs.Emission.Members
import FlatAbi.Proofs.Inheritance.Shadows

/-!
The keys of the callables of a class. No two callables share one, though a key has less in it than a name.
-/

namespace FlatAbi

open List Callable Inheritance

variable {r : Resolver} {cls : Site} {abstract : Bool} {a b c : Callable}

/-- Callables of which not both can be filed under one key. -/
def Callable.Apart (a b : Callable) : Prop :=
  a.key = b.key → a.symbol.atom? = none

namespace Callable.Apart

theorem of_site (differ : a.site.id ≠ b.site.id) : a.Apart b :=
  fun same => absurd (congrArg NameKey.node same) differ

theorem of_role (differ : a.role ≠ b.role) : a.Apart b :=
  fun same => absurd (congrArg NameKey.role same) differ

end Callable.Apart

namespace Members

open Member

theorem markOverload_key (all : List Callable) (c : Callable) :
    (markOverload all c).key = c.key ∧ (markOverload all c).symbol = c.symbol := by
  unfold markOverload
  split
  · exact ⟨rfl, rfl⟩
  · split <;> exact ⟨rfl, rfl⟩

theorem markOverload_apart {all : List Callable} (apart : a.Apart b) :
    (markOverload all a).Apart (markOverload all b) := by
  unfold Apart
  rw [(markOverload_key all a).1, (markOverload_key all b).1, (markOverload_key all a).2]
  exact apart

variable {callables : List Callable}

theorem accessors_apart {shape : Callable} {setter : Role} (differ : shape.role ≠ setter)
    (found : accessors r shape setter = .ok callables) :
    callables.Pairwise Apart ∧
      ∀ c ∈ callables, c.symbol = shape.symbol ∧ (c.role = shape.role ∨ c.role = setter) := by
  obtain ⟨_, _, _, _, rfl | rfl⟩ := accessors_eq_ok found
  · exact ⟨pairwise_pair.mpr (.of_role differ), by simp⟩
  · exact ⟨pairwise_singleton _ _, by simp⟩

/-- What tells the callables of a child from those of other members. -/
structure OfChild (cls child : Site) (c : Callable) : Prop where
  place : place c = (child, some cls, none)
  named : c.role = .method ∨ c.role = .memberGet ∨ c.role = .memberSet →
    isHiding child ∧ c.symbol = child.decl.symbolValue
  constructs : c.role = .constructor → child.kind = .constructorDecl
  destroys : c.role = .destructor → child.kind = .destructorDecl

theorem ofChild_apart {child : Site} (found : ofChild r cls abstract child = .ok callables) :
    callables.Pairwise Apart ∧ ∀ c ∈ callables, OfChild cls child c := by
  have places c listed := (ofChild_regular found c listed).2
  unfold ofChild at found
  split at found
  next kind =>
    split at found
    · cases found
      exact ⟨.nil, forall_mem_nil _⟩
    · cases found
      refine ⟨pairwise_singleton _ _, forall_mem_singleton.mpr ⟨places _ (by simp), ?_, fun _ => kind, ?_⟩⟩
      · unfold constructorRole
        split <;> simp
      · unfold constructorRole
        split <;> simp
  next kind =>
    cases found
    refine ⟨pairwise_singleton _ _, forall_mem_singleton.mpr ⟨places _ (by simp), ?_, ?_, fun _ => kind⟩⟩
    · simp
    · simp
  next kind =>
    split at found
    · cases found
      exact ⟨.nil, forall_mem_nil _⟩
    · obtain ⟨_, _, found⟩ := bind_eq_ok found
      cases found
      refine ⟨pairwise_singleton _ _, forall_mem_singleton.mpr ⟨places _ (by simp), ?_, ?_, ?_⟩⟩
      · exact fun _ => ⟨by simp [isHiding, kind], rfl⟩
      · cases child.decl.isStatic <;> simp
      · cases child.decl.isStatic <;> simp
  next kind =>
    obtain ⟨apart, shaped⟩ := accessors_apart (by cases child.decl.isStatic <;> simp) found
    refine ⟨apart, fun c listed => ?_⟩
    obtain ⟨symbol, roles⟩ := shaped c listed
    have reads : c.role ≠ .constructor ∧ c.role ≠ .destructor := by
      rcases roles with role | role <;> rw [role] <;> split <;> simp
    exact ⟨places c listed, fun _ => ⟨by simp [isHiding, kind], symbol⟩, fun role => absurd role reads.1,
      fun role => absurd role reads.2⟩
  · cases found
    exact ⟨.nil, forall_mem_nil _⟩

theorem own_child {child : Site} {o : Own}
    (found : (if child.decl.isIgnored || !child.decl.isPublic then .ok ⟨child, []⟩
      else (ofChild r cls abstract child).map fun callables => ⟨child, callables⟩) = .ok o) :
    o.child = child ∧ o.callables.Pairwise Apart ∧ ∀ c ∈ o.callables, OfChild cls child c := by
  split at found
  · cases found
    exact ⟨rfl, .nil, forall_mem_nil _⟩
  · obtain ⟨callables, children, rfl⟩ := map_eq_ok found
    exact ⟨rfl, ofChild_apart children⟩

theorem own_apart {found : List Own} (distinct : (cls.children.map (·.id)).Nodup)
    (owned : own r cls abstract = .ok found) :
    (found.flatMap (·.callables)).Pairwise Apart ∧
      ∀ c ∈ found.flatMap (·.callables), ∃ child ∈ cls.children, OfChild cls child c := by
  have each : ∀ o ∈ found, o.child ∈ cls.children ∧ o.callables.Pairwise Apart ∧
      ∀ c ∈ o.callables, OfChild cls o.child c := by
    intro o member
    obtain ⟨child, listed, same⟩ := exists_of_mem_mapM_ok owned o member
    obtain ⟨rfl, ofChild⟩ := own_child same
    exact ⟨listed, ofChild⟩
  have inOrder : found.map (·.child) = cls.children := map_of_mapM_ok (fun _ _ same => (own_child same).1) owned
  rw [← inOrder, map_map] at distinct
  constructor
  · refine pairwise_flatMap.mpr ⟨fun o member => (each o member).2.1, ?_⟩
    refine (pairwise_map.mp distinct).imp_of_mem fun {one two} member memberToo differ a inOne b inTwo => .of_site ?_
    have site : a.site = one.child := congrArg Prod.fst ((each one member).2.2 a inOne).place
    have siteToo : b.site = two.child := congrArg Prod.fst ((each two memberToo).2.2 b inTwo).place
    rw [site, siteToo]
    exact differ
  · intro c listed
    obtain ⟨o, member, held⟩ := mem_flatMap.mp listed
    exact ⟨o.child, (each o member).1, (each o member).2.2 c held⟩

/-- What tells the callables of an inherited member from those of other members. -/
structure OfShadow (cls : Site) (m : Shadow) (c : Callable) : Prop where
  place : place c = (m.member, some cls, some m.origin)
  role : c.role = .method ∨ c.role = .memberGet ∨ c.role = .memberSet
  symbol : c.symbol = m.symbol

theorem ofShadow_apart {m : Shadow} (truthy : m.symbol.truthy) (found : ofShadow r cls m = .ok callables) :
    callables.Pairwise Apart ∧ ∀ c ∈ callables, OfShadow cls m c := by
  have places c listed := (ofShadow_regular found c listed).2
  simp only [ofShadow, truthy, if_true] at found
  split at found
  · obtain ⟨apart, shaped⟩ := accessors_apart (by simp) found
    exact ⟨apart, fun c listed => ⟨places c listed, .inr (shaped c listed).2, (shaped c listed).1⟩⟩
  · cases found
    exact ⟨pairwise_singleton _ _, forall_mem_singleton.mpr ⟨places _ (by simp), .inl rfl, rfl⟩⟩

theorem inherited_apart {shadows : List Shadow} (distinct : (shadows.map (·.member.id)).Nodup)
    (truthy : ∀ m ∈ shadows, m.symbol.truthy) (found : inherited r cls shadows = .ok callables) :
    callables.Pairwise Apart ∧ ∀ c ∈ callables, ∃ m ∈ shadows, OfShadow cls m c := by
  obtain ⟨groups, mapped, same⟩ := bind_eq_ok found
  cases same
  clear found
  induction shadows generalizing groups with
  | nil =>
    cases mapped
    exact ⟨.nil, forall_mem_nil _⟩
  | cons m rest ih =>
    rw [mapM_cons] at mapped
    obtain ⟨group, first, mapped⟩ := bind_eq_ok mapped
    obtain ⟨others, later, mapped⟩ := bind_eq_ok mapped
    cases mapped
    rw [map_cons, nodup_cons] at distinct
    obtain ⟨apart, ofFirst⟩ := ofShadow_apart (truthy m (by simp)) first
    obtain ⟨apartToo, ofRest⟩ := ih distinct.2 (fun other listed => truthy other (by simp [listed])) others later
    rw [flatten_cons]
    constructor
    · refine pairwise_append.mpr ⟨apart, apartToo, fun a inFirst b inRest => .of_site fun same => ?_⟩
      obtain ⟨other, listed, ofOther⟩ := ofRest b inRest
      have site : a.site = m.member := congrArg Prod.fst (ofFirst a inFirst).place
      have siteToo : b.site = other.member := congrArg Prod.fst ofOther.place
      rw [site, siteToo] at same
      exact distinct.1 (mem_map.mpr ⟨other, listed, same.symm⟩)
    · simp only [forall_mem_append]
      refine ⟨fun c listed => ⟨m, by simp, ofFirst c listed⟩, fun c listed => ?_⟩
      obtain ⟨other, listed, ofOther⟩ := ofRest c listed
      exact ⟨other, by simp [listed], ofOther⟩

/-- A member that a class inherits from itself is not filed under a key of its own. -/
theorem OfChild.apart_shadow {Known Good : Site → Prop} {shadows : List Shadow} {child : Site} {m : Shadow}
    (inherits : Inherits Known Good cls.id shadows) (isKnown : Known cls)
    (identified : ∀ child ∈ cls.children, ∀ m ∈ shadows, child.id = m.member.id → child = m.member)
    (listed : child ∈ cls.children) (ofChild : OfChild cls child a) (member : m ∈ shadows)
    (ofShadow : OfShadow cls m b) :
    a.Apart b := by
  intro same
  have site : a.site = child := congrArg Prod.fst ofChild.place
  have siteToo : b.site = m.member := congrArg Prod.fst ofShadow.place
  have sameId : child.id = m.member.id := by
    rw [← site, ← siteToo]
    exact congrArg NameKey.node same
  obtain rfl := identified child listed m member sameId
  have sameRole : a.role = b.role := congrArg NameKey.role same
  obtain ⟨hides, symbol⟩ := ofChild.named (sameRole ▸ ofShadow.role)
  have sameAtom : a.symbol.atom? = m.symbol.atom? := by
    rw [← ofShadow.symbol]
    exact congrArg NameKey.symbol same
  have lent := inherits.lent m member
  rcases lent.symbol with own | ⟨text, written, longer⟩
  · have unhidden := inherits.hidden cls isKnown rfl m member own
    cases filed : m.symbol.atom? with
    | none => exact sameAtom.trans filed
    | some atom =>
      have given : m.member.decl.givenSymbol.atom? = some atom := by rw [← lent.givenSymbol.2, ← own, filed]
      have owned : atom ∈ ownSymbols cls :=
        mem_filterMap.mpr ⟨m.member, listed, by rw [if_pos hides, given]⟩
      simp [isOwn, filed, owned] at unhidden
  · rw [symbol, written] at sameAtom
    have text := Value.eq_string_of_atom sameAtom
    rw [Declaration.symbol, text] at longer
    exact absurd longer (Nat.lt_irrefl _)

/-- What tells an implicit member from others: the class declares none of its kind. -/
structure OfNone (cls : Site) (c : Callable) : Prop where
  owner : c.owner = some cls
  role : c.role = .constructor ∧ declares cls .constructorDecl = false ∨
    c.role = .destructor ∧ declares cls .destructorDecl = false

theorem implicit_apart : (implicitConstructor cls abstract ++ implicitDestructor cls).Pairwise Apart ∧
    ∀ c ∈ implicitConstructor cls abstract ++ implicitDestructor cls, OfNone cls c := by
  have constructors : ∀ c ∈ implicitConstructor cls abstract, c.owner = some cls ∧ c.role = .constructor ∧
      declares cls .constructorDecl = false := by
    unfold implicitConstructor
    split
    · exact forall_mem_nil _
    next implicit =>
      simp only [Bool.or_eq_true, not_or, Bool.not_eq_true] at implicit
      exact forall_mem_singleton.mpr ⟨rfl, rfl, implicit.1.1⟩
  have destructors : ∀ c ∈ implicitDestructor cls, c.owner = some cls ∧ c.role = .destructor ∧
      declares cls .destructorDecl = false := by
    unfold implicitDestructor
    split
    · exact forall_mem_nil _
    next implicit =>
      simp only [Bool.or_eq_true, not_or, Bool.not_eq_true] at implicit
      exact forall_mem_singleton.mpr ⟨rfl, rfl, implicit.1⟩
  constructor
  · refine pairwise_append.mpr ⟨?_, ?_, fun a inFirst b inRest => .of_role ?_⟩
    · unfold implicitConstructor
      split
      · exact .nil
      · exact pairwise_singleton _ _
    · unfold implicitDestructor
      split
      · exact .nil
      · exact pairwise_singleton _ _
    · rw [(constructors a inFirst).2.1, (destructors b inRest).2.1]
      simp
  · simp only [forall_mem_append]
    exact ⟨fun c listed => ⟨(constructors c listed).1, .inl (constructors c listed).2⟩,
      fun c listed => ⟨(destructors c listed).1, .inr (destructors c listed).2⟩⟩

theorem OfChild.apart_none {child : Site} (listed : child ∈ cls.children) (ofChild : OfChild cls child a)
    (ofNone : OfNone cls b) : a.Apart b := by
  have declared {kind : Kind} (isKind : child.kind = kind) : declares cls kind :=
    any_eq_true.mpr ⟨child, listed, by simp [isKind]⟩
  apply Apart.of_role
  intro same
  rcases ofNone.role with ⟨role, undeclared⟩ | ⟨role, undeclared⟩
  · rw [declared (ofChild.constructs (same.trans role))] at undeclared
    cases undeclared
  · rw [declared (ofChild.destroys (same.trans role))] at undeclared
    cases undeclared

theorem OfShadow.apart_none {m : Shadow} (ofShadow : OfShadow cls m a) (ofNone : OfNone cls b) : a.Apart b := by
  apply Apart.of_role
  intro same
  rcases ofNone.role with ⟨role, _⟩ | ⟨role, _⟩ <;> rcases ofShadow.role with other | other | other <;>
    simp [same, role] at other

def Member.callable? : Member → Option Callable
  | .callable c => some c
  | .enumeration _ | .constant _ => none

theorem filterMap_callable (callables : List Callable) : (callables.map callable).filterMap callable? = callables := by
  rw [filterMap_map]
  exact filterMap_some

theorem callables_ofOwn (all : List Callable) (own : List Own) :
    ((own.flatMap (ofOwn all)).filterMap callable?).Sublist ((own.flatMap (·.callables)).map (markOverload all)) := by
  induction own with
  | nil => exact .slnil
  | cons o rest ih =>
    rw [flatMap_cons, filterMap_append, flatMap_cons, map_append]
    refine Sublist.append ?_ ih
    unfold ofOwn
    split
    · exact nil_sublist _
    · split
      · exact nil_sublist _
      · exact nil_sublist _
      · have marked : (o.callables.map fun c => callable (markOverload all c)) =
            (o.callables.map (markOverload all)).map callable := by
          rw [map_map]
          rfl
        rw [marked, filterMap_callable]

theorem callables_inOrder {own : List Own} {inherited : List Callable} :
    ((inOrder cls abstract own inherited).filterMap callable?).Sublist
      ((own.flatMap (·.callables) ++ inherited).map (markOverload (own.flatMap (·.callables) ++ inherited)) ++
        (implicitConstructor cls abstract ++ implicitDestructor cls)) := by
  unfold inOrder
  dsimp only
  have marked (all : List Callable) : (inherited.map fun c => callable (markOverload all c)) =
      (inherited.map (markOverload all)).map callable := by
    rw [map_map]
    rfl
  rw [filterMap_append, filterMap_append, marked, filterMap_callable, filterMap_callable, map_append]
  exact ((callables_ofOwn _ own).append (.refl _)).append (.refl _)

theorem inOrder_apart {Known Good : Site → Prop} {own : List Own} {shadows : List Shadow} {inherited : List Callable}
    (distinct : (cls.children.map (·.id)).Nodup) (inherits : Inherits Known Good cls.id shadows)
    (isKnown : Known cls)
    (identified : ∀ child ∈ cls.children, ∀ m ∈ shadows, child.id = m.member.id → child = m.member)
    (owned : Members.own r cls abstract = .ok own) (found : Members.inherited r cls shadows = .ok inherited) :
    ((inOrder cls abstract own inherited).filterMap callable?).Pairwise Apart := by
  obtain ⟨ownApart, ofOwn⟩ := own_apart distinct owned
  obtain ⟨inheritedApart, ofShadows⟩ :=
    inherited_apart inherits.distinct (fun m listed => (inherits.lent m listed).truthy) found
  obtain ⟨implicitApart, ofNone⟩ := @implicit_apart cls abstract
  have both : (own.flatMap (·.callables) ++ inherited).Pairwise Apart := by
    refine pairwise_append.mpr ⟨ownApart, inheritedApart, fun a inOwn b inInherited => ?_⟩
    obtain ⟨child, listed, ofChild⟩ := ofOwn a inOwn
    obtain ⟨m, member, ofShadow⟩ := ofShadows b inInherited
    exact ofChild.apart_shadow inherits isKnown identified listed member ofShadow
  refine Pairwise.sublist callables_inOrder (pairwise_append.mpr ⟨?_, implicitApart, ?_⟩)
  · exact pairwise_map.mpr (both.imp markOverload_apart)
  · intro a declared b implicit
    obtain ⟨original, listed, rfl⟩ := mem_map.mp declared
    have apart : original.Apart b := by
      rcases mem_append.mp listed with inOwn | inInherited
      · obtain ⟨child, listed, ofChild⟩ := ofOwn original inOwn
        exact ofChild.apart_none listed (ofNone b implicit)
      · obtain ⟨m, _, ofShadow⟩ := ofShadows original inInherited
        exact ofShadow.apart_none (ofNone b implicit)
    unfold Apart
    rw [(markOverload_key _ original).1, (markOverload_key _ original).2]
    exact apart

end Members

end FlatAbi
