import FlatAbi.Proofs.Wrapper.Agreement

/-!
The callables of a class. They have no types but those of their declarations and the pointer to the class.
-/

namespace FlatAbi

open List Declaration

variable {r r' : Resolver} {cls : Site} {abstract : Bool} {c : Callable} {owner : Option Site} {shape : Callable}

namespace Members

/-- The types that a callable can have as its result: those of its declaration, and a pointer to its class. -/
inductive Yields (r : Resolver) (owner : Option Site) (site : Site) : CxxType → Prop where
  | nothing : Yields r owner site .void
  | object {cls : Site} (owned : owner = some cls) : Yields r owner site (pointerType cls)
  | declared {t : CxxType} (written : site.decl.type = some t) : Yields r owner site t
  | read {t : CxxType} {category : Category} (written : site.decl.type = some t)
      (known : r.categoryAt t site.scopeValue = .ok category) : Yields r owner site (getterResult r.config t category)

/-- A callable has the types of its declaration. -/
structure Regular (r : Resolver) (owner : Option Site) (c : Callable) : Prop where
  result : Yields r owner c.site c.result
  parameters : ∀ p ∈ c.parameters, ∀ t, p.type = some t → t ∈ c.decl.types

/-- Where the declaration of a callable of a class stands. -/
inductive Stands (cls : Site) (shadows : List Shadow) : Site → Prop where
  | declared {child : Site} (listed : child ∈ cls.children) : Stands cls shadows child
  | inherited {m : Shadow} (listed : m ∈ shadows) : Stands cls shadows m.member
  | implicit (destructor : Bool) : Stands cls shadows (implicitSite cls destructor)

theorem mem_types_of_type {d : Declaration} {t : CxxType} (written : d.type = some t) : t ∈ d.types :=
  mem_append_left _ (Option.mem_toList.mpr written)

theorem yields_type {site : Site} : Yields r owner site (site.decl.type.getD .void) := by
  cases written : site.decl.type with
  | none => exact .nothing
  | some t => exact .declared written

theorem parameters_declared (declared : c.parameters = [] ∨ c.parameters = c.decl.parameters) :
    ∀ p ∈ c.parameters, ∀ t, p.type = some t → t ∈ c.decl.types := by
  intro p listed t written
  rcases declared with empty | same
  · rw [empty] at listed
    cases listed
  · rw [same] at listed
    exact mem_append_right _ (mem_filterMap.mpr ⟨p, listed, written⟩)

/-- Where a callable is declared, the class that it is a member of, and the class that it is inherited from. -/
def place (c : Callable) : Site × Option Site × Option Site :=
  (c.site, c.owner, c.inheritedFrom)

variable {callables : List Callable}

theorem accessors_regular (owner : Option Site) {setter : Role} (found : accessors r shape setter = .ok callables) :
    ∀ c ∈ callables, (Regular r owner shape → Regular r owner c) ∧ place c = place shape := by
  obtain ⟨t, category, written, known, callables⟩ := accessors_eq_ok found
  have getter (regular : Regular r owner shape) :
      Regular r owner { shape with result := getterResult r.config t category } :=
    ⟨.read written known, regular.parameters⟩
  have setter (regular : Regular r owner shape) :
      Regular r owner { shape with role := setter, parameters := [{ name := .string "value", type := some t }] } := by
    refine ⟨regular.result, fun p listed type same => ?_⟩
    obtain rfl := mem_singleton.mp listed
    cases same
    exact mem_types_of_type written
  rcases callables with rfl | rfl
  · exact forall_mem_cons.mpr ⟨⟨getter, rfl⟩, forall_mem_singleton.mpr ⟨setter, rfl⟩⟩
  · exact forall_mem_singleton.mpr ⟨getter, rfl⟩

theorem ofChild_regular {child : Site} (found : ofChild r cls abstract child = .ok callables) :
    ∀ c ∈ callables, Regular r (some cls) c ∧ place c = (child, some cls, none) := by
  unfold ofChild at found
  split at found
  · split at found <;> cases found
    · exact forall_mem_nil _
    · exact forall_mem_singleton.mpr ⟨⟨.object rfl, parameters_declared (.inr rfl)⟩, rfl⟩
  · cases found
    exact forall_mem_singleton.mpr ⟨⟨.nothing, parameters_declared (.inl rfl)⟩, rfl⟩
  · split at found
    · cases found
      exact forall_mem_nil _
    · obtain ⟨_, _, found⟩ := bind_eq_ok found
      cases found
      exact forall_mem_singleton.mpr ⟨⟨yields_type, parameters_declared (.inr rfl)⟩, rfl⟩
  · intro c listed
    obtain ⟨regular, place⟩ := accessors_regular (some cls) found c listed
    exact ⟨regular ⟨.nothing, parameters_declared (.inl rfl)⟩, place⟩
  · cases found
    exact forall_mem_nil _

theorem own_regular {found : List Own} (listed : own r cls abstract = .ok found) :
    ∀ o ∈ found, ∀ c ∈ o.callables,
      Regular r (some cls) c ∧ ∃ child ∈ cls.children, place c = (child, some cls, none) := by
  intro o member c held
  obtain ⟨child, listed, same⟩ := exists_of_mem_mapM_ok listed o member
  split at same
  · cases same
    cases held
  · obtain ⟨callables, children, rfl⟩ := map_eq_ok same
    obtain ⟨regular, place⟩ := ofChild_regular children c held
    exact ⟨regular, child, listed, place⟩

theorem ofShadow_regular {m : Shadow} (found : ofShadow r cls m = .ok callables) :
    ∀ c ∈ callables, Regular r (some cls) c ∧ place c = (m.member, some cls, some m.origin) := by
  unfold ofShadow at found
  dsimp only at found
  split at found
  · intro c listed
    obtain ⟨regular, place⟩ := accessors_regular (some cls) found c listed
    exact ⟨regular ⟨.nothing, parameters_declared (.inl rfl)⟩, place⟩
  · cases found
    exact forall_mem_singleton.mpr ⟨⟨yields_type, parameters_declared (.inr rfl)⟩, rfl⟩

variable {shadows : List Shadow}

theorem inherited_regular (found : inherited r cls shadows = .ok callables) :
    ∀ c ∈ callables, Regular r (some cls) c ∧ ∃ m ∈ shadows, place c = (m.member, some cls, some m.origin) := by
  obtain ⟨groups, mapped, found⟩ := bind_eq_ok found
  cases found
  intro c listed
  obtain ⟨group, member, listed⟩ := mem_flatten.mp listed
  obtain ⟨m, shadowed, same⟩ := exists_of_mem_mapM_ok mapped group member
  obtain ⟨regular, place⟩ := ofShadow_regular same c listed
  exact ⟨regular, m, shadowed, place⟩

theorem implicitSite_decl (cls : Site) (destructor : Bool) :
    (implicitSite cls destructor).decl.types = [] ∧ (implicitSite cls destructor).decl.baseNames = [] ∧
      (implicitSite cls destructor).kind = if destructor then .destructorDecl else .constructorDecl := by
  have plain (kind : Kind) (name : String) : (named kind name).types = [] ∧
      (named kind name).baseNames = [] ∧ (named kind name).kind = kind := by
    unfold named withDefaultSymbol
    split <;> exact ⟨rfl, rfl, rfl⟩
  cases destructor with
  | true => exact plain .destructorDecl ("~" ++ cls.decl.shortName)
  | false => exact plain .constructorDecl cls.decl.shortName

theorem implicit_regular :
    ∀ c ∈ implicitConstructor cls abstract ++ implicitDestructor cls,
      Regular r (some cls) c ∧ ∃ destructor, c.site = implicitSite cls destructor := by
  intro c listed
  rcases mem_append.mp listed with listed | listed
  · unfold implicitConstructor at listed
    split at listed
    · cases listed
    · obtain rfl := mem_singleton.mp listed
      exact ⟨⟨.object rfl, parameters_declared (.inl rfl)⟩, false, rfl⟩
  · unfold implicitDestructor at listed
    split at listed
    · cases listed
    · obtain rfl := mem_singleton.mp listed
      exact ⟨⟨.nothing, parameters_declared (.inl rfl)⟩, true, rfl⟩

theorem implicit_place :
    ∀ c ∈ implicitConstructor cls abstract ++ implicitDestructor cls, c.owner = some cls ∧ c.inheritedFrom = none := by
  unfold implicitConstructor implicitDestructor
  split <;> split <;> simp

theorem markOverload_place (all : List Callable) (c : Callable) : place (markOverload all c) = place c := by
  unfold markOverload
  split
  · rfl
  · split <;> rfl

theorem markOverload_regular {all : List Callable} (regular : Regular r (some cls) c) :
    Regular r (some cls) (markOverload all c) := by
  unfold markOverload
  split
  · exact ⟨regular.result, regular.parameters⟩
  · split
    · exact ⟨regular.result, regular.parameters⟩
    · exact regular

section

variable {own : List Own} {inherited : List Callable} (owned : Members.own r cls abstract = .ok own)
  (found : Members.inherited r cls shadows = .ok inherited)
  (listed : .callable c ∈ inOrder cls abstract own inherited)

include owned found listed

/-- Every callable of a class has the types of its declaration, which is a child of the class, one that it inherits, or
one that it has implicitly. -/
theorem inOrder_place :
    Regular r (some cls) c ∧ ((∃ child ∈ cls.children, place c = (child, some cls, none)) ∨
      (∃ m ∈ shadows, place c = (m.member, some cls, some m.origin)) ∨
      c ∈ implicitConstructor cls abstract ++ implicitDestructor cls) := by
  simp only [inOrder, mem_append, mem_flatMap, mem_map] at listed
  rcases listed with (⟨o, member, listed⟩ | ⟨written, also, same⟩) | ⟨written, also, same⟩
  · unfold ofOwn at listed
    split at listed
    · cases listed
    · split at listed
      · simp at listed
      · simp at listed
      · obtain ⟨written, also, same⟩ := mem_map.mp listed
        cases same
        obtain ⟨regular, child, listed, place⟩ := own_regular owned o member written also
        exact ⟨markOverload_regular regular, .inl ⟨child, listed, (markOverload_place _ written).trans place⟩⟩
  · cases same
    obtain ⟨regular, m, shadowed, place⟩ := inherited_regular found written also
    exact ⟨markOverload_regular regular, .inr (.inl ⟨m, shadowed, (markOverload_place _ written).trans place⟩)⟩
  · cases same
    have implicit := mem_append.mpr also
    exact ⟨(implicit_regular _ implicit).1, .inr (.inr implicit)⟩

theorem inOrder_regular : Regular r (some cls) c ∧ Stands cls shadows c.site := by
  obtain ⟨regular, ⟨child, member, place⟩ | ⟨m, shadowed, place⟩ | implicit⟩ := inOrder_place owned found listed
  · have site : c.site = child := congrArg Prod.fst place
    exact ⟨regular, site ▸ .declared member⟩
  · have site : c.site = m.member := congrArg Prod.fst place
    exact ⟨regular, site ▸ .inherited shadowed⟩
  · obtain ⟨_, destructor, site⟩ := implicit_regular (r := r) _ implicit
    exact ⟨regular, site ▸ .implicit destructor⟩

end

variable {Seen : String → Prop}

theorem getterResult_base (config : Config) (t : CxxType) (category : Category) :
    (getterResult config t category).base = t.base := by
  unfold getterResult
  split
  · rfl
  · split <;> rfl

theorem Yields.seen {site : Site} {t : CxxType} (yields : Yields r owner site t) (void : Seen CxxType.void.base)
    (object : ∀ cls ∈ owner, Seen cls.qualifiedName) (types : ∀ t ∈ site.decl.types, Seen t.base) :
    Seen t.base := by
  cases yields with
  | nothing => exact void
  | object owned => exact object _ owned
  | declared written => exact types _ (mem_types_of_type written)
  | read written known =>
    rw [getterResult_base]
    exact types _ (mem_types_of_type written)

theorem Regular.sees (regular : Regular r owner c) (void : Seen CxxType.void.base)
    (object : ∀ cls ∈ owner, Seen cls.qualifiedName) (types : ∀ t ∈ c.decl.types, Seen t.base) : c.Sees Seen :=
  ⟨regular.result.seen void object types, fun p listed t written => types t (regular.parameters p listed t written)⟩

section agreement

variable (same : r.SameSeen Seen r')

include same

theorem accessors_agree (types : ∀ t ∈ shape.decl.types, Seen t.base) (setter : Role) :
    accessors r shape setter = accessors r' shape setter := by
  unfold accessors
  cases written : shape.decl.type with
  | none => rfl
  | some t =>
    have seen := types t (mem_types_of_type written)
    simp only [Wrapper.categoryOf_agree same seen, getterResult, same.config]

theorem ofChild_agree {child : Site} (types : ∀ t ∈ child.decl.types, Seen t.base) :
    ofChild r cls abstract child = ofChild r' cls abstract child := by
  unfold ofChild
  cases child.kind with
  | variableDecl =>
    refine accessors_agree same ?_ _
    exact types
  | _ => rfl

theorem own_agree (types : ∀ child ∈ cls.children, ∀ t ∈ child.decl.types, Seen t.base) :
    own r cls abstract = own r' cls abstract :=
  mapM_congr fun child listed => by simp only [ofChild_agree same (types child listed)]

theorem ofShadow_agree {m : Shadow} (types : ∀ t ∈ m.member.decl.types, Seen t.base) :
    ofShadow r cls m = ofShadow r' cls m := by
  unfold ofShadow
  dsimp only
  split
  · refine accessors_agree same ?_ _
    exact types
  · rfl

theorem inherited_agree (types : ∀ m ∈ shadows, ∀ t ∈ m.member.decl.types, Seen t.base) :
    inherited r cls shadows = inherited r' cls shadows := by
  unfold inherited
  rw [mapM_congr fun m listed => ofShadow_agree same (types m listed)]

end agreement

end Members

end FlatAbi
