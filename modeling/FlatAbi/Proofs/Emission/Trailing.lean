import FlatAbi.Proofs.Emission.Ahead

/-!
A run that is ahead stays ahead: declarations that do not refer to the exception class are emitted in the same way.
-/

namespace FlatAbi

open Emit Wrapper SymbolTable Members Trails Facade Variable

variable {lead : Lead} {left right : Draft} {job : Job} {c : Callable} {cls site : Site} {Seen : String → Prop}

/-- A callable of the tree that does not refer to the exception class. -/
structure Callable.Ordinary (c : Callable) : Prop extends c.Sees IsOrdinary where
  declared : c.site.id.isRuntime = false

theorem SymbolTable.void_isOrdinary : IsOrdinary CxxType.void.base := by
  decide

theorem Members.Regular.ordinary {r : Resolver} {owner : Option Site} (regular : Regular r owner c)
    (object : ∀ cls ∈ owner, IsOrdinary cls.qualifiedName) (site : c.site.Ordinary) : c.Ordinary :=
  ⟨regular.sees void_isOrdinary object site.types, site.declared⟩

theorem Lead.resolvers (lead : Lead) (config : Config) :
    Resolver.SameSeen IsOrdinary ⟨config, lead.table⟩ ⟨config, lead.ahead⟩ :=
  ⟨rfl, lead.same⟩

/-! ### Wrappers -/

namespace Ahead

theorem isDefined (ahead : Ahead lead left right) (name : String) :
    right.isDefined name = (lead.symbols.any (·.name.asString? == some name) || left.isDefined name) := by
  rw [Draft.isDefined, ahead.symbols, List.any_append, Draft.isDefined]

theorem named (ahead : Ahead lead left right) (declared : c.site.id.isRuntime = false) (config : Config)
    (codes : List String) :
    (left.names.name config c codes).1 = (right.names.name config c codes).1 ∧
      Ahead lead { left with names := (left.names.name config c codes).2 }
        { right with names := (right.names.name config c codes).2 } := by
  unfold NameBook.name NameBook.give
  rw [ahead.names c.key declared]
  refine ⟨rfl, { ahead with names := fun key ordinary => ?_ }⟩
  simp only [List.lookup_cons, ahead.names key ordinary]

end Ahead

/-- Both runs have the same symbol for a wrapper, or the one that is ahead has defined it already. -/
def Lead.Reserved (lead : Lead) (one two : Option String) : Prop :=
  one = two ∨ two = none ∧ ∃ symbol, one = some symbol ∧ ∃ own ∈ lead.symbols, own.name = .string symbol

namespace Wrapper

theorem reserveSymbol_trails (declared : c.site.id.isRuntime = false) (codes : List String) :
    Trails lead (reserveSymbol job c codes) (reserveSymbol job c codes) lead.Reserved := by
  intro left right ahead first second lastLeft lastRight began ended counts countsToo
  have ahead : Ahead lead left right := ahead
  obtain ⟨same, filed⟩ := ahead.named declared job.config codes
  have defined := ahead.isDefined (left.names.name job.config c codes).1
  rcases ends_reserveSymbol began (counts rfl) with ⟨fresh, rfl, rfl⟩ | ⟨taken, rfl, rfl⟩
  · rw [fresh, Bool.or_false, same] at defined
    rcases ends_reserveSymbol ended (countsToo rfl) with ⟨_, rfl, rfl⟩ | ⟨takenToo, rfl, rfl⟩
    · exact ⟨filed, .inl (congrArg some same)⟩
    · refine ⟨filed.tell _ _, .inr ⟨rfl, _, rfl, ?_⟩⟩
      rw [takenToo] at defined
      obtain ⟨own, listed, named⟩ := List.any_eq_true.mp defined.symm
      rw [same]
      exact ⟨own, listed, Value.eq_string (eq_of_beq named)⟩
  · rw [taken, Bool.or_true, same] at defined
    rcases ends_reserveSymbol ended (countsToo rfl) with ⟨fresh, _⟩ | ⟨_, rfl, rfl⟩
    · rw [fresh] at defined
      cases defined
    · exact ⟨filed.tell _ _, .inl rfl⟩

theorem publish_trails {definition definitionToo : Definition} {prototype : Signature}
    (same : definition.signature.symbol = definitionToo.signature.symbol) :
    Trails lead (publish definition prototype c) (publish definitionToo prototype c) Eq :=
  .bind_eq (append_hidden rfl rfl) fun _ => .bind_eq .append fun _ => .record (.refl _) _ (by rw [same])

/-- A wrapper of the tree with its inputs, none of which refers to the exception class. -/
structure Written.Ordinary (w : Written) : Prop where
  callable : w.callable.Ordinary
  inputs : ∀ p ∈ w.inputs, IsOrdinary p.type.base

theorem writeConverted_trails {p : Plan} (ordinary : p.callable.Ordinary) (sees : p.Sees IsOrdinary)
    (symbol : String) :
    Trails lead (writeConverted job ⟨job.config, lead.table⟩ p symbol)
      (writeConverted job ⟨job.config, lead.ahead⟩ p symbol)
      fun one two => one = two ∧ one.Ordinary := by
  have same := lead.resolvers job.config
  have signed (side : Side) := @Plan.signature_agree _ job _ _ same p sees symbol side
  unfold writeConverted
  rw [Plan.prepareHeader_agree same sees, signed, signed]
  refine .bind_eq .lift fun implementation => .bind_eq .lift fun header => .bind_eq ?_ fun _ =>
    .bind .get fun left right _ => .bind (lift_onlyFaults (body_onlyFaults _ _) (body_onlyFaults _ _))
      fun body bodyToo _ => .bind_eq (publish_trails rfl) fun _ => .bind_eq .tell fun _ => .pure ⟨rfl, ordinary, ?_⟩
  · exact forM fun _ _ => .bind_eq .check fun _ => .require
  · intro input listed
    obtain ⟨a, visible, rfl⟩ := List.mem_map.mp listed
    exact sees.args a (List.mem_filter.mp visible).1

theorem writeConverted_records {r : Resolver} {p : Plan} {symbol : String} {outcome : Except Halt Written}
    {before after : Draft} (ends : Ends (writeConverted job r p symbol) before outcome after)
    (survives : Survives outcome) :
    ∃ recorded ∈ after.symbols, recorded.name = .string symbol := by
  unfold writeConverted at ends
  obtain ⟨implementation, implemented, ends⟩ := ends.lift_bind_value (signature_onlyFaults _ _ _) survives
  obtain ⟨header, declared, ends⟩ := ends.lift_bind_value (signature_onlyFaults _ _ _) survives
  obtain ⟨_, middle, prepared, ends⟩ := ends.bind_value (prepareHeader_neverRejects p) survives
  rw [ends_get_bind] at ends
  obtain ⟨body, bodied, ends⟩ := ends.lift_bind_value (body_onlyFaults _ _) survives
  obtain ⟨_, last, published, ends⟩ := ends.bind_value (publish_neverRejects _ _) survives
  obtain ⟨_, rfl⟩ := ends_publish published survives_ok
  rw [ends_tell_bind] at ends
  obtain ⟨_, rfl⟩ := ends.of_pure
  refine ⟨_, List.mem_append_right _ List.mem_cons_self, ?_⟩
  rw [symbolOf, signature_symbol implemented]

/-- Both runs write a wrapper or none. The run that is ahead can refuse a wrapper only for a symbol of its lead, which
the other run would record. -/
theorem convert_foreseen {parameters : List TypedParameter} (ordinary : c.Ordinary)
    (seen : ∀ p ∈ parameters, IsOrdinary p.type.base) :
    Foreseen lead (convert job c parameters) (convert job c parameters) fun one two =>
      one = two ∧ ∀ w ∈ one, w.Ordinary := by
  refine .bind_trails Trails.resolver ?_
  rintro _ _ ⟨rfl, rfl⟩
  rw [← plan_agree (lead.resolvers job.config) ordinary.toSees seen]
  cases planned : plan job ⟨job.config, lead.table⟩ c parameters with
  | error stop =>
    cases stop with
    | skipped warning => exact .of_trails (.bind_eq Trails.tell fun _ => .pure ⟨rfl, by simp⟩)
    | halted halt => exact .of_trails .throw
  | ok p =>
    obtain ⟨callable, _⟩ := plan_eq_ok planned
    have sees := plan_sees ordinary.toSees seen planned
    refine .bind_trails (reserveSymbol_trails ordinary.declared p.codes) ?_
    rintro one two (rfl | ⟨rfl, symbol, rfl, own, listed, named⟩)
    · cases one with
      | none => exact .of_trails (.pure ⟨rfl, by simp⟩)
      | some symbol =>
        refine .of_trails (.bind (writeConverted_trails (callable ▸ ordinary) sees symbol) ?_)
        rintro w _ ⟨rfl, written⟩
        exact .pure ⟨rfl, by simpa using written⟩
    · intro left right _ first second lastLeft lastRight began _ survives _ spared
      obtain ⟨_, wrote, survived⟩ := began.of_bind_pure survives
      obtain ⟨recorded, found, name⟩ := writeConverted_records wrote survived
      exact absurd (name.trans named.symm) (spared recorded found own listed)

theorem write_foreseen (cxx : job.config.cplusplus) (ordinary : c.Ordinary) :
    Foreseen lead (write job c) (write job c) fun one two => one = two ∧ ∀ w ∈ one, w.Ordinary := by
  refine .bind_trails (lift_found rfl) ?_
  rintro parameters _ ⟨rfl, typed⟩
  rw [if_pos cxx]
  exact convert_foreseen ordinary (typedParameters_seen ordinary.toSees typed)

end Wrapper

/-! ### Facade classes -/

namespace Facade

variable {r r' : Resolver} {w : Written}

theorem result_agree (same : r.SameSeen Seen r') (sees : c.Sees Seen) : result r c = result r' c := by
  rw [result, result, same.facadeResultAt_eq sees.result]

theorem checkDeclared_agree (same : r.SameSeen Seen r') (sees : c.Sees Seen) :
    checkDeclared r c = checkDeclared r' c := by
  simp only [checkDeclared, categoryOf_agree same sees.result, same.classOf_eq sees.result]

theorem parameters_trails (same : r.SameSeen IsOrdinary r') {inputs : List TypedParameter}
    (seen : ∀ p ∈ inputs, IsOrdinary p.type.base) :
    Trails lead (parameters r c inputs) (parameters r' c inputs) Eq := by
  induction inputs with
  | nil => exact .pure rfl
  | cons first rest ih =>
    exact .bind_eq (.lift_eq (same.facadeParameterAt_eq (seen first (by simp)) _)) fun rendering =>
      .bind_eq .require fun _ => .bind_eq (ih fun p member => seen p (by simp [member])) fun _ => .pure rfl

/-- The members of both runs differ in their checks only. -/
theorem member_trails (ordinary : w.Ordinary) (cls : OpenClass) :
    Trails lead (member job cls w) (member job cls w) fun one two => one.role = two.role := by
  have same := lead.resolvers job.config
  have sees := ordinary.callable.toSees
  refine .bind Trails.resolver ?_
  rintro _ _ ⟨rfl, rfl⟩
  dsimp only
  rw [result_agree same sees, checkDeclared_agree same sees]
  exact .bind_eq .check fun _ => .bind_eq .check fun _ => .bind_eq .lift fun _ => .bind_eq .require fun _ =>
    .bind_eq (parameters_trails same ordinary.inputs) fun _ => .bind_eq .lift fun _ => .bind .get fun _ _ _ => .pure rfl

theorem addMember_trails (ordinary : w.Ordinary) (cls : OpenClass) :
    Trails lead (addMember job cls w) (addMember job cls w) Eq := by
  unfold addMember
  split
  · exact .pure rfl
  · refine .bind (member_trails ordinary cls) fun m n role => ?_
    have outside : m.isDefinedOutside = n.isDefinedOutside := by
      rw [FacadeMember.isDefinedOutside, FacadeMember.isDefinedOutside, role]
    rw [role, outside]
    split
    · exact .bind_eq Trails.tell fun _ => .pure rfl
    · refine .bind_eq (append_hidden rfl rfl) fun _ => ?_
      split
      · exact .bind_eq (append_hidden rfl rfl) fun _ => .pure rfl
      · exact .pure rfl

theorem openClass_trails (ordinary : cls.Ordinary) : Trails lead (openClass job cls) (openClass job cls) Eq := by
  unfold openClass
  split
  · exact .pure rfl
  · refine .bind_eq (Trails.tellUnknownBases cls) fun _ => .bind_eq .check fun _ =>
      .bind .get fun left right (ahead : Ahead lead left right) => ?_
    rw [ahead.table, ahead.ahead, usableBases_agree lead.same ordinary.bases]
    split
    · exact .bind_eq Trails.tell fun _ => .pure rfl
    · exact .bind_eq .append fun _ => .bind_eq .append fun _ => .pure rfl

theorem closeClass_trails (cls : OpenClass) : Trails lead (closeClass job cls) (closeClass job cls) Eq := by
  unfold closeClass
  split
  · exact .pure rfl
  · exact .bind_eq .check fun _ => .bind_eq .check fun _ => .bind_eq .append fun _ => .pure rfl

end Facade

/-! ### Declarations -/

theorem declare_trails (site : Site) : Trails lead (declare? job site) (declare? job site) Eq := by
  refine .bind Trails.resolver ?_
  rintro _ _ ⟨rfl, rfl⟩
  refine .bind_eq (.lift_eq ((lead.resolvers job.config).cVariable_eq site)) fun found => ?_
  cases found with
  | none => exact .pure rfl
  | some found => exact .bind_eq .require fun _ => .pure rfl

theorem enumeration_trails (enum : Site) (cls : Option OpenClass) :
    Trails lead (Enumeration.write job enum cls) (Enumeration.write job enum cls) Eq := by
  unfold Enumeration.write
  split
  · exact .pure rfl
  · refine .bind_eq .check fun _ => .bind_eq .check fun _ => .bind_eq .lift fun items => ?_
    split
    · exact .bind_eq .check fun _ => .bind_eq .tell fun _ => .pure rfl
    · refine .bind_eq .append fun _ => ?_
      split
      · exact .bind_eq .append fun _ => .pure rfl
      · exact .pure rfl

namespace Module

/-! ### Wrappers of declarations -/

theorem wrap_foreseen (cxx : job.config.cplusplus) (ordinary : c.Ordinary) (cls : Option OpenClass) :
    Foreseen lead (wrap job cls c) (wrap job cls c) Eq := by
  refine .bind_eq .check fun _ => ?_
  split
  · exact .of_trails (.bind_eq Trails.tell fun _ => .pure rfl)
  · refine .bind job (write_foreseen cxx ordinary) (fun written => ?_) ?_
    · split
      · exact .bind (addMember_within _ _) fun _ => .pure
      · exact .pure
    · rintro written _ ⟨rfl, good⟩
      split
      · exact .of_trails (.bind_eq (addMember_trails (good _ rfl) _) fun _ => .pure rfl)
      · exact .of_trails (.pure rfl)

theorem freeFunction_foreseen (cxx : job.config.cplusplus) (ordinary : site.Ordinary) :
    Foreseen lead (freeFunction job site) (freeFunction job site) Eq := by
  unfold freeFunction
  split
  · refine .bind_eq .check fun _ => .bind_trails .get fun left right (ahead : Ahead lead left right) => ?_
    rw [ahead.freeFunctions]
    refine .bind job (wrap_foreseen cxx ?_ none) (fun _ => .pure) fun _ _ _ => .of_trails (.pure rfl)
    refine @Regular.ordinary _ ⟨job.config, lead.table⟩ none ⟨?_, ?_⟩ (by simp) ordinary
    · exact yields_type
    · exact parameters_declared (.inr rfl)
  · exact .of_trails (.pure rfl)

theorem globalVariable_foreseen (cxx : job.config.cplusplus) (ordinary : site.Ordinary) :
    Foreseen lead (globalVariable job site) (globalVariable job site) Eq := by
  refine .bind_eq (Lockstep.exportDirectly (.refl site) rfl rfl rfl (declare_trails site)) fun exported => ?_
  cases exported with
  | true => exact .of_trails (.pure rfl)
  | false =>
    refine .bind_trails Trails.resolver ?_
    rintro _ _ ⟨rfl, rfl⟩
    refine .bind_trails (lift_found (accessors_agree (lead.resolvers job.config) ?_ _)) ?_
    · exact ordinary.types
    · rintro callables _ ⟨rfl, found⟩
      have shape : Regular ⟨job.config, lead.table⟩ none
          { site := site, role := .globalGet, symbol := site.decl.symbolValue, result := .void } :=
        ⟨.nothing, parameters_declared (.inl rfl)⟩
      refine .forM job (fun c listed => ?_) fun c _ => .bind (wrap_within (fun _ => cxx) none) fun _ => .pure
      obtain ⟨regular, place⟩ := accessors_regular none found c listed
      have same : c.site = site := congrArg Prod.fst place
      exact .bind job (wrap_foreseen cxx ((regular shape).ordinary (by simp) (same ▸ ordinary)) none) (fun _ => .pure)
        fun _ _ _ => .of_trails (.pure rfl)

/-! ### Classes -/

theorem implicitSite_ordinary (ordinary : cls.Ordinary) (destructor : Bool) :
    (implicitSite cls destructor).Ordinary := by
  obtain ⟨types, bases, kind⟩ := implicitSite_decl cls destructor
  have declared : (implicitSite cls destructor).id.isRuntime = false := by
    have owner := ordinary.declared
    unfold implicitSite implicitId
    cases id : cls.id with
    | declared path => rfl
    | runtime path =>
      rw [id] at owner
      cases owner
    | implicit path destructor => rfl
  refine ⟨declared, by simp [types], by simp [bases], fun isClass => ?_⟩
  rw [kind] at isClass
  cases destructor <;> cases isClass

theorem classMember_foreseen (cxx : job.config.cplusplus) {m : Member}
    (ordinary : ∀ c, m = .callable c → c.Ordinary) (cls : OpenClass) :
    Foreseen lead (classMember job cls m) (classMember job cls m) Eq := by
  cases m with
  | callable c =>
    refine .recover job ?_ (fun _ _ => .bind (report_within _ _ _) fun _ => .pure)
      (fun _ _ _ _ => .of_trails (.bind_eq Trails.tell fun _ => .pure rfl)) (fun _ => rfl) fun _ => rfl
    refine .bind job (wrap_foreseen cxx (ordinary c rfl) (some cls)) (fun _ => .pure) ?_
    rintro one _ rfl
    exact .of_trails (.pure rfl)
  | enumeration site =>
    exact .of_trails (.bind_eq (.guarded (.refl _) (.bind_eq (enumeration_trails site _) fun _ => .pure rfl))
      fun _ => .pure rfl)
  | constant site => exact .of_trails (.bind_eq (.guarded (.refl _) (.constant job site)) fun _ => .pure rfl)

theorem cxxClass_foreseen (cxx : job.config.cplusplus) (familiar : cls.Familiar) (isClass : cls.kind = .classDecl) :
    Foreseen lead (cxxClass job cls) (cxxClass job cls) Eq := by
  have ordinary := familiar.toOrdinary
  have same := lead.resolvers job.config
  refine .bind_eq .check fun _ => .bind_eq .append fun _ => .bind_eq (.record (.refl _) _ rfl) fun _ =>
    .bind_eq (openClass_trails ordinary) fun opened => .bind_trails (isAbstract ordinary) ?_
  rintro abstract _ ⟨rfl, _⟩
  refine .bind_trails Trails.resolver ?_
  rintro _ _ ⟨rfl, rfl⟩
  refine .bind_trails (lift_found (own_agree same fun child listed =>
    (familiar.children child listed).types)) ?_
  rintro own _ ⟨rfl, owned⟩
  refine .bind_trails (flatten ordinary) ?_
  rintro shadows _ ⟨rfl, handed⟩
  refine .bind_trails (lift_found (inherited_agree same fun m listed => (handed m listed).types)) ?_
  rintro inherited _ ⟨rfl, found⟩
  refine .bind_eq (forM fun child _ => .bind_eq .check fun _ => ?_) fun _ => .bind_eq .check fun _ => ?_
  · cases unsupported? cls child with
    | some warning => exact Trails.tell
    | none => exact .pure rfl
  · refine .bind job (.foldlM job (fun opened m listed => classMember_foreseen cxx (fun c called => ?_) opened)
      (fun opened m _ => (classMember_within cxx opened m).ordinary) opened)
      (fun _ => .bind (closeClass_within _) fun _ => .pure) ?_
    · subst called
      obtain ⟨regular, stands⟩ := inOrder_regular owned found listed
      refine regular.ordinary (by simpa using ordinary.named isClass) ?_
      generalize c.site = site at stands
      cases stands with
      | declared member => exact familiar.children site member
      | inherited shadowed => exact handed _ shadowed
      | implicit destructor => exact implicitSite_ordinary ordinary destructor
    · rintro finished _ rfl
      exact .of_trails (.bind_eq (closeClass_trails finished) fun _ => .pure rfl)

theorem classDecl_foreseen (cxx : job.config.cplusplus) (familiar : cls.Familiar) (isClass : cls.kind = .classDecl) :
    Foreseen lead (classDecl job cls) (classDecl job cls) Eq := by
  refine .bind_trails .get fun left right (ahead : Ahead lead left right) => ?_
  have foreign : (left.runtimeClass.map (·.id) != some cls.id) = (right.runtimeClass.map (·.id) != some cls.id) := by
    rw [Bool.eq_iff_iff, bne_iff_ne, bne_iff_ne]
    exact not_congr (ahead.runtimeClass cls.id familiar.declared)
  simp only [foreign, cxx, Bool.not_true, Bool.false_eq_true, if_false]
  split
  · exact .of_trails (.pure rfl)
  · split
    · exact .of_trails (.bind_eq .check fun _ => Trails.tell)
    · exact cxxClass_foreseen cxx familiar isClass

theorem declaration_foreseen (cxx : job.config.cplusplus) (familiar : site.Familiar) :
    Foreseen lead (declaration job site) (declaration job site) Eq := by
  unfold declaration
  split
  · exact .of_trails (Lockstep.importDecl rfl)
  · exact .of_trails (Lockstep.insertDecl rfl (.refl site))
  · rename_i isClass
    exact .guarded job (classDecl_foreseen cxx familiar isClass)
  · exact .guarded job (freeFunction_foreseen cxx familiar.toOrdinary)
  · exact .guarded job (globalVariable_foreseen cxx familiar.toOrdinary)
  · exact .guarded job (.of_trails (.bind_eq (enumeration_trails site none) fun _ => .pure rfl))
  · exact .guarded job (.of_trails (Lockstep.constant job site))
  · exact .of_trails (.pure rfl)
  all_goals exact .of_trails Trails.tell

end Module

end FlatAbi
