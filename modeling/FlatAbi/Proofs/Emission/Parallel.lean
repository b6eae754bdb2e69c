import FlatAbi.Proofs.Emission.Counterparts
import FlatAbi.Proofs.Emission.Over

/-!
Runs over two trees side by side. Emitting declarations that are twins keeps drafts paired.
-/

namespace FlatAbi

open Site Emit Wrapper Inheritance Members Facade Naming List SymbolTable Resolver Variable

variable {pairing : Pairing} {heard : Bool} {job : Job} {table table' : SymbolTable}

/-! ### Names on file -/

/-- Keys that file the same callable of two trees. -/
structure SameKey (pairing : Pairing) (key key' : NameKey) : Prop where
  node : pairing.SameId key.node key'.node
  owner : Option.Rel pairing.SameId key.owner key'.owner
  role : key.role = key'.role
  symbol : key.symbol = key'.symbol

theorem SameKey.eq_iff {key key' other other' : NameKey} (same : SameKey pairing key key')
    (sameToo : SameKey pairing other other') : key = other ↔ key' = other' := by
  have node := pairing.biunique same.node sameToo.node
  have owner := pairing.option_eq_iff same.owner sameToo.owner
  cases key
  cases key'
  cases other
  cases other'
  obtain ⟨_, _, rfl, rfl⟩ := same
  obtain ⟨_, _, rfl, rfl⟩ := sameToo
  simp only [NameKey.mk.injEq, node, owner]

/-- Books that have the same names on file. -/
def SameNames (pairing : Pairing) (names names' : NameBook) : Prop :=
  ∀ key key', SameKey pairing key key' → names.lookup key = names'.lookup key'

theorem SameNames.file {names names' : NameBook} (same : SameNames pairing names names') {key key' : NameKey}
    (keys : SameKey pairing key key') (name : String) :
    SameNames pairing ((key, name) :: names) ((key', name) :: names') := by
  intro asked asked' both
  have test : (asked == key) = (asked' == key') := by
    rw [Bool.eq_iff_iff, beq_iff_eq, beq_iff_eq]
    exact both.eq_iff keys
  rw [lookup_cons, lookup_cons, test, same asked asked' both]

/-! ### Paired drafts -/

/-- Drafts with the same output so far; what is told is the same where `heard` says so. -/
structure Paired (pairing : Pairing) (heard : Bool) (table table' : SymbolTable) (left right : Draft) : Prop where
  tables : left.table = table ∧ right.table = table'
  chunks : left.chunks = right.chunks
  declared : left.declared = right.declared
  symbols : left.symbols = right.symbols
  events : heard → left.events = right.events
  names : SameNames pairing left.names right.names
  memo : TwinMemo pairing left.memo right.memo
  exceptions : left.exceptions = right.exceptions
  checked : left.checked = right.checked
  overloads : ∀ scope scope' symbol, Option.Rel pairing.SameId scope scope' →
    left.freeFunctions.count (scope, symbol) = right.freeFunctions.count (scope', symbol)
  runtimeClass : Option.Rel pairing.SameId (left.runtimeClass.map (·.id)) (right.runtimeClass.map (·.id))

/-- Runs over two trees that are compared draft by draft. -/
def paired (pairing : Pairing) (heard : Bool) (table table' : SymbolTable) : Comparison where
  Rel := Paired pairing heard table table'
  SameRejection := NamesakeRejection
  faults := true

abbrev Parallel {α β : Type} (pairing : Pairing) (heard : Bool) (table table' : SymbolTable) (one : Emit α)
    (two : Emit β) (Same : α → β → Prop) : Prop :=
  Lockstep (paired pairing heard table table') one two Same

instance : (paired pairing heard table table').Lawful where
  append chunk same := { same with chunks := congrArg (· ++ [chunk]) same.chunks }
  require needs same := { same with
    chunks := congrArg₂ (fun chunks declared => chunks ++ supply declared needs) same.chunks same.declared
    declared := congrArg (fun declared => declared ++ missing declared needs) same.declared }
  tell event same := { same with events := fun listening => congrArg (· ++ [event]) (same.events listening) }
  record symbol same := { same with symbols := congrArg (· ++ [symbol]) same.symbols }
  same := NamesakeRejection.refl
  reported := by
    intro left right message other found place site site' rejected sites same
    obtain ⟨rfl, places⟩ := rejected
    have told : Diagnostic.about .error (some (found.getD site)) message =
        .about .error (some (place.getD site')) message := by
      cases places with
      | none => exact sites.about .error message
      | some both => exact both.about .error message
    exact { same with events := fun listening => by rw [same.events listening, told] }

namespace Parallel

theorem resolver_bind {α β : Type} {one : Resolver → Emit α} {two : Resolver → Emit β} {Same : α → β → Prop}
    (rest : Parallel pairing heard table table' (one ⟨job.config, table⟩) (two ⟨job.config, table'⟩) Same) :
    Parallel pairing heard table table' (resolver job >>= one) (resolver job >>= two) Same := by
  have read : Parallel pairing heard table table' (resolver job) (resolver job) fun r r' =>
      r = ⟨job.config, table⟩ ∧ r' = ⟨job.config, table'⟩ :=
    .bind .get fun _ _ same => .pure ⟨congrArg _ same.tables.1, congrArg _ same.tables.2⟩
  refine .bind read ?_
  rintro _ _ ⟨rfl, rfl⟩
  exact rest

theorem tell_any (deaf : heard = false) (event other : Event) :
    Parallel pairing heard table table' (tell event) (tell other) Eq :=
  .modify fun _ _ same => { same with events := fun listening => absurd listening (by simp [deaf]) }

end Parallel

/-! ### Wrappers -/

namespace Wrapper

variable {strict : Bool} {c c' : Callable}

section

variable (same : SameCallable pairing strict job table table' c c')

include same

theorem SameCallable.key : SameKey pairing c.key c'.key where
  node := same.sameId
  owner := by
    rw [Callable.key, Callable.key]
    exact rel_elim same.owner .none fun _ _ twin => .some (pairing.sameId twin)
  role := same.role
  symbol := congrArg Value.atom? same.symbol

theorem SameCallable.name {names names' : NameBook} (onFile : SameNames pairing names names') (codes : List String) :
    (names.name job.config c codes).1 = (names'.name job.config c' codes).1 ∧
      SameNames pairing (names.name job.config c codes).2 (names'.name job.config c' codes).2 := by
  unfold NameBook.name NameBook.give
  rw [onFile c.key c'.key same.key, same.wrapperName]
  exact ⟨rfl, onFile.file same.key _⟩

theorem reserveSymbol_parallel (codes : List String) :
    Parallel pairing heard table table' (reserveSymbol job c codes) (reserveSymbol job c' codes) Eq := by
  refine .bind_eq (.check_eq same.checkWrapperName) fun _ => .bind .get fun left right drafts => ?_
  obtain ⟨name, names⟩ := same.name drafts.names codes
  have defined (symbol : String) : left.isDefined symbol = right.isDefined symbol := by
    rw [Draft.isDefined, Draft.isDefined, drafts.symbols]
  simp only [name, defined, same.site.qualifiedName]
  refine .bind_eq (.set { drafts with names := names }) fun _ => ?_
  split
  · exact .bind_eq (.check_eq same.site.checkQualified) fun _ => .bind_eq (.warn same.site _) fun _ => .pure rfl
  · exact .pure rfl

end

/-- Wrappers of the same symbol for callables that are treated alike. -/
structure SameWritten (pairing : Pairing) (strict : Bool) (job : Job) (table table' : SymbolTable) (w w' : Written) :
    Prop where
  symbol : w.symbol = w'.symbol
  callable : SameCallable pairing strict job table table' w.callable w'.callable
  inputs : strict → w.inputs = w'.inputs

theorem publish_parallel (same : SameCallable pairing strict job table table' c c') (definition : Definition)
    (prototype : Signature) :
    Parallel pairing heard table table' (publish definition prototype c) (publish definition prototype c') Eq :=
  .bind_eq .append fun _ => .bind_eq .append fun _ => .record same.site .function rfl

variable {p p' : Plan} (tables : table.Counterpart pairing table')

include tables

theorem prepareHeader_parallel (same : SamePlan pairing strict job table table' p p') :
    Parallel pairing heard table table' (p.prepareHeader job ⟨job.config, table⟩)
      (p'.prepareHeader job ⟨job.config, table'⟩) Eq := by
  have types : Forall₂ (fun entry entry' : CxxType × Category => entry.2 = entry'.2 ∧
      SameType strict job table table' p.callable.site.scopeValue entry.1 entry'.1) p.prototypeTypes
      p'.prototypeTypes := by
    refine rel_append (rel_map (fun a a' argument => ?_) same.visible) ?_
    · exact ⟨argument.category, argument.type⟩
    · exact rel_elim same.result .nil fun _ _ converted => .cons ⟨converted.category, converted.type⟩ .nil
  refine .forM (types.imp fun entry entry' both => ?_)
  obtain ⟨category, type⟩ := both
  have check : checkCTypeOf job ⟨job.config, table⟩ entry.1 p.scope entry.2 =
      checkCTypeOf job ⟨job.config, table'⟩ entry'.1 p'.scope entry'.2 :=
    category ▸ checkCTypeOf_same tables same.callable type entry.2
  have rendering : cTypeOf job ⟨job.config, table⟩ entry.1 p.scope entry.2 .header =
      cTypeOf job ⟨job.config, table'⟩ entry'.1 p'.scope entry'.2 .header :=
    category ▸ cTypeOf_same tables same.callable type entry.2 .header
  simp only [check, rendering]
  exact .bind_eq .check fun _ => .require

theorem writeConverted_parallel (same : SamePlan pairing strict job table table' p p') (symbol : String) :
    Parallel pairing heard table table' (writeConverted job ⟨job.config, table⟩ p symbol)
      (writeConverted job ⟨job.config, table'⟩ p' symbol) (SameWritten pairing strict job table table') := by
  refine .bind_eq (.lift_eq (same.signature_eq tables symbol .implementation)) fun implementation => ?_
  refine .bind_eq (.lift_eq (same.signature_eq tables symbol .header)) fun header => ?_
  refine .bind_eq (prepareHeader_parallel tables same) fun _ => .bind .get fun left right drafts => ?_
  rw [drafts.exceptions, same.body_eq tables, same.callable.site.qualifiedValue]
  refine .bind_eq .lift fun body => .bind_eq (publish_parallel same.callable _ _) fun _ => ?_
  refine .bind_eq .tell fun _ => .pure ⟨rfl, same.callable, fun exactly => ?_⟩
  exact map_eq_of_forall₂ same.visible fun a a' argument => by rw [argument.cName, argument.type.written exactly]

theorem convert_parallel (same : SameCallable pairing strict job table table' c c')
    (deaf : strict = false → heard = false) {parameters parameters' : List TypedParameter}
    (typed : Forall₂ (SameParameter strict job table table' c.site.scopeValue) parameters parameters') :
    Parallel pairing heard table table' (convert job c parameters) (convert job c' parameters')
      (Option.Rel (SameWritten pairing strict job table table')) := by
  refine Parallel.resolver_bind ?_
  rcases (plan_same tables same typed).cases with
    ⟨p, p', found, foundToo, plans⟩ | ⟨stop, stop', found, foundToo, stops⟩
  · rw [found, foundToo]
    refine .bind_eq (plans.codes ▸ reserveSymbol_parallel same p.codes) fun reserved => ?_
    cases reserved with
    | none => exact .pure .none
    | some symbol => exact .bind (writeConverted_parallel tables plans symbol) fun _ _ written => .pure (.some written)
  · rw [found, foundToo]
    cases stop with
    | halted halt =>
      cases stop' with
      | halted other =>
        cases (stops : halt = other)
        exact .throw
      | skipped warning => exact stops.elim
    | skipped warning =>
      cases stop' with
      | halted other => exact stops.elim
      | skipped other =>
        refine .bind_eq ?_ fun _ => .pure .none
        cases strict with
        | true => exact stops rfl ▸ .warn same.site warning
        | false => exact Parallel.tell_any (deaf rfl) _ _

/-- Wrappers of plain C show types as they are written. -/
theorem direct_parallel (same : SameCallable pairing true job table table' c c') (parameters : List TypedParameter) :
    Parallel pairing heard table table' (direct job c parameters) (direct job c' parameters)
      (Option.Rel (SameWritten pairing true job table table')) := by
  have result : c.result = c'.result := same.result.written rfl
  refine Parallel.resolver_bind (.bind_eq (reserveSymbol_parallel same []) fun reserved => ?_)
  cases reserved with
  | none => exact .pure .none
  | some symbol =>
    simp only [directNeeds, directSignature, result]
    refine .bind_eq (.check_eq (checkParameterNames_eq same)) fun _ => .bind_eq .require fun _ => ?_
    refine .bind_eq (.lift_eq (directBody_eq tables same parameters)) fun body => ?_
    exact .bind_eq (publish_parallel same _ _) fun _ => .pure (.some ⟨rfl, same, fun _ => rfl⟩)

/-- Wrappers of types that are written in different ways are the same in C++ only. -/
theorem write_parallel (same : SameCallable pairing strict job table table' c c')
    (lax : strict = false → heard = false ∧ job.config.cplusplus) :
    Parallel pairing heard table table' (write job c) (write job c')
      (Option.Rel (SameWritten pairing strict job table table')) := by
  refine .bind (.lift_of fun _ _ => typedParameters_same same) fun parameters parameters' typed => ?_
  split
  · exact convert_parallel tables same (fun isLax => (lax isLax).1) typed
  · rename_i plain
    cases strict with
    | true =>
      rw [eq_of_sameParameters typed]
      exact direct_parallel tables same parameters'
    | false => exact absurd (lax rfl).2 plain

end Wrapper

/-! ### Facades -/

variable {cls cls' : Site}

theorem tellUnknownBases_parallel (tables : table.Counterpart pairing table') (twin : pairing.Twin cls cls') :
    Parallel pairing heard table table' (tellUnknownBases cls) (tellUnknownBases cls') Eq := by
  refine .bind .get fun left right drafts => ?_
  rw [drafts.tables.1, drafts.tables.2]
  dsimp only
  rw [unknownBases_eq tables twin, pairing.decl twin]
  exact .forM (forall₂_same.mpr fun _ _ => .tell)

namespace Facade

/-- Classes under emission that are twins. -/
structure TwinOpen (pairing : Pairing) (cls cls' : OpenClass) : Prop where
  site : pairing.Twin cls.site cls'.site
  base : Option.Rel pairing.Twin cls.base cls'.base
  isOpen : cls.isOpen = cls'.isOpen
  hasCopyConstructor : cls.hasCopyConstructor = cls'.hasCopyConstructor

section members

variable (tables : table.Counterpart pairing table')

include tables

theorem openClass_parallel (twin : pairing.Twin cls cls') :
    Parallel pairing heard table table' (openClass job cls) (openClass job cls') (TwinOpen pairing) := by
  have same := pairing.namesake twin
  unfold openClass
  split
  · exact .pure ⟨twin, .none, rfl, rfl⟩
  · refine .bind_eq (tellUnknownBases_parallel tables twin) fun _ => ?_
    refine .bind_eq (.check_eq (checkBases_eq twin)) fun _ => .bind .get fun left right drafts => ?_
    rw [drafts.tables.1, drafts.tables.2]
    -- as many usable bases on both sides: none, one, or too many
    have bases := usableBases_twins tables twin
    generalize usableBases table cls = usable, usableBases table' cls' = usable' at bases ⊢
    cases bases with
    | nil =>
      simp only [same.symbol]
      exact .bind_eq .append fun _ => .bind_eq .append fun _ => .pure ⟨twin, .none, rfl, rfl⟩
    | cons first rest =>
      cases rest with
      | nil =>
        have base := (pairing.namesake first.1).symbol
        simp only [same.symbol, head?_cons, Option.map_some, base]
        exact .bind_eq .append fun _ => .bind_eq .append fun _ => .pure ⟨twin, .some first.1, rfl, rfl⟩
      | cons _ _ =>
        simp only [same.symbol]
        exact .bind_eq (.warn same _) fun _ => .pure ⟨twin, .none, rfl, rfl⟩

theorem parameters_parallel {c c' : Callable} (scope : c.site.scopeValue = c'.site.scopeValue)
    (inputs : List TypedParameter) :
    Parallel pairing heard table table' (parameters ⟨job.config, table⟩ c inputs)
      (parameters ⟨job.config, table'⟩ c' inputs) Eq := by
  induction inputs with
  | nil => exact .pure rfl
  | cons p rest ih =>
    simp only [parameters, facadeParameterAt_eq tables, scope]
    exact .bind_eq .lift fun _ => .bind_eq .require fun _ => .bind_eq ih fun _ => .pure rfl

variable {c c' : Callable} {o o' : OpenClass} {w w' : Written}

theorem checkDeclared_eq (same : SameCallable pairing true job table table' c c') :
    checkDeclared ⟨job.config, table⟩ c = checkDeclared ⟨job.config, table'⟩ c' := by
  have result : c.result = c'.result := same.result.written rfl
  unfold checkDeclared
  rw [categoryOf_eq tables same same.result, result, same.role, same.site.scopeName]
  split
  · rfl
  · refine congrArg₂ (· >>= ·) rfl (funext fun category => congrArg Halt.ofMisshapen ?_)
    exact forM_eq_of_rel (classOf_rel tables job.config c'.result c'.site.scopeName category) fun _ _ twins => by
      rw [pairing.decl twins.1]

theorem member_parallel (opened : TwinOpen pairing o o') (same : SameWritten pairing true job table table' w w') :
    Parallel pairing heard table table' (member job o w) (member job o' w') Eq := by
  have site := same.callable.site
  have result : w.callable.result = w'.callable.result := same.callable.result.written rfl
  have className : o.className = o'.className := (pairing.namesake opened.site).symbol
  have cannotThrow : w.callable.decl.cannotThrow = w'.callable.decl.cannotThrow := site.cannotThrow
  have isVirtual : w.callable.decl.isVirtual = w'.callable.decl.isVirtual :=
    (congrArg Declaration.isVirtual site.untyped :)
  have shortName : w.callable.decl.shortName = w'.callable.decl.shortName := site.shortName
  refine Parallel.resolver_bind ?_
  refine .bind_eq (.check_eq site.checkScope) fun _ => .bind_eq (.check_eq site.checkName) fun _ => ?_
  have rendered : Facade.result ⟨job.config, table⟩ w.callable = Facade.result ⟨job.config, table'⟩ w'.callable := by
    simp only [Facade.result, result, site.scopeValue, facadeResultAt_eq tables]
  refine .bind_eq (.lift_eq rendered) fun rendering => .bind_eq .require fun _ => ?_
  rw [same.inputs rfl]
  refine .bind_eq (parameters_parallel tables site.scopeValue _) fun listed => ?_
  refine .bind_eq (.lift_eq (checkDeclared_eq tables same.callable)) fun _ => .bind .get fun left right drafts => ?_
  have checked : isChecked left o w.callable = isChecked right o' w'.callable := by
    rw [isChecked, isChecked, drafts.checked, cannotThrow, (pairing.namesake opened.site).name]
  rw [checked, same.callable.role, className, isSome_eq_of_rel opened.base, shortName, isVirtual, same.callable.isConst,
    same.symbol]
  exact .pure rfl

theorem addMember_parallel (opened : TwinOpen pairing o o')
    (same : SameWritten pairing true job table table' w w') :
    Parallel pairing heard table table' (addMember job o w) (addMember job o' w') (TwinOpen pairing) := by
  have isFriend : w.callable.decl.isFriend = w'.callable.decl.isFriend :=
    (congrArg Declaration.isFriend same.callable.site.untyped :)
  unfold addMember
  simp only [opened.isOpen, isSome_eq_of_rel same.callable.inheritedFrom, isFriend]
  split
  · exact .pure opened
  · refine .bind_eq (member_parallel tables opened same) fun m => ?_
    rw [same.callable.symName]
    split
    · exact .bind_eq (.warn same.callable.site _) fun _ => .pure opened
    · refine .bind_eq .append fun _ => ?_
      have copies := congrArg (· || m.role == .copyConstructor) opened.hasCopyConstructor
      split
      · exact .bind_eq .append fun _ => .pure ⟨opened.site, opened.base, rfl, copies⟩
      · exact .pure ⟨opened.site, opened.base, rfl, copies⟩

end members

theorem closeClass_parallel {o o' : OpenClass} (opened : TwinOpen pairing o o') :
    Parallel pairing heard table table' (closeClass job o) (closeClass job o') fun _ _ => True := by
  have site := pairing.namesake opened.site
  have base : o.base.forM checkProxy = o'.base.forM checkProxy :=
    forM_eq_of_rel opened.base fun _ _ twin => checkProxy_eq (pairing.namesake twin)
  have ending : o.ending job.config = o'.ending job.config := by
    unfold OpenClass.ending OpenClass.className
    rw [site.symbol, classPointer_eq job.config site, opened.hasCopyConstructor]
    refine rel_elim opened.base rfl fun _ _ twin => ?_
    have base := pairing.namesake twin
    simp only [Option.map_some, base.symbol, classPointer_eq job.config base]
  unfold closeClass
  rw [opened.isOpen, checkProxy_eq site, base, ending]
  split
  · exact .pure trivial
  · exact .bind_eq .check fun _ => .bind_eq .check fun _ => .bind_eq .append fun _ => .pure trivial

end Facade

/-! ### Enums, constants and variables -/

variable {site site' : Site}

namespace Enumeration

theorem item_same (twin : pairing.Twin site site') : SameResult NamesakeHalt Eq (item site) (item site') := by
  have same := pairing.namesake twin
  unfold item
  rw [pairing.decl twin]
  dsimp only
  split
  · rfl
  · refine .bind ?_ fun _ _ value => congrArg _ value
    unfold value
    rw [pairing.decl twin]
    split
    · split
      · rfl
      · split
        · rfl
        · exact ⟨rfl, .some same⟩
    · split <;> rfl

theorem survivors_twins (twin : pairing.Twin site site') (kind : site.kind = .enumDecl) :
    Forall₂ pairing.Twin (survivors site) (survivors site') :=
  forall₂_filter (pairing.children twin (.inr kind)) fun _ _ child => by
    rw [pairing.kind child, pairing.decl child, (pairing.namesake twin).isMember]

theorem write_parallel (twin : pairing.Twin site site') (kind : site.kind = .enumDecl)
    {cls cls' : Option OpenClass} (opened : Option.Rel (TwinOpen pairing) cls cls') :
    Parallel pairing heard table table' (write job site cls) (write job site' cls') Eq := by
  have same := pairing.namesake twin
  have items : SameResult NamesakeHalt Eq ((survivors site).mapM item) ((survivors site').mapM item) := by
    have listed := SameResult.mapM ((survivors_twins twin kind).imp fun _ _ child => item_same child)
    rwa [forall₂_eq_eq_eq] at listed
  have hidden : isHidden site = isHidden site' := by rw [isHidden, isHidden, pairing.decl twin, same.isMember]
  have declared (items : List EnumItem) : declaration job.config site items = declaration job.config site' items := by
    simp only [declaration, elementPart, typeName?, pairing.decl twin, enumTag_eq job.config same,
      enumPart_eq job.config same, enumType_eq job.config same]
  have inFacade : inFacade job.config site cls = inFacade job.config site' cls' := by
    unfold Enumeration.inFacade
    rw [same.isMember]
    refine rel_elim opened rfl fun _ _ both => ?_
    simp only [Option.any_some, both.isOpen]
  have facade (items : List EnumItem) : facadeDeclaration site items = facadeDeclaration site' items := by
    simp only [facadeDeclaration, bareName?, typeName?, pairing.decl twin, same.isMember]
  unfold write
  simp only [hidden, checkEnumTag_eq same, checkEnumPart_eq same, inFacade, same.checkQualified,
    same.qualifiedValue, declared, facade]
  split
  · exact .pure rfl
  · refine .bind_eq .check fun _ => .bind_eq .check fun _ => .bind_eq (.lift_of fun _ _ => items) fun listed => ?_
    split
    · exact .bind_eq .check fun _ => .bind_eq .tell fun _ => .pure rfl
    · refine .bind_eq .append fun _ => ?_
      split
      · exact .bind_eq .append fun _ => .pure rfl
      · exact .pure rfl

end Enumeration

namespace Constant

theorem write_parallel (twin : pairing.Twin site site') :
    Parallel pairing heard table table' (write job site) (write job site') Eq := by
  have same := pairing.namesake twin
  have owner : site.enclosingClass?.forM checkProxy = site'.enclosingClass?.forM checkProxy :=
    forM_eq_of_rel same.enclosingClass fun _ _ cls => checkProxy_eq cls
  unfold write
  rw [owner, name_eq job.config twin]
  exact .bind_eq (.lift_of fun _ _ => value_same twin) fun _ => .bind_eq .check fun _ => .bind_eq .append fun _ =>
    .record same .constant rfl

end Constant

namespace Variable

section declared

variable (tables : table.Counterpart pairing table')

include tables

theorem declare_parallel (twin : pairing.Twin site site') :
    Parallel pairing heard table table' (declare? job site) (declare? job site') Eq := by
  have declared (t : CxxType) : declaration site t = declaration site' t := by
    rw [declaration, declaration, pairing.decl twin]
  refine Parallel.resolver_bind (.bind_eq (.lift_of fun _ _ => cVariable_same tables twin) fun found => ?_)
  cases found with
  | none => exact .pure rfl
  | some found =>
    simp only [declared]
    exact .bind_eq .require fun _ => .pure rfl

end declared

end Variable

/-! ### Plain C structs -/

namespace Struct

variable (tables : table.Counterpart pairing table')

include tables

theorem child_parallel (twin : pairing.Twin site site') :
    Parallel pairing heard table table' (child job site) (child job site') Eq := by
  have same := pairing.namesake twin
  unfold child
  rw [← pairing.kind twin, pairing.decl twin]
  split
  · exact .pure rfl
  · split
    · refine .bind_eq (.recover (declare_parallel tables twin) (fun m s n t rejected => ?_) (fun _ => rfl)
        fun _ => rfl) fun _ => .pure rfl
      exact .bind_eq (.modify fun _ _ => Comparison.Lawful.reported rejected same) fun _ => .pure rfl
    · exact .bind_eq .check fun _ => .bind_eq (.warn same _) fun _ => .pure rfl
    · rename_i kind
      exact .bind_eq (Enumeration.write_parallel twin kind .none) fun _ => .pure rfl
    · exact .pure rfl

theorem members_parallel {sites sites' : List Site} (twins : Forall₂ pairing.Twin sites sites') :
    Parallel pairing heard table table' (members job sites) (members job sites') Eq := by
  induction twins with
  | nil => exact .pure rfl
  | cons first _ ih => exact .bind_eq (child_parallel tables first) fun _ => .bind_eq ih fun _ => .pure rfl

theorem write_parallel {cls cls' : Site} (twins : pairing.TwinClass cls cls') :
    Parallel pairing heard table table' (write job cls) (write job cls') Eq := by
  have same := pairing.namesake twins.1
  unfold write
  rw [checkProxy_eq same, proxyName_eq job.config same, same.attr]
  exact .bind_eq .check fun _ => .bind_eq (members_parallel tables twins.children) fun _ => .append

end Struct

/-! ### Inherited members -/

theorem inherit_parallel {α : Type} {Same : α → α → Prop}
    {query query' : SymbolTable → Memo → α × Memo} (tables : table.Counterpart pairing table')
    (twins : ∀ memo memo', TwinMemo pairing memo memo' →
      Same (query table memo).1 (query' table' memo').1 ∧
        TwinMemo pairing (query table memo).2 (query' table' memo').2) :
    Parallel pairing heard table table' (inherit query) (inherit query') Same := by
  intro left right drafts first second lastLeft lastRight began ended _ _
  obtain ⟨rfl, rfl⟩ := (ends_iff_of_run (run_inherit query left)).mp began
  obtain ⟨rfl, rfl⟩ := (ends_iff_of_run (run_inherit query' right)).mp ended
  rw [drafts.tables.1, drafts.tables.2]
  obtain ⟨same, memos⟩ := twins left.memo right.memo drafts.memo
  obtain ⟨answers, settled⟩ := memos.settle same
  have events : Forall₂ Eq
      ((((query table left.memo).2.settle (query table left.memo).1).2.opened.drop
        left.memo.opened.length).flatMap (unknownBaseEvents table))
      ((((query' table' right.memo).2.settle (query' table' right.memo).1).2.opened.drop
        right.memo.opened.length).flatMap (unknownBaseEvents table')) := by
    rw [drafts.memo.opened.length_eq]
    refine rel_flatMap (forall₂_drop _ settled.opened) fun cls cls' twin => ?_
    rw [unknownBaseEvents, unknownBaseEvents, unknownBases_eq tables twin, pairing.decl twin]
    exact forall₂_same.mpr fun _ _ => rfl
  rw [forall₂_eq_eq_eq] at events
  refine ⟨{ drafts with tables := ⟨rfl, rfl⟩, memo := settled, events := fun listening => ?_ }, ?_⟩
  · rw [drafts.events listening, events]
  · rcases answers with ⟨cause, stopped, stoppedToo⟩ | ⟨answer, answerToo, same⟩
    · rw [stopped, stoppedToo]
      rfl
    · rw [answer, answerToo]
      exact same

/-! ### Declarations -/

namespace Module

variable {strict : Bool} {c c' : Callable} (tables : table.Counterpart pairing table')

include tables

/-- The facade has no members outside classes, and those of classes show types as they are written. -/
theorem wrap_parallel (same : SameCallable pairing strict job table table' c c')
    (lax : strict = false → heard = false ∧ job.config.cplusplus) {cls cls' : Option OpenClass}
    (opened : Option.Rel (TwinOpen pairing) cls cls') (strictly : cls.isSome → strict) :
    Parallel pairing heard table table' (wrap job cls c) (wrap job cls' c') (Option.Rel (TwinOpen pairing)) := by
  have name : c.decl.name = c'.decl.name := same.site.name
  unfold wrap
  simp only [same.symbol, same.symName, name]
  refine .bind_eq .check fun _ => ?_
  split
  · exact .bind_eq (.warn same.site _) fun _ => .pure opened
  · refine .bind (write_parallel tables same lax) fun one two written => ?_
    cases opened with
    | none => cases written <;> exact .pure .none
    | some both =>
      obtain rfl := strictly rfl
      cases written with
      | none => exact .pure (.some both)
      | some written =>
        exact .bind (addMember_parallel tables both written) fun _ _ added => .pure (.some added)

theorem freeFunction_parallel {site site' : Site} (sites : site.Namesake site')
    (scopes : Option.Rel pairing.SameId (site.scope?.map (·.id)) (site'.scope?.map (·.id)))
    (same : ∀ overloaded, SameCallable pairing strict job table table' (functionOf site overloaded)
      (functionOf site' overloaded))
    (lax : strict = false → heard = false ∧ job.config.cplusplus) :
    Parallel pairing heard table table' (freeFunction job site) (freeFunction job site') Eq := by
  have isFriend : site.decl.isFriend = site'.decl.isFriend := (congrArg Declaration.isFriend sites.untyped :)
  have symbol : overloadSymbol site.decl = overloadSymbol site'.decl := by
    have given : site.decl.givenSymbol = site'.decl.givenSymbol := (congrArg Declaration.givenSymbol sites.untyped :)
    rw [overloadSymbol, overloadSymbol, given]
  unfold freeFunction
  rw [isFriend]
  split
  · refine .bind_eq (.check_eq (congrArg Value.checkKey symbol)) fun _ => .bind .get fun left right drafts => ?_
    have count : left.freeFunctions.count (overloadKey site) = right.freeFunctions.count (overloadKey site') := by
      rw [overloadKey, overloadKey, symbol]
      exact drafts.overloads _ _ _ scopes
    rw [count]
    exact .bind (wrap_parallel tables (same _) lax .none (by simp)) fun _ _ _ => .pure rfl
  · exact .pure rfl

variable {site site' : Site}

theorem globalVariable_parallel (twin : pairing.Twin site site') :
    Parallel pairing heard table table' (globalVariable job site) (globalVariable job site') Eq := by
  have isStatic : site.decl.isStatic = site'.decl.isStatic := congrArg _ (pairing.decl twin)
  refine .bind_eq (.exportDirectly (pairing.namesake twin) isStatic rfl (isExportable_eq job.config twin)
    (declare_parallel tables twin)) fun exported => ?_
  cases exported with
  | true => exact .pure rfl
  | false =>
    refine Parallel.resolver_bind ?_
    have shape : TwinCallable pairing
        { site := site, role := .globalGet, symbol := site.decl.symbolValue, result := .void }
        { site := site', role := .globalGet, symbol := site'.decl.symbolValue, result := .void } :=
      ⟨pairing.decl twin, pairing.frame twin, pairing.sameId twin, rfl, (pairing.namesake twin).symbolValue, rfl, rfl,
        .none, .none, rfl, rfl, rfl⟩
    refine .bind (.lift_of fun _ _ => accessors_twins tables shape _) fun _ _ callables => ?_
    refine .forM (callables.imp fun c c' twin => ?_)
    have same : SameCallable pairing true job table table' c c' := twin.same tables
    exact .bind (wrap_parallel tables same (by simp) .none (by simp)) fun _ _ _ => .pure rfl

/-! ### Classes -/

theorem classMember_parallel {cls cls' : OpenClass} (opened : TwinOpen pairing cls cls')
    {m m' : Member} (twins : TwinMember pairing m m') :
    Parallel pairing heard table table' (classMember job cls m) (classMember job cls' m') (TwinOpen pairing) := by
  cases twins with
  | callable twin =>
    have same : SameCallable pairing true job table table' _ _ := twin.same tables
    refine .recover (.bind (wrap_parallel tables same (by simp) (.some opened) (by simp)) fun one two added => .pure ?_)
      (fun m s n t rejected => ?_) (fun _ => rfl) fun _ => rfl
    · cases added with
      | none => exact opened
      | some both => exact both
    · exact .bind_eq (.modify fun _ _ => Comparison.Lawful.reported rejected twin.namesake) fun _ => .pure opened
  | enumeration twin kind =>
    refine .bind_eq (.guarded (pairing.namesake twin) ?_) fun _ => .pure opened
    exact .bind_eq (Enumeration.write_parallel twin kind (.some opened)) fun _ => .pure rfl
  | constant twin =>
    exact .bind_eq (.guarded (pairing.namesake twin) (Constant.write_parallel twin)) fun _ => .pure opened

theorem cxxClass_parallel {cls cls' : Site} (twins : pairing.TwinClass cls cls') :
    Parallel pairing heard table table' (cxxClass job cls) (cxxClass job cls') Eq := by
  have same := pairing.namesake twins.1
  unfold cxxClass
  rw [checkProxy_eq same, proxyName_eq job.config same]
  refine .bind_eq .check fun _ => .bind_eq .append fun _ => ?_
  refine .bind_eq (.record same .type (proxyValue_eq job.config same)) fun _ => ?_
  refine .bind (openClass_parallel tables twins.1) fun o o' opened => ?_
  refine .bind_eq (inherit_parallel tables fun memo memo' memos => isAbstract_twins tables memos twins)
    fun abstract => Parallel.resolver_bind ?_
  refine .bind (.lift_of fun _ _ => own_twins tables twins abstract) fun own own' declared => ?_
  refine .bind (inherit_parallel tables fun memo memo' memos => flatten_twins tables memos twins)
    fun shadows shadows' handed => ?_
  refine .bind (.lift_of fun _ _ => inherited_twins tables twins.1 handed) fun inherited inherited' passedOn => ?_
  refine .bind_eq (.forM (twins.children.imp fun child child' below => ?_)) fun _ => ?_
  · rw [checkUnsupported_eq below, unsupported_eq twins.1 below]
    refine .bind_eq .check fun _ => ?_
    cases unsupported? cls' child' with
    | none => exact .pure rfl
    | some warning => exact .warn (pairing.namesake below) warning
  · refine .bind_eq (.check_eq same.checkName) fun _ => ?_
    have members : Parallel pairing heard table table'
        ((inOrder cls abstract own inherited).foldlM (classMember job) o)
        ((inOrder cls' abstract own' inherited').foldlM (classMember job) o') (TwinOpen pairing) :=
      .foldlM (inOrder_twins twins abstract declared passedOn)
        (fun _ _ _ _ before member => classMember_parallel tables before member) opened
    exact .bind members fun _ _ finished => .bind (closeClass_parallel finished) fun _ _ _ => .pure rfl

theorem classDecl_parallel {cls cls' : Site} (twins : pairing.TwinClass cls cls') :
    Parallel pairing heard table table' (classDecl job cls) (classDecl job cls') Eq := by
  have same := pairing.namesake twins.1
  refine .bind .get fun left right drafts => ?_
  have runtime : (left.runtimeClass.map (·.id) != some cls.id) = (right.runtimeClass.map (·.id) != some cls'.id) := by
    rw [Bool.eq_iff_iff, bne_iff_ne, bne_iff_ne]
    exact not_congr (pairing.option_eq_iff drafts.runtimeClass (.some (pairing.sameId twins.1)))
  rw [same.name, runtime, same.isMember, same.checkQualified, same.qualifiedName]
  split
  · exact .pure rfl
  · split
    · exact Struct.write_parallel tables twins
    · split
      · exact .bind_eq .check fun _ => .warn same _
      · exact cxxClass_parallel tables twins

theorem declaration_parallel (twin : pairing.Twin site site')
    (scopes : Option.Rel pairing.SameId (site.scope?.map (·.id)) (site'.scope?.map (·.id))) :
    Parallel pairing heard table table' (declaration job site) (declaration job site') Eq := by
  have same := pairing.namesake twin
  unfold declaration
  rw [← pairing.kind twin]
  split
  · exact .importDecl (pairing.decl twin)
  · exact .insertDecl (pairing.decl twin) same
  · rename_i kind
    exact .guarded same (classDecl_parallel tables ⟨twin, kind⟩)
  · have functions (overloaded : Bool) : SameCallable pairing true job table table' (functionOf site overloaded)
        (functionOf site' overloaded) := (TwinCallable.function twin overloaded).same tables
    exact .guarded same (freeFunction_parallel tables same scopes functions (by simp))
  · exact .guarded same (globalVariable_parallel tables twin)
  · rename_i kind
    exact .guarded same (.bind_eq (Enumeration.write_parallel twin kind .none) fun _ => .pure rfl)
  · exact .guarded same (Constant.write_parallel twin)
  · exact .pure rfl
  all_goals exact .warn same _

omit tables

section preparation

variable {root : Site} (support : exceptionSupport job.config job.root = exceptionSupport job.config root)

include support

section

variable (runtime : pairing.Twin (runtimeClass job.root) (runtimeClass root))

include runtime

theorem ownRuntimeClass_twins : Option.Rel pairing.Twin (ownRuntimeClass? job) (ownRuntimeClass? (job.over root)) := by
  have rooted : (job.over root).root = root := rfl
  have config : (job.over root).config = job.config := rfl
  rw [ownRuntimeClass?, ownRuntimeClass?, rooted, config, ← support]
  split
  · exact .some runtime
  · exact .none

theorem prepared_tables_aligned (trees : SymbolTable.Aligned pairing (.ofTree job.root) (.ofTree root)) :
    SymbolTable.Aligned pairing (prepared job).table (prepared (job.over root)).table := by
  unfold prepared
  exact rel_elim (ownRuntimeClass_twins support runtime) trees fun _ _ twin => trees.register twin

theorem prepared_paired
    (overloads : ∀ scope scope' symbol, Option.Rel pairing.SameId scope scope' →
      (job.root.freeFunctions.map overloadKey).count (scope, symbol) =
        (root.freeFunctions.map overloadKey).count (scope', symbol)) :
    Paired pairing heard (prepared job).table (prepared (job.over root)).table (prepared job)
      (prepared (job.over root)) := by
  have supportOver : exceptionSupport (job.over root).config (job.over root).root =
      exceptionSupport job.config job.root := support.symm
  refine ⟨⟨rfl, rfl⟩, ?_, rfl, rfl, fun _ => rfl, fun _ _ _ => rfl, .empty _, ?_, ?_, overloads, ?_⟩
  · simp only [prepared, preparedChunks, supportOver]
    rfl
  · simp only [prepared, supportOver]
  · simp only [prepared, supportOver]
    rfl
  · unfold prepared
    exact rel_elim (ownRuntimeClass_twins support runtime) .none fun _ _ twin => .some (pairing.sameId twin)

end

end preparation

theorem run_parallel {root : Site} (filed : checkTree job.root = checkTree root)
    (keyed : job.root.freeFunctions.forM checkOverload = root.freeFunctions.forM checkOverload)
    (start : Paired pairing heard table table' (prepared job) (prepared (job.over root)))
    (each : Forall₂ (fun site site' =>
      Parallel pairing heard table table' (declaration job site) (declaration job site') Eq)
      (visited job) (visited (job.over root))) :
    SameResult NamesakeHalt (Paired pairing heard table table') (run job) (run (job.over root)) := by
  have rooted : (job.over root).root = root := rfl
  rw [run_eq, run_eq, rooted, declaration_over, filed, keyed]
  refine .bind (.of_eq (fun _ _ => True) rfl fun _ => trivial) fun _ _ _ => ?_
  refine .bind (.of_eq (fun _ _ => True) rfl fun _ => trivial) fun _ _ _ => ?_
  rcases began : ((visited job).forM (declaration job)).run.run (prepared job) with ⟨outcome, draft⟩
  rcases ended : ((visited (job.over root)).forM (declaration job)).run.run (prepared (job.over root)) with
    ⟨outcome', draft'⟩
  have strictly {α : Type} {outcome : Except Halt α} : (paired pairing heard table table').Counts outcome :=
    fun lenient => absurd lenient (by simp [paired])
  obtain ⟨last, same⟩ := Lockstep.forM each _ _ start began ended strictly strictly
  rcases SameResult.cases same with ⟨_, _, rfl, rfl, _⟩ | ⟨_, _, rfl, rfl, halts⟩
  · exact last
  · exact halts

end Module

end FlatAbi
