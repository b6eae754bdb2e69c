import FlatAbi.Proofs.Emission.Classes
import FlatAbi.Proofs.Inheritance.Uncached

/-!
The symbols of a run. As long as none is found taken, each declaration adds symbols that depend on the module alone.
-/

namespace FlatAbi

open Emit FlatAbi.Module Inheritance Wrapper List Members SymbolTable Facade Naming Bool

variable {job : Job} {before middle after : Draft}

/-! ### Symbols of declarations -/

variable {c : Callable} {cls : Site} {path : List Nat}

def ifOk {α : Type} (symbols : α → List Symbol) : Except Halt α → List Symbol
  | .ok value => symbols value
  | .error _ => []

theorem ifOk_bind {α β : Type} (symbols : β → List Symbol) (result : Except Halt α) (next : α → Except Halt β) :
    ifOk symbols (result >>= next) = ifOk (fun value => ifOk symbols (next value)) result := by
  cases result <;> rfl

namespace Module

/-- The symbol of the wrapper of a callable, where it gets one. -/
def wrapperSymbols (job : Job) (c : Callable) : List Symbol :=
  ((Wrapper.codes? job (resolver job) c).map fun codes =>
    symbolOf .function (.string (wrapperName job.config c codes)) c.site).toList

/-- A callable whose symbol C cannot have gets none. -/
def callableSymbols (job : Job) (c : Callable) : List Symbol :=
  if Text.isSymbolName c.symName then wrapperSymbols job c else []

/-- The callable of a function outside of classes. -/
def freeCallable (job : Job) (site : Site) : Callable :=
  { site := site
    role := .function
    symbol := site.decl.symbolValue
    result := site.decl.type.getD .void
    parameters := site.decl.parameters
    overloaded := (prepared job).freeFunctions.count (overloadKey site) > 1 }

def functionSymbols (job : Job) (site : Site) : List Symbol :=
  if site.decl.isFriend then [] else callableSymbols job (freeCallable job site)

/-- What the accessors of a variable outside of classes share. -/
def globalShape (site : Site) : Callable :=
  { site := site, role := .globalGet, symbol := site.decl.symbolValue, result := .void }

def accessorSymbols (job : Job) (site : Site) : List Symbol :=
  ifOk (·.flatMap (callableSymbols job)) (accessors (resolver job) (globalShape site) .globalSet)

/-- A variable outside of classes has a symbol of its own or those of its accessors. -/
def variableSymbols (job : Job) (site : Site) : List Symbol :=
  if site.decl.isStatic then []
  else if Variable.isExportable job.config site then
    ifOk (fun found => if found.isSome then [symbolOf .variable (.string site.decl.shortName) site]
      else accessorSymbols job site) (Variable.cVariable? (resolver job) site)
  else accessorSymbols job site

def constantSymbols (config : Config) (site : Site) : List Symbol :=
  ifOk (fun _ => [symbolOf .constant (Constant.name config site) site]) (Constant.value site)

def memberSymbols (job : Job) : Member → List Symbol
  | .callable c => callableSymbols job c
  | .enumeration _ => []
  | .constant site => constantSymbols job.config site

def membersOf (job : Job) (cls : Site) (abstract : Bool) (shadows : List Shadow) : Except Halt (List Member) := do
  let own ← Members.own (resolver job) cls abstract
  let inherited ← Members.inherited (resolver job) cls shadows
  return inOrder cls abstract own inherited

/-- A class has the symbol of its type and those of its members, if these can be listed. -/
def classSymbols (job : Job) (cls : Site) : List Symbol :=
  let table := (prepared job).table
  symbolOf .type (proxyValue job.config cls) cls ::
    ifOk (·.flatMap (memberSymbols job))
      (membersOf job cls (isAbstract table {} cls).1 (Inheritance.flatten table {} cls).1)

/-- The symbols that a declaration outside of classes adds. -/
def symbolsOf (job : Job) (site : Site) : List Symbol :=
  match site.kind with
  | .classDecl => if job.config.cplusplus && writesClass job site then classSymbols job site else []
  | .functionDecl => functionSymbols job site
  | .variableDecl => variableSymbols job site
  | .constantDecl => constantSymbols job.config site
  | _ => []

/-- The sites that a run can come to. -/
def Knows (job : Job) (site : Site) : Prop :=
  site ∈ job.root.walk ∨ ownRuntimeClass? job = some site

end Module

/-! ### What work does to the books of a draft -/

/-- A move that only appends a chunk or tells an event. -/
def Move.Silent : Move → Prop
  | .append _ | .tell _ => True
  | _ => False

instance : Move.Noting Move.Silent where
  append _ _ := trivial
  tell _ := trivial

/-- No wrapper was left out because its symbol was taken. -/
def Draft.NoneTaken (draft : Draft) : Prop :=
  ∀ d ∈ draft.diagnostics, d.severity = .warning → ∀ c symbol, d.message ≠ Wrapper.takenWarning c symbol

theorem Draft.NoneTaken.earlier (later : before.events <+: after.events) (untaken : after.NoneTaken) :
    before.NoneTaken :=
  fun d reported => untaken d ((later.filterMap _).subset reported)

/-- What a draft refers to is what the run began with. -/
structure Draft.IsOf (job : Job) (draft : Draft) : Prop where
  table : draft.table = (Module.prepared job).table
  freeFunctions : draft.freeFunctions = (Module.prepared job).freeFunctions
  runtimeClass : draft.runtimeClass = (Module.prepared job).runtimeClass

/-- The names on file are names of symbols, and the answers about inherited members are right. -/
structure Draft.IsTidy (job : Job) (draft : Draft) : Prop where
  filed : ∀ entry ∈ draft.names, draft.isDefined entry.2
  unbroken : draft.memo.verdict = .ok ()
  exact : draft.memo.Exact (Module.prepared job).table (Knows job) Inheritance.idle

/-- From one draft to a later one symbols are added, in an orderly way unless one of them was taken. -/
structure Added (job : Job) (before : Draft) (symbols : List Symbol) (after : Draft) : Prop where
  isOf : after.IsOf job
  events : before.events <+: after.events
  tidy : after.NoneTaken → before.IsTidy job → after.IsTidy job ∧ after.symbols = before.symbols ++ symbols

theorem Added.trans {first rest : List Symbol} (began : Added job before first middle)
    (ended : Added job middle rest after) :
    Added job before (first ++ rest) after where
  isOf := ended.isOf
  events := began.events.trans ended.events
  tidy untaken tidy := by
    obtain ⟨tidy, added⟩ := began.tidy (untaken.earlier ended.events) tidy
    obtain ⟨tidy, addedToo⟩ := ended.tidy untaken tidy
    exact ⟨tidy, by rw [addedToo, added, append_assoc]⟩

theorem Added.refl (isOf : before.IsOf job) : Added job before [] before :=
  ⟨isOf, prefix_rfl, fun _ tidy => ⟨tidy, (append_nil _).symm⟩⟩

theorem Draft.IsOf.withNotes (isOf : before.IsOf job) (chunks : List Chunk) (declared : List Need) (told : List Event) :
    Added job before [] { before with chunks, declared, events := before.events ++ told } :=
  ⟨⟨isOf.table, isOf.freeFunctions, isOf.runtimeClass⟩, prefix_append _ _,
    fun _ tidy => ⟨⟨tidy.filed, tidy.unbroken, tidy.exact⟩, (append_nil _).symm⟩⟩

theorem Goes.added (isOf : before.IsOf job) (goes : Goes job Move.Silent before after) : Added job before [] after := by
  refine goes.preserves (Added job before []) (fun {move before after} permitted moves added => ?_) (.refl isOf)
  have still : Added job before [] after := by
    cases moves with
    | append draft chunk =>
      have longer := added.isOf.withNotes (before.chunks ++ [chunk]) (before.declared ++ chunk.need?.toList) []
      rwa [append_nil] at longer
    | tell draft event => exact added.isOf.withNotes _ _ _
    | record | name | learn | wrap => exact permitted.elim
  simpa using added.trans still

/-- Work that adds certain symbols. -/
def Adds {α : Type} (job : Job) (work : Emit α) (symbols : List Symbol) : Prop :=
  ∀ before outcome after, before.IsOf job → Ends work before outcome after → Survives outcome →
    Added job before symbols after

namespace Adds

variable {α β : Type} {work : Emit α} {next : α → Emit β} {symbols first rest : List Symbol}

theorem silent (within : Within job Move.Silent work) : Adds job work [] :=
  fun before outcome after isOf ends survives => (within before outcome after ends survives).added isOf

theorem bind (never : NeverRejects work) (began : Adds job work first) (ended : ∀ value, Adds job (next value) rest) :
    Adds job (work >>= next) (first ++ rest) := by
  intro before outcome after isOf ends survives
  obtain ⟨value, middle, began', ended'⟩ := ends.bind_value never survives
  have added := began _ _ _ isOf began' survives_ok
  exact added.trans (ended value _ _ _ added.isOf ended' survives)

theorem bind_silent (began : Adds job work symbols) (ended : ∀ value, Within job Move.Silent (next value)) :
    Adds job (work >>= next) symbols := by
  intro before outcome after isOf ends survives
  rcases ends.bind_survived survives with ⟨value, middle, began', ended'⟩ | ⟨message, site, began', _⟩
  · have added := began _ _ _ isOf began' survives_ok
    simpa using added.trans ((ended value _ _ _ ended' survives).added added.isOf)
  · exact began _ _ _ isOf began' survives_rejected

theorem silent_bind (never : NeverRejects work) (within : Within job Move.Silent work)
    (ended : ∀ value, Adds job (next value) symbols) : Adds job (work >>= next) symbols :=
  bind never (silent within) ended

theorem check_bind {result : Except Misshapen Unit} {next : Unit → Emit β} (ended : Adds job (next ()) symbols) :
    Adds job (check result >>= next) symbols :=
  silent_bind .check (check_within _) fun _ => ended

theorem lift_bind {result : Except Halt α} {added : α → List Symbol}
    (ended : ∀ value, result = .ok value → Adds job (next value) (added value)) :
    Adds job (lift result >>= next) (ifOk added result) := by
  intro before outcome after isOf ends survives
  rcases ends.lift_bind with ⟨value, found, ends⟩ | ⟨halt, failed, rfl, rfl⟩
  · rw [found]
    exact ended value found _ _ _ isOf ends survives
  · rw [failed]
    exact .refl isOf

theorem resolver_bind {next : Resolver → Emit β} (ended : Adds job (next (Module.resolver job)) symbols) :
    Adds job (Emit.resolver job >>= next) symbols := by
  intro before outcome after isOf ends survives
  rw [ends_resolver_bind, isOf.table] at ends
  exact ended _ _ _ isOf ends survives

theorem get_bind {next : Draft → Emit β} (ended : ∀ draft, draft.IsOf job → Adds job (next draft) symbols) :
    Adds job (get >>= next) symbols := by
  intro before outcome after isOf ends survives
  rw [ends_get_bind] at ends
  exact ended before isOf _ _ _ isOf ends survives

theorem recover {handler : Halt → Emit α} (began : Adds job work symbols)
    (rejected : ∀ message site, Within job Move.Silent (handler (.rejected message site)))
    (passed : ∀ cause, handler (.fault cause) = throw (.fault cause)) : Adds job (tryCatch work handler) symbols := by
  intro before outcome after isOf ends survives
  rcases ends.recover_cases passed survives with ⟨_, ended, rfl⟩ | ⟨message, site, middle, began', ended⟩
  · exact began _ _ _ isOf ended survives_ok
  · have added := began _ _ _ isOf began' survives_rejected
    simpa using added.trans ((rejected message site _ _ _ ended survives).added added.isOf)

theorem guarded {work : Emit Unit} (site : Site) (began : Adds job work symbols) :
    Adds job (Emit.guarded site work) symbols :=
  recover began (fun _ _ => report_within _ _ _) fun _ => rfl

theorem foldlM {f : β → α → Emit β} {items : List α} {each : α → List Symbol}
    (never : ∀ state item, NeverRejects (f state item)) (adds : ∀ state item, Adds job (f state item) (each item))
    (start : β) : Adds job (items.foldlM f start) (items.flatMap each) := by
  induction items generalizing start with
  | nil => exact silent .pure
  | cons item rest ih =>
    rw [foldlM_cons, flatMap_cons]
    exact bind (never start item) (adds start item) ih

theorem record (kind : SymbolKind) (name : Value) (site : Site) :
    Adds job (Emit.record kind name site) [symbolOf kind name site] := by
  intro before outcome after isOf ends survives
  obtain ⟨_, rfl⟩ := ends_record ends survives
  refine ⟨⟨isOf.table, isOf.freeFunctions, isOf.runtimeClass⟩, prefix_rfl,
    fun _ tidy => ⟨⟨?_, tidy.unbroken, tidy.exact⟩, rfl⟩⟩
  intro entry listed
  simp only [Draft.isDefined, any_append, or_eq_true]
  exact .inl (tidy.filed entry listed)

/-! ### Queries on inherited members -/

theorem inherit_bind {query : SymbolTable → Memo → α × Memo} (ending : α → List Symbol)
    (right : ∀ memo : Memo, memo.verdict = .ok () →
      memo.Exact (Module.prepared job).table (Knows job) idle →
      (query (Module.prepared job).table memo).2.verdict = .ok () →
      (query (Module.prepared job).table memo).1 = (query (Module.prepared job).table {}).1 ∧
        (query (Module.prepared job).table memo).2.Exact (Module.prepared job).table (Knows job) idle)
    (ended : ∀ answer, Adds job (next answer) (ending answer)) :
    Adds job (inherit query >>= next) (ending (query (Module.prepared job).table {}).1) := by
  intro before outcome after isOf ends survives
  obtain ⟨answer, middle, asked, ended'⟩ := ends.bind_value (inherit_neverRejects query) survives
  have unbroken := Memo.verdict_eq_ok_iff.mpr (unbroken_of_inherit asked survives_ok)
  obtain ⟨same, rfl⟩ := ends_inherit asked survives_ok
  cases same
  rw [isOf.table] at unbroken
  have added := ended _ _ _ _ (by exact ⟨isOf.table, isOf.freeFunctions, isOf.runtimeClass⟩) ended' survives
  refine ⟨added.isOf, (prefix_append _ _).trans added.events, fun untaken tidy => ?_⟩
  obtain ⟨answer, known⟩ := right before.memo tidy.unbroken tidy.exact unbroken
  rw [← isOf.table] at answer known unbroken
  obtain ⟨tidy, symbols⟩ := added.tidy untaken ⟨tidy.filed, unbroken, by rw [← isOf.table]; exact known⟩
  rw [answer, isOf.table] at symbols
  exact ⟨tidy, symbols⟩

end Adds

/-! ### Wrappers -/

theorem Wrapper.Renders.codes {r : Resolver} {support : ExceptionSupport} {symbol : String} {rendering : Rendering}
    (renders : Renders job r support c symbol rendering) :
    codes? job r c = some rendering.codes := by
  unfold codes?
  cases renders with
  | converted cxx typed planned implemented declared bodied => simp [typed, cxx, planned, Except.toOption]
  | direct plain typed bodied => simp [typed, plain, Except.toOption]

theorem Draft.name_eq {codes : List String} (filed : ∀ entry ∈ before.names, before.isDefined entry.2)
    (fresh : before.isDefined (before.names.name job.config c codes).1 = false) :
    before.names.name job.config c codes =
      (wrapperName job.config c codes, (c.key, wrapperName job.config c codes) :: before.names) := by
  unfold NameBook.name NameBook.give at fresh ⊢
  cases found : before.names.lookup c.key with
  | none => rfl
  | some name =>
    obtain ⟨front, back, same, _⟩ := List.lookup_eq_some_iff.mp found
    have defined := filed (c.key, name) (by simp [same])
    simp only [found, Option.getD_some] at fresh
    rw [fresh] at defined
    cases defined

theorem write_adds (c : Callable) : Adds job (write job c) (wrapperSymbols job c) := by
  intro before outcome after isOf ends survives
  have table : (⟨job.config, before.table⟩ : Resolver) = Module.resolver job := by rw [isOf.table]; rfl
  unfold wrapperSymbols
  cases writeEnd_of_ends ends survives with
  | @published symbol rendering renders named fresh =>
    rw [table] at renders
    subst named
    refine ⟨⟨isOf.table, isOf.freeFunctions, isOf.runtimeClass⟩, prefix_append _ _, fun _ tidy => ?_⟩
    have name := Draft.name_eq tidy.filed fresh
    refine ⟨⟨fun entry listed => ?_, tidy.unbroken, tidy.exact⟩, ?_⟩
    · simp only [Rendering.publishedIn, name, mem_cons] at listed
      simp only [Draft.isDefined, Rendering.publishedIn, name, any_append, or_eq_true]
      rcases listed with rfl | listed
      · exact .inr (by simp [symbolOf, Value.asString?])
      · exact .inl (tidy.filed entry listed)
    · simp [Rendering.publishedIn, name, renders.codes]
  | unconverted cxx typed planned =>
    rw [table] at planned
    have absent : codes? job (Module.resolver job) c = none := by
      simp [codes?, typed, cxx, planned, Except.toOption]
    rw [absent]
    exact isOf.withNotes _ _ _
  | @taken codes defined =>
    refine ⟨⟨isOf.table, isOf.freeFunctions, isOf.runtimeClass⟩, prefix_append _ _, fun untaken _ => ?_⟩
    let symbol := (before.names.name job.config c codes).1
    refine (untaken (.about .warning (some c.site) (takenWarning c symbol)) ?_ rfl c symbol rfl).elim
    simp [Draft.diagnostics, warnedIn, symbol]
  | rejected typed =>
    have absent : codes? job (Module.resolver job) c = none := by simp [codes?, typed, Except.toOption]
    rw [absent]
    exact .refl isOf

theorem wrap_adds (cls : Option OpenClass) (c : Callable) :
    Adds job (Module.wrap job cls c) (callableSymbols job c) := by
  refine .check_bind ?_
  unfold callableSymbols
  cases Text.isSymbolName c.symName with
  | false => exact .silent (.bind (warn_within _ _) fun _ => .pure)
  | true =>
    refine .bind_silent (write_adds c) fun written => ?_
    split
    · exact .bind (addMember_within _ _) fun _ => .pure
    · exact .pure

/-- Only an ellipsis among the parameters is rejected. -/
theorem wrap_neverRejects (bare : c.parameters = []) : NeverRejects (Module.wrap job none c) := by
  have typed : typedParameters c = .ok [] := by
    unfold typedParameters
    rw [bare]
    rfl
  have writes : NeverRejects (write job c) := by
    refine .of_value fun ends survives => ?_
    cases writeEnd_of_ends ends survives with
    | rejected failed =>
      rw [typed] at failed
      cases failed
    | published | unconverted | taken => exact ⟨_, rfl⟩
  refine .bind .check fun _ => ?_
  split
  · exact .bind .modify fun _ => .pure
  · refine .bind writes fun written => ?_
    cases written <;> exact .pure

/-! ### Declarations outside of classes -/

theorem freeFunction_adds (site : Site) : Adds job (freeFunction job site) (Module.functionSymbols job site) := by
  unfold freeFunction Module.functionSymbols
  cases site.decl.isFriend with
  | true => exact .silent .pure
  | false =>
    refine .check_bind (.get_bind fun draft isOf => ?_)
    rw [isOf.freeFunctions]
    exact .bind_silent (wrap_adds none (freeCallable job site)) fun _ => .pure

theorem accessors_adds (site : Site) :
    Adds job (do
      let r ← Emit.resolver job
      let callables ← Emit.lift (accessors r (globalShape site) .globalSet)
      callables.forM fun c => do
        let _ ← Module.wrap job none c) (accessorSymbols job site) := by
  refine .resolver_bind ?_
  unfold accessorSymbols
  refine .lift_bind fun callables found => ?_
  have each (c : Callable) : Adds job (do let _ ← Module.wrap job none c) (callableSymbols job c) :=
    .bind_silent (wrap_adds none c) fun _ => .pure
  -- The getter has no parameters, so it cannot keep the setter from being wrapped.
  obtain ⟨_, _, _, _, rfl | rfl⟩ := accessors_eq_ok found
  · refine .bind (.bind (wrap_neverRejects rfl) fun _ => .pure) (each _) fun _ => ?_
    exact .bind_silent (by simpa using each _) fun _ => .pure
  · exact .bind_silent (by simpa using each _) fun _ => .pure

section exports

variable {site : Site} {next : Bool → Emit Unit} {accessed : List Symbol}
  (exported : Adds job (next true) []) (otherwise : Adds job (next false) accessed)

include exported otherwise

theorem declare_adds : Adds job ((do
      match ← Variable.declare? job site with
      | none => return false
      | some declaration =>
        Emit.append (.variableDeclaration declaration)
        Emit.record .variable (.string site.decl.shortName) site
        return true) >>= next)
    (ifOk (fun found => if found.isSome then [symbolOf .variable (.string site.decl.shortName) site] else accessed)
      (Variable.cVariable? (Module.resolver job) site)) := by
  unfold Variable.declare?
  simp only [bind_assoc]
  refine .resolver_bind (.lift_bind fun found _ => ?_)
  cases found with
  | none =>
    simp only [pure_bind]
    exact otherwise
  | some found =>
    simp only [bind_assoc, pure_bind]
    refine .silent_bind (require_neverRejects _) (require_within _) fun _ => ?_
    refine .silent_bind .modify (.append trivial rfl) fun _ => ?_
    exact .bind (record_neverRejects _ _ _) (.record _ _ _) fun _ => exported

theorem exportDirectly_adds : Adds job (Variable.exportDirectly job site >>= next)
    (if site.decl.isStatic then []
    else if Variable.isExportable job.config site then
      ifOk (fun found => if found.isSome then [symbolOf .variable (.string site.decl.shortName) site] else accessed)
        (Variable.cVariable? (Module.resolver job) site)
    else accessed) := by
  unfold Variable.exportDirectly
  dsimp only
  cases site.decl.isStatic with
  | true => simpa using exported
  | false =>
    cases job.config.globalPart?.isNone with
    | true =>
      simp only [false_eq_true, if_false, if_true, bind_assoc]
      refine .check_bind ?_
      cases Variable.isExportable job.config site with
      | true => exact declare_adds exported otherwise
      | false => simpa using otherwise
    | false =>
      cases Variable.isExportable job.config site with
      | true => exact declare_adds exported otherwise
      | false => simpa using otherwise

end exports

theorem globalVariable_adds (site : Site) : Adds job (globalVariable job site) (variableSymbols job site) :=
  exportDirectly_adds (.silent .pure) (accessors_adds site)

theorem constant_adds (site : Site) : Adds job (Constant.write job site) (constantSymbols job.config site) := by
  unfold constantSymbols
  refine .lift_bind fun value _ => ?_
  exact .check_bind (.silent_bind .modify (.append trivial rfl) fun _ => .record _ _ _)

/-! ### Classes -/

theorem classMember_adds (opened : OpenClass) (m : Member) :
    Adds job (classMember job opened m) (memberSymbols job m) := by
  cases m with
  | callable c =>
    exact .recover (.bind_silent (wrap_adds _ c) fun _ => .pure)
      (fun _ _ => .bind (report_within _ _ _) fun _ => .pure) fun _ => rfl
  | enumeration site =>
    have silent : Within job Move.Silent (Enumeration.write job site (some opened)) :=
      enumeration_within_of (fun _ _ _ _ => trivial) site _
    exact .bind_silent (.guarded site (.silent (.bind silent fun _ => .pure))) fun _ => .pure
  | constant site => exact .bind_silent (.guarded site (constant_adds site)) fun _ => .pure

variable (census : Census (Module.prepared job).table (Knows job) fun _ => True)
  (acyclic : Acyclic (Module.prepared job).table)

include census acyclic

omit census acyclic in
theorem members_adds (cls : Site) (abstract : Bool) (own : List Own) (shadows : List Shadow)
    (opened : OpenClass) :
    Adds job (do
        let inherited ← Emit.lift (Members.inherited (Module.resolver job) cls shadows)
        warnUnsupported cls
        check cls.decl.checkName
        let finished ← (inOrder cls abstract own inherited).foldlM (classMember job) opened
        let _ ← closeClass job finished)
      (ifOk (fun inherited => (inOrder cls abstract own inherited).flatMap (memberSymbols job))
        (Members.inherited (Module.resolver job) cls shadows)) := by
  refine .lift_bind fun inherited _ => ?_
  refine .silent_bind (unsupported_neverRejects cls _) (unsupported_within cls _) fun _ => .check_bind ?_
  refine .bind_silent ?_ fun finished => .bind (closeClass_within_of (fun _ => trivial) finished) fun _ => .pure
  exact .foldlM classMember_neverRejects classMember_adds opened

theorem cxxClass_adds (known : Knows job cls) : Adds job (cxxClass job cls) (classSymbols job cls) := by
  have opens : Within job Move.Silent (openClass job cls) :=
    openClass_within_of (fun _ => trivial) (fun _ _ => trivial) cls
  refine .check_bind (.silent_bind .modify (.append trivial rfl) fun _ => ?_)
  refine .bind (record_neverRejects _ _ _) (.record _ _ _) fun _ => ?_
  refine .silent_bind (openClass_neverRejects cls) opens fun opened => ?_
  refine .inherit_bind (fun abstract => ifOk _ (membersOf job cls abstract _))
    (fun memo => isAbstract_exact census known fun other _ => acyclic other) fun abstract => .resolver_bind ?_
  rw [membersOf, ifOk_bind]
  refine .lift_bind fun own _ => ?_
  rw [ifOk_bind]
  exact .inherit_bind (fun shadows => ifOk _ (Members.inherited (Module.resolver job) cls shadows))
    (fun memo => flatten_exact census known fun other _ => acyclic other)
    fun shadows => members_adds cls abstract own shadows opened

theorem classDecl_adds (known : Knows job cls) :
    Adds job (Module.classDecl job cls)
      (if job.config.cplusplus && writesClass job cls then classSymbols job cls else []) := by
  refine .get_bind fun draft isOf => ?_
  rw [isOf.runtimeClass]
  change Adds job (if isForeign job cls then _ else _) _
  unfold writesClass
  cases isForeign job cls with
  | true => simpa using Adds.silent .pure
  | false =>
    cases cxx : job.config.cplusplus with
    | false => exact .silent (struct_within_of (fun _ _ _ _ => trivial) cls)
    | true =>
      cases cls.isMember with
      | true => exact .silent (.bind (check_within _) fun _ => warn_within _ _)
      | false => exact cxxClass_adds census acyclic known

/-! ### Runs -/

theorem declaration_adds {site : Site} (known : Knows job site) :
    Adds job (Module.declaration job site) (symbolsOf job site) := by
  unfold Module.declaration symbolsOf
  cases site.kind with
  | importDecl => exact .silent (importDecl_within site)
  | insertDecl => exact .silent (insertDecl_within site)
  | classDecl => exact .guarded site (classDecl_adds census acyclic known)
  | functionDecl => exact .guarded site (freeFunction_adds site)
  | variableDecl => exact .guarded site (globalVariable_adds site)
  | enumDecl =>
    have silent : Within job Move.Silent (Enumeration.write job site none) :=
      enumeration_within_of (fun _ _ _ _ => trivial) site none
    exact .guarded site (.silent (.bind silent fun _ => .pure))
  | constantDecl => exact .guarded site (constant_adds site)
  | typedefDecl => exact .silent .pure
  | includeDecl | namespaceDecl | moduleDecl | constructorDecl | destructorDecl | enumValueDecl =>
    exact .silent (warn_within _ _)

theorem Visits.added {visits : List Visit} (isOf : before.IsOf job) (chain : Visits job visits before after)
    (known : ∀ site ∈ visits.map (·.site), Knows job site) :
    Added job before ((visits.map (·.site)).flatMap (symbolsOf job)) after := by
  induction chain with
  | nil => exact .refl isOf
  | @cons site rest before middle after visit others ih =>
    rw [map_cons, forall_mem_cons] at known
    have added := declaration_adds census acyclic known.1 _ _ _ isOf visit survives_ok
    exact added.trans (ih added.isOf known.2)

namespace Module

omit census acyclic

variable {draft : Draft}

theorem mem_prepared_classes {entry : String × Site} (listed : entry ∈ (prepared job).table.classes) :
    Knows job entry.2 ∧ entry.1 ∈ classNames entry.2 := by
  have inTree (listed : entry ∈ (ofTree job.root).classes) : Knows job entry.2 ∧ entry.1 ∈ classNames entry.2 :=
    (mem_classes_ofTree listed).imp_left .inl
  simp only [prepared] at listed
  cases own : ownRuntimeClass? job with
  | none =>
    rw [own] at listed
    exact inTree listed
  | some cls =>
    rw [own] at listed
    rcases mem_append.mp listed with listed | listed
    · exact inTree listed
    · obtain ⟨name, named, rfl⟩ := mem_map.mp listed
      exact ⟨.inr own, named⟩

theorem ownRuntimeClass_id (own : ownRuntimeClass? job = some cls) : cls.id = .runtime [] := by
  rw [ownRuntimeClass_eq own]
  rfl

theorem Knows.eq_of_id {one two : Site} (declared : job.root.id = .declared path) (known : Knows job one)
    (knownToo : Knows job two) (same : one.id = two.id) : one = two := by
  rcases known with member | own <;> rcases knownToo with memberToo | ownToo
  · exact Site.eq_of_mem_walk declared member memberToo same
  · obtain ⟨rest, id⟩ := Site.id_of_mem_walk declared member
    rw [id, ownRuntimeClass_id ownToo] at same
    cases same
  · obtain ⟨rest, id⟩ := Site.id_of_mem_walk declared memberToo
    rw [id, ownRuntimeClass_id own] at same
    cases same
  · rw [own] at ownToo
    exact Option.some.inj ownToo

theorem knows_census (declared : job.root.id = .declared path) :
    Census (prepared job).table (Knows job) fun _ => True where
  identifies _ _ known knownToo := Knows.eq_of_id declared known knownToo
  bases _ _ has := by
    obtain ⟨_, listed, rfl⟩ := HasBase.listed has
    exact (mem_prepared_classes listed).1
  members _ _ _ _ := trivial

theorem knows_of_visited {site : Site} (listed : site ∈ visited job) : Knows job site := by
  rcases mem_append.mp listed with own | emitted
  · exact .inr (by simpa using own)
  · exact .inl (Site.mem_walk_of_emitted emitted)

theorem prepared_isTidy (job : Job) : (prepared job).IsTidy job where
  filed _ listed := nomatch listed
  unbroken := rfl
  exact := .empty _ _ _

/-- A run that completes and finds no symbol taken adds the symbols of the declarations that it visits, in order. -/
theorem symbols_of_run (declared : job.root.id = .declared path) (acyclic : Acyclic (prepared job).table)
    (ran : run job = .ok draft) (untaken : draft.NoneTaken) :
    draft.symbols = (visited job).flatMap (symbolsOf job) := by
  obtain ⟨visits, chain, sites⟩ := exists_visits ran
  have known : ∀ site ∈ visits.map (·.site), Knows job site := by
    rw [sites]
    exact fun _ listed => knows_of_visited listed
  have added := chain.added (knows_census declared) acyclic ⟨rfl, rfl, rfl⟩ known
  rw [sites] at added
  exact (added.tidy untaken (prepared_isTidy job)).2

end Module

end FlatAbi
