import FlatAbi.Proofs.Emission.Symbols
import FlatAbi.Proofs.Facade.Brackets

/-!
What a run offers to be wrapped. All else that it does are plain moves, which touch no wrapper.
-/

namespace FlatAbi

open Emit FlatAbi.Module Wrapper Inheritance Facade Members Text

variable {job : Job} {before after draft : Draft} {site : Site} {c : Callable}

/-! ### Offers -/

variable {Offered : Option Site → Callable → Prop}

/-- The callables that the visit of a declaration wraps, each with the class that it is a member of. What a class offers
depends on the queries about inherited members that were made before. -/
inductive Module.Offers (job : Job) (site : Site) : Option Site → Callable → Prop where
  | function (isFunction : site.kind = .functionDecl) (free : site.decl.isFriend = false) :
      Offers job site none (freeCallable job site)
  | accessor {callables : List Callable} {c : Callable} (isVariable : site.kind = .variableDecl)
      (found : accessors (resolver job) (globalShape site) .globalSet = .ok callables) (listed : c ∈ callables) :
      Offers job site none c
  | member {asked flattened : Memo} {members : List Member} {c : Callable}
      (cxx : job.config.cplusplus) (isClass : site.kind = .classDecl) (writes : writesClass job site)
      (found : membersOf job site (isAbstract (prepared job).table asked site).1
        (flatten (prepared job).table flattened site).1 = .ok members)
      (listed : .callable c ∈ members) :
      Offers job site (some site) c

theorem Module.membersOf_eq_ok {abstract : Bool} {own : List Own} {shadows : List Shadow}
    {inherited : List Callable} (owned : Members.own (resolver job) site abstract = .ok own)
    (found : Members.inherited (resolver job) site shadows = .ok inherited) :
    membersOf job site abstract shadows = .ok (inOrder site abstract own inherited) := by
  unfold membersOf
  rw [owned, found]
  rfl

/-! ### Plain moves -/

/-- A move that belongs to no wrapper and to no member of a facade class. -/
def Move.Plain : Move → Prop
  | .append chunk => chunk.isWrapper = false ∧ chunk.isFacadeMember = false
  | .record symbol => symbol.kind ≠ .function
  | .tell _ | .learn _ => True
  | .name _ | .wrap .. => False

instance : Move.Booking Move.Plain where
  jot chunk minor outside := ⟨(by cases chunk <;> first | rfl | cases minor), outside⟩
  tell _ := trivial
  record _ other := other
  learn _ := trivial

theorem Move.plain_append {chunk : Chunk} (wrapper : chunk.isWrapper = false) (outside : chunk.isFacadeMember = false)
    (_ : chunk.bracket? = none) : Move.Plain (.append chunk) :=
  ⟨wrapper, outside⟩

/-- All that a run settles before its first visit. -/
structure Draft.IsSetFor (job : Job) (draft : Draft) : Prop extends draft.IsOf job where
  exceptions : draft.exceptions = (Module.prepared job).exceptions
  checked : draft.checked = (Module.prepared job).checked
  declaresOnce : draft.DeclaresOnce

theorem Draft.IsSetFor.step {move : Move} (settled : before.IsSetFor job) (moves : Step job move before after) :
    after.IsSetFor job := by
  have known := settled.declaresOnce.step moves
  obtain ⟨⟨table, freeFunctions, runtimeClass⟩, exceptions, checked, _⟩ := settled
  cases moves with
  | wrap object ends =>
    cases writeEnd_of_ends ends survives_ok with
    | published => exact ⟨⟨table, freeFunctions, runtimeClass⟩, exceptions, checked, known⟩
  | append | tell | record | name | learn => exact ⟨⟨table, freeFunctions, runtimeClass⟩, exceptions, checked, known⟩

theorem Draft.IsSetFor.goes {allowed : Move → Prop} (settled : before.IsSetFor job)
    (goes : Goes job allowed before after) : after.IsSetFor job :=
  goes.preserves (Draft.IsSetFor job) (fun _ moves settled => settled.step moves) settled

theorem Draft.IsSetFor.resolver_eq (settled : draft.IsSetFor job) :
    (⟨job.config, draft.table⟩ : Resolver) = Module.resolver job := by
  rw [settled.table]
  rfl

/-! ### Work that keeps a property -/

/-- Work that keeps a property of the drafts of a run, unless a fault ends it. -/
def Keeps {α : Type} (job : Job) (Kept : Draft → Prop) (work : Emit α) : Prop :=
  ∀ before outcome after, before.IsSetFor job → Ends work before outcome after → Survives outcome → Kept before →
    after.IsSetFor job ∧ Kept after

namespace Keeps

variable {α β : Type} {Kept : Draft → Prop} {work : Emit α} {items : List α}

theorem bind {next : α → Emit β} (first : Keeps job Kept work)
    (rest : ∀ {before value after}, before.IsSetFor job → Ends work before (.ok value) after →
      Keeps job Kept (next value)) : Keeps job Kept (work >>= next) := by
  intro before outcome after settled ends survives kept
  rcases ends.bind_survived survives with ⟨value, middle, began, ended⟩ | ⟨message, site, began, _⟩
  · obtain ⟨settledToo, keptToo⟩ := first _ _ _ settled began survives_ok kept
    exact rest settled began _ _ _ settledToo ended survives keptToo
  · exact first _ _ _ settled began survives_rejected kept

theorem forM {f : α → Emit PUnit} (done : Keeps job Kept (pure PUnit.unit))
    (each : ∀ item ∈ items, Keeps job Kept (f item)) : Keeps job Kept (items.forM f) := by
  induction items with
  | nil => exact done
  | cons item rest ih =>
    exact bind (each item (by simp)) fun _ _ => ih fun other member => each other (by simp [member])

theorem foldlM {f : β → α → Emit β} (Good : β → Prop) (done : ∀ state : β, Keeps job Kept (pure state))
    (returns : ∀ state item, Good state → Returns (f state item) Good)
    (each : ∀ state, Good state → ∀ item ∈ items, Keeps job Kept (f state item)) {start : β} (good : Good start) :
    Keeps job Kept (items.foldlM f start) := by
  induction items generalizing start with
  | nil => exact done start
  | cons item rest ih =>
    rw [List.foldlM_cons]
    refine bind (each start good item (by simp)) fun _ ended => ?_
    exact ih (fun state good other member => each state good other (by simp [member]))
      (returns start item good _ _ _ ended)

theorem recover {handler : Halt → Emit α} (first : Keeps job Kept work)
    (rejected : ∀ message site, Keeps job Kept (handler (.rejected message site)))
    (passed : ∀ cause, handler (.fault cause) = throw (.fault cause)) : Keeps job Kept (tryCatch work handler) := by
  intro before outcome after settled ends survives kept
  rcases ends.recover_cases passed survives with ⟨_, ended, rfl⟩ | ⟨message, site, middle, began, ended⟩
  · exact first _ _ _ settled ended survives_ok kept
  · obtain ⟨settledToo, keptToo⟩ := first _ _ _ settled began survives_rejected kept
    exact rejected message site _ _ _ settledToo ended survives keptToo

end Keeps

/-! ### Steady properties -/

/-- A property that plain moves keep, and that the wrapping of what is offered keeps. -/
structure Steady (job : Job) (Offered : Option Site → Callable → Prop) (Kept : Draft → Prop) : Prop where
  plain : ∀ {move : Move} {before after : Draft}, move.Plain → Step job move before after → before.IsSetFor job →
    Kept before → Kept after
  wrap : ∀ {opened : Option OpenClass} {c : Callable}, Offered (opened.map (·.site)) c →
    Keeps job Kept (Module.wrap job opened c)

namespace Steady

variable {Kept : Draft → Prop}

theorem keeps {α : Type} {work : Emit α} (steady : Steady job Offered Kept) (within : Within job Move.Plain work) :
    Keeps job Kept work := by
  intro before outcome after settled ends survives kept
  refine (within _ _ _ ends survives).preserves (fun draft => draft.IsSetFor job ∧ Kept draft) ?_ ⟨settled, kept⟩
  exact fun permitted moves ⟨settled, kept⟩ => ⟨settled.step moves, steady.plain permitted moves settled kept⟩

variable (steady : Steady job (Offers job site) Kept)

include steady

theorem guarded {work : Emit Unit} (keeps : Keeps job Kept work) : Keeps job Kept (Emit.guarded site work) :=
  .recover keeps (fun _ _ => steady.keeps (report_within _ _ _)) fun _ => rfl

theorem freeFunction (isFunction : site.kind = .functionDecl) : Keeps job Kept (Module.freeFunction job site) := by
  unfold Module.freeFunction
  cases friend : site.decl.isFriend with
  | true => exact steady.keeps .pure
  | false =>
    refine .bind (steady.keeps (check_within _)) fun _ _ => .bind (steady.keeps .get) fun settled got => ?_
    cases got
    rw [settled.freeFunctions]
    exact .bind (steady.wrap (.function isFunction friend)) fun _ _ => steady.keeps .pure

theorem globalVariable (isVariable : site.kind = .variableDecl) : Keeps job Kept (Module.globalVariable job site) := by
  refine .bind (steady.keeps (exportDirectly_within site)) fun {_ exported _} _ _ => ?_
  cases exported with
  | true => exact steady.keeps .pure
  | false =>
    refine .bind (steady.keeps .resolver) fun settled got => .bind (steady.keeps .lift) fun _ listed => ?_
    cases got
    obtain ⟨found, _⟩ := ends_lift_iff.mp listed
    rw [settled.resolver_eq] at found
    refine .forM (steady.keeps .pure) fun c member => ?_
    exact .bind (steady.wrap (.accessor isVariable found.symm member)) fun _ _ => steady.keeps .pure

theorem classMember {opened : OpenClass} {m : Member}
    (offered : ∀ c, m = .callable c → Offers job site (some opened.site) c) :
    Keeps job Kept (Module.classMember job opened m) := by
  cases m with
  | callable c =>
    refine .recover ?_ (fun _ _ => steady.keeps (.bind (report_within _ _ _) fun _ => .pure)) fun _ => rfl
    exact .bind (steady.wrap (offered c rfl)) fun _ _ => steady.keeps .pure
  | enumeration found =>
    have plain : Within job Move.Plain (Enumeration.write job found (some opened)) :=
      enumeration_within_of (fun _ => Move.plain_append) found _
    exact steady.keeps (.bind (guarded_within (.bind plain fun _ => .pure) fun _ => trivial) fun _ => .pure)
  | constant found =>
    exact steady.keeps (.bind (guarded_within (constant_within found) fun _ => trivial) fun _ => .pure)

theorem cxxClass (cxx : job.config.cplusplus) (isClass : site.kind = .classDecl)
    (writes : Module.writesClass job site) : Keeps job Kept (Module.cxxClass job site) := by
  -- The chain follows the emission; of its values only those that decide on the members matter.
  have opens : Within job Move.Plain (openClass job site) :=
    openClass_within_of (fun _ => ⟨rfl, rfl⟩) (fun _ _ => ⟨rfl, rfl⟩) site
  have asks : Within job Move.Plain (inherit fun table memo => isAbstract table memo site) :=
    inherit_within fun table memo => isAbstract_keeps table memo site
  have flattens : Within job Move.Plain (inherit fun table memo => flatten table memo site) :=
    inherit_within fun table memo => flatten_keeps table memo site
  refine .bind (steady.keeps (check_within _)) fun _ _ => .bind (steady.keeps (.append ⟨rfl, rfl⟩ rfl)) fun _ _ => ?_
  refine .bind (steady.keeps (.record (by intro impossible; cases impossible))) fun _ _ => ?_
  refine .bind (steady.keeps opens) fun _ opening => .bind (steady.keeps asks) fun settled asking => ?_
  refine .bind (steady.keeps .resolver) fun settledToo got => .bind (steady.keeps .lift) fun _ owning => ?_
  refine .bind (steady.keeps flattens) fun settledAgain flattening => .bind (steady.keeps .lift) fun _ inheriting => ?_
  refine .bind (steady.keeps (unsupported_within site _)) fun _ _ => .bind (steady.keeps (check_within _)) fun _ _ => ?_
  obtain ⟨opened, same, ofSite, _⟩ := ends_openClass opening survives_ok
  obtain ⟨asked, _⟩ := ends_inherit asking survives_ok
  obtain ⟨flattened, _⟩ := ends_inherit flattening survives_ok
  obtain ⟨owned, _⟩ := ends_lift_iff.mp owning
  obtain ⟨inherited, _⟩ := ends_lift_iff.mp inheriting
  cases same
  cases got
  cases asked
  cases flattened
  rw [settledToo.resolver_eq, settled.table] at owned
  rw [settledToo.resolver_eq, settledAgain.table] at inherited
  have closes (finished : OpenClass) : Within job Move.Plain (closeClass job finished) :=
    closeClass_within_of (fun _ => ⟨rfl, rfl⟩) finished
  refine .bind (.foldlM (fun state => state.site = site) (fun _ => steady.keeps .pure) ?_ ?_ ofSite)
    fun _ _ => steady.keeps (.bind (closes _) fun _ => .pure)
  · intro state m good before found after ended
    exact (classMember_returns state m _ _ _ ended).1.trans good
  · intro state good m listed
    refine steady.classMember fun c same => ?_
    subst same
    rw [good]
    rw [settled.table] at listed
    exact .member cxx isClass writes (membersOf_eq_ok owned.symm inherited.symm) listed

theorem classDecl (isClass : site.kind = .classDecl) : Keeps job Kept (Module.classDecl job site) := by
  refine .bind (steady.keeps .get) fun settled got => ?_
  cases got
  rw [settled.runtimeClass]
  change Keeps job Kept (if isForeign job site then _ else _)
  cases foreign : isForeign job site with
  | true => exact steady.keeps .pure
  | false =>
    cases cxx : job.config.cplusplus with
    | false => exact steady.keeps (struct_within_of (fun _ => Move.plain_append) site)
    | true =>
      cases member : site.isMember with
      | true => exact steady.keeps (.bind (check_within _) fun _ => warn_within _ _)
      | false => exact steady.cxxClass cxx isClass (by simp [Module.writesClass, foreign, member])

theorem declaration : Keeps job Kept (Module.declaration job site) := by
  unfold Module.declaration
  cases kind : site.kind with
  | importDecl => exact steady.keeps (importDecl_within site)
  | insertDecl => exact steady.keeps (insertDecl_within site)
  | classDecl => exact steady.guarded (steady.classDecl kind)
  | functionDecl => exact steady.guarded (steady.freeFunction kind)
  | variableDecl => exact steady.guarded (steady.globalVariable kind)
  | enumDecl =>
    have plain : Within job Move.Plain (Enumeration.write job site none) :=
      enumeration_within_of (fun _ => Move.plain_append) site none
    exact steady.guarded (steady.keeps (.bind plain fun _ => .pure))
  | constantDecl => exact steady.guarded (steady.keeps (constant_within site))
  | typedefDecl => exact steady.keeps .pure
  | includeDecl | namespaceDecl | moduleDecl | constructorDecl | destructorDecl | enumValueDecl =>
    exact steady.keeps (warn_within _ _)

end Steady

/-! ### Wrapping -/

/-- All that wrapping a callable can come to, faults apart. The facade member is added last. -/
inductive Wrapping (job : Job) (opened : Option OpenClass) (c : Callable) (before : Draft) : Draft → Prop where
  | refused {warning : String} (invalid : isSymbolName c.symName = false) :
      Wrapping job opened c before (warnedIn c.site warning before)
  | wrote {outcome : Except Halt (Option Written)} {after : Draft} (valid : isSymbolName c.symName)
      (ends : Ends (Wrapper.write job c) before outcome after) (survives : Survives outcome) :
      Wrapping job opened c before after
  | added {cls : OpenClass} {written : Written} {outcome : Except Halt OpenClass}
      {middle after : Draft} (valid : isSymbolName c.symName) (isOpened : opened = some cls)
      (ends : Ends (Wrapper.write job c) before (.ok (some written)) middle)
      (adds : Ends (addMember job cls written) middle outcome after) (survives : Survives outcome) :
      Wrapping job opened c before after

theorem wrapping_of_ends {opened : Option OpenClass} {outcome : Except Halt (Option OpenClass)}
    (ends : Ends (Module.wrap job opened c) before outcome after) (survives : Survives outcome) :
    Wrapping job opened c before after := by
  obtain ⟨_, ends⟩ := ends.check_bind survives
  cases valid : isSymbolName c.symName with
  | false =>
    rw [valid] at ends
    replace ends := ends_warn_bind.mp ends
    obtain ⟨_, rfl⟩ := ends.of_pure
    exact .refused valid
  | true =>
    rw [valid] at ends
    rcases ends.bind_survived survives with ⟨found, middle, wrote, ended⟩ | ⟨message, site, wrote, _⟩
    · cases found with
      | none =>
        obtain ⟨_, rfl⟩ := ended.of_pure
        exact .wrote valid wrote survives_ok
      | some written =>
        cases opened with
        | none =>
          obtain ⟨_, rfl⟩ := ended.of_pure
          exact .wrote valid wrote survives_ok
        | some cls =>
          rcases ended.bind_survived survives with ⟨_, _, adds, ended⟩ | ⟨_, _, adds, _⟩
          · obtain ⟨_, rfl⟩ := ended.of_pure
            exact .added valid rfl wrote adds survives_ok
          · exact .added valid rfl wrote adds survives_rejected
    · exact .wrote valid wrote survives_rejected

theorem step_warnedIn (job : Job) (site : Site) (warning : String) (draft : Draft) :
    Step job (.tell (.diagnosed (.about .warning (some site) warning))) draft (warnedIn site warning draft) :=
  .tell draft _

theorem write_isSetFor {outcome : Except Halt (Option Written)} (settled : before.IsSetFor job)
    (ends : Ends (Wrapper.write job c) before outcome after) (survives : Survives outcome) : after.IsSetFor job := by
  obtain ⟨⟨table, freeFunctions, runtimeClass⟩, exceptions, checked, known⟩ := settled
  cases writeEnd_of_ends ends survives with
  | published => exact ⟨⟨table, freeFunctions, runtimeClass⟩, exceptions, checked, known.published _ _ _⟩
  | unconverted | taken | rejected =>
    exact ⟨⟨table, freeFunctions, runtimeClass⟩, exceptions, checked, known.mirrored, known.once⟩

/-- A move that neither records a function nor files a name. -/
def Move.Unfiled : Move → Prop
  | .record symbol => symbol.kind ≠ .function
  | .append _ | .tell _ | .learn _ => True
  | .name _ | .wrap .. => False

instance : Move.Noting Move.Unfiled where
  append _ _ := trivial
  tell _ := trivial

theorem Move.Plain.unfiled {move : Move} (plain : move.Plain) : move.Unfiled := by
  cases move with
  | record => exact plain
  | append | tell | learn => trivial
  | name | wrap => exact plain.elim

/-- A property of symbols and names on file is steady as soon as writing what is offered keeps it. -/
theorem Steady.of_write {Kept : Draft → Prop}
    (unfiled : ∀ {move : Move} {before after : Draft}, move.Unfiled → Step job move before after → Kept before →
      Kept after) (write : ∀ {owner : Option Site} {c : Callable} {outcome : Except Halt (Option Written)}
      {before after : Draft}, Offered owner c → isSymbolName c.symName → before.IsSetFor job →
      Ends (Wrapper.write job c) before outcome after → Survives outcome → Kept before → Kept after) :
    Steady job Offered Kept where
  plain permitted moves _ := unfiled permitted.unfiled moves
  wrap := by
    intro opened c offered before outcome after settled ends survives kept
    cases wrapping_of_ends ends survives with
    | @refused warning invalid =>
      have told := step_warnedIn job c.site warning before
      refine ⟨settled.step told, unfiled ?_ told kept⟩
      trivial
    | wrote valid wrote survives =>
      exact ⟨write_isSetFor settled wrote survives, write offered valid settled wrote survives kept⟩
    | added valid isOpened wrote adds survives =>
      have goes : Goes job Move.Unfiled _ after := (addMember_within _ _).goes adds survives
      exact ⟨(write_isSetFor settled wrote survives_ok).goes goes,
        goes.preserves Kept unfiled (write offered valid settled wrote survives_ok kept)⟩

/-! ### Visits and runs -/

theorem Visits.keeps {Kept : Draft → Prop} {visits : List Visit} (settled : before.IsSetFor job)
    (chain : Visits job visits before after)
    (steady : ∀ site ∈ visits.map (·.site), Steady job (Offers job site) Kept) (kept : Kept before) :
    after.IsSetFor job ∧ Kept after := by
  induction chain with
  | nil => exact ⟨settled, kept⟩
  | cons visit _ ih =>
    rw [List.map_cons, List.forall_mem_cons] at steady
    obtain ⟨settledToo, keptToo⟩ := steady.1.declaration _ _ _ settled visit survives_ok kept
    exact ih settledToo steady.2 keptToo

theorem Module.prepared_isSetFor (job : Job) : (prepared job).IsSetFor job :=
  ⟨⟨rfl, rfl, rfl⟩, rfl, rfl, prepared_declaresOnce job⟩

/-- What is steady under all that a run offers holds after the run if it holds before its first visit. -/
theorem Module.kept_of_run {Kept : Draft → Prop} (steady : ∀ site ∈ visited job, Steady job (Offers job site) Kept)
    (ran : run job = .ok draft) (start : Kept (prepared job)) : Kept draft := by
  obtain ⟨visits, chain, sites⟩ := exists_visits ran
  exact (chain.keeps (prepared_isSetFor job) (by rwa [sites]) start).2

end FlatAbi
