import FlatAbi.Proofs.Naming.Book
import FlatAbi.Proofs.Naming.Keys

/-!
What names a run asks for: a visit asks for symbols of callables that it offers, in order and each at most once.
-/

namespace FlatAbi

open Emit Inheritance Move List Facade Members Naming Text

variable {job : Job} {before middle after : Draft} {c : Callable} {site : Site}

/-! ### The members of known classes -/

variable {codes : List String} {first rest : List NameCall} {symbol : String} {parameters : List TypedParameter}

namespace Module

variable {path : List Nat}

/-- A child of a class that a run can come to. -/
def IsMember (job : Job) (site : Site) : Prop :=
  ∃ cls, Knows job cls ∧ site ∈ cls.children

theorem IsMember.cases (member : IsMember job site) :
    site ∈ job.root.walk ∨ site ∈ (runtimeClass job.root).children := by
  obtain ⟨cls, walked | own, listed⟩ := member
  · exact .inl (Site.child_mem_walk walked listed)
  · rw [ownRuntimeClass_eq own] at listed
    exact .inr listed

theorem Knows.children_ids_nodup (declared : job.root.id = .declared path) (known : Knows job site) :
    (site.children.map (·.id)).Nodup := by
  rcases known with walked | own
  · exact Site.children_ids_nodup_of_mem_walk declared walked
  · refine Site.children_ids_nodup fun i j same => ?_
    rw [ownRuntimeClass_id own] at same
    simpa [NodeId.child] using same

theorem IsMember.eq_of_id {other : Site} (declared : job.root.id = .declared path) (member : IsMember job site)
    (otherMember : IsMember job other) (same : site.id = other.id) : site = other := by
  have runtimeId {child : Site} (listed : child ∈ (runtimeClass job.root).children) : ∃ i, child.id = .runtime [i] := by
    obtain ⟨_, position, _, id⟩ := Site.mem_childrenFrom listed
    exact ⟨position, id⟩
  rcases member.cases with walked | runtime <;> rcases otherMember.cases with walkedToo | runtimeToo
  · exact Site.eq_of_mem_walk declared walked walkedToo same
  · obtain ⟨rest, id⟩ := Site.id_of_mem_walk declared walked
    obtain ⟨i, otherId⟩ := runtimeId runtimeToo
    rw [id, otherId] at same
    cases same
  · obtain ⟨rest, otherId⟩ := Site.id_of_mem_walk declared walkedToo
    obtain ⟨i, id⟩ := runtimeId runtime
    rw [id, otherId] at same
    cases same
  · refine inj_on_of_nodup_map (Site.children_ids_nodup fun i j same => ?_) runtime runtimeToo same
    simpa [runtimeClass, NodeId.child] using same

theorem census (declared : job.root.id = .declared path) : Census (prepared job).table (Knows job) (IsMember job) where
  identifies _ _ known knownToo same := Knows.eq_of_id declared known knownToo same
  bases cls base usable := by
    obtain ⟨entry, listed, rfl⟩ := HasBase.listed usable
    exact (mem_prepared_classes listed).1
  members cls known child listed := ⟨cls, known, listed⟩

end Module

/-! ### Notes -/

/-- A move that files no name, learns nothing, and records no functions but those that are listed. -/
def Move.Notes (published : List Symbol) : Move → Prop
  | .append _ | .tell _ => True
  | .record s => s.kind = .function → s ∈ published
  | .name _ | .learn _ | .wrap .. => False

instance (published : List Symbol) : Noting (Notes published) where
  append _ _ := trivial
  tell _ := trivial

instance (published : List Symbol) : Recording (Notes published) where
  record _ other function := absurd function other

/-- The draft of a run with nothing but possible answers about inherited members. -/
structure Draft.IsFit (job : Job) (draft : Draft) : Prop extends draft.IsOf job where
  memo : draft.memo.Inherits (Module.Knows job) (Module.IsMember job)

/-- What notes leave as it is. -/
structure Noted (published : List Symbol) (before after : Draft) : Prop where
  names : after.names = before.names
  functions : ∀ s ∈ after.symbols, s.kind = .function → s ∈ before.symbols ∨ s ∈ published
  fit : ∀ {job : Job}, before.IsFit job → after.IsFit job

variable {published : List Symbol}

theorem Goes.noted (goes : Goes job (Notes published) before after) : Noted published before after := by
  refine goes.preserves (Noted published before) (fun {move middle after} permitted moves noted => ?_)
    ⟨rfl, fun s listed _ => .inl listed, id⟩
  have fit {job : Job} (start : before.IsFit job) : after.IsFit job := by
    obtain ⟨⟨table, freeFunctions, runtimeClass⟩, memo⟩ := noted.fit start
    cases moves with
    | append | tell | record => exact ⟨⟨table, freeFunctions, runtimeClass⟩, memo⟩
    | name | learn | wrap => exact permitted.elim
  cases moves with
  | append | tell => exact ⟨noted.names, noted.functions, fit⟩
  | record _ symbol =>
    refine ⟨noted.names, fun s listed function => ?_, fit⟩
    rcases mem_append.mp listed with earlier | last
    · exact noted.functions s earlier function
    · obtain rfl := mem_singleton.mp last
      exact .inr (permitted function)
  | name | learn | wrap => exact permitted.elim

theorem Noted.refl (draft : Draft) : Noted [] draft draft :=
  ⟨rfl, fun _ listed _ => .inl listed, id⟩

theorem Noted.trans (began : Noted [] before middle) (ended : Noted published middle after) :
    Noted published before after where
  names := ended.names.trans began.names
  functions s listed function := by
    rcases ended.functions s listed function with earlier | new
    · exact .inl ((began.functions s earlier function).resolve_right not_mem_nil)
    · exact .inr new
  fit start := ended.fit (began.fit start)

/-! ### Calls -/

/-- A call for the symbol of a callable, with the codes of its parameters. -/
structure NameCall where
  callable : Callable
  codes : List String

def NameBook.file (config : Config) (book : NameBook) (call : NameCall) : NameBook :=
  (book.name config call.callable call.codes).2

theorem NameBook.mem_file {config : Config} {book : NameBook} {entry : NameKey × String} (calls : List NameCall)
    (listed : entry ∈ book) : entry ∈ calls.foldl (NameBook.file config) book := by
  induction calls generalizing book with
  | nil => exact listed
  | cons call rest ih => exact ih (mem_cons_of_mem _ listed)

/-- Some calls are all that was asked for, and the functions that were recorded have the symbols that were given. -/
structure Asked (job : Job) (before : Draft) (calls : List NameCall) (after : Draft) : Prop where
  names : after.names = calls.foldl (NameBook.file job.config) before.names
  functions : ∀ s ∈ after.symbols, s.kind = .function → s ∈ before.symbols ∨
    ∃ call ∈ calls, ∃ name, (call.callable.key, name) ∈ after.names ∧
      s = symbolOf .function (.string name) call.callable.site

theorem Asked.trans (began : Asked job before first middle) (ended : Asked job middle rest after) :
    Asked job before (first ++ rest) after where
  names := by rw [ended.names, began.names, foldl_append]
  functions s listed function := by
    rcases ended.functions s listed function with earlier | ⟨call, asked, name, given, same⟩
    · rcases began.functions s earlier function with earliest | ⟨call, asked, name, given, same⟩
      · exact .inl earliest
      · refine .inr ⟨call, mem_append_left _ asked, name, ?_, same⟩
        rw [ended.names]
        exact NameBook.mem_file rest given
    · exact .inr ⟨call, mem_append_right _ asked, name, given, same⟩

theorem Noted.asked (noted : Noted [] before after) : Asked job before [] after :=
  ⟨noted.names, fun s listed function => .inl ((noted.functions s listed function).resolve_right not_mem_nil)⟩

theorem Noted.asked_one
    (noted : Noted published { before with names := (before.names.name job.config c codes).2 } after)
    (named : ∀ s ∈ published, s = symbolOf .function (.string (before.names.name job.config c codes).1) c.site) :
    Asked job before [⟨c, codes⟩] after := by
  refine ⟨noted.names, fun s listed function => ?_⟩
  rcases noted.functions s listed function with earlier | new
  · exact .inl earlier
  · refine .inr ⟨⟨c, codes⟩, mem_singleton_self _, _, ?_, named s new⟩
    rw [noted.names]
    exact mem_cons_self

/-- Work whose calls are fair, whatever way it ends. -/
def Asks {α : Type} (job : Job) (Fair : List NameCall → Prop) (work : Emit α) : Prop :=
  ∀ before outcome after, before.IsFit job → Ends work before outcome after →
    ∃ calls, Fair calls ∧ Asked job before calls after ∧ (Survives outcome → after.IsFit job)

/-- A call for a callable that C can have a wrapper for. -/
structure NameCall.IsValid (job : Job) (call : NameCall) : Prop where
  valid : isSymbolName call.callable.symName
  filed : call.callable.symbol.atom?.isSome
  coded : Wrapper.codes? job (Module.resolver job) call.callable = some call.codes

/-- Calls for some callables of a list, in order and each at most once. -/
def Among (job : Job) (offered : List Callable) (calls : List NameCall) : Prop :=
  (calls.map (·.callable)).Sublist offered ∧ ∀ call ∈ calls, call.IsValid job

theorem Among.nil (offered : List Callable) : Among job offered [] :=
  ⟨nil_sublist _, forall_mem_nil _⟩

theorem Among.append {one two : List Callable} (began : Among job one first) (ended : Among job two rest) :
    Among job (one ++ two) (first ++ rest) := by
  refine ⟨?_, forall_mem_append.mpr ⟨began.2, ended.2⟩⟩
  rw [map_append]
  exact began.1.append ended.1

namespace Asks

variable {α β : Type} {Fair Fairer : List NameCall → Prop} {work : Emit α} {next : α → Emit β} {items : List α}
  {offered : α → List Callable}

theorem mono (implies : ∀ calls, Fair calls → Fairer calls) (asks : Asks job Fair work) : Asks job Fairer work := by
  intro before outcome after fit ends
  obtain ⟨calls, fair, rest⟩ := asks before outcome after fit ends
  exact ⟨calls, implies calls fair, rest⟩

theorem quiet (empty : Fair []) (notes : GoesWithin true job (Notes []) work) : Asks job Fair work := by
  intro before outcome after fit ends
  have noted := (notes.goes_always ends).noted
  exact ⟨[], empty, noted.asked, fun _ => noted.fit fit⟩

/-- What follows may rely on how the value came about. -/
theorem bind {First Rest : List NameCall → Prop} (first : Asks job First work)
    (rest : ∀ {before value after}, before.IsFit job → Ends work before (.ok value) after → Asks job Rest (next value))
    (empty : Rest []) (both : ∀ {one two}, First one → Rest two → Fair (one ++ two)) :
    Asks job Fair (work >>= next) := by
  intro before outcome after fit ends
  rcases ends.bind_cases with ⟨value, middle, began, ended⟩ | ⟨halt, began, rfl⟩
  · obtain ⟨calls, fair, asked, keeps⟩ := first before _ middle fit began
    obtain ⟨more, fairToo, askedToo, keepsToo⟩ := rest fit began middle outcome after (keeps survives_ok) ended
    exact ⟨calls ++ more, both fair fairToo, asked.trans askedToo, keepsToo⟩
  · obtain ⟨calls, fair, asked, keeps⟩ := first before _ after fit began
    have alone := both fair empty
    rw [append_nil] at alone
    exact ⟨calls, alone, asked, fun survives => keeps survives.of_error⟩

theorem after_notes (empty : Fair []) (first : GoesWithin true job (Notes []) work)
    (rest : ∀ {before value after}, before.IsFit job → Ends work before (.ok value) after →
      Asks job Fair (next value)) :
    Asks job Fair (work >>= next) := by
  refine bind (quiet (rfl : ([] : List NameCall) = []) first) rest empty ?_
  rintro _ _ rfl fair
  exact fair

theorem then_notes (first : Asks job Fair work) (rest : ∀ value, GoesWithin true job (Notes []) (next value)) :
    Asks job Fair (work >>= next) := by
  refine bind first (fun _ _ => quiet (rfl : ([] : List NameCall) = []) (rest _)) rfl ?_
  rintro one _ fair rfl
  rwa [append_nil]

theorem forM {f : α → Emit PUnit} (each : ∀ item ∈ items, Asks job (Among job (offered item)) (f item)) :
    Asks job (Among job (items.flatMap offered)) (items.forM f) := by
  induction items with
  | nil => exact quiet (.nil _) .pure
  | cons item rest ih =>
    rw [flatMap_cons]
    have later := ih fun other member => each other (by simp [member])
    exact bind (each item (by simp)) (fun _ _ => later) (.nil _) Among.append

theorem foldlM {f : β → α → Emit β} (each : ∀ state, ∀ item ∈ items, Asks job (Among job (offered item)) (f state item))
    (start : β) :
    Asks job (Among job (items.flatMap offered)) (items.foldlM f start) := by
  induction items generalizing start with
  | nil => exact quiet (.nil _) .pure
  | cons item rest ih =>
    rw [foldlM_cons, flatMap_cons]
    have later := ih fun state other member => each state other (by simp [member])
    exact bind (each start item (by simp)) (fun _ _ => later _) (.nil _) Among.append

theorem recover {handler : Halt → Emit α} (first : Asks job Fair work)
    (rejected : ∀ message site, GoesWithin true job (Notes []) (handler (.rejected message site)))
    (passed : ∀ cause, handler (.fault cause) = throw (.fault cause)) : Asks job Fair (tryCatch work handler) := by
  intro before outcome after fit ends
  rcases ends.tryCatch_cases with ⟨value, ended, rfl⟩ | ⟨halt, middle, began, ended⟩
  · exact first before _ after fit ended
  · obtain ⟨calls, fair, asked, keeps⟩ := first before _ middle fit began
    cases halt with
    | rejected message site =>
      have noted := ((rejected message site).goes_always ended).noted
      have both := asked.trans (noted.asked : Asked job middle [] after)
      rw [append_nil] at both
      exact ⟨calls, fair, both, fun _ => noted.fit (keeps survives_rejected)⟩
    | fault cause =>
      rw [passed] at ended
      obtain ⟨rfl, rfl⟩ := ends_throw_iff.mp ended
      exact ⟨calls, fair, asked, fun impossible => impossible.elim⟩

theorem guarded {work : Emit Unit} (first : Asks job Fair work) : Asks job Fair (guarded site work) :=
  recover first (fun _ _ => report_within _ _ _) fun _ => rfl

theorem resolver_bind {next : Resolver → Emit β} (rest : Asks job Fair (next (Module.resolver job))) :
    Asks job Fair (resolver job >>= next) := by
  intro before outcome after fit ends
  rw [ends_resolver_bind, fit.table] at ends
  exact rest before outcome after fit ends

theorem get_bind {next : Draft → Emit β} (rest : ∀ draft, draft.IsFit job → Asks job Fair (next draft)) :
    Asks job Fair (get >>= next) := by
  intro before outcome after fit ends
  rw [ends_get_bind] at ends
  exact rest before fit before outcome after fit ends

theorem lift_bind {result : Except Halt α} (empty : Fair [])
    (rest : ∀ value, result = .ok value → Asks job Fair (next value)) : Asks job Fair (lift result >>= next) := by
  refine after_notes empty .lift fun _ ended => rest _ ?_
  exact (ends_lift_iff.mp ended).1.symm

theorem inherit_bind {query : SymbolTable → Memo → α × Memo} (empty : Fair [])
    (keeps : ∀ draft : Draft, draft.IsFit job →
      (query (Module.prepared job).table draft.memo).2.Inherits (Module.Knows job) (Module.IsMember job))
    (rest : ∀ draft : Draft, draft.IsFit job → Asks job Fair (next (query (Module.prepared job).table draft.memo).1)) :
    Asks job Fair (inherit query >>= next) := by
  intro before outcome after fit ends
  rcases ends.bind_cases with ⟨value, middle, began, ended⟩ | ⟨halt, began, rfl⟩
  · obtain ⟨answer, learned⟩ := ends_inherit began survives_ok
    rw [fit.table] at answer learned
    cases answer
    have isFit : middle.IsFit job := by
      rw [learned]
      exact ⟨⟨rfl, fit.freeFunctions, fit.runtimeClass⟩, keeps before fit⟩
    obtain ⟨calls, fair, asked, keepsToo⟩ := rest before fit middle outcome after isFit ended
    rw [learned] at asked
    exact ⟨calls, fair, ⟨asked.names, asked.functions⟩, keepsToo⟩
  · refine ⟨[], empty, ?_, fun survives => ?_⟩
    · obtain ⟨_, rfl⟩ := (ends_iff_of_run (run_inherit query before)).mp began
      exact ⟨rfl, fun s listed _ => .inl listed⟩
    · cases (ends_inherit began survives.of_error).1

end Asks

/-! ### Wrappers -/

namespace Wrapper

theorem publish_notes {definition : Definition} {prototype : Signature} (named : definition.signature.symbol = symbol) :
    GoesWithin true job (Notes [symbolOf .function (.string symbol) c.site]) (publish definition prototype c) := by
  refine .bind (.append trivial rfl) fun _ => .bind (.append trivial rfl) fun _ => .record fun _ => ?_
  rw [named]
  exact mem_singleton_self _

theorem writeConverted_notes {r : Resolver} {p : Plan} :
    GoesWithin true job (Notes [symbolOf .function (.string symbol) p.callable.site])
      (writeConverted job r p symbol) := by
  refine .lift_bind fun implementation implemented => .bind .lift fun _ => ?_
  refine .bind (.forM fun _ _ => .bind (check_within _) fun _ => require_within _) fun _ => ?_
  exact .bind .get fun _ => .bind .lift fun _ => .bind (publish_notes (signature_symbol implemented)) fun _ =>
    .bind (.tell trivial) fun _ => .pure

theorem ends_reserveSymbol_cases {outcome : Except Halt (Option String)}
    (ends : Ends (reserveSymbol job c codes) before outcome after) :
    (∃ halt, outcome = .error halt) ∧ after = before ∨
      checkWrapperName c = .ok () ∧ Noted [] { before with names := (before.names.name job.config c codes).2 } after ∧
        ∀ symbol, outcome = .ok (some symbol) → symbol = (before.names.name job.config c codes).1 := by
  rcases ends.bind_cases with ⟨_, _, checked, rest⟩ | ⟨halt, checked, rfl⟩
  · obtain ⟨passed, same⟩ := ends_lift_iff.mp checked
    rw [same] at rest
    refine .inr ⟨mapError_eq_ok_iff.mp passed.symm, ?_⟩
    rw [ends_get_bind] at rest
    change Ends (set { before with names := (before.names.name job.config c codes).2 } >>= fun _ =>
      if before.isDefined (before.names.name job.config c codes).1 then _ else _) before outcome after at rest
    rw [ends_set_bind] at rest
    split at rest
    · have goes : Goes job (Notes []) _ after :=
        (GoesWithin.bind (check_within _) fun _ => .bind (warn_within _ _) fun _ => .pure).goes_always rest
      refine ⟨goes.noted, fun symbol named => ?_⟩
      subst named
      obtain ⟨_, rest⟩ := rest.check_bind survives_ok
      rw [ends_warn_bind] at rest
      cases (rest.of_pure).1
    · obtain ⟨rfl, rfl⟩ := rest.of_pure
      refine ⟨.refl _, fun symbol named => ?_⟩
      cases named
      rfl
  · obtain ⟨_, rfl⟩ := ends_lift_iff.mp checked
    exact .inl ⟨⟨halt, rfl⟩, rfl⟩

theorem atom?_of_checkWrapperName (checked : checkWrapperName c = .ok ()) : c.symbol.atom?.isSome := by
  obtain ⟨_, keyed, _⟩ := bind_eq_ok checked
  unfold Value.checkKey at keyed
  split at keyed
  next isSome => exact isSome
  · cases keyed

section

variable (valid : isSymbolName c.symName)

include valid

theorem reserveSymbol_asks {β : Type} {next : Option String → Emit β}
    (coded : codes? job (Module.resolver job) c = some codes) (absent : GoesWithin true job (Notes []) (next none))
    (present : ∀ symbol,
      GoesWithin true job (Notes [symbolOf .function (.string symbol) c.site]) (next (some symbol))) :
    Asks job (Among job [c]) (reserveSymbol job c codes >>= next) := by
  intro before outcome after fit ends
  have filed : { before with names := (before.names.name job.config c codes).2 }.IsFit job :=
    ⟨⟨fit.table, fit.freeFunctions, fit.runtimeClass⟩, fit.memo⟩
  have among (checked : checkWrapperName c = .ok ()) : Among job [c] [⟨c, codes⟩] :=
    ⟨.refl _, forall_mem_singleton.mpr ⟨valid, atom?_of_checkWrapperName checked, coded⟩⟩
  rcases ends.bind_cases with ⟨symbol, middle, reserved, ended⟩ | ⟨halt, reserved, rfl⟩
  · rcases ends_reserveSymbol_cases reserved with ⟨⟨halt, impossible⟩, _⟩ | ⟨checked, noted, named⟩
    · cases impossible
    · cases symbol with
      | none =>
        have both := noted.trans (absent.goes_always ended).noted
        exact ⟨_, among checked, both.asked_one (forall_mem_nil _), fun _ => both.fit filed⟩
      | some symbol =>
        have both := noted.trans ((present symbol).goes_always ended).noted
        rw [named symbol rfl] at both
        exact ⟨_, among checked, both.asked_one (forall_mem_singleton.mpr rfl), fun _ => both.fit filed⟩
  · rcases ends_reserveSymbol_cases reserved with ⟨_, rfl⟩ | ⟨checked, noted, _⟩
    · exact ⟨[], .nil _, (Noted.refl _).asked, fun _ => fit⟩
    · exact ⟨_, among checked, noted.asked_one (forall_mem_nil _), fun _ => noted.fit filed⟩

theorem convert_asks (cxx : job.config.cplusplus) (typed : typedParameters c = .ok parameters) :
    Asks job (Among job [c]) (convert job c parameters) := by
  apply Asks.resolver_bind
  cases planned : plan job (Module.resolver job) c parameters with
  | error stop =>
    cases stop with
    | skipped warning => exact .quiet (.nil _) (.bind (warn_within _ _) fun _ => .pure)
    | halted halt => exact .quiet (.nil _) .throw
  | ok p =>
    have coded : codes? job (Module.resolver job) c = some p.codes := by
      simp [codes?, typed, cxx, planned, Except.toOption]
    obtain ⟨same, _⟩ := plan_eq_ok planned
    refine reserveSymbol_asks valid coded .pure fun symbol => ?_
    rw [← same]
    exact .bind writeConverted_notes fun _ => .pure

theorem direct_asks (plain : job.config.cplusplus = false) (typed : typedParameters c = .ok parameters) :
    Asks job (Among job [c]) (direct job c parameters) := by
  have coded : codes? job (Module.resolver job) c = some [] := by simp [codes?, typed, plain, Except.toOption]
  refine Asks.resolver_bind (reserveSymbol_asks valid coded .pure fun symbol => ?_)
  exact .bind (check_within _) fun _ => .bind (require_within _) fun _ => .bind .lift fun _ =>
    .bind (publish_notes rfl) fun _ => .pure

theorem write_asks : Asks job (Among job [c]) (write job c) := by
  refine .lift_bind (.nil _) fun parameters typed => ?_
  cases cxx : job.config.cplusplus with
  | true => exact convert_asks valid cxx typed
  | false => exact direct_asks valid cxx typed

end

end Wrapper

theorem wrap_asks (opened : Option OpenClass) (c : Callable) : Asks job (Among job [c]) (Module.wrap job opened c) := by
  refine .after_notes (.nil _) (check_within _) fun _ _ => ?_
  cases valid : isSymbolName c.symName with
  | false => exact .quiet (.nil _) (.bind (warn_within _ _) fun _ => .pure)
  | true =>
    refine .then_notes (Wrapper.write_asks valid) fun written => ?_
    split
    · exact .bind (addMember_within _ _) fun _ => .pure
    · exact .pure

/-! ### Declarations -/

namespace Module

/-- Calls for callables that a declaration offers, no two of which are filed under one key. -/
def IsFairAt (job : Job) (site : Site) (calls : List NameCall) : Prop :=
  ∃ offered, Among job offered calls ∧ offered.Pairwise Callable.Apart ∧ ∀ c ∈ offered, ∃ owner, Offers job site owner c

theorem IsFairAt.nil : IsFairAt job site [] :=
  ⟨[], .nil _, .nil, forall_mem_nil _⟩

theorem freeFunction_asks (isFunction : site.kind = .functionDecl) :
    Asks job (IsFairAt job site) (freeFunction job site) := by
  unfold freeFunction
  cases friend : site.decl.isFriend with
  | true => exact .quiet .nil .pure
  | false =>
    refine .after_notes .nil (check_within _) fun _ _ => .get_bind fun draft fit => ?_
    rw [fit.freeFunctions]
    have asks : Asks job (Among job [freeCallable job site]) (wrap job none (freeCallable job site)) := wrap_asks none _
    refine .then_notes (asks.mono fun calls among => ?_) fun _ => .pure
    exact ⟨_, among, pairwise_singleton _ _, forall_mem_singleton.mpr ⟨none, .function isFunction friend⟩⟩

theorem globalVariable_asks (isVariable : site.kind = .variableDecl) :
    Asks job (IsFairAt job site) (globalVariable job site) := by
  refine .after_notes .nil (exportDirectly_within site) fun {_ exported _} _ _ => ?_
  cases exported with
  | true => exact .quiet .nil .pure
  | false =>
    refine .resolver_bind (.lift_bind .nil fun callables found => ?_)
    have asks : Asks job (Among job (callables.flatMap fun c => [c])) (callables.forM fun c => do
        let _ ← wrap job none c) :=
      .forM fun c _ => .then_notes (wrap_asks none c) fun _ => .pure
    rw [flatMap_singleton'] at asks
    refine asks.mono fun calls among => ⟨callables, among, (accessors_apart (by simp) found).1, ?_⟩
    exact fun c listed => ⟨none, .accessor isVariable found listed⟩

theorem classMember_asks (opened : OpenClass) (m : Member) :
    Asks job (Among job m.callable?.toList) (classMember job opened m) := by
  cases m with
  | callable c =>
    exact .recover (.then_notes (wrap_asks (some opened) c) fun _ => .pure)
      (fun _ _ => .bind (report_within _ _ _) fun _ => .pure) fun _ => rfl
  | enumeration found =>
    have plain : GoesWithin true job (Notes []) (Enumeration.write job found (some opened)) :=
      enumeration_within_of (fun _ _ _ _ => trivial) found _
    exact .quiet (.nil _) (.bind (guarded_within (.bind plain fun _ => .pure) fun _ => trivial) fun _ => .pure)
  | constant found =>
    exact .quiet (.nil _) (.bind (guarded_within (constant_within found) fun _ => trivial) fun _ => .pure)

variable {path : List Nat}

section

variable (declared : job.root.id = .declared path) (known : Knows job site)

include declared known

theorem cxxClass_asks (cxx : job.config.cplusplus) (isClass : site.kind = .classDecl) (writes : writesClass job site) :
    Asks job (IsFairAt job site) (cxxClass job site) := by
  have opens : GoesWithin true job (Notes []) (openClass job site) :=
    openClass_within_of (fun _ => trivial) (fun _ _ => trivial) site
  have closes (finished : OpenClass) : GoesWithin true job (Notes []) (closeClass job finished) :=
    closeClass_within_of (fun _ => trivial) finished
  refine .after_notes .nil (check_within _) fun _ _ => .after_notes .nil (.append trivial rfl) fun _ _ => ?_
  refine .after_notes .nil (.record fun impossible => by cases impossible) fun _ _ =>
    .after_notes .nil opens fun _ _ => ?_
  refine .inherit_bind .nil (fun _ fit => (census declared).fitting.isAbstract fit.memo known) fun _ _ => ?_
  refine .resolver_bind (.lift_bind .nil fun own owned => ?_)
  refine .inherit_bind .nil (fun draft fit => ((census declared).fitting.flattenWithin _ fit.memo known).2)
    fun flattened fit => .lift_bind .nil fun inherited found => ?_
  refine .after_notes .nil (unsupported_within site _) fun _ _ => .after_notes .nil (check_within _) fun _ _ => ?_
  refine .then_notes ((Asks.foldlM (fun opened m _ => classMember_asks opened m) _).mono fun calls among => ?_)
    fun finished => .bind (closes finished) fun _ => .pure
  rw [← filterMap_eq_flatMap_toList] at among
  refine ⟨_, among, ?_, fun c listed => ?_⟩
  · obtain ⟨inherits, _⟩ := (census declared).fitting.flattenWithin
      ((prepared job).table.classes.length + 2) fit.memo known
    refine inOrder_apart (known.children_ids_nodup declared) inherits known ?_ owned found
    intro child listed m member same
    exact IsMember.eq_of_id declared ⟨site, known, listed⟩ (inherits.lent m member).good same
  · obtain ⟨m, listed, same⟩ := mem_filterMap.mp listed
    cases m with
    | callable c' =>
      cases same
      exact ⟨some site, .member cxx isClass writes (membersOf_eq_ok owned found) listed⟩
    | enumeration | constant => cases same

theorem classDecl_asks (isClass : site.kind = .classDecl) : Asks job (IsFairAt job site) (classDecl job site) := by
  refine .get_bind fun draft fit => ?_
  rw [fit.runtimeClass]
  change Asks job (IsFairAt job site) (if isForeign job site then _ else _)
  cases foreign : isForeign job site with
  | true => exact .quiet .nil .pure
  | false =>
    cases cxx : job.config.cplusplus with
    | false => exact .quiet .nil (struct_within_of (fun _ _ _ _ => trivial) site)
    | true =>
      cases member : site.isMember with
      | true => exact .quiet .nil (.bind (check_within _) fun _ => warn_within _ _)
      | false => exact cxxClass_asks declared known cxx isClass (by simp [writesClass, foreign, member])

theorem declaration_asks : Asks job (IsFairAt job site) (declaration job site) := by
  unfold declaration
  cases kind : site.kind with
  | importDecl => exact .quiet .nil (importDecl_within site)
  | insertDecl => exact .quiet .nil (insertDecl_within site)
  | classDecl => exact .guarded (classDecl_asks declared known kind)
  | functionDecl => exact .guarded (freeFunction_asks kind)
  | variableDecl => exact .guarded (globalVariable_asks kind)
  | enumDecl =>
    have plain : GoesWithin true job (Notes []) (Enumeration.write job site none) :=
      enumeration_within_of (fun _ _ _ _ => trivial) site none
    exact .guarded (.quiet .nil (.bind plain fun _ => .pure))
  | constantDecl => exact .guarded (.quiet .nil (constant_within site))
  | typedefDecl => exact .quiet .nil .pure
  | includeDecl | namespaceDecl | moduleDecl | constructorDecl | destructorDecl | enumValueDecl =>
    exact .quiet .nil (warn_within _ _)

end

end Module

end FlatAbi
