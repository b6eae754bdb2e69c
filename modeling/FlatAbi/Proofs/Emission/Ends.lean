import FlatAbi.Emission.Draft
import FlatAbi.Proofs.Results

/-!
How work on a draft ends. Every primitive is inverted here once, so that no later proof opens the monad.
-/

namespace FlatAbi

open Inheritance List Draft Emit

variable {halt : Halt} {need : Need} {change : Draft → Draft} {rest : List Need}

/-- A run goes on after a value and after a rejection, which is reported where it is caught. -/
def Survives {α : Type} : Except Halt α → Prop
  | .error (.fault _) => False
  | _ => True

@[simp] theorem survives_ok {α : Type} {value : α} : Survives (.ok value : Except Halt α) := trivial

@[simp] theorem survives_rejected {α : Type} {message : String} {site : Option Site} :
    Survives (.error (.rejected message site) : Except Halt α) := trivial

theorem survives_ofMisshapen_iff {α : Type} {result : Except Misshapen α} :
    Survives (Halt.ofMisshapen result) ↔ ∃ value, result = .ok value := by
  cases result with
  | error cause =>
    refine ⟨False.elim, ?_⟩
    rintro ⟨_, impossible⟩
    cases impossible
  | ok value => exact ⟨fun _ => ⟨value, rfl⟩, fun _ => trivial⟩

theorem Survives.of_error {α β : Type} (survives : Survives (.error halt : Except Halt α)) :
    Survives (.error halt : Except Halt β) := by
  cases halt with
  | rejected => trivial
  | fault => exact survives

theorem survives_map_iff {α β : Type} {result : Except Halt α} {f : α → β} :
    Survives (result.map f) ↔ Survives result := by
  cases result with
  | ok value => exact Iff.rfl
  | error halt => cases halt <;> exact Iff.rfl

theorem mapM_of_survives {α β : Type} {f : α → Except Halt β} {items : List α} {Good : α → Prop}
    (each : ∀ item ∈ items, Survives (f item) → ((∃ value, f item = .ok value) ↔ Good item))
    (survives : Survives (items.mapM f)) : (∃ values, items.mapM f = .ok values) ↔ ∀ item ∈ items, Good item := by
  constructor
  · rintro ⟨values, ok⟩ item listed
    obtain ⟨value, found⟩ := forall_of_mapM_ok ok item listed
    exact (each item listed (by rw [found]; trivial)).mp ⟨value, found⟩
  · intro good
    cases result : items.mapM f with
    | ok values => exact ⟨values, rfl⟩
    | error halt =>
      obtain ⟨item, listed, failed⟩ := exists_of_mapM_error result
      rw [result] at survives
      have survived : Survives (f item) := by
        rw [failed]
        exact survives.of_error
      obtain ⟨value, found⟩ := (each item listed survived).mpr (good item listed)
      rw [failed] at found
      cases found

/-! ### Results that are never rejections -/

def OnlyFaults {α : Type} (result : Except Halt α) : Prop :=
  ∀ message site, result ≠ .error (.rejected message site)

namespace OnlyFaults

variable {α β : Type} {result : Except Halt α}

theorem ok {value : α} : OnlyFaults (.ok value) := by
  intro message site impossible
  cases impossible

theorem fault {cause : Fault} : OnlyFaults (.error (.fault cause) : Except Halt α) := by
  intro message site impossible
  cases impossible

theorem ofMisshapen {checked : Except Misshapen α} : OnlyFaults (Halt.ofMisshapen checked) := by
  cases checked with
  | ok value => exact ok
  | error cause => exact fault

theorem ofUnreadable {read : Except TypeSyntaxError α} : OnlyFaults (Halt.ofUnreadable read) := by
  cases read with
  | ok value => exact ok
  | error cause => exact fault

theorem bind {next : α → Except Halt β} (first : OnlyFaults result) (rest : ∀ value, OnlyFaults (next value)) :
    OnlyFaults (result >>= next) := by
  cases result with
  | ok value => exact rest value
  | error halt =>
    intro message site rejected
    cases rejected
    exact first message site rfl

theorem value_of_survives (onlyFaults : OnlyFaults result) (survives : Survives result) :
    ∃ value, result = .ok value := by
  cases result with
  | ok value => exact ⟨value, rfl⟩
  | error halt =>
    cases halt with
    | rejected message site => exact (onlyFaults message site rfl).elim
    | fault cause => exact survives.elim

end OnlyFaults

namespace Emit

variable {α β : Type} {before middle after : Draft} {work : Emit α} {next : α → Emit β} {result : Except Halt α}
  {outcome : Except Halt α}
  {items : List α} {f : α → Emit PUnit} {query : SymbolTable → Memo → α × Memo}

/-- Work that begins with one draft ends with an outcome and another draft. -/
def Ends (work : Emit α) (before : Draft) (outcome : Except Halt α) (after : Draft) : Prop :=
  work.run.run before = (outcome, after)

theorem ends_self (work : Emit α) (before : Draft) :
    Ends work before (work.run.run before).1 (work.run.run before).2 := rfl

theorem ends_iff_of_run (ran : work.run.run before = (result, middle)) :
    Ends work before outcome after ↔ outcome = result ∧ after = middle := by
  rw [Ends, ran, Prod.mk.injEq]
  exact ⟨fun same => ⟨same.1.symm, same.2.symm⟩, fun same => ⟨same.1.symm, same.2.symm⟩⟩

/-! ### Primitives -/

theorem ends_pure_iff {value : α} : Ends (pure value) before outcome after ↔ outcome = .ok value ∧ after = before :=
  ends_iff_of_run rfl

theorem Ends.of_pure {value : α} (ends : Ends (pure value) before outcome after) :
    outcome = .ok value ∧ after = before :=
  ends_pure_iff.mp ends

theorem ends_throw_iff : Ends (throw halt) before outcome after ↔ outcome = .error halt ∧ after = before :=
  ends_iff_of_run rfl

theorem ends_lift_iff : Ends (lift result) before outcome after ↔ outcome = result ∧ after = before := by
  cases result <;> exact ends_iff_of_run rfl

theorem ends_modify_iff {outcome : Except Halt PUnit} :
    Ends (modify change) before outcome after ↔ outcome = .ok ⟨⟩ ∧ after = change before :=
  ends_iff_of_run rfl

theorem ends_check {result : Except Misshapen Unit} {outcome : Except Halt Unit}
    (ends : Ends (check result) before outcome after) (survives : Survives outcome) :
    outcome = .ok () ∧ result = .ok () ∧ after = before := by
  obtain ⟨rfl, rfl⟩ := ends_lift_iff.mp ends
  obtain ⟨value, rfl⟩ := survives_ofMisshapen_iff.mp survives
  exact ⟨rfl, rfl, rfl⟩

/-! ### Sequences -/

theorem run_bind_of_ok {value : α} (first : Ends work before (.ok value) middle) :
    (work >>= next).run.run before = (next value).run.run middle := by
  rw [run_bind, first]

theorem run_bind_of_error (first : Ends work before (.error halt) middle) :
    (work >>= next).run.run before = (.error halt, middle) := by
  rw [run_bind, first]

variable {outcome : Except Halt β}

theorem ends_bind_of_ok {value : α} (first : Ends work before (.ok value) middle) :
    Ends (work >>= next) before outcome after ↔ Ends (next value) middle outcome after := by
  rw [Ends, run_bind_of_ok first]
  rfl

theorem Ends.bind_cases (ends : Ends (work >>= next) before outcome after) :
    (∃ value middle, Ends work before (.ok value) middle ∧ Ends (next value) middle outcome after) ∨
      ∃ halt, Ends work before (.error halt) after ∧ outcome = .error halt := by
  have ended := ends_self work before
  cases first : (work.run.run before).1 with
  | ok value =>
    rw [first] at ended
    exact .inl ⟨value, _, ended, (ends_bind_of_ok ended).mp ends⟩
  | error halt =>
    rw [first] at ended
    obtain ⟨rfl, rfl⟩ := (ends_iff_of_run (run_bind_of_error ended)).mp ends
    exact .inr ⟨halt, ended, rfl⟩

theorem Ends.bind_survived (ends : Ends (work >>= next) before outcome after) (survives : Survives outcome) :
    (∃ value middle, Ends work before (.ok value) middle ∧ Ends (next value) middle outcome after) ∨
      ∃ message site, Ends work before (.error (.rejected message site)) after ∧
        outcome = .error (.rejected message site) := by
  rcases ends.bind_cases with ⟨value, middle, first, rest⟩ | ⟨halt, first, rfl⟩
  · exact .inl ⟨value, middle, first, rest⟩
  · cases halt with
    | rejected message site => exact .inr ⟨message, site, first, rfl⟩
    | fault cause => exact survives.elim

theorem Ends.of_bind_pure {f : α → β} (ends : Ends (work >>= fun value => pure (f value)) before outcome after)
    (survives : Survives outcome) : ∃ first, Ends work before first after ∧ Survives first := by
  rcases ends.bind_survived survives with ⟨value, middle, began, ended⟩ | ⟨message, site, began, _⟩
  · obtain ⟨_, rfl⟩ := ended.of_pure
    exact ⟨_, began, survives_ok⟩
  · exact ⟨_, began, survives_rejected⟩

/-- Work that is never rejected, whatever draft it begins with. -/
def NeverRejects (work : Emit α) : Prop :=
  ∀ before message site after, ¬ Ends work before (.error (.rejected message site)) after

theorem NeverRejects.of_value {work : Emit α}
    (value : ∀ {before outcome after}, Ends work before outcome after → Survives outcome → ∃ v, outcome = .ok v) :
    NeverRejects work := by
  intro before message site after ends
  obtain ⟨_, impossible⟩ := value ends survives_rejected
  cases impossible

theorem NeverRejects.value {outcome : Except Halt α} (never : NeverRejects work)
    (ends : Ends work before outcome after) (survives : Survives outcome) : ∃ v, outcome = .ok v := by
  cases outcome with
  | ok value => exact ⟨value, rfl⟩
  | error halt =>
    cases halt with
    | rejected message site => exact (never before message site after ends).elim
    | fault cause => exact survives.elim

theorem NeverRejects.pure {value : α} : NeverRejects (pure value) :=
  .of_value fun ends _ => ⟨_, (ends.of_pure).1⟩

theorem NeverRejects.get : NeverRejects get :=
  .of_value fun ends _ => ⟨_, (congrArg Prod.fst ends).symm⟩

theorem NeverRejects.modify : NeverRejects (modify change) :=
  .of_value fun ends _ => ⟨_, (ends_modify_iff.mp ends).1⟩

theorem NeverRejects.check {result : Except Misshapen Unit} : NeverRejects (check result) :=
  .of_value fun ends survives => ⟨_, (ends_check ends survives).1⟩

theorem NeverRejects.bind (first : NeverRejects work) (rest : ∀ value, NeverRejects (next value)) :
    NeverRejects (work >>= next) := by
  intro before message site after ends
  rcases ends.bind_cases with ⟨value, middle, _, ended⟩ | ⟨_, began, same⟩
  · exact rest value middle message site after ended
  · cases same
    exact first before message site after began

theorem NeverRejects.forM (each : ∀ item, NeverRejects (f item)) : NeverRejects (items.forM f) := by
  induction items with
  | nil => exact .pure
  | cons item rest ih => exact .bind (each item) fun _ => ih

theorem NeverRejects.foldlM {f : β → α → Emit β} (each : ∀ state item, NeverRejects (f state item)) (start : β) :
    NeverRejects (items.foldlM f start) := by
  induction items generalizing start with
  | nil => exact .pure
  | cons item rest ih =>
    rw [foldlM_cons]
    exact .bind (each start item) ih

theorem Ends.bind_value (never : NeverRejects work) (ends : Ends (work >>= next) before outcome after)
    (survives : Survives outcome) :
    ∃ value middle, Ends work before (.ok value) middle ∧ Ends (next value) middle outcome after := by
  rcases ends.bind_survived survives with found | ⟨message, site, rejected, _⟩
  · exact found
  · exact (never before message site after rejected).elim

theorem ends_get_bind {next : Draft → Emit β} :
    Ends (get >>= next) before outcome after ↔ Ends (next before) before outcome after :=
  ends_bind_of_ok (show Ends get before (.ok before) before from rfl)

theorem ends_set_bind {draft : Draft} {next : PUnit → Emit β} :
    Ends (set draft >>= next) before outcome after ↔ Ends (next ⟨⟩) draft outcome after :=
  ends_bind_of_ok (show Ends (set draft) before (.ok ⟨⟩) draft from rfl)

theorem ends_append_bind {chunk : Chunk} {next : Unit → Emit β} :
    Ends (append chunk >>= next) before outcome after ↔
      Ends (next ()) { before with chunks := before.chunks ++ [chunk] } outcome after :=
  ends_bind_of_ok (show Ends (append chunk) before (.ok ()) _ from rfl)

theorem ends_tell_bind {event : Event} {next : Unit → Emit β} :
    Ends (tell event >>= next) before outcome after ↔
      Ends (next ()) { before with events := before.events ++ [event] } outcome after :=
  ends_bind_of_ok (show Ends (tell event) before (.ok ()) _ from rfl)

theorem ends_modify_bind {next : PUnit → Emit β} :
    Ends (modify change >>= next) before outcome after ↔ Ends (next ⟨⟩) (change before) outcome after :=
  ends_bind_of_ok (show Ends (modify change) before (.ok ⟨⟩) (change before) from rfl)

theorem ends_resolver_bind {job : Job} {next : Resolver → Emit β} :
    Ends (resolver job >>= next) before outcome after ↔
      Ends (next ⟨job.config, before.table⟩) before outcome after :=
  ends_bind_of_ok (show Ends (resolver job) before (.ok ⟨job.config, before.table⟩) before from rfl)

theorem ends_forM_cons {item : α} {rest : List α} {outcome : Except Halt PUnit} :
    Ends ((item :: rest).forM f) before outcome after ↔
      Ends (f item >>= fun _ => rest.forM f) before outcome after :=
  Iff.rfl

theorem Ends.check_bind_cases {result : Except Misshapen Unit} {next : Unit → Emit β}
    (ends : Ends (check result >>= next) before outcome after) :
    result = .ok () ∧ Ends (next ()) before outcome after ∨
      ∃ cause, result = .error cause ∧ outcome = .error (.fault (.misshapen cause)) ∧ after = before := by
  cases result with
  | ok => exact .inl ⟨rfl, ends⟩
  | error cause =>
    obtain ⟨rfl, rfl⟩ := ends_throw_iff.mp ends
    exact .inr ⟨cause, rfl, rfl, rfl⟩

theorem Ends.check_bind {result : Except Misshapen Unit} {next : Unit → Emit β}
    (ends : Ends (check result >>= next) before outcome after) (survives : Survives outcome) :
    result = .ok () ∧ Ends (next ()) before outcome after := by
  rcases ends.check_bind_cases with passed | ⟨cause, _, rfl, _⟩
  · exact passed
  · exact survives.elim

def symbolOf (kind : SymbolKind) (name : Value) (site : Site) : Symbol :=
  ⟨kind, name, site.qualifiedValue, site.decl.file, site.decl.line⟩

theorem ends_record {kind : SymbolKind} {name : Value} {site : Site} {outcome : Except Halt Unit}
    (ends : Ends (record kind name site) before outcome after) (survives : Survives outcome) :
    outcome = .ok () ∧ after = { before with symbols := before.symbols ++ [symbolOf kind name site] } := by
  obtain ⟨_, changed⟩ := ends.check_bind survives
  exact ends_modify_iff.mp changed

theorem record_neverRejects (kind : SymbolKind) (name : Value) (site : Site) : NeverRejects (record kind name site) :=
  .bind .check fun _ => .modify

theorem Ends.lift_bind (ends : Ends (lift result >>= next) before outcome after) :
    (∃ value, result = .ok value ∧ Ends (next value) before outcome after) ∨
      ∃ halt, result = .error halt ∧ outcome = .error halt ∧ after = before := by
  rcases ends.bind_cases with ⟨value, middle, first, rest⟩ | ⟨halt, first, rfl⟩
  · obtain ⟨rfl, rfl⟩ := ends_lift_iff.mp first
    exact .inl ⟨value, rfl, rest⟩
  · obtain ⟨rfl, rfl⟩ := ends_lift_iff.mp first
    exact .inr ⟨halt, rfl, rfl, rfl⟩

theorem Ends.lift_bind_value (onlyFaults : OnlyFaults result) (ends : Ends (lift result >>= next) before outcome after)
    (survives : Survives outcome) :
    ∃ value, result = .ok value ∧ Ends (next value) before outcome after := by
  rcases ends.lift_bind with found | ⟨halt, rfl, rfl, _⟩
  · exact found
  · cases halt with
    | rejected message site => exact (onlyFaults message site rfl).elim
    | fault cause => exact survives.elim

/-! ### Recovery -/

variable {handler : Halt → Emit α}

theorem Ends.tryCatch_cases {outcome : Except Halt α} (ends : Ends (tryCatch work handler) before outcome after) :
    (∃ value, Ends work before (.ok value) after ∧ outcome = .ok value) ∨
      ∃ halt middle, Ends work before (.error halt) middle ∧ Ends (handler halt) middle outcome after := by
  rw [Ends, run_tryCatch] at ends
  cases first : work.run.run before with
  | mk result middle =>
    rw [first] at ends
    cases result with
    | ok value =>
      cases ends
      exact .inl ⟨value, first, rfl⟩
    | error halt => exact .inr ⟨halt, middle, first, ends⟩

theorem Ends.recover_cases {outcome : Except Halt α} (ends : Ends (tryCatch work handler) before outcome after)
    (passed : ∀ cause, handler (.fault cause) = throw (.fault cause)) (survives : Survives outcome) :
    (∃ value, Ends work before (.ok value) after ∧ outcome = .ok value) ∨
      ∃ message site middle, Ends work before (.error (.rejected message site)) middle ∧
        Ends (handler (.rejected message site)) middle outcome after := by
  rcases ends.tryCatch_cases with found | ⟨halt, middle, began, ended⟩
  · exact .inl found
  · cases halt with
    | rejected message site => exact .inr ⟨message, site, middle, began, ended⟩
    | fault cause =>
      rw [passed] at ended
      obtain ⟨rfl, _⟩ := ends_throw_iff.mp ended
      exact survives.elim

theorem Ends.guarded_cases {site : Site} {work : Emit Unit} {outcome : Except Halt Unit}
    (ends : Ends (guarded site work) before outcome after) (survives : Survives outcome) :
    Ends work before (.ok ()) after ∨
      ∃ message found middle, Ends work before (.error (.rejected message found)) middle ∧
        after = { middle with
          events := middle.events ++ [.diagnosed (.about .error (some (found.getD site)) message)] } := by
  unfold guarded at ends
  rcases ends.recover_cases (fun _ => rfl) survives with ⟨_, ended, _⟩ | ⟨message, found, middle, began, ended⟩
  · exact .inl ended
  · exact .inr ⟨message, found, middle, began, (ends_modify_iff.mp ended).2⟩

theorem NeverRejects.recover (rejected : ∀ message site, NeverRejects (handler (.rejected message site)))
    (passed : ∀ cause, handler (.fault cause) = throw (.fault cause)) : NeverRejects (tryCatch work handler) := by
  intro before message site after ends
  rcases ends.recover_cases passed survives_rejected with ⟨_, _, impossible⟩ | ⟨found, place, middle, _, ended⟩
  · cases impossible
  · exact rejected found place middle message site after ended

theorem guarded_neverRejects (site : Site) (work : Emit Unit) : NeverRejects (guarded site work) :=
  .recover (fun _ _ => .modify) fun _ => rfl

/-! ### Values -/

/-- Work whose values, where it has any, have a property. -/
def Returns (work : Emit α) (Good : α → Prop) : Prop :=
  ∀ before value after, Ends work before (.ok value) after → Good value

namespace Returns

variable {Good : α → Prop} {Best : β → Prop}

theorem pure {value : α} (good : Good value) : Returns (pure value) Good := by
  intro before found after ends
  obtain ⟨same, _⟩ := ends.of_pure
  cases same
  exact good

theorem lift : Returns (lift result) fun value => result = .ok value :=
  fun _ _ _ ends => (ends_lift_iff.mp ends).1.symm

theorem bind (first : Returns work Good) (rest : ∀ value, Good value → Returns (next value) Best) :
    Returns (work >>= next) Best := by
  intro before found after ends
  rcases ends.bind_cases with ⟨value, middle, began, ended⟩ | ⟨_, _, impossible⟩
  · exact rest value (first _ _ _ began) middle found after ended
  · cases impossible

theorem seq (rest : ∀ value, Returns (next value) Best) : Returns (work >>= next) Best :=
  bind (fun _ _ _ _ => trivial) fun value (_ : True) => rest value

theorem recover (first : Returns work Good) (handled : ∀ halt, Returns (handler halt) Good) :
    Returns (tryCatch work handler) Good := by
  intro before found after ends
  rcases ends.tryCatch_cases with ⟨value, ended, same⟩ | ⟨halt, middle, _, ended⟩
  · cases same
    exact first _ _ _ ended
  · exact handled halt _ _ _ ended

theorem foldlM {f : β → α → Emit β} (each : ∀ state item, Best state → Returns (f state item) Best) {start : β}
    (good : Best start) : Returns (items.foldlM f start) Best := by
  induction items generalizing start with
  | nil => exact pure good
  | cons item rest ih =>
    rw [foldlM_cons]
    exact bind (each start item good) fun _ next => ih next

theorem throw : Returns (throw halt) Good := by
  intro before found after ends
  obtain ⟨impossible, _⟩ := ends_throw_iff.mp ends
  cases impossible

end Returns

/-! ### Notes on bases -/

def unknownBaseEvents (table : SymbolTable) (cls : Site) : List Event :=
  (unknownBases table cls).map fun base => .unknownBase base cls.decl.givenName

theorem run_forM_tell (event : α → Event) (items : List α) (before : Draft) :
    (items.forM fun item => tell (event item)).run.run before =
      (.ok ⟨⟩, { before with events := before.events ++ items.map event }) := by
  induction items generalizing before with
  | nil =>
    rw [map_nil, append_nil]
    rfl
  | cons item rest ih =>
    refine (run_bind_of_ok (show Ends (tell (event item)) before (.ok ()) _ from rfl)).trans ?_
    rw [ih]
    simp [append_assoc]

theorem run_tellUnknownBases (cls : Site) (before : Draft) :
    (tellUnknownBases cls).run.run before =
      (.ok (), { before with events := before.events ++ unknownBaseEvents before.table cls }) :=
  (run_bind_of_ok (show Ends get before (.ok before) before from rfl)).trans (run_forM_tell _ _ before)

theorem tellUnknownBases_neverRejects (cls : Site) : NeverRejects (tellUnknownBases cls) :=
  .of_value fun ends _ => ⟨_, ((ends_iff_of_run (run_tellUnknownBases cls _)).mp ends).1⟩

theorem run_forM_tellUnknownBases (classes : List Site) (before : Draft) :
    (classes.forM tellUnknownBases).run.run before =
      (.ok ⟨⟩, { before with events := before.events ++ classes.flatMap (unknownBaseEvents before.table) }) := by
  induction classes generalizing before with
  | nil =>
    rw [flatMap_nil, append_nil]
    rfl
  | cons cls rest ih =>
    refine (run_bind_of_ok (run_tellUnknownBases cls before)).trans ?_
    rw [ih]
    simp [append_assoc]

theorem settle_of_answer {memo : Memo} {answer value : α}
    (answered : (memo.settle answer).1 = .ok value) : memo.broken = none ∧ memo.settle answer = (.ok answer, memo) := by
  cases broken : memo.broken with
  | none => simp only [Memo.settle, broken, and_self]
  | some b => simp [Memo.settle, broken] at answered

/-- A query on inherited members changes only what is known about them, and tells about the classes it opened. -/
theorem run_inherit (query : SymbolTable → Memo → α × Memo) (before : Draft) :
    let found := query before.table before.memo
    let settled := found.2.settle found.1
    (inherit query).run.run before =
      (Halt.ofMisshapen settled.1, { before with
        memo := settled.2
        events := before.events ++
          (settled.2.opened.drop before.memo.opened.length).flatMap (unknownBaseEvents before.table) }) := by
  intro found settled
  change (set { before with memo := settled.2 } >>= fun _ =>
    (settled.2.opened.drop before.memo.opened.length).forM tellUnknownBases >>= fun _ =>
      lift (Halt.ofMisshapen settled.1) : Emit α).run.run before = _
  have kept : Ends (set { before with memo := settled.2 }) before (.ok ⟨⟩) { before with memo := settled.2 } := rfl
  rw [run_bind_of_ok kept, run_bind_of_ok (run_forM_tellUnknownBases _ _)]
  exact ends_lift_iff.mpr ⟨rfl, rfl⟩

theorem ends_inherit {outcome : Except Halt α} (ends : Ends (inherit query) before outcome after)
    (survives : Survives outcome) :
    let found := query before.table before.memo
    outcome = .ok found.1 ∧
      after = { before with
        memo := found.2
        events := before.events ++
          (found.2.opened.drop before.memo.opened.length).flatMap (unknownBaseEvents before.table) } := by
  intro found
  obtain ⟨rfl, rfl⟩ := (ends_iff_of_run (run_inherit query before)).mp ends
  obtain ⟨value, answered⟩ := survives_ofMisshapen_iff.mp survives
  rw [(settle_of_answer answered).2]
  exact ⟨rfl, rfl⟩

theorem unbroken_of_inherit {outcome : Except Halt α} (ends : Ends (inherit query) before outcome after)
    (survives : Survives outcome) :
    (query before.table before.memo).2.broken = none := by
  obtain ⟨rfl, _⟩ := (ends_iff_of_run (run_inherit query before)).mp ends
  obtain ⟨_, answered⟩ := survives_ofMisshapen_iff.mp survives
  exact (settle_of_answer answered).1

theorem inherit_neverRejects (query : SymbolTable → Memo → α × Memo) : NeverRejects (inherit query) :=
  .of_value fun ends survives => ⟨_, (ends_inherit ends survives).1⟩

/-! ### Declaring what is missing -/

/-- What is needed and not declared yet, each of it once. -/
def missing (declared : List Need) : List Need → List Need
  | [] => []
  | need :: rest =>
    if declared.contains need then missing declared rest else need :: missing (declared ++ [need]) rest

/-- The chunks that declare what is missing. -/
def supply (declared needs : List Need) : List Chunk :=
  (missing declared needs).map chunkOf

variable {declared needs : List Need}

theorem missing_of_mem (present : need ∈ declared) : missing declared (need :: rest) = missing declared rest := by
  simp [missing, present]

theorem missing_of_not_mem (absent : need ∉ declared) :
    missing declared (need :: rest) = need :: missing (declared ++ [need]) rest := by
  simp [missing, absent]

theorem missing_append (declared first rest : List Need) :
    missing declared (first ++ rest) = missing declared first ++ missing (declared ++ missing declared first) rest := by
  induction first generalizing declared with
  | nil => simp [missing]
  | cons need others ih =>
    by_cases present : need ∈ declared
    · rw [cons_append, missing_of_mem present, missing_of_mem present, ih]
    · rw [cons_append, missing_of_not_mem present, missing_of_not_mem present, ih]
      simp [append_assoc]

theorem missing_eq_nil (present : ∀ need ∈ needs, need ∈ declared) : missing declared needs = [] := by
  induction needs with
  | nil => rfl
  | cons need rest ih =>
    rw [missing_of_mem (present need (by simp))]
    exact ih fun other member => present other (by simp [member])

theorem missing_subset (declared needs : List Need) : missing declared needs ⊆ needs := by
  induction needs generalizing declared with
  | nil => exact Subset.refl _
  | cons need rest ih =>
    by_cases present : need ∈ declared
    · rw [missing_of_mem present]
      exact subset_cons_of_subset need (ih declared)
    · rw [missing_of_not_mem present]
      exact cons_subset_cons need (ih _)

theorem subset_missing (declared needs : List Need) : needs ⊆ declared ++ missing declared needs := by
  induction needs generalizing declared with
  | nil => exact nil_subset _
  | cons need rest ih =>
    by_cases present : need ∈ declared
    · rw [missing_of_mem present]
      exact cons_subset.mpr ⟨mem_append_left _ present, ih declared⟩
    · rw [missing_of_not_mem present]
      have later := ih (declared ++ [need])
      rw [append_assoc] at later
      exact cons_subset.mpr ⟨by simp, later⟩

theorem missing_nodup (declared needs : List Need) :
    (missing declared needs).Nodup ∧ ∀ need ∈ missing declared needs, need ∉ declared := by
  induction needs generalizing declared with
  | nil => simp [missing]
  | cons need rest ih =>
    by_cases present : need ∈ declared
    · rw [missing_of_mem present]
      exact ih declared
    · rw [missing_of_not_mem present]
      obtain ⟨distinct, absent⟩ := ih (declared ++ [need])
      refine ⟨nodup_cons.mpr ⟨fun again => absent _ again (by simp), distinct⟩, ?_⟩
      rintro other (_ | ⟨_, member⟩)
      · exact present
      · exact fun earlier => absent other member (by simp [earlier])

theorem exists_need_of_mem_supply {chunk : Chunk} (member : chunk ∈ supply declared needs) :
    ∃ need ∈ needs, chunk = chunkOf need := by
  obtain ⟨need, listed, rfl⟩ := mem_map.mp member
  exact ⟨need, missing_subset declared needs listed, rfl⟩

end Emit

/-- The draft in which all that is needed is declared. -/
def Draft.supplied (draft : Draft) (needs : List Need) : Draft :=
  { draft with
    chunks := draft.chunks ++ Emit.supply draft.declared needs
    declared := draft.declared ++ Emit.missing draft.declared needs }

theorem Draft.supplied_of_present {draft : Draft} {needs : List Need}
    (present : ∀ need ∈ needs, need ∈ draft.declared) :
    draft.supplied needs = draft := by
  simp [supplied, Emit.supply, missing_eq_nil present]

@[simp]
theorem Draft.supplied_nil (draft : Draft) : draft.supplied [] = draft :=
  supplied_of_present (by simp)

theorem Draft.supplied_append (draft : Draft) (first rest : List Need) :
    draft.supplied (first ++ rest) = (draft.supplied first).supplied rest := by
  simp [supplied, Emit.supply, missing_append]

theorem Draft.supplied_of_absent {draft : Draft} {need : Need} (absent : need ∉ draft.declared) (rest : List Need) :
    draft.supplied (need :: rest) =
      { draft with
        chunks := draft.chunks ++ [Emit.chunkOf need]
        declared := draft.declared ++ [need] : Draft }.supplied rest := by
  simp [supplied, Emit.supply, missing_of_not_mem absent]

namespace Emit

variable {β : Type} {before after : Draft} {outcome : Except Halt β} {needs : List Need}

theorem ends_require_one :
    Ends (do
        if !(← get).declared.contains need then
          modify fun draft => { draft with declared := draft.declared ++ [need] }
          append (chunkOf need)) before (.ok ()) (before.supplied [need]) := by
  rw [ends_get_bind]
  by_cases present : need ∈ before.declared
  · rw [supplied_of_present (by simpa using present)]
    simp [present, ends_pure_iff]
  · rw [supplied_of_absent present, supplied_nil]
    simp only [contains_eq_mem, present, decide_false, Bool.not_false, if_true]
    exact rfl

theorem run_require (needs : List Need) (before : Draft) :
    (require needs).run.run before = (.ok (), before.supplied needs) := by
  induction needs generalizing before with
  | nil =>
    rw [supplied_nil]
    rfl
  | cons need rest ih =>
    have unrolled : (require (need :: rest)).run.run before = (require rest).run.run (before.supplied [need]) :=
      run_bind_of_ok ends_require_one
    rw [unrolled, ih, ← supplied_append]
    rfl

theorem ends_require_iff {outcome : Except Halt Unit} :
    Ends (require needs) before outcome after ↔ outcome = .ok () ∧ after = before.supplied needs :=
  ends_iff_of_run (run_require needs before)

theorem require_neverRejects (needs : List Need) : NeverRejects (require needs) :=
  .of_value fun ends _ => ⟨(), (ends_require_iff.mp ends).1⟩

theorem ends_require_bind {next : Unit → Emit β} :
    Ends (require needs >>= next) before outcome after ↔ Ends (next ()) (before.supplied needs) outcome after :=
  ends_bind_of_ok (run_require needs before)

end Emit

/-- A job over the declarations of a module `m`, as examples have it. -/
def Job.ofNodes (nodes : List Node) (typemaps : TypemapTable := {}) : Job where
  config := { givenModule := .string "m", exceptions := false }
  root := .root (.mk (.named .moduleDecl "m") nodes)
  typemaps

end FlatAbi
