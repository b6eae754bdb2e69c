import FlatAbi.Proofs.Declaration.Reach
import FlatAbi.Proofs.Emission.Traversal

/-!
A run as a sequence of visits to the declarations of the module, after the runtime class.
-/

namespace FlatAbi

open Emit List SymbolTable

variable {job : Job} {draft before after : Draft}

namespace Module

def preparedChunks (job : Job) : List Chunk :=
  let (support, part) := exceptionSupport job.config job.root
  (if support != .disabled then [.raiseName part] else []) ++
    (if support == .imported then [.raiseImported] else []) ++
    (if job.config.writesFacade && support == .enabled then [.checkSupport] else [])

/-- The runtime class, where this module defines it. -/
def ownRuntimeClass? (job : Job) : Option Site :=
  if (exceptionSupport job.config job.root).1 == .enabled then some (runtimeClass job.root) else none

theorem ownRuntimeClass_eq {cls : Site} (own : ownRuntimeClass? job = some cls) : cls = runtimeClass job.root := by
  unfold ownRuntimeClass? at own
  split at own <;> cases own
  rfl

/-- The draft with which a run comes to its first declaration. -/
def prepared (job : Job) : Draft :=
  let support := (exceptionSupport job.config job.root).1
  { table := (ownRuntimeClass? job).elim (ofTree job.root) (ofTree job.root).register
    chunks := preparedChunks job
    exceptions := support
    checked := job.config.writesFacade && support != .disabled
    freeFunctions := job.root.freeFunctions.map overloadKey
    runtimeClass := ownRuntimeClass? job }

theorem prepared_declaresOnce (job : Job) : (prepared job).DeclaresOnce := by
  refine ⟨filterMap_eq_nil_iff.mpr fun chunk listed => ?_, .nil⟩
  simp only [prepared, preparedChunks] at listed
  grind [Chunk.need?]

def resolver (job : Job) : Resolver :=
  ⟨job.config, (prepared job).table⟩

def visited (job : Job) : List Site :=
  (ownRuntimeClass? job).toList ++ job.root.emitted

theorem visited_ids_nodup {tree : Node} (rooted : job.root = .root tree) : ((visited job).map (·.id)).Nodup := by
  have declared : job.root.id = .declared [] := by rw [rooted]; rfl
  rw [visited, map_append]
  refine Nodup.append ?_ (Site.emitted_ids_nodup declared) ?_
  · cases ownRuntimeClass? job <;> simp
  · intro id runtime emitted
    obtain ⟨site, listed, rfl⟩ := mem_map.mp emitted
    obtain ⟨index, rest, declaredId⟩ := (Site.mem_emitted_iff.mp listed).1.id_eq declared
    obtain ⟨cls, own, same⟩ := mem_map.mp runtime
    rw [ownRuntimeClass_eq (Option.mem_toList.mp own), declaredId] at same
    cases same

theorem run_prepareExceptions (job : Job) :
    (prepareExceptions job).run.run (Draft.ofTree job.root) =
      (.ok (), { prepared job with freeFunctions := [] }) := by
  unfold prepareExceptions Facade.prepareChecks prepared preparedChunks ownRuntimeClass?
  rcases exceptionSupport job.config job.root with ⟨support, part⟩
  cases job.config.writesFacade <;> cases support <;> rfl

theorem run_emit (job : Job) : (emit job).run.run (Draft.ofTree job.root) =
    match job.root.freeFunctions.forM checkOverload with
    | .ok _ => ((visited job).forM (declaration job)).run.run (prepared job)
    | .error cause => (.error (.fault (.misshapen cause)), { prepared job with freeFunctions := [] }) := by
  unfold emit
  rw [run_bind_of_ok (run_prepareExceptions job)]
  cases checked : job.root.freeFunctions.forM checkOverload with
  | error cause => rfl
  | ok _ =>
    have passed : Ends (check (.ok ())) { prepared job with freeFunctions := [] } (.ok ())
        { prepared job with freeFunctions := [] } := rfl
    rw [run_bind_of_ok passed]
    unfold visited
    cases own : ownRuntimeClass? job with
    | none =>
      refine ends_modify_bind.mpr (ends_get_bind.mpr ?_)
      simp only [prepared, own]
      rfl
    | some cls =>
      have runtime := ownRuntimeClass_eq own
      refine ends_modify_bind.mpr (ends_get_bind.mpr ?_)
      simp only [prepared, own]
      subst runtime
      rfl

theorem ends_emit_cases {outcome : Except Halt Unit} (ends : Ends (emit job) (Draft.ofTree job.root) outcome after) :
    Ends ((visited job).forM (declaration job)) (prepared job) outcome after ∨
      ∃ cause, outcome = .error (.fault (.misshapen cause)) := by
  rw [Ends, run_emit] at ends
  split at ends
  · exact .inl ends
  · cases ends
    exact .inr ⟨_, rfl⟩

theorem ends_emit {outcome : Except Halt Unit} (ends : Ends (emit job) (Draft.ofTree job.root) outcome after)
    (survives : Survives outcome) :
    Ends ((visited job).forM (declaration job)) (prepared job) outcome after := by
  rcases ends_emit_cases ends with visits | ⟨cause, rfl⟩
  · exact visits
  · exact survives.elim

end Module

theorem flatMap_ite {α β : Type} (items : List α) (chosen : α → Bool) (f : α → List β) :
    (items.flatMap fun item => if chosen item then f item else []) = (items.filter chosen).flatMap f := by
  induction items with
  | nil => rfl
  | cons item rest ih =>
    rw [flatMap_cons, filter_cons, ih]
    cases chosen item <;> simp

structure Visit where
  site : Site
  before : Draft
  after : Draft

/-- Visits that follow one another, each of which ends without a halt. -/
inductive Visits (job : Job) : List Visit → Draft → Draft → Prop where
  | nil {draft : Draft} : Visits job [] draft draft
  | cons {site : Site} {rest : List Visit} {before middle after : Draft}
      (visit : Ends (Module.declaration job site) before (.ok ()) middle) (others : Visits job rest middle after) :
      Visits job (⟨site, before, middle⟩ :: rest) before after

namespace Visits

variable {visits : List Visit}

theorem of_forM {sites : List Site} (ends : Ends (sites.forM (Module.declaration job)) before (.ok ()) after) :
    ∃ visits, Visits job visits before after ∧ visits.map (·.site) = sites := by
  induction sites generalizing before with
  | nil =>
    obtain ⟨_, rfl⟩ := ends.of_pure
    exact ⟨[], .nil, rfl⟩
  | cons site rest ih =>
    rw [ends_forM_cons] at ends
    rcases ends.bind_cases with ⟨_, middle, first, others⟩ | ⟨halt, _, impossible⟩
    · obtain ⟨visits, visited, sites⟩ := ih others
      exact ⟨⟨site, before, middle⟩ :: visits, .cons first visited, by simp [sites]⟩
    · cases impossible

theorem goes (visits : Visits job visits before after) : Goes job Move.Ordinary before after := by
  induction visits with
  | nil => exact .refl _
  | cons visit _ ih => exact ((declaration_within _).goes visit survives_ok).trans ih

theorem filterMap_eq {β : Type} {view : Chunk → Option β} {found : Site → List β}
    (started : (Module.prepared job).ExtendedBy before) (chain : Visits job visits before after)
    (later : after.ExtendedBy draft)
    (each : ∀ {site before after}, (Module.prepared job).ExtendedBy before →
      Ends (Module.declaration job site) before (.ok ()) after → after.ExtendedBy draft →
      after.chunks.filterMap view = before.chunks.filterMap view ++ found site) :
    after.chunks.filterMap view = before.chunks.filterMap view ++ (visits.map (·.site)).flatMap found := by
  induction chain with
  | nil => simp
  | @cons site rest before middle after visit others ih =>
    have toMiddle := ((declaration_within site).goes visit survives_ok).extended
    rw [ih (started.trans toMiddle) later, each started visit (others.goes.extended.trans later), map_cons,
      flatMap_cons, append_assoc]

end Visits

theorem Module.run_eq (job : Job) :
    run job = (Halt.ofMisshapen (checkTree job.root) >>= fun _ =>
      Halt.ofMisshapen (job.root.freeFunctions.forM checkOverload) >>= fun _ =>
        match ((visited job).forM (declaration job)).run.run (prepared job) with
        | (.ok (), draft) => .ok draft
        | (.error halt, _) => .error halt) := by
  unfold run Draft.start
  cases checkTree job.root with
  | error cause => rfl
  | ok _ =>
    dsimp only [Halt.ofMisshapen, Except.mapError, bind, Except.bind, pure, Except.pure]
    rw [run_emit]
    cases job.root.freeFunctions.forM checkOverload <;> rfl

theorem Module.ends_of_run (ran : Module.run job = .ok draft) :
    Ends ((visited job).forM (declaration job)) (prepared job) (.ok ()) draft := by
  obtain ⟨start, started, ran⟩ := bind_eq_ok ran
  obtain ⟨_, _, started⟩ := bind_eq_ok started
  cases started
  split at ran
  · rename_i last ends
    cases ran
    exact ends_emit ends survives_ok
  · cases ran

theorem Module.exists_visits (ran : Module.run job = .ok draft) :
    ∃ visits, Visits job visits (prepared job) draft ∧ visits.map (·.site) = visited job :=
  Visits.of_forM (ends_of_run ran)

theorem Module.goes_of_run (ran : Module.run job = .ok draft) : Goes job Move.Ordinary (prepared job) draft := by
  obtain ⟨visits, visited, _⟩ := exists_visits ran
  exact visited.goes

end FlatAbi
