import FlatAbi.Proofs.Emission.Lockstep

/-!
Drafts agree when they have the same flat C output and the same knowledge, whatever their facades and notes are.
-/

namespace FlatAbi

open Emit List Chunk Inheritance

variable {chunks : List Chunk} {declared needs : List Need}

/-- A section of the flat C interface or its source. The section of types counts where `types` says so. -/
def Section.isFlat (types : Bool) : Section → Bool
  | .facadeTypes | .facadeDeclarations | .facadeDefinitions => false
  | .types => types
  | _ => true

def Chunk.isFlat (types : Bool) (chunk : Chunk) : Bool :=
  chunk.home.isFlat types

def flatChunks (types : Bool) (chunks : List Chunk) : List Chunk :=
  chunks.filter (isFlat types)

/-- Two drafts with the same flat output and the same knowledge. What is declared is known where types count. -/
structure Agree (types : Bool) (left right : Draft) : Prop where
  table : left.table = right.table
  symbols : left.symbols = right.symbols
  names : left.names = right.names
  memo : left.memo = right.memo
  exceptions : left.exceptions = right.exceptions
  freeFunctions : left.freeFunctions = right.freeFunctions
  runtimeClass : left.runtimeClass = right.runtimeClass
  chunks : flatChunks types left.chunks = flatChunks types right.chunks
  declared : types → left.declared = right.declared

variable {types : Bool} {left right middle : Draft}

theorem Agree.refl (draft : Draft) : Agree types draft draft :=
  ⟨rfl, rfl, rfl, rfl, rfl, rfl, rfl, rfl, fun _ => rfl⟩

theorem Agree.symm (agree : Agree types left right) : Agree types right left :=
  ⟨agree.table.symm, agree.symbols.symm, agree.names.symm, agree.memo.symm, agree.exceptions.symm,
    agree.freeFunctions.symm, agree.runtimeClass.symm, agree.chunks.symm, fun counted => (agree.declared counted).symm⟩

theorem Agree.trans (first : Agree types left middle) (rest : Agree types middle right) : Agree types left right :=
  ⟨first.table.trans rest.table, first.symbols.trans rest.symbols, first.names.trans rest.names,
    first.memo.trans rest.memo, first.exceptions.trans rest.exceptions,
    first.freeFunctions.trans rest.freeFunctions, first.runtimeClass.trans rest.runtimeClass,
    first.chunks.trans rest.chunks, fun counted => (first.declared counted).trans (rest.declared counted)⟩

theorem Agree.chunksOf_eq (agree : Agree types left right) {target : Section} (flat : target.isFlat types) :
    chunksOf target left.chunks = chunksOf target right.chunks := by
  have visible (chunks : List Chunk) : chunksOf target (flatChunks types chunks) = chunksOf target chunks := by
    unfold chunksOf flatChunks
    rw [filter_filter]
    refine filter_congr fun chunk _ => ?_
    by_cases home : chunk.home = target
    · simp [isFlat, home, flat]
    · simp [home]
  rw [← visible left.chunks, agree.chunks, visible]

theorem Agree.of_chunks {draft : Draft} (same : flatChunks types draft.chunks = flatChunks types chunks) :
    Agree types draft { draft with chunks := chunks } :=
  ⟨rfl, rfl, rfl, rfl, rfl, rfl, rfl, same, fun _ => rfl⟩

theorem Agree.of_events {draft : Draft} {events : List Event} : Agree types draft { draft with events := events } :=
  ⟨rfl, rfl, rfl, rfl, rfl, rfl, rfl, rfl, fun _ => rfl⟩

theorem Agree.isDefined (agree : Agree types left right) (name : String) :
    left.isDefined name = right.isDefined name := by
  rw [Draft.isDefined, Draft.isDefined, agree.symbols]

theorem flatChunks_supply (needs : List Need) : flatChunks false (supply declared needs) = [] := by
  refine filter_eq_nil_iff.mpr fun chunk member => ?_
  obtain ⟨need, _, rfl⟩ := exists_need_of_mem_supply member
  cases need <;> simp [chunkOf, isFlat, Section.isFlat, Chunk.home]

theorem flatChunks_append (one two : List Chunk) :
    flatChunks types (one ++ two) = flatChunks types one ++ flatChunks types two :=
  filter_append one two

theorem Agree.supplied (agree : Agree types left right) (needs : List Need) :
    Agree types (left.supplied needs) (right.supplied needs) := by
  cases types with
  | false =>
    refine { agree with chunks := ?_, declared := fun counted => absurd counted Bool.false_ne_true }
    simp only [Draft.supplied, flatChunks_append, flatChunks_supply, agree.chunks]
  | true =>
    have same := agree.declared rfl
    refine { agree with chunks := ?_, declared := fun _ => ?_ }
    · simp only [Draft.supplied, flatChunks_append, agree.chunks, same]
    · simp only [Draft.supplied, same]

/-- Where types count, what is needed has been declared. -/
def Ready (types : Bool) (needs : List Need) (draft : Draft) : Prop :=
  types → ∀ need ∈ needs, need ∈ draft.declared

theorem Ready.of_agree (agree : Agree types left right) (ready : Ready types needs left) : Ready types needs right := by
  intro counted
  rw [← agree.declared counted]
  exact ready counted

/-- Work on a draft that leaves the flat output and all knowledge as they were, unless a fault ends it. -/
def Hidden {α : Type} (types : Bool) (before : Draft) (work : Emit α) : Prop :=
  ∀ outcome after, Ends work before outcome after → Survives outcome → Agree types before after

namespace Hidden

variable {α β : Type} {before : Draft} {result : Except Halt α} {next : α → Emit β}

theorem pure {value : α} : Hidden types before (pure value) := by
  intro outcome after ends _
  obtain ⟨_, rfl⟩ := ends.of_pure
  exact .refl _

theorem lift : Hidden types before (lift result) := by
  intro outcome after ends _
  obtain ⟨_, rfl⟩ := ends_lift_iff.mp ends
  exact .refl _

theorem check {result : Except Misshapen Unit} : Hidden types before (check result) := lift

theorem append {chunk : Chunk} (hidden : chunk.isFlat types = false) : Hidden types before (append chunk) := by
  intro outcome after ends _
  obtain ⟨_, rfl⟩ := ends_modify_iff.mp ends
  exact .of_chunks (by simp [flatChunks, hidden])

theorem tell {event : Event} : Hidden types before (tell event) := by
  intro outcome after ends _
  obtain ⟨_, rfl⟩ := ends_modify_iff.mp ends
  exact .of_events

theorem tellUnknownBases {cls : Site} : Hidden types before (tellUnknownBases cls) := by
  intro outcome after ends _
  obtain ⟨_, rfl⟩ := (ends_iff_of_run (run_tellUnknownBases cls before)).mp ends
  exact .of_events

theorem require (ready : Ready types needs before) : Hidden types before (require needs) := by
  intro outcome after ends _
  obtain ⟨_, rfl⟩ := ends_require_iff.mp ends
  cases types with
  | false =>
    refine { (.refl before : Agree false before before) with
      chunks := ?_, declared := fun counted => absurd counted Bool.false_ne_true }
    rw [Draft.supplied, flatChunks_append, flatChunks_supply, append_nil]
  | true =>
    rw [Draft.supplied_of_present (ready rfl)]
    exact .refl before

theorem bind {work : Emit α} (first : Hidden types before work)
    (rest : ∀ value middle, Agree types before middle → Hidden types middle (next value)) :
    Hidden types before (work >>= next) := by
  intro outcome after ends survives
  rcases ends.bind_survived survives with ⟨value, middle, began, ended⟩ | ⟨_, _, began, _⟩
  · have agree := first _ _ began survives_ok
    exact agree.trans (rest value middle agree _ _ ended survives)
  · exact first _ _ began survives_rejected

theorem lift_bind (rest : ∀ value, result = .ok value → Hidden types before (next value)) :
    Hidden types before (Emit.lift result >>= next) := by
  intro outcome after ends survives
  rcases ends.lift_bind with ⟨value, same, ended⟩ | ⟨_, _, _, rfl⟩
  · exact rest value same _ _ ended survives
  · exact .refl _

theorem get_bind {next : Draft → Emit β} (rest : Hidden types before (next before)) :
    Hidden types before (get >>= next) :=
  fun _ _ ends survives => rest _ _ (ends_get_bind.mp ends) survives

theorem resolver_bind {job : Job} {next : Resolver → Emit β}
    (rest : Hidden types before (next ⟨job.config, before.table⟩)) :
    Hidden types before (resolver job >>= next) :=
  fun _ _ ends survives => rest _ _ (ends_resolver_bind.mp ends) survives

theorem forM {f : α → Emit PUnit} (items : List α) (each : ∀ item draft, Hidden types draft (f item)) :
    Hidden types before (items.forM f) := by
  induction items generalizing before with
  | nil => exact .pure
  | cons item rest ih => exact .bind (each item before) fun _ _ _ => ih

end Hidden

/-- Runs are compared by their flat output, unless a fault ends one of them. -/
def flatly (types : Bool) : Comparison where
  Rel := Agree types
  SameRejection _ _ _ _ := True
  faults := false

instance : (flatly types).Lawful where
  append chunk agree := { (agree : Agree types _ _) with
    chunks := by rw [flatChunks_append, flatChunks_append, Agree.chunks agree] }
  require needs agree := Agree.supplied agree needs
  tell _ agree := { (agree : Agree types _ _) with }
  record _ agree := { (agree : Agree types _ _) with symbols := by rw [Agree.symbols agree] }
  same _ _ := trivial
  reported _ _ agree := { (agree : Agree types _ _) with }

/-- Two pieces of work keep drafts in agreement and come to the same outcome, unless a fault ends one of them. -/
abbrev Alike {α β : Type} (types : Bool) (one : Emit α) (two : Emit β) (Same : α → β → Prop) : Prop :=
  Lockstep (flatly types) one two Same

namespace Alike

variable {α β γ δ : Type} {one : Emit α} {two : Emit β} {Same : α → β → Prop}

theorem tell {event other : Event} : Alike types (tell event) (tell other) Eq :=
  .modify fun left right (agree : Agree types left right) => { agree with }

theorem inherit {query : SymbolTable → Memo → α × Memo} :
    Alike types (inherit query) (inherit query) Eq := by
  intro left right agree first second lastLeft lastRight began ended counts countsToo
  obtain ⟨rfl, rfl⟩ := ends_inherit began (counts rfl)
  obtain ⟨rfl, rfl⟩ := ends_inherit ended (countsToo rfl)
  have same : query left.table left.memo = query right.table right.memo := by
    rw [Agree.table agree, Agree.memo agree]
  exact ⟨{ agree with memo := congrArg Prod.snd same }, congrArg Prod.fst same⟩

theorem forM {f g : α → Emit PUnit} (items : List α) (each : ∀ item, Alike types (f item) (g item) Eq) :
    Alike types (items.forM f) (items.forM g) Eq :=
  Lockstep.forM (forall₂_same.mpr fun item _ => each item)

theorem foldlM {f : α → γ → Emit α} {g : β → γ → Emit β} (items : List γ)
    (each : ∀ a b item, Same a b → Alike types (f a item) (g b item) Same) {a : α} {b : β} (same : Same a b) :
    Alike types (items.foldlM f a) (items.foldlM g b) Same := by
  refine Lockstep.foldlM (forall₂_eq_eq_eq ▸ rfl : Forall₂ Eq items items) ?_ same
  rintro a b item _ same rfl
  exact each a b item same

theorem hidden (first : ∀ draft, Hidden types draft one) (second : ∀ draft, Hidden types draft two)
    (never : NeverRejects one) (neverToo : NeverRejects two) : Alike types one two fun _ _ => True := by
  intro left right agree firstOutcome secondOutcome lastLeft lastRight began ended survives survived
  replace survives := survives rfl
  replace survived := survived rfl
  refine ⟨(first left _ _ began survives).symm.trans (Agree.trans agree (second right _ _ ended survived)), ?_⟩
  obtain ⟨_, rfl⟩ := never.value began survives
  obtain ⟨_, rfl⟩ := neverToo.value ended survived
  trivial

/-- Where hidden work follows, drafts stay in agreement even if the outcomes differ. -/
theorem agree_of_hidden {nextOne : α → Emit γ} {nextTwo : β → Emit δ} {firstOutcome : Except Halt γ}
    {secondOutcome : Except Halt δ} {lastLeft lastRight : Draft} (first : Alike types one two Same)
    (restOne : ∀ value before middle, Ends one before (.ok value) middle → Hidden types middle (nextOne value))
    (restTwo : ∀ value before middle, Ends two before (.ok value) middle → Hidden types middle (nextTwo value))
    (agree : Agree types left right) (began : Ends (one >>= nextOne) left firstOutcome lastLeft)
    (ended : Ends (two >>= nextTwo) right secondOutcome lastRight) (survives : Survives firstOutcome)
    (survived : Survives secondOutcome) : Agree types lastLeft lastRight := by
  rcases first.bind_cases agree began ended (fun _ => survives) (fun _ => survived) with
    ⟨a, b, middleLeft, middleRight, _, middle, startLeft, endLeft, startRight, endRight⟩ | ⟨last, _⟩
  · have hidden := restOne a left middleLeft startLeft _ _ endLeft survives
    have hiddenToo := restTwo b right middleRight startRight _ _ endRight survived
    exact hidden.symm.trans (Agree.trans middle hiddenToo)
  · exact last

end Alike

theorem Emit.Ends.recover_hidden {α : Type} {work : Emit α} {handler : Halt → Emit α} {outcome : Except Halt α}
    {before after : Draft} (ends : Ends (tryCatch work handler) before outcome after)
    (passed : ∀ cause, handler (.fault cause) = throw (.fault cause))
    (hidden : ∀ message site draft, Hidden types draft (handler (.rejected message site)))
    (survives : Survives outcome) :
    ∃ first middle, Ends work before first middle ∧ Survives first ∧ Agree types middle after := by
  rcases ends.recover_cases passed survives with ⟨value, ended, rfl⟩ | ⟨message, site, middle, began, ended⟩
  · exact ⟨_, after, ended, survives_ok, .refl _⟩
  · exact ⟨_, middle, began, survives_rejected, hidden message site middle _ _ ended survives⟩

end FlatAbi
