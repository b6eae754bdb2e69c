import FlatAbi.Proofs.Emission.Agreement
import FlatAbi.Proofs.Emission.Members
import FlatAbi.Proofs.Inheritance.Agreement

/-!
A run that is ahead of another one by a class. All that both do from there on leaves it ahead by the same, as long as
the symbols of the other run spare those of the class.
-/

namespace FlatAbi

open Emit Inheritance SymbolTable List

variable {cls : Site}

def NodeId.isRuntime : NodeId → Bool
  | .runtime _ => true
  | _ => false

/-- A name that does not stand for the exception class. -/
def SymbolTable.IsOrdinary (name : String) : Prop :=
  normalizeName name ≠ Facade.exceptionClass

instance (name : String) : Decidable (IsOrdinary name) :=
  inferInstanceAs (Decidable (_ ≠ _))

/-- A declaration of the tree that does not refer to the exception class. -/
structure Site.Ordinary (s : Site) : Prop where
  declared : s.id.isRuntime = false
  types : ∀ t ∈ s.decl.types, IsOrdinary t.base
  bases : ∀ base ∈ s.decl.baseNames, IsOrdinary base
  named : s.kind = .classDecl → IsOrdinary s.qualifiedName

/-- A declaration that does not refer to the exception class, with the declarations directly below it. -/
structure Site.Familiar (s : Site) : Prop extends s.Ordinary where
  children : ∀ child ∈ s.children, child.Ordinary

/-- A chunk of the interface: a type or a declaration. -/
def Chunk.isInterface (chunk : Chunk) : Bool :=
  chunk.home == .types || chunk.home == .declarations

def interfaceChunks (chunks : List Chunk) : List Chunk :=
  chunks.filter Chunk.isInterface

theorem interfaceChunks_append (one two : List Chunk) :
    interfaceChunks (one ++ two) = interfaceChunks one ++ interfaceChunks two :=
  filter_append one two

theorem interfaceChunks_hidden {chunk : Chunk} (hidden : chunk.isInterface = false) : interfaceChunks [chunk] = [] := by
  simp [interfaceChunks, hidden]

/-- What a run is ahead by: the chunks and symbols that its interface begins with, and the names that it knows. -/
structure Lead where
  table : SymbolTable
  ahead : SymbolTable
  chunks : List Chunk
  symbols : List Symbol
  same : table.SameSeen IsOrdinary ahead
  known : ∀ entry ∈ table.classes, entry.2.Familiar

/-- One run is ahead of another by a lead. -/
structure Ahead (lead : Lead) (left right : Draft) : Prop where
  table : left.table = lead.table
  ahead : right.table = lead.ahead
  chunks : interfaceChunks right.chunks = lead.chunks ++ interfaceChunks left.chunks
  declared : left.declared = right.declared
  symbols : right.symbols = lead.symbols ++ left.symbols
  names : ∀ key : NameKey, key.node.isRuntime = false → left.names.lookup key = right.names.lookup key
  memo : SameMemo (fun id => id.isRuntime = false) left.memo right.memo
  shadows : left.memo.All fun m => m.member.Ordinary
  freeFunctions : left.freeFunctions = right.freeFunctions
  runtimeClass : ∀ id : NodeId, id.isRuntime = false →
    (left.runtimeClass.map (·.id) = some id ↔ right.runtimeClass.map (·.id) = some id)

variable {lead : Lead} {left right : Draft}

namespace Ahead

theorem append (ahead : Ahead lead left right) {added addedToo : List Chunk}
    (same : interfaceChunks added = interfaceChunks addedToo) :
    Ahead lead { left with chunks := left.chunks ++ added } { right with chunks := right.chunks ++ addedToo } :=
  { ahead with
    chunks := by rw [interfaceChunks_append, interfaceChunks_append, ahead.chunks, same, append_assoc] }

theorem supplied (ahead : Ahead lead left right) (needs : List Need) :
    Ahead lead (left.supplied needs) (right.supplied needs) := by
  have same := ahead.declared
  refine { ahead with chunks := ?_, declared := ?_ }
  · simp only [Draft.supplied, same, interfaceChunks_append, ahead.chunks, append_assoc]
  · simp only [Draft.supplied, same]

theorem record (ahead : Ahead lead left right) (symbol : Symbol) :
    Ahead lead { left with symbols := left.symbols ++ [symbol] } { right with symbols := right.symbols ++ [symbol] } :=
  { ahead with symbols := by rw [ahead.symbols, append_assoc] }

theorem tell (ahead : Ahead lead left right) (events eventsToo : List Event) :
    Ahead lead { left with events := events } { right with events := eventsToo } :=
  { ahead with }

end Ahead

/-- Runs are compared by how far one is ahead, unless a fault ends one of them. -/
def comparedAhead (lead : Lead) : Comparison where
  Rel := Ahead lead
  SameRejection _ _ _ _ := True
  faults := false

instance : (comparedAhead lead).Lawful where
  append _ ahead := Ahead.append ahead rfl
  require needs ahead := Ahead.supplied ahead needs
  tell _ ahead := Ahead.tell ahead _ _
  record symbol ahead := Ahead.record ahead symbol
  same _ _ := trivial
  reported _ _ ahead := Ahead.tell ahead _ _

/-- Two pieces of work leave the second run ahead as it was and come to the same outcome, unless a fault ends one. -/
abbrev Trails {α β : Type} (lead : Lead) (one : Emit α) (two : Emit β) (Same : α → β → Prop) : Prop :=
  Lockstep (comparedAhead lead) one two Same

namespace Trails

variable {α β : Type} {job : Job} {result : Except Halt α}

theorem resolver : Trails lead (resolver job) (resolver job) fun r s =>
    r = ⟨job.config, lead.table⟩ ∧ s = ⟨job.config, lead.ahead⟩ :=
  .bind .get fun left right (ahead : Ahead lead left right) => .pure ⟨by rw [ahead.table], by rw [ahead.ahead]⟩

theorem tell {event other : Event} : Trails lead (tell event) (tell other) Eq :=
  .modify fun left right (ahead : Ahead lead left right) => ahead.tell _ _

theorem tellUnknownBases (cls : Site) : Trails lead (tellUnknownBases cls) (tellUnknownBases cls) Eq := by
  intro left right ahead first second lastLeft lastRight began ended _ _
  obtain ⟨rfl, rfl⟩ := (ends_iff_of_run (run_tellUnknownBases cls left)).mp began
  obtain ⟨rfl, rfl⟩ := (ends_iff_of_run (run_tellUnknownBases cls right)).mp ended
  exact ⟨Ahead.tell ahead _ _, rfl⟩

theorem append_hidden {chunk other : Chunk} (hidden : chunk.isInterface = false)
    (hiddenToo : other.isInterface = false) :
    Trails lead (append chunk) (append other) Eq :=
  .modify fun left right (ahead : Ahead lead left right) => ahead.append <| by
    rw [interfaceChunks_hidden hidden, interfaceChunks_hidden hiddenToo]

theorem lift_found {other : Except Halt α} (same : result = other) :
    Trails lead (lift result) (lift other) fun one two => one = two ∧ result = .ok one := by
  subst same
  refine .lift_of fun _ _ => ?_
  cases result with
  | ok value => exact ⟨rfl, rfl⟩
  | error halt => cases halt <;> trivial

theorem lift_onlyFaults {other : Except Halt β} (onlyFaults : OnlyFaults result) (onlyFaultsToo : OnlyFaults other) :
    Trails lead (lift result) (lift other) fun _ _ => True := by
  refine .lift_of fun counts countsToo => ?_
  obtain ⟨_, rfl⟩ := onlyFaults.value_of_survives (counts rfl)
  obtain ⟨_, rfl⟩ := onlyFaultsToo.value_of_survives (countsToo rfl)
  trivial

theorem forM {f g : α → Emit PUnit} {items : List α} (each : ∀ item ∈ items, Trails lead (f item) (g item) Eq) :
    Trails lead (items.forM f) (items.forM g) Eq :=
  Lockstep.forM (forall₂_same.mpr each)

end Trails

theorem usableBases_agree {Seen : String → Prop} {table table' : SymbolTable} (same : table.SameSeen Seen table')
    (bases : ∀ base ∈ cls.decl.baseNames, Seen base) :
    usableBases table cls = usableBases table' cls :=
  filterMap_congr fun base listed => by rw [same.classes base _ (bases base listed)]

namespace Lead

theorem known_of_usable (lead : Lead) {base : Site} (usable : base ∈ usableBases lead.table cls) :
    ∃ key, (key, base) ∈ lead.table.classes := by
  obtain ⟨name, _, found⟩ := mem_filterMap.mp usable
  exact exists_entry_of_find (Option.filter_eq_some_iff.mp found).1

theorem sameBases (lead : Lead) (ordinary : cls.Ordinary) :
    SameBases (fun id => id.isRuntime = false) (fun s => s = cls ∨ ∃ key, (key, s) ∈ lead.table.classes) lead.table
      lead.ahead where
  known := by
    rintro s (rfl | ⟨key, listed⟩)
    · exact ordinary.declared
    · exact (lead.known _ listed).declared
  bases := by
    rintro s (rfl | ⟨key, listed⟩)
    · exact usableBases_agree lead.same ordinary.bases
    · exact usableBases_agree lead.same (lead.known _ listed).bases
  closed _ _ _ usable := .inr (lead.known_of_usable usable)

theorem offered (lead : Lead) (cls : Site) :
    ∀ base ∈ usableBases lead.table cls, ∀ m ∈ handedDown base, m.member.Ordinary := by
  intro base usable m handed
  obtain ⟨key, listed⟩ := lead.known_of_usable usable
  obtain ⟨child, member, rfl⟩ := mem_map.mp handed
  exact (lead.known _ listed).children child (mem_filter.mp member).1

end Lead

namespace Trails

theorem inherit {α : Type} {query : SymbolTable → Memo → α × Memo} {Good : α → Prop}
    (same : ∀ left right, Ahead lead left right →
      SameState (fun id => id.isRuntime = false) (query left.table left.memo) (query right.table right.memo) ∧
        Good (query left.table left.memo).1 ∧ (query left.table left.memo).2.All fun m => m.member.Ordinary) :
    Trails lead (inherit query) (inherit query) fun one two => one = two ∧ Good one := by
  intro left right ahead first second lastLeft lastRight began ended counts countsToo
  obtain ⟨rfl, rfl⟩ := ends_inherit began (counts rfl)
  obtain ⟨rfl, rfl⟩ := ends_inherit ended (countsToo rfl)
  have ahead : Ahead lead left right := ahead
  obtain ⟨⟨answers, memos⟩, good, shadows⟩ := same left right ahead
  exact ⟨{ ahead with memo := memos, shadows := shadows }, answers, good⟩

theorem flatten (ordinary : cls.Ordinary) :
    Trails lead (Emit.inherit fun table memo => Inheritance.flatten table memo cls)
      (Emit.inherit fun table memo => Inheritance.flatten table memo cls)
      fun one two => one = two ∧ ∀ m ∈ one, m.member.Ordinary := by
  refine inherit fun left right ahead => ?_
  rw [ahead.table, ahead.ahead]
  exact ⟨flatten_same (lead.sameBases ordinary) ahead.memo (.inl rfl),
    (fitting_all (fun _ good => good) lead.offered).flattenWithin _ ahead.shadows trivial⟩

theorem isAbstract (ordinary : cls.Ordinary) :
    Trails lead (Emit.inherit fun table memo => Inheritance.isAbstract table memo cls)
      (Emit.inherit fun table memo => Inheritance.isAbstract table memo cls) fun one two => one = two ∧ True := by
  refine inherit fun left right ahead => ?_
  rw [ahead.table, ahead.ahead]
  exact ⟨isAbstract_same (lead.sameBases ordinary) ahead.memo (.inl rfl), trivial,
    (fitting_all (fun _ good => good) lead.offered).isAbstract ahead.shadows trivial⟩

end Trails

/-- No symbol of a draft has the name of one that the other run is ahead by. -/
def Lead.SparedBy (lead : Lead) (draft : Draft) : Prop :=
  ∀ symbol ∈ draft.symbols, ∀ own ∈ lead.symbols, symbol.name ≠ own.name

theorem Lead.SparedBy.of_extended {before after : Draft} (spared : lead.SparedBy after)
    (later : before.ExtendedBy after) :
    lead.SparedBy before :=
  fun symbol listed => spared symbol (later.symbols.subset listed)

/-- Two pieces of work leave the second run ahead as it was and come to the same outcome, unless a fault ends one, and
provided that the symbols of the first run are spared in the end. -/
def Foreseen {α β : Type} (lead : Lead) (one : Emit α) (two : Emit β) (Same : α → β → Prop) : Prop :=
  ∀ left right, Ahead lead left right → ∀ {first second lastLeft lastRight},
    Ends one left first lastLeft → Ends two right second lastRight → Survives first → Survives second →
      lead.SparedBy lastLeft → Ahead lead lastLeft lastRight ∧ (comparedAhead lead).SameOutcome Same first second

namespace Foreseen

variable {α β γ δ : Type} {one : Emit α} {two : Emit β} {Same : α → β → Prop} {Next : γ → δ → Prop}
  {nextOne : α → Emit γ} {nextTwo : β → Emit δ}

theorem of_trails (trails : Trails lead one two Same) : Foreseen lead one two Same :=
  fun left right ahead _ _ _ _ began ended survives survived _ =>
    trails left right ahead began ended (fun _ => survives) fun _ => survived

theorem bind_trails (first : Trails lead one two Same)
    (rest : ∀ a b, Same a b → Foreseen lead (nextOne a) (nextTwo b) Next) :
    Foreseen lead (one >>= nextOne) (two >>= nextTwo) Next := by
  intro left right ahead firstOutcome secondOutcome lastLeft lastRight began ended survives survived spared
  rcases first.bind_cases ahead began ended (fun _ => survives) (fun _ => survived) with
    ⟨a, b, _, _, same, middle, _, endLeft, _, endRight⟩ | ⟨last, _, _, rfl, rfl, same⟩
  · exact rest a b same _ _ middle endLeft endRight survives survived spared
  · exact ⟨last, same⟩

theorem bind_eq {other : Emit α} {nextTwo : α → Emit δ} (first : Trails lead one other Eq)
    (rest : ∀ value, Foreseen lead (nextOne value) (nextTwo value) Next) :
    Foreseen lead (one >>= nextOne) (other >>= nextTwo) Next :=
  bind_trails first fun value _ same => same ▸ rest value

/-- What follows only adds symbols, so those of the first part are spared where those of the whole are. -/
theorem bind (job : Job) (first : Foreseen lead one two Same) (within : ∀ a, Within job Move.Ordinary (nextOne a))
    (rest : ∀ a b, Same a b → Foreseen lead (nextOne a) (nextTwo b) Next) :
    Foreseen lead (one >>= nextOne) (two >>= nextTwo) Next := by
  intro left right ahead firstOutcome secondOutcome lastLeft lastRight began ended survives survived spared
  rcases began.bind_survived survives with ⟨a, middleLeft, startLeft, endLeft⟩ | ⟨_, _, startLeft, rfl⟩
  · have sparedBefore := spared.of_extended ((within a).goes endLeft survives).extended
    rcases ended.bind_survived survived with ⟨b, middleRight, startRight, endRight⟩ | ⟨_, _, startRight, rfl⟩
    · obtain ⟨middle, same⟩ := first left right ahead startLeft startRight survives_ok survives_ok sparedBefore
      exact rest a b same _ _ middle endLeft endRight survives survived spared
    · exact (first left right ahead startLeft startRight survives_ok survives_rejected sparedBefore).2.elim
  · rcases ended.bind_survived survived with ⟨b, middleRight, startRight, endRight⟩ | ⟨_, _, startRight, rfl⟩
    · exact (first left right ahead startLeft startRight survives_rejected survives_ok spared).2.elim
    · exact first left right ahead startLeft startRight survives_rejected survives_rejected spared

theorem forM (job : Job) {f g : α → Emit PUnit} {items : List α}
    (each : ∀ item ∈ items, Foreseen lead (f item) (g item) Eq)
    (within : ∀ item ∈ items, Within job Move.Ordinary (f item)) :
    Foreseen lead (items.forM f) (items.forM g) Eq := by
  induction items with
  | nil => exact of_trails (.pure rfl)
  | cons item rest ih =>
    have later (other : α) (member : other ∈ rest) : Within job Move.Ordinary (f other) :=
      within other (by simp [member])
    exact bind job (each item (by simp)) (fun _ => .forM later) fun _ _ _ =>
      ih (fun other member => each other (by simp [member])) later

theorem foldlM (job : Job) {f : α → γ → Emit α} {g : α → γ → Emit α} {items : List γ}
    (each : ∀ state, ∀ item ∈ items, Foreseen lead (f state item) (g state item) Eq)
    (within : ∀ state, ∀ item ∈ items, Within job Move.Ordinary (f state item)) (start : α) :
    Foreseen lead (items.foldlM f start) (items.foldlM g start) Eq := by
  induction items generalizing start with
  | nil => exact of_trails (.pure rfl)
  | cons item rest ih =>
    have later (state : α) (other : γ) (member : other ∈ rest) : Within job Move.Ordinary (f state other) :=
      within state other (by simp [member])
    rw [foldlM_cons, foldlM_cons]
    refine bind job (each start item (by simp)) (fun state => .foldlM later state) ?_
    rintro state _ rfl
    exact ih (fun state other member => each state other (by simp [member])) later state

theorem recover (job : Job) {handler : Halt → Emit α} {other : Halt → Emit β} (first : Foreseen lead one two Same)
    (within : ∀ message site, Within job Move.Ordinary (handler (.rejected message site)))
    (rejected : ∀ m s n t, Foreseen lead (handler (.rejected m s)) (other (.rejected n t)) Same)
    (passed : ∀ cause, handler (.fault cause) = MonadExcept.throw (.fault cause))
    (passedToo : ∀ cause, other (.fault cause) = MonadExcept.throw (.fault cause)) :
    Foreseen lead (tryCatch one handler) (tryCatch two other) Same := by
  intro left right ahead firstOutcome secondOutcome lastLeft lastRight began ended survives survived spared
  rcases began.recover_cases passed survives with ⟨a, endLeft, rfl⟩ | ⟨m, s, middleLeft, startLeft, endLeft⟩
  · rcases ended.recover_cases passedToo survived with ⟨b, endRight, rfl⟩ | ⟨n, t, middleRight, startRight, _⟩
    · exact first left right ahead endLeft endRight survives_ok survives_ok spared
    · exact (first left right ahead endLeft startRight survives_ok survives_rejected spared).2.elim
  · have sparedBefore := spared.of_extended ((within m s).goes endLeft survives).extended
    rcases ended.recover_cases passedToo survived with ⟨b, endRight, rfl⟩ | ⟨n, t, middleRight, startRight, endRight⟩
    · exact (first left right ahead startLeft endRight survives_rejected survives_ok sparedBefore).2.elim
    · obtain ⟨middle, _⟩ := first left right ahead startLeft startRight survives_rejected survives_rejected sparedBefore
      exact rejected m s n t _ _ middle endLeft endRight survives survived spared

theorem guarded (job : Job) {one two : Emit Unit} {site : Site} (first : Foreseen lead one two Eq) :
    Foreseen lead (guarded site one) (guarded site two) Eq :=
  recover job first (fun _ _ => report_within .error _ _) (fun _ _ _ _ => of_trails Trails.tell)
    (fun _ => rfl) fun _ => rfl

end Foreseen

end FlatAbi
