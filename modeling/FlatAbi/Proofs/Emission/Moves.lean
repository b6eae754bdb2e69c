import FlatAbi.Emission.Module
import FlatAbi.Proofs.Inheritance.Memo
import FlatAbi.Proofs.Wrapper.Outcome
import Mathlib.Logic.Relation

/-!
A run as a sequence of moves. What one move preserves is preserved by a run.
-/

namespace FlatAbi

open List Emit Wrapper Chunk Draft Inheritance

variable {move : Move} {needs : List Need}

/-- The definition and the prototype of a wrapper. -/
def Chunk.isWrapper : Chunk → Bool
  | .definition _ | .prototype _ => true
  | _ => false

/-- The beginning or the end of a facade class. -/
inductive Bracket where
  | opens (className : String)
  | closes (className : String)
  deriving DecidableEq, Repr

def Chunk.bracket? : Chunk → Option Bracket
  | .facadeOpen className _ => some (.opens className)
  | .facadeClose fin => some (.closes fin.className)
  | _ => none

/-- A chunk that belongs to no wrapper, declares no class or enum, and neither begins nor ends a facade class. -/
def Chunk.isMinor : Chunk → Bool
  | .verbatim .. | .importHeader _ | .boolSupport | .opaqueType _ | .constant .. | .variableDeclaration _ => true
  | .facadeMember _ | .facadeDefinition _ => true
  | _ => false

/-- A member of a facade class, declared inside of it or defined outside. -/
def Chunk.isFacadeMember : Chunk → Bool
  | .facadeMember _ | .facadeDefinition _ => true
  | _ => false

/-- What a chunk declares for whatever needs it. -/
def Chunk.need? : Chunk → Option Need
  | .boolSupport => some .boolSupport
  | .opaqueType name => some (.opaqueType name)
  | _ => none

theorem Chunk.need?_eq_some_iff {chunk : Chunk} {need : Need} :
    chunk.need? = some need ↔ chunk = Emit.chunkOf need := by
  cases chunk <;> cases need <;> simp [need?, Emit.chunkOf]

inductive Move where
  | append (chunk : Chunk)
  | tell (event : Event)
  | record (symbol : Symbol)
  | name (book : NameBook)
  | learn (memo : Memo)
  | wrap (c : Callable) (written : Written)

namespace Move

/-- A move that is no wrapper brings neither its chunks nor its symbol. -/
def Ordinary : Move → Prop
  | .append chunk => chunk.isWrapper = false
  | .record symbol => symbol.kind ≠ .function
  | _ => True

/-- A move between the beginning and the end of a facade class, or outside of all. -/
def Inner : Move → Prop
  | .append chunk => chunk.isWrapper = false ∧ chunk.bracket? = none
  | .record symbol => symbol.kind ≠ .function
  | _ => True

theorem Inner.ordinary (inner : move.Inner) : move.Ordinary := by
  cases move with
  | append chunk => exact inner.1
  | record symbol => exact inner
  | _ => trivial

/-- A kind of moves that has all notes, and all minor chunks but the members of facade classes. -/
class Jotting (allowed : Move → Prop) : Prop where
  jot : ∀ chunk : Chunk, chunk.isMinor → chunk.isFacadeMember = false → allowed (.append chunk)
  tell : ∀ event, allowed (.tell event)

/-- A kind of moves that also has all symbols that are no functions. -/
class Recording (allowed : Move → Prop) : Prop extends Jotting allowed where
  record : ∀ symbol : Symbol, symbol.kind ≠ .function → allowed (.record symbol)

/-- A kind of moves that also has all queries. -/
class Booking (allowed : Move → Prop) : Prop extends Recording allowed where
  learn : ∀ memo, allowed (.learn memo)

/-- A kind of moves that has all minor chunks and all notes. -/
class Noting (allowed : Move → Prop) : Prop where
  append : ∀ chunk : Chunk, chunk.isMinor → allowed (.append chunk)
  tell : ∀ event, allowed (.tell event)

/-- A kind of moves that has all wrappers and minor chunks, and all notes and queries. -/
class Lenient (allowed : Move → Prop) : Prop extends Noting allowed where
  record : ∀ symbol : Symbol, symbol.kind ≠ .function → allowed (.record symbol)
  name : ∀ book, allowed (.name book)
  learn : ∀ memo, allowed (.learn memo)
  wrap : ∀ c written, allowed (.wrap c written)

instance {allowed : Move → Prop} [noting : Noting allowed] : Jotting allowed where
  jot chunk minor _ := noting.append chunk minor
  tell := noting.tell

instance {allowed : Move → Prop} [lenient : Lenient allowed] : Booking allowed where
  record := lenient.record
  learn := lenient.learn

instance : Lenient Inner where
  append chunk minor := by cases chunk <;> first | exact ⟨rfl, rfl⟩ | cases minor
  tell _ := trivial
  record _ other := other
  name _ := trivial
  learn _ := trivial
  wrap _ _ := trivial

instance : Lenient Ordinary where
  append chunk minor := (Noting.append chunk minor : Inner _).ordinary
  tell _ := trivial
  record _ other := other
  name _ := trivial
  learn _ := trivial
  wrap _ _ := trivial

end Move

/-- What a move does to a draft. What the header needs is declared only while it is missing, and a wrapper with an
object is written for C++ only. -/
inductive Step (job : Job) : Move → Draft → Draft → Prop where
  | append (draft : Draft) (chunk : Chunk) (once : ∀ need ∈ chunk.need?, need ∉ draft.declared) :
      Step job (.append chunk) draft
        { draft with chunks := draft.chunks ++ [chunk], declared := draft.declared ++ chunk.need?.toList }
  | tell (draft : Draft) (event : Event) :
      Step job (.tell event) draft { draft with events := draft.events ++ [event] }
  | record (draft : Draft) (symbol : Symbol) :
      Step job (.record symbol) draft { draft with symbols := draft.symbols ++ [symbol] }
  | name (draft : Draft) (book : NameBook) : Step job (.name book) draft { draft with names := book }
  | learn (draft : Draft) (memo : Memo) (kept : draft.memo.KeptBy memo) :
      Step job (.learn memo) draft { draft with memo := memo }
  | wrap {c : Callable} {written : Written} {before after : Draft}
      (object : c.role.hasSelf → job.config.cplusplus)
      (ends : Ends (write job c) before (.ok (some written)) after) :
      Step job (.wrap c written) before after

/-- A later draft of a run has all chunks, symbols and answers of an earlier one, and the same types to refer to. -/
structure Draft.ExtendedBy (before after : Draft) : Prop where
  table : before.table = after.table
  runtimeClass : before.runtimeClass = after.runtimeClass
  chunks : before.chunks <+: after.chunks
  symbols : before.symbols <+: after.symbols
  memo : before.memo.KeptBy after.memo

namespace Draft.ExtendedBy

variable {before middle after : Draft}

theorem refl (draft : Draft) : draft.ExtendedBy draft :=
  ⟨rfl, rfl, prefix_rfl, prefix_rfl, .refl _⟩

theorem trans (first : before.ExtendedBy middle) (rest : middle.ExtendedBy after) : before.ExtendedBy after :=
  ⟨first.table.trans rest.table, first.runtimeClass.trans rest.runtimeClass, first.chunks.trans rest.chunks,
    first.symbols.trans rest.symbols, first.memo.trans rest.memo⟩

end Draft.ExtendedBy

variable {before after : Draft}

theorem Step.extended {job : Job} (moves : Step job move before after) : before.ExtendedBy after := by
  cases moves with
  | append => exact ⟨rfl, rfl, prefix_append _ _, prefix_rfl, .refl _⟩
  | tell | name => exact ⟨rfl, rfl, prefix_rfl, prefix_rfl, .refl _⟩
  | record => exact ⟨rfl, rfl, prefix_rfl, prefix_append _ _, .refl _⟩
  | learn _ _ kept => exact ⟨rfl, rfl, prefix_rfl, prefix_rfl, kept⟩
  | wrap object ends =>
    cases writeEnd_of_ends ends survives_ok with
    | published renders named fresh =>
      refine ⟨rfl, rfl, ?_, prefix_append _ _, .refl _⟩
      simp [Rendering.publishedIn, append_assoc]

/-- One draft is reached from another by moves of an allowed kind. -/
def Goes (job : Job) (allowed : Move → Prop) : Draft → Draft → Prop :=
  Relation.ReflTransGen fun before after => ∃ move, allowed move ∧ Step job move before after

namespace Goes

variable {job : Job} {allowed wider : Move → Prop} {before middle after : Draft}

theorem refl (draft : Draft) : Goes job allowed draft draft := Relation.ReflTransGen.refl

theorem trans (first : Goes job allowed before middle) (rest : Goes job allowed middle after) :
    Goes job allowed before after :=
  Relation.ReflTransGen.trans first rest

theorem step (moves : Step job move before after) (permitted : allowed move) : Goes job allowed before after :=
  Relation.ReflTransGen.single ⟨move, permitted, moves⟩

theorem mono (implies : ∀ move, allowed move → wider move) (goes : Goes job allowed before after) :
    Goes job wider before after := by
  induction goes with
  | refl => exact refl before
  | tail _ last ih =>
    obtain ⟨move, permitted, moves⟩ := last
    exact ih.trans (step moves (implies move permitted))

theorem extended (goes : Goes job allowed before after) : before.ExtendedBy after := by
  induction goes with
  | refl => exact .refl before
  | tail _ last ih =>
    obtain ⟨_, _, moves⟩ := last
    exact ih.trans moves.extended

theorem tells {told : List Event} (permitted : ∀ event ∈ told, allowed (.tell event)) (draft : Draft) :
    Goes job allowed draft { draft with events := draft.events ++ told } := by
  induction told generalizing draft with
  | nil =>
    rw [append_nil]
    exact refl draft
  | cons event rest ih =>
    have others := ih (fun other member => permitted other (by simp [member]))
      { draft with events := draft.events ++ [event] }
    rw [append_assoc] at others
    exact (step (.tell draft event) (permitted event (by simp))).trans others

theorem supplies (permitted : ∀ need ∈ needs, allowed (.append (Emit.chunkOf need))) (draft : Draft) :
    Goes job allowed draft (draft.supplied needs) := by
  induction needs generalizing draft with
  | nil =>
    rw [supplied_nil]
    exact refl draft
  | cons need rest ih =>
    have others := fun draft => ih (fun other member => permitted other (mem_cons_of_mem need member)) draft
    by_cases present : need ∈ draft.declared
    · have same : draft.supplied [need] = draft := supplied_of_present (by simpa using present)
      rw [← singleton_append, supplied_append, same]
      exact others draft
    · have needed : (Emit.chunkOf need).need? = some need := need?_eq_some_iff.mpr rfl
      have added : Step job _ draft _ := .append draft (Emit.chunkOf need) (by simpa [needed] using present)
      rw [needed] at added
      rw [supplied_of_absent present]
      exact (step added (permitted need mem_cons_self)).trans (others _)

theorem preserves (Kept : Draft → Prop)
    (kept : ∀ {move before after}, allowed move → Step job move before after → Kept before → Kept after)
    (goes : Goes job allowed before after) (start : Kept before) : Kept after := by
  induction goes with
  | refl => exact start
  | tail _ last ih =>
    obtain ⟨move, permitted, moves⟩ := last
    exact kept permitted moves ih

end Goes

/-- A draft knows what its header declares, and declares all of it once. -/
structure Draft.DeclaresOnce (draft : Draft) : Prop where
  mirrored : draft.chunks.filterMap Chunk.need? = draft.declared
  once : draft.declared.Nodup

namespace Draft.DeclaresOnce

variable {job : Job} {draft : Draft}

theorem mem_iff (known : draft.DeclaresOnce) (need : Need) :
    Emit.chunkOf need ∈ draft.chunks ↔ need ∈ draft.declared := by
  simp [← known.mirrored, need?_eq_some_iff]

theorem supplied (known : draft.DeclaresOnce) (needs : List Need) : (draft.supplied needs).DeclaresOnce := by
  obtain ⟨distinct, absent⟩ := missing_nodup draft.declared needs
  have read : (supply draft.declared needs).filterMap Chunk.need? = missing draft.declared needs := by
    have back : Chunk.need? ∘ Emit.chunkOf = some := funext fun need => need?_eq_some_iff.mpr rfl
    rw [supply, filterMap_map, back, filterMap_some]
  refine ⟨?_, nodup_append.mpr ⟨known.once, distinct, fun need listed other added same => ?_⟩⟩
  · rw [Draft.supplied, filterMap_append, known.mirrored, read]
  · exact absent other added (same ▸ listed)

theorem published (known : draft.DeclaresOnce) (rendering : Rendering) (c : Callable) (symbol : String) :
    (rendering.publishedIn job c symbol draft).DeclaresOnce := by
  have needed := known.supplied rendering.needs
  have mirrored : filterMap Chunk.need? (draft.chunks ++ _) = draft.declared ++ _ := needed.mirrored
  refine ⟨?_, needed.once⟩
  rw [Rendering.publishedIn, filterMap_append, mirrored]
  exact append_nil _

theorem step (moves : Step job move before after) (known : before.DeclaresOnce) : after.DeclaresOnce := by
  cases moves with
  | append _ chunk once =>
    refine ⟨by rw [filterMap_append, known.mirrored]; cases chunk <;> rfl, ?_⟩
    cases needed : chunk.need? with
    | none => simpa using known.once
    | some need => simpa [nodup_append] using ⟨known.once, fun other listed same => once need needed (same ▸ listed)⟩
  | wrap object ends =>
    cases writeEnd_of_ends ends survives_ok with
    | published => exact known.published _ _ _
  | tell | record | name | learn => exact ⟨known.mirrored, known.once⟩

theorem goes {allowed : Move → Prop} (goes : Goes job allowed before after) (known : before.DeclaresOnce) :
    after.DeclaresOnce :=
  goes.preserves DeclaresOnce (fun _ moves kept => kept.step moves) known

end Draft.DeclaresOnce

/-- A move that appends none of the chunks that are looked for. -/
def Move.Hides {β : Type} (view : Chunk → Option β) : Move → Prop
  | .append chunk => view chunk = none
  | _ => True

theorem Goes.filterMap_eq {β : Type} {job : Job} {view : Chunk → Option β}
    (plain : ∀ chunk : Chunk, chunk.isWrapper ∨ chunk.isMinor → view chunk = none)
    (goes : Goes job (Move.Hides view) before after) : after.chunks.filterMap view = before.chunks.filterMap view := by
  refine goes.preserves (fun draft => draft.chunks.filterMap view = before.chunks.filterMap view)
    (fun permitted moves same => ?_) rfl
  cases moves with
  | append _ chunk =>
    have hidden : view chunk = none := permitted
    rw [filterMap_append, same]
    simp [hidden]
  | wrap object ends =>
    cases writeEnd_of_ends ends survives_ok with
    | @published symbol rendering renders named fresh =>
      have supplied (declared : List Need) : (supply declared rendering.needs).filterMap view = [] := by
        refine filterMap_eq_nil_iff.mpr fun chunk member => ?_
        obtain ⟨need, _, rfl⟩ := exists_need_of_mem_supply member
        exact plain _ (.inr (by cases need <;> rfl))
      simp only [Rendering.publishedIn, filterMap_append, supplied, same, append_nil]
      simp [plain (.definition _) (.inl rfl), plain (.prototype _) (.inl rfl)]
  | tell | record | name | learn => exact same

/-- All outcomes, or only those that a run goes on after. -/
abbrev Regarded {α : Type} : Bool → Except Halt α → Prop
  | true => fun _ => True
  | false => Survives

section regarded

variable {α β : Type} {faults : Bool}

theorem regarded_ok {value : α} : Regarded faults (.ok value : Except Halt α) := by
  cases faults <;> trivial

theorem regarded_rejected {message : String} {site : Option Site} :
    Regarded faults (.error (.rejected message site) : Except Halt α) := by
  cases faults <;> trivial

theorem Regarded.of_error {halt : Halt} (regarded : Regarded faults (.error halt : Except Halt α)) :
    Regarded faults (.error halt : Except Halt β) := by
  cases faults with
  | true => trivial
  | false => exact Survives.of_error regarded

end regarded

/-- Work that goes by moves of an allowed kind. With `faults` it does so even where a fault ends it. -/
def GoesWithin {α : Type} (faults : Bool) (job : Job) (allowed : Move → Prop) (work : Emit α) : Prop :=
  ∀ before outcome after, Ends work before outcome after → Regarded faults outcome → Goes job allowed before after

/-- Work that goes by moves of an allowed kind, unless a fault ends it. -/
abbrev Within {α : Type} (job : Job) (allowed : Move → Prop) (work : Emit α) : Prop :=
  GoesWithin false job allowed work

namespace GoesWithin

open Emit

variable {α β : Type} {faults : Bool} {job : Job} {allowed : Move → Prop} {work : Emit α}
  {outcome result : Except Halt α} {items : List α} {next : α → Emit β}

theorem goes (within : Within job allowed work) (ends : Ends work before outcome after) (survives : Survives outcome) :
    Goes job allowed before after:=
  within _ _ _ ends survives

theorem goes_always (within : GoesWithin true job allowed work) (ends : Ends work before outcome after) :
    Goes job allowed before after:=
  within _ _ _ ends trivial

theorem of_same (same : ∀ {before outcome after}, Ends work before outcome after → after = before) :
    GoesWithin faults job allowed work := by
  intro before outcome after ends _
  rw [same ends]
  exact .refl before

theorem pure {value : α} : GoesWithin faults job allowed (pure value) :=
  of_same fun ends => (ends.of_pure).2

theorem lift : GoesWithin faults job allowed (lift result) :=
  of_same fun ends => (ends_lift_iff.mp ends).2

theorem throw {halt : Halt} : GoesWithin faults job allowed (throw halt : Emit α) :=
  of_same fun ends => (ends_throw_iff.mp ends).2

theorem get : GoesWithin faults job allowed (get : Emit Draft) :=
  of_same fun ends => by cases ends; rfl

theorem resolver : GoesWithin faults job allowed (Emit.resolver job) :=
  of_same fun ends => by cases ends; rfl

theorem bind (first : GoesWithin faults job allowed work) (rest : ∀ value, GoesWithin faults job allowed (next value)) :
    GoesWithin faults job allowed (work >>= next) := by
  intro before outcome after ends regarded
  rcases ends.bind_cases with ⟨value, middle, began, ended⟩ | ⟨halt, began, rfl⟩
  · exact (first before _ middle began regarded_ok).trans (rest value middle outcome after ended regarded)
  · exact first before _ after began regarded.of_error

theorem lift_bind (rest : ∀ value, result = .ok value → GoesWithin faults job allowed (next value)) :
    GoesWithin faults job allowed (Emit.lift result >>= next) := by
  intro before outcome after ends regarded
  rcases ends.lift_bind with ⟨value, found, ends⟩ | ⟨_, _, _, rfl⟩
  · exact rest value found before outcome after ends regarded
  · exact .refl _

theorem append {chunk : Chunk} (permitted : allowed (.append chunk)) (loose : chunk.need? = none) :
    GoesWithin faults job allowed (append chunk) := by
  intro before outcome after ends _
  obtain ⟨_, rfl⟩ := ends_modify_iff.mp ends
  have added : Step job _ before _ := .append before chunk (by simp [loose])
  rw [loose, Option.toList_none, append_nil] at added
  exact .step added permitted

theorem require (permitted : ∀ need ∈ needs, allowed (.append (chunkOf need))) :
    GoesWithin faults job allowed (require needs) := by
  intro before outcome after ends _
  obtain ⟨_, rfl⟩ := ends_require_iff.mp ends
  exact .supplies permitted before

theorem tell {event : Event} (permitted : allowed (.tell event)) : GoesWithin faults job allowed (tell event) := by
  intro before outcome after ends _
  obtain ⟨_, rfl⟩ := ends_modify_iff.mp ends
  exact .step (.tell before event) permitted

theorem record {kind : SymbolKind} {name : Value} {site : Site}
    (permitted : allowed (.record (symbolOf kind name site))) :
    GoesWithin faults job allowed (record kind name site) := by
  refine .bind .lift fun _ before outcome after ends _ => ?_
  obtain ⟨_, rfl⟩ := ends_modify_iff.mp ends
  exact .step (.record before _) permitted

theorem forM {f : α → Emit PUnit} (each : ∀ item ∈ items, GoesWithin faults job allowed (f item)) :
    GoesWithin faults job allowed (items.forM f) := by
  induction items with
  | nil => exact pure
  | cons item rest ih =>
    exact bind (each item (by simp)) fun _ => ih fun other member => each other (by simp [member])

theorem foldlM {f : β → α → Emit β} (each : ∀ state, ∀ item ∈ items, GoesWithin faults job allowed (f state item))
    (start : β) :
    GoesWithin faults job allowed (items.foldlM f start) := by
  induction items generalizing start with
  | nil => exact pure
  | cons item rest ih =>
    rw [foldlM_cons]
    refine bind (each start item (by simp)) fun state => ih ?_ state
    exact fun state other member => each state other (by simp [member])

theorem recover {handler : Halt → Emit α} (first : GoesWithin faults job allowed work)
    (rejected : ∀ message site, GoesWithin faults job allowed (handler (.rejected message site)))
    (passed : ∀ cause, handler (.fault cause) = MonadExcept.throw (.fault cause)) :
    GoesWithin faults job allowed (tryCatch work handler) := by
  intro before outcome after ends regarded
  rcases ends.tryCatch_cases with ⟨_, ended, rfl⟩ | ⟨halt, middle, began, ended⟩
  · exact first before _ after ended regarded_ok
  · cases halt with
    | rejected message site =>
      have noted := rejected message site middle outcome after ended regarded
      exact (first before _ middle began regarded_rejected).trans noted
    | fault cause =>
      rw [passed] at ended
      obtain ⟨rfl, rfl⟩ := ends_throw_iff.mp ended
      exact first before _ _ began regarded

theorem mono {wider : Move → Prop} (implies : ∀ move, allowed move → wider move)
    (within : GoesWithin faults job allowed work) : GoesWithin faults job wider work :=
  fun before outcome after ends regarded => (within before outcome after ends regarded).mono implies

theorem ordinary (within : GoesWithin faults job Move.Inner work) : GoesWithin faults job Move.Ordinary work :=
  within.mono fun _ => Move.Inner.ordinary

end GoesWithin

end FlatAbi
