import FlatAbi.Proofs.Emission.Visits
import FlatAbi.Proofs.Wrapper.ParameterNames

/-!
Definitions, prototypes and symbols of functions stay in step: entry by entry they have the same parameters.
-/

namespace FlatAbi

open Emit List Chunk FlatAbi.Module

/-! ### The three lists -/

variable {before after : Draft} {chunk : Chunk} {rendering : Rendering} {entries : List Entry}
  {parameters : List TypedParameter} {args : List Argument}

def Chunk.definition? : Chunk → Option Definition
  | .definition d => some d
  | _ => none

def Chunk.prototype? : Chunk → Option Signature
  | .prototype s => some s
  | _ => none

namespace Draft

/-- The definitions of wrappers, in order. -/
def definitions (draft : Draft) : List Definition :=
  draft.chunks.filterMap definition?

/-- The prototypes of wrappers, in order. -/
def prototypes (draft : Draft) : List Signature :=
  draft.chunks.filterMap prototype?

/-- The symbols of functions, in order. -/
def functionSymbols (draft : Draft) : List Symbol :=
  draft.symbols.filter (·.kind == .function)

end Draft

theorem definition?_of_not_wrapper (plain : chunk.isWrapper = false) : chunk.definition? = none := by
  cases chunk <;> first | rfl | cases plain

theorem prototype?_of_not_wrapper (plain : chunk.isWrapper = false) : chunk.prototype? = none := by
  cases chunk <;> first | rfl | cases plain

theorem isWrapper_of_mem_supply {declared needs : List Need} (member : chunk ∈ supply declared needs) :
    chunk.isWrapper = false := by
  obtain ⟨need, _, rfl⟩ := exists_need_of_mem_supply member
  cases need <;> rfl

namespace Wrapper

variable {job : Job} {r : Resolver} {c : Callable}

/-! ### Names of parameters -/

/-- The typemap of a parameter takes an input, so that the wrapper has a C parameter for it. -/
def takesInput (job : Job) (r : Resolver) (c : Callable) (p : TypedParameter) : Bool :=
  match categoryOf r c p.type with
  | .ok category => (typemap? job r .input p.type c.site.scopeName (some category)).any (·.inputs != 0)
  | .error _ => false

/-- The names of the C parameters after the object. Plain C has no typemaps that could hide one. -/
def inputNames (job : Job) (r : Resolver) (c : Callable) (parameters : List TypedParameter) : List String :=
  if job.config.cplusplus then
    ((parameters.zip (parameterNames (firstPosition c) (parameters.map (·.name)))).filter fun (p, _) =>
      takesInput job r c p).map (·.2)
  else directNames parameters

/-- The names of all C parameters. -/
def cNames (job : Job) (r : Resolver) (c : Callable) (parameters : List TypedParameter) : List String :=
  (if c.role.hasSelf then ["self"] else []) ++ inputNames job r c parameters

theorem self_not_mem_inputNames (parameters : List TypedParameter) : "self" ∉ inputNames job r c parameters := by
  unfold inputNames
  split
  · intro member
    obtain ⟨⟨p, name⟩, listed, same⟩ := mem_map.mp member
    have named := (of_mem_zip (mem_filter.mp listed).1).2
    subst same
    exact not_mem_parameterNamesFrom (by decide) (by decide) named
  · exact not_mem_parameterNamesFrom (by decide) (by decide)

theorem cNames_head_eq_self_iff (parameters : List TypedParameter) :
    (cNames job r c parameters).head? = some "self" ↔ c.role.hasSelf := by
  unfold cNames
  cases c.role.hasSelf with
  | true => simp
  | false =>
    refine ⟨fun self => ?_, fun impossible => by cases impossible⟩
    exact (self_not_mem_inputNames parameters (mem_of_head? self)).elim

theorem argument_isVisible {position : Nat} {name : String} {p : TypedParameter} {a : Argument}
    (found : argument job r c position name p = .ok a) : takesInput job r c p = a.isVisible := by
  obtain ⟨category, known, found⟩ := bind_eq_ok found
  split at found
  · cases found
  · rename_i input looked
    cases found
    simp [Argument.isVisible, takesInput, mapError_eq_ok_iff.mp known, looked]

theorem arguments_visible (found : arguments job r c parameters = .ok args) :
    Forall₂ (fun entry a => ∃ position, argument job r c position entry.2 entry.1 = .ok a)
      ((parameters.zip (parameterNames (firstPosition c) (parameters.map (·.name)))).filter fun (p, _) =>
        takesInput job r c p) (args.filter (·.isVisible)) :=
  forall₂_filter (arguments_eq_ok found) fun _ _ ⟨_, same⟩ => argument_isVisible same

theorem arguments_names (cxx : job.config.cplusplus) (found : arguments job r c parameters = .ok args) :
    (args.filter (·.isVisible)).map (·.cName) = inputNames job r c parameters := by
  rw [inputNames, if_pos cxx]
  exact (map_eq_of_forall₂ (arguments_visible found) fun _ _ ⟨_, same⟩ => (argument_eq_ok same).1.symm).symm

theorem selfParameter_names {p : Plan} {side : Side} {self : List SignatureParameter}
    (found : p.selfParameter job side = .ok self) :
    self.map (·.name) = if p.callable.role.hasSelf then ["self"] else [] := by
  unfold Plan.selfParameter at found
  split at found
  · rename_i object
    split at found
    · cases found
    · cases found
      simp [object]
  · rename_i object
    cases found
    simp [object]

theorem signature_names {p : Plan} {symbol : String} {side : Side} {signature : Signature}
    (signed : p.signature job r symbol side = .ok signature) :
    signature.parameterNames =
      (if p.callable.role.hasSelf then ["self"] else []) ++ p.visible.map (·.cName) := by
  obtain ⟨self, found, signed⟩ := bind_eq_ok signed
  cases signed
  simp [Signature.parameterNames, selfParameter_names found]

theorem directNames_length (parameters : List TypedParameter) :
    (directNames parameters).length = parameters.length := by
  simp [directNames, parameterNames, parameterNamesFrom_length]

theorem directSignature_names (parameters : List TypedParameter) (symbol : String) :
    (directSignature c parameters symbol).parameterNames = directNames parameters := by
  have zipped : (parameters.zip (directNames parameters)).map Prod.snd = directNames parameters :=
    map_snd_zip (Nat.le_of_eq (directNames_length parameters))
  simp only [directSignature, Signature.parameterNames, map_map]
  exact zipped

theorem Renders.declares {support : ExceptionSupport} {symbol : String} (object : c.role.hasSelf → job.config.cplusplus)
    (renders : Renders job r support c symbol rendering) :
    ∃ parameters, typedParameters c = .ok parameters ∧
      rendering.definition.signature.symbol = symbol ∧ rendering.prototype.symbol = symbol ∧
      rendering.definition.signature.parameterNames = cNames job r c parameters ∧
      rendering.prototype.parameterNames = cNames job r c parameters := by
  cases renders with
  | @converted parameters p implementation header body cxx typed planned implemented declared bodied =>
    obtain ⟨rfl, found, _⟩ := plan_eq_ok planned
    have named : (if p.callable.role.hasSelf then ["self"] else []) ++ p.visible.map (·.cName) =
        cNames job r p.callable parameters := by
      rw [cNames, ← arguments_names cxx found]
      rfl
    exact ⟨parameters, typed, signature_symbol implemented, signature_symbol declared,
      (signature_names implemented).trans named, (signature_names declared).trans named⟩
  | @direct parameters body plain typed bodied =>
    have noSelf : c.role.hasSelf = false := by
      cases hasSelf : c.role.hasSelf with
      | false => rfl
      | true => rw [object hasSelf] at plain; cases plain
    have named : (directSignature c parameters symbol).parameterNames = cNames job r c parameters := by
      simp [directSignature_names, cNames, inputNames, noSelf, plain]
    exact ⟨parameters, typed, rfl, rfl, named, named⟩

/-! ### Entries -/

/-- A wrapper that was written, with its definition and its prototype. -/
structure Entry where
  written : Written
  definition : Definition
  prototype : Signature

/-- The symbol that is recorded for an entry. -/
def Entry.symbol (entry : Entry) : Symbol :=
  symbolOf .function (.string entry.written.symbol) entry.written.callable.site

/-- An entry of a draft: a call wrote it there, and its definition and its prototype declare its symbol, both with
the C parameters of its callable, of which the object is the first where there is one. -/
structure Entry.InDraft (job : Job) (draft : Draft) (entry : Entry) : Prop where
  called : ∃ before after supplied, before.DeclaresOnce ∧
    Ends (write job entry.written.callable) before (.ok (some entry.written)) after ∧
      after.chunks = before.chunks ++ supplied ++ [.definition entry.definition, .prototype entry.prototype] ∧
      after.symbols = before.symbols ++ [entry.symbol] ∧ after.ExtendedBy draft
  defines : entry.definition.signature.symbol = entry.written.symbol
  declares : entry.prototype.symbol = entry.written.symbol
  names : ∃ parameters, typedParameters entry.written.callable = .ok parameters ∧
    entry.definition.signature.parameterNames =
      cNames job ⟨job.config, draft.table⟩ entry.written.callable parameters ∧
    entry.prototype.parameterNames = cNames job ⟨job.config, draft.table⟩ entry.written.callable parameters
  object : entry.prototype.parameterNames.head? = some "self" ↔ entry.written.callable.role.hasSelf

theorem Entry.InDraft.extended {draft later : Draft} {entry : Entry} (inDraft : entry.InDraft job draft)
    (extended : draft.ExtendedBy later) : entry.InDraft job later := by
  obtain ⟨before, after, supplied, once, ends, chunks, symbols, held⟩ := inDraft.called
  refine ⟨⟨before, after, supplied, once, ends, chunks, symbols, held.trans extended⟩, inDraft.defines,
    inDraft.declares, ?_, inDraft.object⟩
  rw [← extended.table]
  exact inDraft.names

theorem Entry.inDraft_of_published {symbol : String} (once : before.DeclaresOnce)
    (object : c.role.hasSelf → job.config.cplusplus)
    (renders : Renders job ⟨job.config, before.table⟩ before.exceptions c symbol rendering)
    (ends : Ends (write job c) before (.ok (some ⟨symbol, c, rendering.inputs⟩))
      (rendering.publishedIn job c symbol before)) :
    InDraft job (rendering.publishedIn job c symbol before)
      ⟨⟨symbol, c, rendering.inputs⟩, rendering.definition, rendering.prototype⟩ := by
  obtain ⟨parameters, typed, defines, declares, definedNames, declaredNames⟩ := renders.declares object
  refine ⟨⟨before, _, _, once, ends, rfl, rfl, .refl _⟩, defines, declares,
    ⟨parameters, typed, definedNames, declaredNames⟩, ?_⟩
  rw [declaredNames]
  exact cNames_head_eq_self_iff parameters

/-- The entries of a draft account for its three lists. What the wrappers needed was declared once. -/
structure Aligned (job : Job) (draft : Draft) (entries : List Entry) : Prop where
  symbols : draft.functionSymbols = entries.map Entry.symbol
  definitions : draft.definitions = entries.map Entry.definition
  prototypes : draft.prototypes = entries.map Entry.prototype
  inDraft : ∀ entry ∈ entries, entry.InDraft job draft
  declaresOnce : draft.DeclaresOnce

theorem Aligned.unchanged (aligned : Aligned job before entries) (extended : before.ExtendedBy after)
    (symbols : after.functionSymbols = before.functionSymbols) (definitions : after.definitions = before.definitions)
    (prototypes : after.prototypes = before.prototypes) (once : after.DeclaresOnce) :
    Aligned job after entries :=
  ⟨symbols.trans aligned.symbols, definitions.trans aligned.definitions, prototypes.trans aligned.prototypes,
    fun entry listed => (aligned.inDraft entry listed).extended extended, once⟩

theorem Aligned.published {symbol : String} (aligned : Aligned job before entries)
    (object : c.role.hasSelf → job.config.cplusplus)
    (extended : before.ExtendedBy (rendering.publishedIn job c symbol before))
    (renders : Renders job ⟨job.config, before.table⟩ before.exceptions c symbol rendering)
    (ends : Ends (write job c) before (.ok (some ⟨symbol, c, rendering.inputs⟩))
      (rendering.publishedIn job c symbol before))
    (once : (rendering.publishedIn job c symbol before).DeclaresOnce) :
    Aligned job (rendering.publishedIn job c symbol before)
      (entries ++ [⟨⟨symbol, c, rendering.inputs⟩, rendering.definition, rendering.prototype⟩]) := by
  have undefined : (supply before.declared rendering.needs).filterMap definition? = [] :=
    filterMap_eq_nil_iff.mpr fun _ member => definition?_of_not_wrapper (isWrapper_of_mem_supply member)
  have undeclared : (supply before.declared rendering.needs).filterMap prototype? = [] :=
    filterMap_eq_nil_iff.mpr fun _ member => prototype?_of_not_wrapper (isWrapper_of_mem_supply member)
  refine ⟨?_, ?_, ?_, ?_, once⟩
  · rw [map_append, ← aligned.symbols]
    simp [Draft.functionSymbols, Rendering.publishedIn, Entry.symbol, symbolOf]
  · rw [map_append, ← aligned.definitions]
    simp only [Draft.definitions, Rendering.publishedIn, filterMap_append, undefined, append_nil]
    rfl
  · rw [map_append, ← aligned.prototypes]
    simp only [Draft.prototypes, Rendering.publishedIn, filterMap_append, undeclared, append_nil]
    rfl
  · intro entry listed
    rcases mem_append.mp listed with earlier | last
    · exact (aligned.inDraft entry earlier).extended extended
    · obtain rfl := mem_singleton.mp last
      exact Entry.inDraft_of_published aligned.declaresOnce object renders ends

/-- One move keeps the lists in step: only a wrapper adds to them. -/
theorem Aligned.step {move : Move} (permitted : move.Ordinary) (moves : Step job move before after)
    (aligned : Aligned job before entries) :
    ∃ more, Aligned job after (entries ++ more) := by
  have extended := moves.extended
  have once := aligned.declaresOnce.step moves
  cases moves with
  | append _ chunk =>
    refine ⟨[], ?_⟩
    rw [append_nil]
    refine aligned.unchanged extended rfl ?_ ?_ once
    · simp [Draft.definitions, definition?_of_not_wrapper permitted]
    · simp [Draft.prototypes, prototype?_of_not_wrapper permitted]
  | record _ symbol =>
    have other : (symbol.kind == .function) = false := beq_eq_false_iff_ne.mpr permitted
    refine ⟨[], ?_⟩
    rw [append_nil]
    refine aligned.unchanged extended ?_ rfl rfl once
    simp [Draft.functionSymbols, other]
  | wrap object ends =>
    cases writeEnd_of_ends ends survives_ok with
    | published renders named fresh => exact ⟨_, aligned.published object extended renders ends once⟩
  | tell | name | learn =>
    refine ⟨[], ?_⟩
    rw [append_nil]
    exact aligned.unchanged extended rfl rfl rfl once

/-! ### Fresh symbols -/

/-- No function has a symbol that was recorded before it, of whatever kind. -/
def FreshSymbols (symbols : List Symbol) : Prop :=
  symbols.Pairwise fun earlier later => later.kind = .function → earlier.name ≠ later.name

theorem name_ne_of_not_isDefined {draft : Draft} {name : String} (fresh : draft.isDefined name = false) :
    ∀ symbol ∈ draft.symbols, symbol.name ≠ .string name := by
  intro symbol listed same
  have absent := any_eq_false.mp fresh symbol listed
  simp [same, Value.asString?] at absent

theorem FreshSymbols.step {move : Move} (permitted : move.Ordinary) (moves : Step job move before after)
    (freshBefore : FreshSymbols before.symbols) :
    FreshSymbols after.symbols := by
  cases moves with
  | append | tell | name | learn => exact freshBefore
  | record _ symbol =>
    refine pairwise_append.mpr ⟨freshBefore, pairwise_singleton _ _, ?_⟩
    intro earlier _ later last function
    obtain rfl := mem_singleton.mp last
    exact (permitted function).elim
  | wrap object ends =>
    cases writeEnd_of_ends ends survives_ok with
    | published renders named fresh =>
      refine pairwise_append.mpr ⟨freshBefore, pairwise_singleton _ _, ?_⟩
      intro earlier listed later last _
      obtain rfl := mem_singleton.mp last
      exact name_ne_of_not_isDefined fresh earlier listed

end Wrapper

open Wrapper

variable {job : Job} {draft : Draft}

theorem Module.prepared_aligned (job : Job) : Aligned job (prepared job) [] := by
  have plain : ∀ chunk ∈ (prepared job).chunks, chunk.isWrapper = false := by
    intro chunk listed
    simp only [prepared, preparedChunks] at listed
    grind [isWrapper]
  refine ⟨rfl, ?_, ?_, fun _ listed => absurd listed not_mem_nil, prepared_declaresOnce job⟩
  · exact filterMap_eq_nil_iff.mpr fun chunk listed => definition?_of_not_wrapper (plain chunk listed)
  · exact filterMap_eq_nil_iff.mpr fun chunk listed => prototype?_of_not_wrapper (plain chunk listed)

/-- A module with a function and a class. A typemap hides the second parameter of the method. -/
def counterModule : Job :=
  .ofNodes
    [ .mk { Declaration.named .functionDecl "reset" with parameters := [{ type := some ⟨"int", []⟩ }] } [],
      .mk (.named .classDecl "Counter")
        [ .mk
            { Declaration.named .functionDecl "add" with
              type := some ⟨"int", []⟩
              parameters :=
                [ { name := .string "step", type := some ⟨"int", []⟩ },
                  { name := .string "origin", type := some ⟨"double", []⟩ } ] } [] ] ]
    (.ofRules [⟨⟨.input, .string "$1 = 0;", 0⟩, .type ⟨"double", []⟩⟩] true)

/-- A run that completes leaves definitions, prototypes and symbols of functions in step, and every symbol of a
function is new where it is recorded. -/
theorem Module.interface_aligned (ran : run job = .ok draft) :
    (∃ entries, Aligned job draft entries) ∧ FreshSymbols draft.symbols := by
  have goes := goes_of_run ran
  refine ⟨?_, ?_⟩
  · refine goes.preserves (fun reached => ∃ entries, Aligned job reached entries)
      (fun permitted moves kept => ?_) ⟨[], prepared_aligned job⟩
    obtain ⟨entries, aligned⟩ := kept
    obtain ⟨more, extended⟩ := aligned.step permitted moves
    exact ⟨entries ++ more, extended⟩
  · exact goes.preserves (fun reached => FreshSymbols reached.symbols)
      (fun permitted moves kept => kept.step permitted moves) Pairwise.nil

theorem Module.interface_aligned_counterModule :
    ∃ draft, run counterModule = .ok draft ∧
      draft.prototypes.map (fun s => (s.symbol, s.parameterNames)) =
        [("m_reset", ["carg1"]), ("Counter_add", ["self", "step"]), ("Counter_new", []),
          ("Counter_delete", ["self"])] ∧
      (∃ entries, Aligned counterModule draft entries) ∧ FreshSymbols draft.symbols :=
  exists_ok (by decide +kernel) fun _ ran _ => interface_aligned ran

end FlatAbi
