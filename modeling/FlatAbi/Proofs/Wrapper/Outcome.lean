import FlatAbi.Proofs.Declaration.Namesakes
import FlatAbi.Proofs.Emission.Ends
import FlatAbi.Wrapper.Direct

/-!
What writing a wrapper can do to a draft. `writeEnd_of_ends` says this once for whoever writes wrappers.
-/

namespace FlatAbi.Wrapper

open Emit List Draft

variable {job : Job} {r : Resolver} {c : Callable} {before after : Draft}

/-! ### Results that are never rejected -/

variable {p : Plan} {warning : String} {args : List Argument}

theorem categoryOf_onlyFaults (t : CxxType) : OnlyFaults (categoryOf r c t) :=
  .bind .ofMisshapen fun _ => .ofUnreadable

theorem userCode_onlyFaults (d : Declaration) (key : String) : OnlyFaults (userCode d key) := by
  unfold userCode
  split
  · exact .ok
  · exact .bind .ofMisshapen fun _ => .ok

theorem isObjectVariable_onlyFaults : OnlyFaults (isObjectVariable r c) := by
  unfold isObjectVariable
  split
  · exact .ok
  · exact .bind (categoryOf_onlyFaults _) fun _ => .ok

theorem readVariable_onlyFaults (args : List Argument) (result : Option ResultLocal) :
    OnlyFaults (readVariable r c args result) := by
  refine .bind isObjectVariable_onlyFaults fun isObject => ?_
  cases isObject with
  | false => exact .ok
  | true =>
    cases result with
    | none => exact .fault
    | some result => exact .ok

theorem action_onlyFaults (args : List Argument) (result : Option ResultLocal) :
    OnlyFaults (action r c args result) := by
  unfold action
  split
  · cases result with
    | none => exact .fault
    | some result => exact .ok
  · cases result with
    | none => exact .fault
    | some result => exact .ok
  all_goals first | exact .ok | exact readVariable_onlyFaults args result

theorem guardOf_onlyFaults (support : ExceptionSupport) : OnlyFaults (guardOf support c) := by
  refine .bind (userCode_onlyFaults _ _) fun handlers => ?_
  cases handlers with
  | cons handler rest => exact .ok
  | nil =>
    dsimp only
    split <;> exact .ok

theorem body_onlyFaults (support : ExceptionSupport) (p : Plan) : OnlyFaults (p.body job r support) :=
  .bind .ofMisshapen fun _ => .bind (userCode_onlyFaults _ _) fun _ => .bind .ofMisshapen fun _ =>
    .bind (action_onlyFaults _ _) fun _ => .bind (guardOf_onlyFaults _) fun _ =>
      .bind (userCode_onlyFaults _ _) fun _ => .bind .ofMisshapen fun _ => .ok

theorem signature_onlyFaults (p : Plan) (symbol : String) (side : Side) :
    OnlyFaults (p.signature job r symbol side) := by
  refine .bind ?_ fun _ => .ok
  unfold Plan.selfParameter
  split
  · cases p.callable.owner with
    | none => exact .fault
    | some owner => exact .ok
  · exact .ok

theorem directCall_onlyFaults (names : List String) : OnlyFaults (directCall c names) := by
  unfold directCall
  split
  · exact .ok
  · cases names with
    | nil => exact .fault
    | cons value rest => exact .ok
  · exact .ok

theorem directBody_onlyFaults (parameters : List TypedParameter) : OnlyFaults (directBody job r c parameters) :=
  .bind .ofMisshapen fun _ => .bind (userCode_onlyFaults _ _) fun _ => .bind (directCall_onlyFaults _) fun _ =>
    .bind (userCode_onlyFaults _ _) fun _ => .ok

/-- A plan that halts does so with a fault. -/
def HaltsByFault {α : Type} (result : Except Stop α) : Prop :=
  ∀ halt, result = .error (.halted halt) → ∃ cause, halt = .fault cause

namespace HaltsByFault

variable {α β : Type}

theorem ok {value : α} : HaltsByFault (.ok value) := by
  intro halt impossible
  cases impossible

theorem skipped : HaltsByFault (.error (.skipped warning) : Except Stop α) := by
  intro halt impossible
  cases impossible

theorem of_onlyFaults {result : Except Halt α} (onlyFaults : OnlyFaults result) :
    HaltsByFault (result.mapError .halted) := by
  intro halt halted
  cases result with
  | ok value => cases halted
  | error found =>
    cases halted
    cases halt with
    | rejected message site => exact (onlyFaults message site rfl).elim
    | fault cause => exact ⟨cause, rfl⟩

theorem bind {result : Except Stop α} {next : α → Except Stop β} (first : HaltsByFault result)
    (rest : ∀ value, HaltsByFault (next value)) : HaltsByFault (result >>= next) := by
  cases result with
  | ok value => exact rest value
  | error stop =>
    intro halt halted
    cases halted
    exact first halt rfl

end HaltsByFault

theorem argument_haltsByFault (position : Nat) (cName : String) (p : TypedParameter) :
    HaltsByFault (argument job r c position cName p) := by
  refine .bind (.of_onlyFaults (categoryOf_onlyFaults _)) fun category => ?_
  split
  · exact .skipped
  · exact .ok

theorem argumentsFrom_haltsByFault (position : Nat) (listed : List (TypedParameter × String)) :
    HaltsByFault (argumentsFrom job r c position listed) := by
  induction listed generalizing position with
  | nil => exact .ok
  | cons first rest ih =>
    exact .bind (argument_haltsByFault _ _ _) fun _ => .bind (ih _) fun _ => .ok

theorem argument_eq_ok {position : Nat} {name : String} {p : TypedParameter} {a : Argument}
    (found : argument job r c position name p = .ok a) :
    a.cName = name ∧ a.type = p.type ∧ categoryOf r c a.type = .ok a.category := by
  obtain ⟨category, known, found⟩ := bind_eq_ok found
  split at found
  · cases found
  · cases found
    exact ⟨rfl, rfl, mapError_eq_ok_iff.mp known⟩

theorem argumentsFrom_eq_ok {position : Nat} {listed : List (TypedParameter × String)}
    (found : argumentsFrom job r c position listed = .ok args) :
    Forall₂ (fun entry a => ∃ position, argument job r c position entry.2 entry.1 = .ok a) listed args := by
  induction listed generalizing position args with
  | nil =>
    cases found
    exact .nil
  | cons first rest ih =>
    obtain ⟨a, head, found⟩ := bind_eq_ok found
    obtain ⟨others, tail, found⟩ := bind_eq_ok found
    cases found
    exact .cons ⟨position, head⟩ (ih tail)

variable {parameters : List TypedParameter}

theorem arguments_eq_ok (found : arguments job r c parameters = .ok args) :
    Forall₂ (fun entry a => ∃ position, argument job r c position entry.2 entry.1 = .ok a)
      (parameters.zip (parameterNames (firstPosition c) (parameters.map (·.name)))) args := by
  obtain ⟨_, _, found⟩ := bind_eq_ok found
  obtain ⟨_, _, found⟩ := bind_eq_ok found
  exact argumentsFrom_eq_ok found

theorem convertedResult_haltsByFault : HaltsByFault (convertedResult job r c) := by
  unfold convertedResult
  split
  · exact .ok
  · refine .bind (.of_onlyFaults (categoryOf_onlyFaults _)) fun category => ?_
    split
    · exact .skipped
    · exact .ok

theorem plan_haltsByFault (parameters : List TypedParameter) : HaltsByFault (plan job r c parameters) := by
  refine .bind ?_ fun args => .bind convertedResult_haltsByFault fun _ => .ok
  exact .bind (.of_onlyFaults .ofMisshapen) fun _ => .bind (.of_onlyFaults .ofMisshapen) fun _ =>
    argumentsFrom_haltsByFault _ _

theorem typedParameters_rejected {message : String} {site : Option Site}
    (rejected : typedParameters c = .error (.rejected message site)) : site = some c.site := by
  obtain ⟨p, _, failed⟩ := exists_of_mapM_error rejected
  split at failed
  · cases failed
  · split at failed
    · cases checked : c.site.checkQualified <;> rw [checked] at failed <;> cases failed
      rfl
    · cases failed

theorem typedParameters_map (typed : typedParameters c = .ok parameters) :
    c.parameters.filterMap (·.type) = parameters.map (·.type) := by
  refine filterMap_of_mapM_ok (fun declared p found => ?_) typed
  split at found
  · cases found
  · rename_i t written
    split at found
    · obtain ⟨_, _, impossible⟩ := bind_eq_ok found
      cases impossible
    · cases found
      exact written

theorem typedParameters_types (typed : typedParameters c = .ok parameters) :
    ∀ p ∈ parameters, ∃ declared ∈ c.parameters, declared.type = some p.type := by
  intro p listed
  have declared : p.type ∈ parameters.map (·.type) := mem_map_of_mem listed
  rw [← typedParameters_map typed] at declared
  exact mem_filterMap.mp declared

/-! ### What a wrapper is rendered to -/

/-- What the header declares before the prototype of a plan. -/
def Plan.headerNeeds (job : Job) (r : Resolver) (p : Plan) : List Need :=
  p.prototypeTypes.flatMap fun (t, category) => (cTypeOf job r t p.scope category .header).needs

/-- The overload codes in the symbol of a wrapper, for a callable that can be wrapped. -/
def codes? (job : Job) (r : Resolver) (c : Callable) : Option (List String) :=
  ((typedParameters c).toOption.map fun parameters =>
    if job.config.cplusplus then (plan job r c parameters).toOption.map (·.codes) else some []).join

/-- The codes of the types that the parameters of a callable are declared with. -/
def typeCodes (table : SymbolTable) (c : Callable) : List String :=
  (c.parameters.filterMap (·.type)).map fun t => table.overloadCode t c.site.scopeName

/-- The parts of a wrapper, with the overload codes of its name and what the header declares before it. -/
structure Rendering where
  codes : List String
  needs : List Need
  definition : Definition
  prototype : Signature
  inputs : List TypedParameter

/-- The rendering of a callable under a symbol: converted for C++, direct for plain C. -/
inductive Renders (job : Job) (r : Resolver) (support : ExceptionSupport) (c : Callable) (symbol : String) :
    Rendering → Prop where
  | converted {parameters : List TypedParameter} {p : Plan} {implementation header : Signature} {body : Body}
      (cxx : job.config.cplusplus) (typed : typedParameters c = .ok parameters)
      (planned : plan job r c parameters = .ok p)
      (implemented : p.signature job r symbol .implementation = .ok implementation)
      (declared : p.signature job r symbol .header = .ok header) (bodied : p.body job r support = .ok body) :
      Renders job r support c symbol
        ⟨p.codes, p.headerNeeds job r, ⟨implementation, body, true⟩, header,
          p.visible.map fun a => ⟨some a.cName, a.type⟩⟩
  | direct {parameters : List TypedParameter} {body : Body} (plain : job.config.cplusplus = false)
      (typed : typedParameters c = .ok parameters) (bodied : directBody job r c parameters = .ok body) :
      Renders job r support c symbol
        ⟨[], directNeeds c parameters, ⟨directSignature c parameters symbol, body, false⟩,
          directSignature c parameters symbol, directInputs parameters⟩

/-- The draft after a rendering was published. Only a converted wrapper is told about. -/
def Rendering.publishedIn (rendering : Rendering) (job : Job) (c : Callable) (symbol : String) (draft : Draft) :
    Draft :=
  { draft with
    names := (draft.names.name job.config c rendering.codes).2
    chunks := draft.chunks ++ supply draft.declared rendering.needs ++
      [.definition rendering.definition, .prototype rendering.prototype]
    declared := draft.declared ++ missing draft.declared rendering.needs
    symbols := draft.symbols ++ [symbolOf .function (.string symbol) c.site]
    events := draft.events ++
      if job.config.cplusplus then [.wrapped c.site.qualifiedValue symbol] else [] }

/-- The draft after a warning about a declaration. -/
def warnedIn (site : Site) (warning : String) (draft : Draft) : Draft :=
  { draft with events := draft.events ++ [.diagnosed (.about .warning (some site) warning)] }

/-- The warning about a callable whose symbol the output defines already. -/
def takenWarning (c : Callable) (symbol : String) : String :=
  "Wrapper " ++ symbol ++ " already defined, " ++ c.site.qualifiedName ++ " skipped"

/-- All that writing a wrapper can come to, faults apart. -/
inductive WriteEnd (job : Job) (c : Callable) (before : Draft) : Except Halt (Option Written) → Draft → Prop where
  | published {symbol : String} {rendering : Rendering}
      (renders : Renders job ⟨job.config, before.table⟩ before.exceptions c symbol rendering)
      (named : (before.names.name job.config c rendering.codes).1 = symbol)
      (fresh : before.isDefined symbol = false) :
      WriteEnd job c before (.ok (some ⟨symbol, c, rendering.inputs⟩)) (rendering.publishedIn job c symbol before)
  | unconverted {parameters : List TypedParameter} {warning : String} (cxx : job.config.cplusplus)
      (typed : typedParameters c = .ok parameters)
      (planned : plan job ⟨job.config, before.table⟩ c parameters = .error (.skipped warning)) :
      WriteEnd job c before (.ok none) (warnedIn c.site warning before)
  | taken {codes : List String} (defined : before.isDefined (before.names.name job.config c codes).1)
      (coded : codes? job ⟨job.config, before.table⟩ c = some codes) :
      WriteEnd job c before (.ok none)
        (warnedIn c.site (takenWarning c (before.names.name job.config c codes).1)
          { before with names := (before.names.name job.config c codes).2 })
  | rejected {message : String} (typed : typedParameters c = .error (.rejected message (some c.site))) :
      WriteEnd job c before (.error (.rejected message (some c.site))) before

variable {outcome : Except Halt Unit}

/-! ### The parts of the work -/

theorem ends_warn {site : Site} :
    Ends (warn site warning) before outcome after ↔ outcome = .ok () ∧ after = warnedIn site warning before :=
  ends_iff_of_run rfl

theorem ends_warn_bind {β : Type} {site : Site} {next : Unit → Emit β} {outcome : Except Halt β} :
    Ends (warn site warning >>= next) before outcome after ↔
      Ends (next ()) (warnedIn site warning before) outcome after :=
  ends_bind_of_ok (show Ends (warn site warning) before (.ok ()) _ from rfl)

theorem ends_reserveSymbol {codes : List String} {outcome : Except Halt (Option String)}
    (ends : Ends (reserveSymbol job c codes) before outcome after) (survives : Survives outcome) :
    let found := before.names.name job.config c codes
    (before.isDefined found.1 = false ∧ outcome = .ok (some found.1) ∧ after = { before with names := found.2 }) ∨
      (before.isDefined found.1 ∧ outcome = .ok none ∧
        after = warnedIn c.site (takenWarning c found.1) { before with names := found.2 }) := by
  intro found
  obtain ⟨_, ends⟩ := ends.check_bind survives
  rw [ends_get_bind] at ends
  change Ends (set { before with names := found.2 } >>= fun _ =>
    if before.isDefined found.1 then _ else _) before outcome after at ends
  rw [ends_set_bind] at ends
  cases defined : before.isDefined found.1 with
  | false =>
    rw [defined] at ends
    obtain ⟨rfl, rfl⟩ := ends.of_pure
    exact .inl ⟨rfl, rfl, rfl⟩
  | true =>
    rw [defined] at ends
    obtain ⟨_, ends⟩ := ends.check_bind survives
    rw [ends_warn_bind] at ends
    obtain ⟨rfl, rfl⟩ := ends.of_pure
    exact .inr ⟨rfl, rfl, rfl⟩

theorem reserveSymbol_neverRejects (codes : List String) : NeverRejects (reserveSymbol job c codes) := by
  refine .of_value fun ends survives => ?_
  rcases ends_reserveSymbol ends survives with ⟨_, found, _⟩ | ⟨_, found, _⟩ <;> exact ⟨_, found⟩

theorem ends_publish {definition : Definition} {prototype : Signature}
    (ends : Ends (publish definition prototype c) before outcome after) (survives : Survives outcome) :
    outcome = .ok () ∧
      after = { before with
        chunks := before.chunks ++ [.definition definition, .prototype prototype]
        symbols := before.symbols ++ [symbolOf .function (.string definition.signature.symbol) c.site] } := by
  unfold publish at ends
  rw [ends_append_bind, ends_append_bind] at ends
  obtain ⟨rfl, rfl⟩ := ends_record ends survives
  simp [append_assoc]

theorem publish_neverRejects (definition : Definition) (prototype : Signature) :
    NeverRejects (publish definition prototype c) :=
  .of_value fun ends survives => ⟨(), (ends_publish ends survives).1⟩

theorem ends_prepareTypes {types : List (CxxType × Category)} (ends : Ends (types.forM fun (t, category) => do
        check (checkCTypeOf job r t p.scope category)
        require (cTypeOf job r t p.scope category .header).needs) before outcome after)
    (survives : Survives outcome) :
    outcome = .ok () ∧
      after = before.supplied (types.flatMap fun (t, category) =>
        (cTypeOf job r t p.scope category .header).needs) := by
  induction types generalizing before with
  | nil =>
    obtain ⟨rfl, rfl⟩ := ends.of_pure
    simp
  | cons first rest ih =>
    obtain ⟨t, category⟩ := first
    rw [ends_forM_cons] at ends
    rcases ends.bind_survived survives with ⟨value, middle, first, others⟩ | ⟨message, site, first, rfl⟩
    · obtain ⟨_, first⟩ := first.check_bind survives_ok
      obtain ⟨_, rfl⟩ := ends_require_iff.mp first
      obtain ⟨rfl, rfl⟩ := ih others
      exact ⟨rfl, by rw [flatMap_cons, supplied_append]⟩
    · obtain ⟨_, first⟩ := first.check_bind survives
      obtain ⟨impossible, _⟩ := ends_require_iff.mp first
      cases impossible

theorem ends_prepareHeader (ends : Ends (p.prepareHeader job r) before outcome after) (survives : Survives outcome) :
    outcome = .ok () ∧ after = before.supplied (p.headerNeeds job r) :=
  ends_prepareTypes ends survives

theorem prepareHeader_neverRejects (p : Plan) : NeverRejects (p.prepareHeader job r) :=
  .of_value fun ends survives => ⟨(), (ends_prepareHeader ends survives).1⟩

theorem plan_eq_ok (planned : plan job r c parameters = .ok p) :
    p.callable = c ∧ arguments job r c parameters = .ok p.args ∧ convertedResult job r c = .ok p.result := by
  obtain ⟨args, found, planned⟩ := bind_eq_ok planned
  obtain ⟨result, converted, planned⟩ := bind_eq_ok planned
  cases planned
  exact ⟨rfl, found, converted⟩

theorem codes_eq_typeCodes {codes : List String} (cxx : job.config.cplusplus)
    (coded : codes? job r c = some codes) : codes = typeCodes r.table c := by
  obtain ⟨parameters, typed, coded⟩ := ok_of_toOption_map (Option.join_eq_some_iff.mp coded)
  rw [if_pos cxx] at coded
  obtain ⟨p, planned, rfl⟩ := ok_of_toOption_map coded
  obtain ⟨_, _, planned⟩ := bind_eq_ok planned
  obtain ⟨_, _, planned⟩ := bind_eq_ok planned
  cases planned
  rw [typeCodes, typedParameters_map typed, map_map]
  rfl

theorem signature_symbol {symbol : String} {side : Side} {signature : Signature}
    (signed : p.signature job r symbol side = .ok signature) : signature.symbol = symbol := by
  obtain ⟨self, _, signed⟩ := bind_eq_ok signed
  cases signed
  rfl

/-! ### The whole of it -/

theorem writeEnd_of_writeConverted {outcome : Except Halt Written} (cxx : job.config.cplusplus)
    (typed : typedParameters c = .ok parameters) (planned : plan job ⟨job.config, before.table⟩ c parameters = .ok p)
    (fresh : before.isDefined (before.names.name job.config c p.codes).1 = false)
    (ends : Ends (writeConverted job ⟨job.config, before.table⟩ p (before.names.name job.config c p.codes).1)
      { before with names := (before.names.name job.config c p.codes).2 } outcome after) (survives : Survives outcome) :
    ∃ written, outcome = .ok written ∧ WriteEnd job c before (.ok (some written)) after := by
  obtain ⟨rfl, _⟩ := plan_eq_ok planned
  unfold writeConverted at ends
  obtain ⟨implementation, implemented, ends⟩ := ends.lift_bind_value (signature_onlyFaults _ _ _) survives
  obtain ⟨header, declared, ends⟩ := ends.lift_bind_value (signature_onlyFaults _ _ _) survives
  obtain ⟨_, middle, prepared, ends⟩ := ends.bind_value (prepareHeader_neverRejects p) survives
  obtain ⟨_, rfl⟩ := ends_prepareHeader prepared survives_ok
  rw [ends_get_bind] at ends
  obtain ⟨body, bodied, ends⟩ := ends.lift_bind_value (body_onlyFaults _ _) survives
  obtain ⟨_, last, published, ends⟩ := ends.bind_value (publish_neverRejects _ _) survives
  obtain ⟨_, rfl⟩ := ends_publish published survives_ok
  rw [ends_tell_bind] at ends
  obtain ⟨rfl, rfl⟩ := ends.of_pure
  refine ⟨_, rfl, ?_⟩
  have whole := WriteEnd.published (.converted cxx typed planned implemented declared bodied) rfl fresh
  simpa [Rendering.publishedIn, supplied, cxx, signature_symbol implemented] using whole

theorem writeEnd_of_convert {outcome : Except Halt (Option Written)} (cxx : job.config.cplusplus)
    (typed : typedParameters c = .ok parameters) (ends : Ends (convert job c parameters) before outcome after)
    (survives : Survives outcome) : WriteEnd job c before outcome after := by
  unfold convert at ends
  rw [ends_resolver_bind] at ends
  cases planned : plan job ⟨job.config, before.table⟩ c parameters with
  | error stop =>
    rw [planned] at ends
    cases stop with
    | skipped warning =>
      rw [ends_warn_bind] at ends
      obtain ⟨rfl, rfl⟩ := ends.of_pure
      exact .unconverted cxx typed planned
    | halted halt =>
      obtain ⟨cause, rfl⟩ := plan_haltsByFault parameters halt planned
      obtain ⟨rfl, _⟩ := ends_throw_iff.mp ends
      exact survives.elim
  | ok p =>
    rw [planned] at ends
    obtain ⟨symbol, middle, reserved, ends⟩ := ends.bind_value (reserveSymbol_neverRejects _) survives
    rcases ends_reserveSymbol reserved survives_ok with ⟨fresh, found, rfl⟩ | ⟨defined, found, rfl⟩
    · cases found
      rcases ends.bind_survived survives with ⟨written, last, wrote, ends⟩ | ⟨message, site, wrote, rfl⟩
      · obtain ⟨rfl, rfl⟩ := ends.of_pure
        obtain ⟨_, same, whole⟩ := writeEnd_of_writeConverted cxx typed planned fresh wrote survives_ok
        cases same
        exact whole
      · obtain ⟨_, impossible, _⟩ := writeEnd_of_writeConverted cxx typed planned fresh wrote survives
        cases impossible
    · cases found
      obtain ⟨rfl, rfl⟩ := ends.of_pure
      exact .taken defined (by simp [codes?, typed, cxx, planned, Except.toOption])

theorem writeEnd_of_direct {outcome : Except Halt (Option Written)} (plain : job.config.cplusplus = false)
    (typed : typedParameters c = .ok parameters) (ends : Ends (direct job c parameters) before outcome after)
    (survives : Survives outcome) : WriteEnd job c before outcome after := by
  unfold direct at ends
  rw [ends_resolver_bind] at ends
  obtain ⟨symbol, middle, reserved, ends⟩ := ends.bind_value (reserveSymbol_neverRejects _) survives
  rcases ends_reserveSymbol reserved survives_ok with ⟨fresh, found, rfl⟩ | ⟨defined, found, rfl⟩
  · cases found
    obtain ⟨_, ends⟩ := ends.check_bind survives
    rw [ends_require_bind] at ends
    obtain ⟨body, bodied, ends⟩ := ends.lift_bind_value (directBody_onlyFaults _) survives
    obtain ⟨_, last, published, ends⟩ := ends.bind_value (publish_neverRejects _ _) survives
    obtain ⟨_, rfl⟩ := ends_publish published survives_ok
    obtain ⟨rfl, rfl⟩ := ends.of_pure
    have whole := WriteEnd.published (.direct plain typed bodied) rfl fresh
    simpa [Rendering.publishedIn, supplied, plain, directSignature] using whole
  · cases found
    obtain ⟨rfl, rfl⟩ := ends.of_pure
    exact .taken defined (by simp [codes?, typed, plain, Except.toOption])

theorem writeEnd_of_ends {outcome : Except Halt (Option Written)} (ends : Ends (write job c) before outcome after)
    (survives : Survives outcome) : WriteEnd job c before outcome after := by
  unfold write at ends
  rcases ends.lift_bind with ⟨parameters, typed, ends⟩ | ⟨halt, failed, rfl, rfl⟩
  · cases cxx : job.config.cplusplus with
    | true =>
      rw [cxx] at ends
      exact writeEnd_of_convert cxx typed ends survives
    | false =>
      rw [cxx] at ends
      exact writeEnd_of_direct cxx typed ends survives
  · cases halt with
    | rejected message site =>
      obtain rfl := typedParameters_rejected failed
      exact .rejected failed
    | fault cause => exact survives.elim

end FlatAbi.Wrapper
