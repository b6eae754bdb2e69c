import FlatAbi.Proofs.Emission.Visits
import FlatAbi.Proofs.Resolver.Failures

/-!
Every part of the emission fails only on argument texts of types that the tree was written with.
-/

namespace FlatAbi

open Emit SymbolTable List

variable {job : Job} {known : List TypeSyntaxError} {r : Resolver} {c : Callable} {t : CxxType}

/-- A result that fails on a text that cannot be read fails on a known one. -/
def Accounts {α : Type} (known : List TypeSyntaxError) (result : Except Halt α) : Prop :=
  ∀ cause, result = .error (.fault (.unreadableType cause)) → cause ∈ known

namespace Accounts

variable {α β : Type} {result : Except Halt α}

theorem ok {value : α} : Accounts known (.ok value) := by
  intro cause impossible
  cases impossible

theorem rejected {message : String} {site : Option Site} :
    Accounts known (.error (.rejected message site) : Except Halt α) := by
  intro cause impossible
  cases impossible

theorem fault {cause : Fault} (other : ∀ found, cause ≠ .unreadableType found) :
    Accounts known (.error (.fault cause) : Except Halt α) := by
  intro found same
  cases same
  exact (other found rfl).elim

theorem ofMisshapen {checked : Except Misshapen α} : Accounts known (Halt.ofMisshapen checked) := by
  cases checked with
  | ok value => exact ok
  | error cause => exact fault (by intro found impossible; cases impossible)

theorem ofUnreadable {read : Except TypeSyntaxError α} (failure : ∀ cause, read = .error cause → cause ∈ known) :
    Accounts known (Halt.ofUnreadable read) := by
  cases read with
  | ok value => exact ok
  | error cause =>
    intro found same
    cases same
    exact failure cause rfl

theorem bind {next : α → Except Halt β} (first : Accounts known result)
    (rest : ∀ value, result = .ok value → Accounts known (next value)) : Accounts known (result >>= next) := by
  cases result with
  | ok value => exact rest value rfl
  | error halt =>
    intro cause same
    cases same
    exact first cause rfl

theorem map {f : α → β} (accounts : Accounts known result) : Accounts known (result.map f) := by
  cases result with
  | ok value => exact ok
  | error halt =>
    intro cause same
    cases same
    exact accounts cause rfl

theorem mapM {f : α → Except Halt β} {items : List α} (each : ∀ item ∈ items, Accounts known (f item)) :
    Accounts known (items.mapM f) := by
  intro cause failed
  obtain ⟨item, listed, same⟩ := exists_of_mapM_error failed
  exact each item listed cause same

end Accounts

namespace Resolver

variable {scope : Value}

section

variable (knows : r.table.KnowsFailures known) (within : t.failures ⊆ known)

include knows within

theorem categoryAt_accounts : Accounts known (r.categoryAt t scope) :=
  .bind .ofMisshapen fun _ _ => .ofUnreadable fun _ => category_failure knows within

theorem plainFacade_failure {scope : String} {cause : TypeSyntaxError} (failed : r.plainFacade t scope = .error cause) :
    cause ∈ known := by
  unfold plainFacade cType at failed
  split at failed
  · cases failed
  · cases category : r.table.category t scope <;> rw [category] at failed <;> cases failed
    exact category_failure knows within category

theorem facadeParameterAt_accounts : Accounts known (r.facadeParameterAt t scope) := by
  refine .bind (categoryAt_accounts knows within) fun _ _ => .bind .ofMisshapen fun _ _ => .ofUnreadable ?_
  intro cause failed
  unfold facadeParameter at failed
  rcases bind_eq_error failed with unclassified | ⟨_, _, failed⟩
  · exact category_failure knows within unclassified
  · split at failed
    · exact plainFacade_failure knows within failed
    · split at failed <;> cases failed

theorem facadeResultAt_accounts : Accounts known (r.facadeResultAt t scope) := by
  refine .bind (categoryAt_accounts knows within) fun _ _ => .bind .ofMisshapen fun _ _ => .bind ?_ fun category _ => ?_
  · exact .ofUnreadable fun _ => category_failure knows within
  · split
    · exact .ok
    · exact .rejected
    · exact .rejected
    · split
      · exact .ofUnreadable fun _ => plainFacade_failure knows within
      · exact .ok

end

end Resolver

/-- What cannot be read in the types of a callable is known. -/
structure Callable.KnowsFailures (known : List TypeSyntaxError) (c : Callable) : Prop where
  result : c.result.failures ⊆ known
  parameter : ∀ p ∈ c.parameters, ∀ t, p.type = some t → t.failures ⊆ known
  decl : c.decl.failures ⊆ known

namespace Wrapper

theorem categoryOf_accounts (knows : r.table.KnowsFailures known) (within : t.failures ⊆ known) :
    Accounts known (categoryOf r c t) :=
  Resolver.categoryAt_accounts knows within

theorem typedParameters_accounts : Accounts known (typedParameters c) := by
  refine .mapM fun p _ => ?_
  split
  · exact .fault (by intro found impossible; cases impossible)
  · split
    · exact .bind .ofMisshapen fun _ _ => .rejected
    · exact .ok

variable {parameters : List TypedParameter}

theorem typedParameters_failures (covered : c.KnowsFailures known) (typed : typedParameters c = .ok parameters) :
    ∀ p ∈ parameters, p.type.failures ⊆ known := by
  intro p listed
  obtain ⟨declared, member, written⟩ := typedParameters_types typed p listed
  exact covered.parameter declared member p.type written

/-- A plan that halts on a text that cannot be read halts on a known one. -/
def PlanAccounts {α : Type} (known : List TypeSyntaxError) (result : Except Stop α) : Prop :=
  ∀ halt, result = .error (.halted halt) → Accounts known (.error halt : Except Halt α)

namespace PlanAccounts

variable {α β : Type}

theorem ok {value : α} : PlanAccounts known (.ok value) := by
  intro halt impossible
  cases impossible

theorem skipped {warning : String} : PlanAccounts known (.error (.skipped warning) : Except Stop α) := by
  intro halt impossible
  cases impossible

theorem mapError {result : Except Halt α} (accounts : Accounts known result) :
    PlanAccounts known (result.mapError .halted) := by
  cases result with
  | ok value => exact ok
  | error found =>
    intro halt same
    cases same
    exact accounts

theorem bind {result : Except Stop α} {next : α → Except Stop β} (first : PlanAccounts known result)
    (rest : ∀ value, PlanAccounts known (next value)) : PlanAccounts known (result >>= next) := by
  cases result with
  | ok value => exact rest value
  | error stop =>
    intro halt same
    cases same
    intro cause found
    cases found
    exact first _ rfl cause rfl

end PlanAccounts

theorem argumentsFrom_accounts (knows : r.table.KnowsFailures known) {listed : List (TypedParameter × String)}
    (within : ∀ p ∈ listed, p.1.type.failures ⊆ known) (position : Nat) :
    PlanAccounts known (argumentsFrom job r c position listed) := by
  induction listed generalizing position with
  | nil => exact .ok
  | cons first rest ih =>
    refine .bind (.bind (.mapError (categoryOf_accounts knows (within first (by simp)))) fun category => ?_)
      fun _ => .bind (ih (fun p member => within p (by simp [member])) _) fun _ => .ok
    split
    · exact .skipped
    · exact .ok

theorem plan_accounts (knows : r.table.KnowsFailures known) (covered : c.KnowsFailures known)
    (within : ∀ p ∈ parameters, p.type.failures ⊆ known) : PlanAccounts known (plan job r c parameters) := by
  refine .bind (.bind (.mapError .ofMisshapen) fun _ => .bind (.mapError .ofMisshapen) fun _ => ?_)
    fun _ => .bind ?_ fun _ => .ok
  · exact argumentsFrom_accounts knows (fun p member => within p.1 (of_mem_zip member).1) _
  · unfold convertedResult
    split
    · exact .ok
    · refine .bind (.mapError (categoryOf_accounts knows covered.result)) fun category => ?_
      split
      · exact .skipped
      · exact .ok

theorem plan_types {p : Plan} (planned : plan job r c parameters = .ok p) :
    ∀ a ∈ p.args, ∃ parameter ∈ parameters, parameter.type = a.type := by
  obtain ⟨_, found, _⟩ := plan_eq_ok planned
  intro a listed
  obtain ⟨entry, zipped, _, same⟩ := exists_of_mem_right (arguments_eq_ok found) listed
  exact ⟨entry.1, (of_mem_zip zipped).1, (argument_eq_ok same).2.1.symm⟩

theorem userCode_accounts (d : Declaration) (key : String) : Accounts known (userCode d key) := by
  unfold userCode
  split
  · exact .ok
  · exact .bind .ofMisshapen fun _ _ => .ok

theorem readVariable_accounts (knows : r.table.KnowsFailures known) (covered : c.KnowsFailures known)
    (args : List Argument) (result : Option ResultLocal) : Accounts known (readVariable r c args result) := by
  refine .bind ?_ fun isObject _ => ?_
  · unfold isObjectVariable
    split
    · exact .ok
    · rename_i t written
      have within : t.failures ⊆ known := Subset.trans (Declaration.type_failures written) covered.decl
      exact .bind (categoryOf_accounts knows within) fun _ _ => .ok
  · cases isObject with
    | false => exact .ok
    | true =>
      cases result with
      | none => exact .fault (by intro found impossible; cases impossible)
      | some result => exact .ok

theorem action_accounts (knows : r.table.KnowsFailures known) (covered : c.KnowsFailures known)
    (args : List Argument) (result : Option ResultLocal) : Accounts known (action r c args result) := by
  unfold action
  split
  all_goals first
    | exact readVariable_accounts knows covered args result
    | exact .ok
    | cases result with
      | none => exact .fault (by intro found impossible; cases impossible)
      | some result => exact .ok

theorem body_accounts {p : Plan} (knows : r.table.KnowsFailures known) (covered : p.callable.KnowsFailures known)
    (support : ExceptionSupport) : Accounts known (p.body job r support) := by
  refine .bind .ofMisshapen fun _ _ => .bind (userCode_accounts _ _) fun _ _ => .bind .ofMisshapen fun _ _ =>
    .bind (action_accounts knows covered _ _) fun _ _ => .bind (.bind (userCode_accounts _ _) fun handlers _ => ?_)
      fun _ _ => .bind (userCode_accounts _ _) fun _ _ => .bind .ofMisshapen fun _ _ => .ok
  cases handlers with
  | cons handler rest => exact .ok
  | nil =>
    dsimp only
    split <;> exact .ok

theorem signature_accounts (p : Plan) (symbol : String) (side : Side) :
    Accounts known (p.signature job r symbol side) := by
  refine .bind ?_ fun _ _ => .ok
  unfold Plan.selfParameter
  split
  · cases p.callable.owner with
    | none => exact .fault (by intro found impossible; cases impossible)
    | some owner => exact .ok
  · exact .ok

theorem directBody_accounts (parameters : List TypedParameter) : Accounts known (directBody job r c parameters) := by
  refine .bind .ofMisshapen fun _ _ => .bind (userCode_accounts _ _) fun _ _ => .bind ?_ fun _ _ =>
    .bind (userCode_accounts _ _) fun _ _ => .ok
  unfold directCall
  split
  · exact .ok
  · cases directNames parameters with
    | nil => exact .fault (by intro found impossible; cases impossible)
    | cons value rest => exact .ok
  · exact .ok

end Wrapper

/-- What cannot be read in the types of a member is known. -/
def Shadow.KnowsFailures (known : List TypeSyntaxError) (m : Shadow) : Prop :=
  m.member.decl.failures ⊆ known

/-- What cannot be read in the types that a draft refers to is known. -/
structure Draft.KnowsFailures (known : List TypeSyntaxError) (draft : Draft) : Prop where
  typedefs : draft.table.KnowsFailures known
  classes : ∀ entry ∈ draft.table.classes, ∀ child ∈ entry.2.children, child.decl.failures ⊆ known
  memo : draft.memo.All (Shadow.KnowsFailures known)

/-- Work that fails on known texts only, and whose values are good. -/
def Careful {α : Type} (known : List TypeSyntaxError) (work : Emit α) (Good : α → Prop) : Prop :=
  ∀ before outcome after, before.KnowsFailures known → Ends work before outcome after →
    Accounts known outcome ∧
      (Survives outcome → after.KnowsFailures known ∧ ∀ value, outcome = .ok value → Good value)

namespace Careful

variable {α β : Type} {work : Emit α} {next : α → Emit β} {Good : α → Prop} {Best : β → Prop}

theorem pure {value : α} (good : Good value) : Careful known (pure value) Good := by
  intro before outcome after covered ends
  obtain ⟨rfl, rfl⟩ := ends.of_pure
  refine ⟨.ok, fun _ => ⟨covered, fun found same => ?_⟩⟩
  cases same
  exact good

theorem throw {halt : Halt} (accounts : Accounts known (.error halt : Except Halt α)) :
    Careful known (throw halt) Good := by
  intro before outcome after covered ends
  obtain ⟨rfl, rfl⟩ := ends_throw_iff.mp ends
  exact ⟨accounts, fun _ => ⟨covered, fun _ impossible => by cases impossible⟩⟩

theorem lift {result : Except Halt α} (accounts : Accounts known result)
    (good : ∀ value, result = .ok value → Good value) : Careful known (lift result) Good := by
  intro before outcome after covered ends
  obtain ⟨rfl, rfl⟩ := ends_lift_iff.mp ends
  exact ⟨accounts, fun _ => ⟨covered, good⟩⟩

theorem check {result : Except Misshapen Unit} : Careful known (check result) fun _ => True :=
  lift .ofMisshapen fun _ _ => trivial

theorem get : Careful known get fun draft => draft.KnowsFailures known := by
  intro before outcome after covered ends
  cases ends
  refine ⟨.ok, fun _ => ⟨covered, fun value same => ?_⟩⟩
  cases same
  exact covered

theorem resolver : Careful known (Emit.resolver job) fun r => r.table.KnowsFailures known := by
  intro before outcome after covered ends
  cases ends
  refine ⟨.ok, fun _ => ⟨covered, fun value same => ?_⟩⟩
  cases same
  exact covered.typedefs

theorem modify {change : Draft → Draft}
    (keeps : ∀ draft : Draft, (change draft).table = draft.table ∧ (change draft).memo = draft.memo) :
    Careful known (modify change) fun _ => True := by
  intro before outcome after covered ends
  obtain ⟨rfl, rfl⟩ := ends_modify_iff.mp ends
  obtain ⟨table, memo⟩ := keeps before
  refine ⟨.ok, fun _ => ⟨⟨?_, ?_, ?_⟩, fun _ _ => trivial⟩⟩
  · rw [table]
    exact covered.typedefs
  · rw [table]
    exact covered.classes
  · rw [memo]
    exact covered.memo

theorem set {draft : Draft} (covered : draft.KnowsFailures known) : Careful known (set draft) fun _ => True := by
  intro before outcome after _ ends
  cases ends
  exact ⟨.ok, fun _ => ⟨covered, fun _ _ => trivial⟩⟩

theorem append {chunk : Chunk} : Careful known (append chunk) fun _ => True :=
  modify fun _ => ⟨rfl, rfl⟩

theorem tell {event : Event} : Careful known (tell event) fun _ => True :=
  modify fun _ => ⟨rfl, rfl⟩

theorem bind (first : Careful known work Good) (rest : ∀ value, Good value → Careful known (next value) Best) :
    Careful known (work >>= next) Best := by
  intro before outcome after covered ends
  rcases ends.bind_cases with ⟨value, middle, began, ended⟩ | ⟨halt, began, rfl⟩
  · obtain ⟨_, kept⟩ := first before _ middle covered began
    obtain ⟨coveredMiddle, good⟩ := kept survives_ok
    exact rest value (good value rfl) middle outcome after coveredMiddle ended
  · obtain ⟨accounts, kept⟩ := first before _ after covered began
    refine ⟨fun cause same => ?_, fun survives => ⟨(kept survives.of_error).1, fun _ impossible => by cases impossible⟩⟩
    cases same
    exact accounts cause rfl

theorem seq (first : Careful known work fun _ => True) (rest : ∀ value, Careful known (next value) Best) :
    Careful known (work >>= next) Best :=
  bind first fun value _ => rest value

theorem forM {f : α → Emit PUnit} {items : List α} (each : ∀ item ∈ items, Careful known (f item) fun _ => True) :
    Careful known (items.forM f) fun _ => True := by
  induction items with
  | nil => exact pure trivial
  | cons item rest ih =>
    exact seq (each item (by simp)) fun _ => ih fun other member => each other (by simp [member])

theorem foldlM {f : β → α → Emit β} {items : List α}
    (each : ∀ state, ∀ item ∈ items, Careful known (f state item) fun _ => True) (start : β) :
    Careful known (items.foldlM f start) fun _ => True := by
  induction items generalizing start with
  | nil => exact pure trivial
  | cons item rest ih =>
    rw [foldlM_cons]
    exact seq (each start item (by simp)) fun state =>
      ih (fun state other member => each state other (by simp [member])) state

theorem recover {handler : Halt → Emit α} (first : Careful known work Good)
    (rejected : ∀ message site, Careful known (handler (.rejected message site)) Good)
    (passed : ∀ cause, handler (.fault cause) = MonadExcept.throw (.fault cause)) :
    Careful known (tryCatch work handler) Good := by
  intro before outcome after covered ends
  rcases ends.tryCatch_cases with ⟨value, ended, rfl⟩ | ⟨halt, middle, began, ended⟩
  · exact first before _ after covered ended
  · obtain ⟨accounts, kept⟩ := first before _ middle covered began
    cases halt with
    | rejected message site => exact rejected message site middle outcome after (kept survives_rejected).1 ended
    | fault cause =>
      rw [passed] at ended
      obtain ⟨rfl, rfl⟩ := ends_throw_iff.mp ended
      exact ⟨accounts, fun impossible => impossible.elim⟩

theorem guarded {site : Site} {work : Emit Unit} (careful : Careful known work fun _ => True) :
    Careful known (guarded site work) fun _ => True :=
  recover careful (fun _ _ => tell) fun _ => rfl

end Careful

end FlatAbi
