import FlatAbi.Emission.Module
import FlatAbi.Proofs.Declaration.Namesakes
import FlatAbi.Proofs.Emission.Ends

/-!
Two pieces of work in lockstep take related drafts to related drafts and come to the same outcome.
-/

namespace FlatAbi

open Emit Variable List

/-- Both have related values, or both have related errors. -/
def SameResult {ε η α β : Type} (SameError : ε → η → Prop) (Same : α → β → Prop) : Except ε α → Except η β → Prop
  | .ok one, .ok two => Same one two
  | .error cause, .error other => SameError cause other
  | _, _ => False

namespace SameResult

variable {ε η α β γ δ : Type} {SameError : ε → η → Prop} {Same : α → β → Prop} {Next : γ → δ → Prop} {one : Except ε α}
  {two : Except η β}

theorem cases (same : SameResult SameError Same one two) :
    (∃ a b, one = .ok a ∧ two = .ok b ∧ Same a b) ∨
      ∃ cause other, one = .error cause ∧ two = .error other ∧ SameError cause other := by
  cases one with
  | ok a =>
    cases two with
    | ok b => exact .inl ⟨a, b, rfl, rfl, same⟩
    | error other => exact same.elim
  | error cause =>
    cases two with
    | ok b => exact same.elim
    | error other => exact .inr ⟨cause, other, rfl, rfl, same⟩

theorem toOption_map {f : α → γ} {g : β → γ} (same : SameResult SameError Same one two)
    (each : ∀ a b, Same a b → f a = g b) : one.toOption.map f = two.toOption.map g := by
  rcases same.cases with ⟨a, b, rfl, rfl, values⟩ | ⟨_, _, rfl, rfl, _⟩
  · exact congrArg some (each a b values)
  · rfl

theorem bind {nextOne : α → Except ε γ} {nextTwo : β → Except η δ} (first : SameResult SameError Same one two)
    (rest : ∀ a b, Same a b → SameResult SameError Next (nextOne a) (nextTwo b)) :
    SameResult SameError Next (one >>= nextOne) (two >>= nextTwo) := by
  rcases first.cases with ⟨a, b, rfl, rfl, values⟩ | ⟨_, _, rfl, rfl, causes⟩
  · exact rest a b values
  · exact causes

theorem map {f : α → γ} {g : β → δ} (first : SameResult SameError Same one two)
    (each : ∀ a b, Same a b → Next (f a) (g b)) : SameResult SameError Next (one.map f) (two.map g) := by
  rcases first.cases with ⟨a, b, rfl, rfl, values⟩ | ⟨_, _, rfl, rfl, causes⟩
  · exact each a b values
  · exact causes

theorem mapM {f : α → Except ε γ} {g : β → Except η δ} {items : List α} {others : List β}
    (listed : Forall₂ (fun item other => SameResult SameError Next (f item) (g other)) items others) :
    SameResult SameError (Forall₂ Next) (items.mapM f) (others.mapM g) := by
  induction listed with
  | nil => exact .nil
  | cons first _ ih =>
    rw [mapM_cons, mapM_cons]
    exact bind first fun _ _ same => bind ih fun _ _ later => .cons same later

end SameResult

/-- Halts for the same fault, or with rejections that are the same. -/
def SameHalt (SameRejection : String → Option Site → String → Option Site → Prop) : Halt → Halt → Prop
  | .rejected message site, .rejected other place => SameRejection message site other place
  | .fault cause, .fault other => cause = other
  | _, _ => False

theorem Site.Namesake.about {site site' : Site} (same : site.Namesake site') (severity : Severity) (message : String) :
    Diagnostic.about severity (some site) message = .about severity (some site') message := by
  simp only [Diagnostic.about, same.symbolValue, same.file, same.line]

/-- Rejections with the same message about sites of the same names. -/
def NamesakeRejection (message : String) (site : Option Site) (other : String) (place : Option Site) : Prop :=
  message = other ∧ Option.Rel Site.Namesake site place

theorem NamesakeRejection.refl (message : String) (site : Option Site) :
    NamesakeRejection message site message site := by
  cases site with
  | none => exact ⟨rfl, .none⟩
  | some site => exact ⟨rfl, .some (.refl site)⟩

abbrev NamesakeHalt : Halt → Halt → Prop := SameHalt NamesakeRejection

theorem NamesakeHalt.refl (halt : Halt) : NamesakeHalt halt halt := by
  cases halt with
  | rejected message site => exact NamesakeRejection.refl message site
  | fault cause => exact rfl

theorem SameResult.of_eq {α : Type} (Same : α → α → Prop) {result other : Except Halt α} (eq : result = other)
    (refl : ∀ value, Same value value) : SameResult NamesakeHalt Same result other := by
  subst eq
  cases result with
  | ok value => exact refl value
  | error halt => exact NamesakeHalt.refl halt

/-- How two runs are compared. Where `faults` is false, only work that no fault ends is looked at. -/
structure Comparison where
  Rel : Draft → Draft → Prop
  SameRejection : String → Option Site → String → Option Site → Prop
  faults : Bool

namespace Comparison

variable {α β : Type} (cmp : Comparison)

/-- Both have related values, or both are halted alike. -/
abbrev SameOutcome (Same : α → β → Prop) : Except Halt α → Except Halt β → Prop :=
  SameResult (SameHalt cmp.SameRejection) Same

/-- An outcome that is looked at. -/
def Counts (outcome : Except Halt α) : Prop :=
  cmp.faults = false → Survives outcome

/-- Drafts stay related under the same additions, and under reports about rejections that are the same. -/
class Lawful : Prop where
  append : ∀ {left right} chunk, cmp.Rel left right →
    cmp.Rel { left with chunks := left.chunks ++ [chunk] } { right with chunks := right.chunks ++ [chunk] }
  require : ∀ {left right} needs, cmp.Rel left right → cmp.Rel (left.supplied needs) (right.supplied needs)
  tell : ∀ {left right} event, cmp.Rel left right →
    cmp.Rel { left with events := left.events ++ [event] } { right with events := right.events ++ [event] }
  record : ∀ {left right} symbol, cmp.Rel left right →
    cmp.Rel { left with symbols := left.symbols ++ [symbol] } { right with symbols := right.symbols ++ [symbol] }
  same : ∀ message site, cmp.SameRejection message site message site
  reported : ∀ {left right message other found place} {site site' : Site}, cmp.SameRejection message found other place →
    site.Namesake site' → cmp.Rel left right →
    cmp.Rel
      { left with events := left.events ++ [.diagnosed (.about .error (some (found.getD site)) message)] }
      { right with events := right.events ++ [.diagnosed (.about .error (some (place.getD site')) other)] }

end Comparison

variable {cmp : Comparison}

theorem counts_ok {α : Type} {value : α} : cmp.Counts (.ok value : Except Halt α) := fun _ => survives_ok

theorem counts_rejected {α : Type} {message : String} {site : Option Site} :
    cmp.Counts (.error (.rejected message site) : Except Halt α) := fun _ => survives_rejected

theorem Comparison.Counts.of_error {α β : Type} {halt : Halt} (counts : cmp.Counts (.error halt : Except Halt α)) :
    cmp.Counts (.error halt : Except Halt β) := fun lenient => (counts lenient).of_error

/-- Two pieces of work keep drafts related and come to the same outcome. -/
def Lockstep {α β : Type} (cmp : Comparison) (one : Emit α) (two : Emit β) (Same : α → β → Prop) : Prop :=
  ∀ left right, cmp.Rel left right → ∀ {first second lastLeft lastRight},
    Ends one left first lastLeft → Ends two right second lastRight → cmp.Counts first → cmp.Counts second →
      cmp.Rel lastLeft lastRight ∧ cmp.SameOutcome Same first second

namespace Lockstep

variable {α β γ δ : Type} {one : Emit α} {two : Emit β} {Same : α → β → Prop} {Next : γ → δ → Prop}
  {left right : Draft} {nextOne : α → Emit γ} {nextTwo : β → Emit δ}

theorem pure {a : α} {b : β} (same : Same a b) : Lockstep cmp (pure a) (pure b) Same := by
  intro left right rel first second lastLeft lastRight began ended _ _
  obtain ⟨rfl, rfl⟩ := began.of_pure
  obtain ⟨rfl, rfl⟩ := ended.of_pure
  exact ⟨rel, same⟩

theorem lift_of {result : Except Halt α} {other : Except Halt β}
    (same : cmp.Counts result → cmp.Counts other → cmp.SameOutcome Same result other) :
    Lockstep cmp (lift result) (lift other) Same := by
  intro left right rel first second lastLeft lastRight began ended counts countsToo
  obtain ⟨rfl, rfl⟩ := ends_lift_iff.mp began
  obtain ⟨rfl, rfl⟩ := ends_lift_iff.mp ended
  exact ⟨rel, same counts countsToo⟩

theorem get : Lockstep cmp get get cmp.Rel := by
  intro left right rel first second lastLeft lastRight began ended _ _
  cases began
  cases ended
  exact ⟨rel, rel⟩

theorem set {one two : Draft} (rel : cmp.Rel one two) : Lockstep cmp (set one) (set two) Eq := by
  intro left right _ first second lastLeft lastRight began ended _ _
  cases began
  cases ended
  exact ⟨rel, rfl⟩

theorem modify {change other : Draft → Draft}
    (keeps : ∀ left right, cmp.Rel left right → cmp.Rel (change left) (other right)) :
    Lockstep cmp (modify change) (modify other) Eq := by
  intro left right rel first second lastLeft lastRight began ended _ _
  obtain ⟨rfl, rfl⟩ := ends_modify_iff.mp began
  obtain ⟨rfl, rfl⟩ := ends_modify_iff.mp ended
  exact ⟨keeps left right rel, rfl⟩

theorem bind_cases {firstOutcome : Except Halt γ} {secondOutcome : Except Halt δ} {lastLeft lastRight : Draft}
    (first : Lockstep cmp one two Same) (rel : cmp.Rel left right)
    (began : Ends (one >>= nextOne) left firstOutcome lastLeft)
    (ended : Ends (two >>= nextTwo) right secondOutcome lastRight) (counts : cmp.Counts firstOutcome)
    (countsToo : cmp.Counts secondOutcome) :
    (∃ a b middleLeft middleRight, Same a b ∧ cmp.Rel middleLeft middleRight ∧
      Ends one left (.ok a) middleLeft ∧ Ends (nextOne a) middleLeft firstOutcome lastLeft ∧
      Ends two right (.ok b) middleRight ∧ Ends (nextTwo b) middleRight secondOutcome lastRight) ∨
    cmp.Rel lastLeft lastRight ∧
      ∃ halt other, firstOutcome = .error halt ∧ secondOutcome = .error other ∧
        SameHalt cmp.SameRejection halt other := by
  rcases began.bind_cases with ⟨a, middleLeft, startLeft, endLeft⟩ | ⟨halt, startLeft, rfl⟩
  · rcases ended.bind_cases with ⟨b, middleRight, startRight, endRight⟩ | ⟨other, startRight, rfl⟩
    · obtain ⟨middle, same⟩ := first left right rel startLeft startRight counts_ok counts_ok
      exact .inl ⟨a, b, middleLeft, middleRight, same, middle, startLeft, endLeft, startRight, endRight⟩
    · exact (first left right rel startLeft startRight counts_ok countsToo.of_error).2.elim
  · rcases ended.bind_cases with ⟨b, middleRight, startRight, _⟩ | ⟨other, startRight, rfl⟩
    · exact (first left right rel startLeft startRight counts.of_error counts_ok).2.elim
    · obtain ⟨last, same⟩ := first left right rel startLeft startRight counts.of_error countsToo.of_error
      exact .inr ⟨last, halt, other, rfl, rfl, same⟩

theorem bind (first : Lockstep cmp one two Same) (rest : ∀ a b, Same a b → Lockstep cmp (nextOne a) (nextTwo b) Next) :
    Lockstep cmp (one >>= nextOne) (two >>= nextTwo) Next := by
  intro left right rel firstOutcome secondOutcome lastLeft lastRight began ended counts countsToo
  rcases first.bind_cases rel began ended counts countsToo with
    ⟨a, b, _, _, same, middle, _, endLeft, _, endRight⟩ | ⟨last, _, _, rfl, rfl, same⟩
  · exact rest a b same _ _ middle endLeft endRight counts countsToo
  · exact ⟨last, same⟩

theorem bind_eq {other : Emit α} {nextTwo : α → Emit δ} (first : Lockstep cmp one other Eq)
    (rest : ∀ value, Lockstep cmp (nextOne value) (nextTwo value) Next) :
    Lockstep cmp (one >>= nextOne) (other >>= nextTwo) Next :=
  bind first fun value _ same => same ▸ rest value

theorem forM {f : α → Emit PUnit} {g : β → Emit PUnit} {items : List α} {others : List β}
    (listed : Forall₂ (fun item other => Lockstep cmp (f item) (g other) Eq) items others) :
    Lockstep cmp (items.forM f) (others.forM g) Eq := by
  induction listed with
  | nil => exact pure rfl
  | cons first _ ih => exact bind_eq first fun _ => ih

theorem foldlM {Item : γ → δ → Prop} {f : α → γ → Emit α} {g : β → δ → Emit β} {items : List γ} {others : List δ}
    (listed : Forall₂ Item items others)
    (each : ∀ a b item other, Same a b → Item item other → Lockstep cmp (f a item) (g b other) Same) {a : α} {b : β}
    (same : Same a b) : Lockstep cmp (items.foldlM f a) (others.foldlM g b) Same := by
  induction listed generalizing a b with
  | nil => exact pure same
  | cons first _ ih =>
    rw [foldlM_cons, foldlM_cons]
    exact bind (each a b _ _ same first) fun _ _ next => ih next

theorem recover {handler : Halt → Emit α} {other : Halt → Emit β} (first : Lockstep cmp one two Same)
    (rejected : ∀ m s n t, cmp.SameRejection m s n t →
      Lockstep cmp (handler (.rejected m s)) (other (.rejected n t)) Same)
    (passed : ∀ cause, handler (.fault cause) = MonadExcept.throw (.fault cause))
    (passedToo : ∀ cause, other (.fault cause) = MonadExcept.throw (.fault cause)) :
    Lockstep cmp (tryCatch one handler) (tryCatch two other) Same := by
  intro left right rel firstOutcome secondOutcome lastLeft lastRight began ended counts countsToo
  -- what halts the work counts, since a rejection does and a fault is passed on
  have counted {ε : Type} {halt : Halt} {middle last : Draft} {outcome : Except Halt ε} {handler : Halt → Emit ε}
      (passed : ∀ cause, handler (.fault cause) = MonadExcept.throw (.fault cause)) (counts : cmp.Counts outcome)
      (handled : Ends (handler halt) middle outcome last) : cmp.Counts (.error halt : Except Halt ε) := by
    cases halt with
    | rejected message site => exact counts_rejected
    | fault cause =>
      rw [passed] at handled
      obtain ⟨rfl, _⟩ := ends_throw_iff.mp handled
      exact counts
  rcases began.tryCatch_cases with ⟨_, endLeft, rfl⟩ | ⟨halt, middleLeft, startLeft, endLeft⟩
  · rcases ended.tryCatch_cases with ⟨_, endRight, rfl⟩ | ⟨_, _, startRight, endRight⟩
    · exact first left right rel endLeft endRight counts_ok counts_ok
    · exact (first left right rel endLeft startRight counts_ok (counted passedToo countsToo endRight)).2.elim
  · rcases ended.tryCatch_cases with ⟨_, endRight, rfl⟩ | ⟨halted, middleRight, startRight, endRight⟩
    · exact (first left right rel startLeft endRight (counted passed counts endLeft) counts_ok).2.elim
    · obtain ⟨middle, same⟩ := first left right rel startLeft startRight (counted passed counts endLeft)
        (counted passedToo countsToo endRight)
      cases halt with
      | rejected m s =>
        cases halted with
        | rejected n t => exact rejected m s n t same _ _ middle endLeft endRight counts countsToo
        | fault cause => exact same.elim
      | fault cause =>
        cases halted with
        | rejected n t => exact same.elim
        | fault cause' =>
          rw [passed] at endLeft
          rw [passedToo] at endRight
          obtain ⟨rfl, rfl⟩ := ends_throw_iff.mp endLeft
          obtain ⟨rfl, rfl⟩ := ends_throw_iff.mp endRight
          exact ⟨middle, same⟩

section lawful

variable [lawful : cmp.Lawful]

theorem lift {result : Except Halt α} : Lockstep cmp (lift result) (lift result) Eq := by
  refine lift_of fun _ _ => ?_
  cases result with
  | ok value => rfl
  | error halt =>
    cases halt with
    | rejected message site => exact lawful.same message site
    | fault cause => rfl

theorem lift_eq {result other : Except Halt α} (same : result = other) :
    Lockstep cmp (Emit.lift result) (Emit.lift other) Eq :=
  same ▸ lift

theorem throw {halt : Halt} : Lockstep cmp (throw halt : Emit α) (throw halt : Emit β) Same := by
  have lifted : Lockstep cmp (Emit.lift (.error halt) : Emit α) (Emit.lift (.error halt) : Emit β) Same := by
    refine lift_of fun _ _ => ?_
    cases halt with
    | rejected message site => exact lawful.same message site
    | fault cause => rfl
  exact lifted

theorem check {result : Except Misshapen Unit} : Lockstep cmp (check result) (check result) Eq := lift

theorem check_eq {result other : Except Misshapen Unit} (same : result = other) :
    Lockstep cmp (Emit.check result) (Emit.check other) Eq :=
  same ▸ check

theorem append {chunk : Chunk} : Lockstep cmp (append chunk) (append chunk) Eq :=
  modify fun _ _ => lawful.append chunk

theorem tell {event : Event} : Lockstep cmp (tell event) (tell event) Eq :=
  modify fun _ _ => lawful.tell event

theorem require {needs : List Need} : Lockstep cmp (require needs) (require needs) Eq := by
  intro left right rel first second lastLeft lastRight began ended _ _
  obtain ⟨rfl, rfl⟩ := ends_require_iff.mp began
  obtain ⟨rfl, rfl⟩ := ends_require_iff.mp ended
  exact ⟨lawful.require needs rel, rfl⟩

variable {site site' : Site}

theorem report (same : site.Namesake site') (severity : Severity) (message : String) :
    Lockstep cmp (report severity site message) (report severity site' message) Eq := by
  unfold Emit.report
  rw [same.about]
  exact tell

theorem warn (same : site.Namesake site') (message : String) :
    Lockstep cmp (warn site message) (warn site' message) Eq :=
  report same .warning message

theorem record (same : site.Namesake site') (kind : SymbolKind) {name other : Value} (named : name = other) :
    Lockstep cmp (record kind name site) (record kind other site') Eq := by
  refine bind_eq (check_eq same.checkQualified) fun _ => ?_
  rw [named, same.qualifiedValue, same.file, same.line]
  exact modify fun _ _ => lawful.record _

theorem guarded {one two : Emit Unit} (same : site.Namesake site') (first : Lockstep cmp one two Eq) :
    Lockstep cmp (guarded site one) (guarded site' two) Eq :=
  recover first (fun _ _ _ _ rejected => modify fun _ _ => lawful.reported rejected same) (fun _ => rfl) fun _ => rfl

variable {job job' : Job}

theorem exportDirectly (same : site.Namesake site') (isStatic : site.decl.isStatic = site'.decl.isStatic)
    (globalPart : job.config.globalPart? = job'.config.globalPart?)
    (exportable : isExportable job.config site = isExportable job'.config site')
    (declares : Lockstep cmp (declare? job site) (declare? job' site') Eq) :
    Lockstep cmp (Variable.exportDirectly job site) (Variable.exportDirectly job' site') Eq := by
  unfold Variable.exportDirectly
  rw [isStatic, globalPart, same.checkNamespace, exportable]
  split
  · exact pure rfl
  · dsimp only
    split
    -- the namespace is checked first where no global part is given; the rest is the same
    case' isTrue => refine bind_eq check fun _ => ?_
    all_goals
      split
      · exact pure rfl
      · refine bind_eq declares fun found => ?_
        cases found with
        | none => exact pure rfl
        | some declaration =>
          exact bind_eq append fun _ =>
            bind_eq (record same .variable (congrArg _ same.shortName)) fun _ => pure rfl

theorem importDecl (same : site.decl = site'.decl) :
    Lockstep cmp (Module.importDecl job site) (Module.importDecl job site') Eq := by
  unfold Module.importDecl
  rw [same]
  dsimp only
  split
  · split
    · exact append
    · exact throw
  · exact pure rfl

theorem insertDecl (decl : site.decl = site'.decl) (same : site.Namesake site') :
    Lockstep cmp (Module.insertDecl site) (Module.insertDecl site') Eq := by
  unfold Module.insertDecl
  rw [decl]
  split
  · exact throw
  · exact throw
  · split
    · exact bind_eq lift fun _ => append
    · exact warn same _

theorem constant (job : Job) (site : Site) : Lockstep cmp (Constant.write job site) (Constant.write job site) Eq :=
  bind_eq lift fun _ => bind_eq check fun _ => bind_eq append fun _ => record (.refl _) _ rfl

end lawful

end Lockstep

end FlatAbi
