import FlatAbi.Proofs.Emission.Visits

/-!
What emitting a class of C++ can come to. It is declared and begun in any case, and then its members are listed.
-/

namespace FlatAbi

open Emit FlatAbi.Module Members Facade Inheritance

variable {job : Job} {cls : Site} {before after : Draft} {outcome : Except Halt Unit} {members : List Member}

def classDeclaredIn (job : Job) (cls : Site) (draft : Draft) : Draft :=
  { draft with
    chunks := draft.chunks ++ [.proxyType (Naming.proxyName job.config cls)]
    symbols := draft.symbols ++ [symbolOf .type (Naming.proxyValue job.config cls) cls] }

def warnUnsupported (cls : Site) : Emit Unit :=
  cls.children.forM fun child => do
    check (checkUnsupported child)
    match unsupported? cls child with
    | some warning => warn child warning
    | none => pure ()

/-- A class is declared and begun, and it is known whether it is abstract. -/
structure ClassBegins (job : Job) (cls : Site) (before : Draft) (opened : OpenClass) (abstract : Bool)
    (begun asked : Draft) : Prop where
  opening : Ends (openClass job cls) (classDeclaredIn job cls before) (.ok opened) begun
  asking : Ends (inherit fun table memo => isAbstract table memo cls) begun (.ok abstract) asked

/-- The members of a class are emitted in order and its facade is ended. -/
structure ClassFills (job : Job) (cls : Site) (members : List Member) (opened : OpenClass)
    (before warned listed after : Draft) : Prop where
  warning : Ends (warnUnsupported cls) before (.ok ()) warned
  closing : ∃ finished closed, Ends (members.foldlM (classMember job) opened) warned (.ok finished) listed ∧
    Ends (closeClass job finished) listed (.ok closed) after

/-- All that emitting a class can come to, faults apart. -/
inductive ClassEnd (job : Job) (cls : Site) (before : Draft) : Except Halt Unit → Draft → Prop where
  | unlisted {opened : OpenClass} {abstract : Bool} {begun asked : Draft} {message : String} {site : Option Site}
      (begins : ClassBegins job cls before opened abstract begun asked)
      (failed : Members.own ⟨job.config, asked.table⟩ cls abstract = .error (.rejected message site)) :
      ClassEnd job cls before (.error (.rejected message site)) asked
  | uninherited {opened : OpenClass} {abstract : Bool} {begun asked flattened : Draft} {own : List Own}
      {shadows : List Shadow} {message : String} {site : Option Site}
      (begins : ClassBegins job cls before opened abstract begun asked)
      (owned : Members.own ⟨job.config, asked.table⟩ cls abstract = .ok own)
      (flattens : Ends (inherit fun table memo => flatten table memo cls) asked (.ok shadows) flattened)
      (failed : Members.inherited ⟨job.config, asked.table⟩ cls shadows = .error (.rejected message site)) :
      ClassEnd job cls before (.error (.rejected message site)) flattened
  | filled {opened : OpenClass} {abstract : Bool} {begun asked flattened warned listed after : Draft}
      {own : List Own} {shadows : List Shadow} {inherited : List Callable}
      (begins : ClassBegins job cls before opened abstract begun asked)
      (owned : Members.own ⟨job.config, asked.table⟩ cls abstract = .ok own)
      (flattens : Ends (inherit fun table memo => flatten table memo cls) asked (.ok shadows) flattened)
      (found : Members.inherited ⟨job.config, asked.table⟩ cls shadows = .ok inherited)
      (fills : ClassFills job cls (inOrder cls abstract own inherited) opened flattened warned listed after) :
      ClassEnd job cls before (.ok ()) after

theorem exists_fills_of_ends {opened : OpenClass} (ends : Ends (do
      warnUnsupported cls
      check cls.decl.checkName
      let finished ← members.foldlM (classMember job) opened
      let _ ← closeClass job finished) before outcome after) (survives : Survives outcome) :
    outcome = .ok () ∧ ∃ warned listed, ClassFills job cls members opened before warned listed after := by
  obtain ⟨_, warned, warning, ends⟩ := ends.bind_value (unsupported_neverRejects cls _) survives
  obtain ⟨_, ends⟩ := ends.check_bind survives
  obtain ⟨finished, listed, emitted, ends⟩ :=
    ends.bind_value (.foldlM (fun _ _ => classMember_neverRejects _ _) opened) survives
  obtain ⟨closed, last, closing, ends⟩ := ends.bind_value (closeClass_neverRejects finished) survives
  obtain ⟨rfl, rfl⟩ := ends.of_pure
  exact ⟨rfl, warned, listed, warning, finished, closed, emitted, closing⟩

theorem exists_rejected_of_survives {α : Type} {halt : Halt} (survives : Survives (.error halt : Except Halt α)) :
    ∃ message site, halt = .rejected message site := by
  cases halt with
  | rejected message site => exact ⟨message, site, rfl⟩
  | fault cause => exact survives.elim

theorem classEnd_of_ends (ends : Ends (cxxClass job cls) before outcome after) (survives : Survives outcome) :
    ClassEnd job cls before outcome after := by
  unfold cxxClass at ends
  obtain ⟨_, ends⟩ := ends.check_bind survives
  rw [ends_append_bind] at ends
  obtain ⟨_, declared, first, ends⟩ := ends.bind_value (record_neverRejects _ _ _) survives
  obtain ⟨_, rfl⟩ := ends_record first survives_ok
  obtain ⟨opened, begun, opening, ends⟩ := ends.bind_value (openClass_neverRejects cls) survives
  obtain ⟨abstract, asked, asking, ends⟩ := ends.bind_value (inherit_neverRejects _) survives
  have begins : ClassBegins job cls before opened abstract begun asked := ⟨opening, asking⟩
  rw [ends_resolver_bind] at ends
  rcases ends.lift_bind with ⟨own, owned, ends⟩ | ⟨halt, failed, rfl, rfl⟩
  · obtain ⟨shadows, flattened, flattens, ends⟩ := ends.bind_value (inherit_neverRejects _) survives
    rcases ends.lift_bind with ⟨inherited, found, ends⟩ | ⟨halt, failed, rfl, rfl⟩
    · obtain ⟨rfl, warned, listed, fills⟩ := exists_fills_of_ends ends survives
      exact .filled begins owned flattens found fills
    · obtain ⟨message, site, rfl⟩ := exists_rejected_of_survives survives
      exact .uninherited begins owned flattens failed
  · obtain ⟨message, site, rfl⟩ := exists_rejected_of_survives survives
    exact .unlisted begins failed

variable {opened : OpenClass} {abstract : Bool} {begun asked : Draft}

theorem ClassBegins.asks (begins : ClassBegins job cls before opened abstract begun asked) :
    Goes job Move.Inner begun asked :=
  (inherit_within fun table memo => isAbstract_keeps table memo cls).goes begins.asking survives_ok

theorem goes_of_flattens {shadows : List Shadow}
    (flattens : Ends (inherit fun table memo => flatten table memo cls) before (.ok shadows) after) :
    Goes job Move.Inner before after :=
  (inherit_within fun table memo => flatten_keeps table memo cls).goes flattens survives_ok

section

variable {warned listed : Draft} (cxx : job.config.cplusplus)
  (fills : ClassFills job cls members opened before warned listed after)

include cxx fills

theorem ClassFills.lists : Goes job Move.Inner before listed := by
  obtain ⟨warning, finished, closed, emitted, closing⟩ := fills
  have toWarned : Goes job Move.Inner before warned := (unsupported_within cls _).goes warning survives_ok
  exact toWarned.trans
    ((GoesWithin.foldlM (fun state m _ => classMember_within cxx state m) opened).goes emitted survives_ok)

theorem ClassFills.extended : before.ExtendedBy after := by
  obtain ⟨finished, closed, emitted, closing⟩ := fills.closing
  have toAfter : Goes job Move.Ordinary listed after := (closeClass_within finished).goes closing survives_ok
  exact (fills.lists cxx).extended.trans toAfter.extended

end

namespace Module

/-- A class has the name of the exception class, which the runtime or another module provides. -/
def isForeign (job : Job) (cls : Site) : Bool :=
  cls.name == exceptionClass && (ownRuntimeClass? job).map (·.id) != some cls.id

/-- A class that is declared in C++ mode: none that comes from elsewhere, and none inside another class. -/
def writesClass (job : Job) (cls : Site) : Bool :=
  !isForeign job cls && !cls.isMember

end Module

/-- The visit of a class emits it and notes a rejection. -/
theorem exists_ends_of_visit (isClass : cls.kind = .classDecl)
    (visit : Ends (declaration job cls) before (.ok ()) after) :
    ∃ outcome middle told, Ends (classDecl job cls) before outcome middle ∧ Survives outcome ∧
      after = { middle with events := middle.events ++ told } := by
  unfold declaration at visit
  rw [isClass] at visit
  rcases visit.guarded_cases survives_ok with ended | ⟨_, _, middle, began, rfl⟩
  · exact ⟨_, after, [], ended, survives_ok, by simp⟩
  · exact ⟨_, middle, _, began, survives_rejected, rfl⟩

section

variable (started : (prepared job).ExtendedBy before)

include started

theorem ends_classDecl_of_plain (plain : job.config.cplusplus = false)
    (ends : Ends (classDecl job cls) before outcome after) :
    Ends (Struct.write job cls) before outcome after ∨ outcome = .ok () ∧ after = before := by
  unfold classDecl at ends
  rw [ends_get_bind, ← started.runtimeClass] at ends
  change Ends (if isForeign job cls then _ else _) before outcome after at ends
  split at ends
  · exact .inr (ends.of_pure)
  · rw [plain] at ends
    exact .inl ends

theorem ends_classDecl_of_cxx (cxx : job.config.cplusplus) (ends : Ends (classDecl job cls) before outcome after)
    (survives : Survives outcome) :
    (writesClass job cls = false ∧ outcome = .ok () ∧
      ∃ told, after = { before with events := before.events ++ told }) ∨
      writesClass job cls ∧ Ends (cxxClass job cls) before outcome after := by
  unfold classDecl at ends
  rw [ends_get_bind, ← started.runtimeClass] at ends
  change Ends (if isForeign job cls then _ else _) before outcome after at ends
  unfold writesClass
  cases foreign : isForeign job cls with
  | true =>
    rw [foreign] at ends
    obtain ⟨rfl, rfl⟩ := ends.of_pure
    exact .inl ⟨rfl, rfl, [], by simp⟩
  | false =>
    rw [foreign, if_neg Bool.false_ne_true, cxx] at ends
    cases member : cls.isMember with
    | true =>
      rw [member] at ends
      obtain ⟨_, ends⟩ := ends.check_bind survives
      obtain ⟨rfl, rfl⟩ := Wrapper.ends_warn.mp ends
      exact .inl ⟨rfl, rfl, _, rfl⟩
    | false =>
      rw [member] at ends
      exact .inr ⟨rfl, ends⟩

/-- The visit of a class of C++ emits it, or leaves nothing but a note about it. A rejection is noted as well. -/
theorem ends_declaration_of_class (cxx : job.config.cplusplus) (isClass : cls.kind = .classDecl)
    (visit : Ends (declaration job cls) before (.ok ()) after) :
    (writesClass job cls = false ∧ after.chunks = before.chunks) ∨
      writesClass job cls ∧ ∃ outcome middle told, Ends (cxxClass job cls) before outcome middle ∧
        Survives outcome ∧ after = { middle with events := middle.events ++ told } := by
  obtain ⟨outcome, middle, told, ends, survives, rfl⟩ := exists_ends_of_visit isClass visit
  rcases ends_classDecl_of_cxx started cxx ends survives with ⟨unwritten, _, noted, rfl⟩ | ⟨written, ends⟩
  · exact .inl ⟨unwritten, rfl⟩
  · exact .inr ⟨written, outcome, middle, told, ends, survives, rfl⟩

end

end FlatAbi
