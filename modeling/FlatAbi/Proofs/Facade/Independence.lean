import FlatAbi.Proofs.Emission.Agreement
import FlatAbi.Proofs.Facade.Needs
import FlatAbi.Proofs.Wrapper.Agreement

/-!
The flat C output does not depend on the facade. What only the facade does is hidden from the flat output.
-/

namespace FlatAbi

open Emit Facade Enumeration Wrapper Members Variable

def Job.withFacade (job : Job) (facade : Bool) : Job :=
  { job with config := { job.config with facade := facade } }

variable {types : Bool} {job : Job} {a b : Bool} {c : Callable}

/-! ### Work that knows nothing of the facade -/

theorem Alike.resolver_bind {α : Type} {Same : α → α → Prop} {one two : Resolver → Emit α}
    (rest : ∀ table,
      Alike types (one ⟨(job.withFacade a).config, table⟩) (two ⟨(job.withFacade b).config, table⟩) Same) :
    Alike types (resolver (job.withFacade a) >>= one) (resolver (job.withFacade b) >>= two) Same := by
  intro left right agree
  simp only [ends_resolver_bind, Agree.table agree]
  exact rest right.table left right agree

theorem Alike.warn {site : Site} {message : String} : Alike types (warn site message) (warn site message) Eq :=
  .tell

namespace Wrapper

theorem plan_withFacade (table : SymbolTable) (parameters : List TypedParameter) :
    plan (job.withFacade a) ⟨(job.withFacade a).config, table⟩ c parameters =
      plan job ⟨job.config, table⟩ c parameters :=
  plan_congr (by rfl) parameters

theorem writeConverted_withFacade (table : SymbolTable) (p : Plan) (symbol : String) :
    writeConverted (job.withFacade a) ⟨(job.withFacade a).config, table⟩ p symbol =
      writeConverted job ⟨job.config, table⟩ p symbol :=
  writeConverted_congr (by rfl) (by rfl) (by rfl) (by rfl) p symbol

theorem reserveSymbol_alike (codes : List String) :
    Alike types (reserveSymbol job c codes) (reserveSymbol job c codes) Eq := by
  refine .bind_eq .check fun _ => .bind .get fun left right agree => ?_
  dsimp only
  rw [agree.names, agree.isDefined]
  refine .bind_eq (.set { agree with names := rfl }) fun _ => ?_
  split
  · exact .bind_eq .check fun _ => .bind_eq Alike.warn fun _ => .pure rfl
  · exact .pure rfl

theorem publish_alike (definition : Definition) (prototype : Signature) :
    Alike types (publish definition prototype c) (publish definition prototype c) Eq :=
  .bind_eq .append fun _ => .bind_eq .append fun _ => .record (.refl _) _ rfl

theorem writeConverted_alike (r : Resolver) (p : Plan) (symbol : String) :
    Alike types (writeConverted job r p symbol) (writeConverted job r p symbol) Eq := by
  refine .bind_eq .lift fun implementation => .bind_eq .lift fun header => .bind_eq ?_ fun _ =>
    .bind .get fun left right agree => ?_
  · exact Alike.forM _ fun _ => .bind_eq .check fun _ => .require
  · rw [agree.exceptions]
    exact .bind_eq .lift fun body => .bind_eq (publish_alike _ _) fun _ => .bind_eq .tell fun _ => .pure rfl

theorem convert_alike (parameters : List TypedParameter) :
    Alike types (convert (job.withFacade a) c parameters) (convert (job.withFacade b) c parameters) Eq := by
  refine Alike.resolver_bind fun table => ?_
  rw [plan_withFacade, plan_withFacade]
  cases plan job ⟨job.config, table⟩ c parameters with
  | error stop =>
    cases stop with
    | skipped warning => exact .bind_eq Alike.warn fun _ => .pure rfl
    | halted halt => exact .throw
  | ok p =>
    refine .bind_eq (@reserveSymbol_alike types job c p.codes) fun symbol => ?_
    cases symbol with
    | none => exact .pure rfl
    | some symbol =>
      simp only [writeConverted_withFacade]
      exact .bind_eq (writeConverted_alike _ p symbol) fun _ => .pure rfl

theorem write_alike (cxx : job.config.cplusplus) :
    Alike types (write (job.withFacade a) c) (write (job.withFacade b) c) Eq := by
  refine .bind_eq .lift fun parameters => ?_
  rw [if_pos (show (job.withFacade a).config.cplusplus = true from cxx),
    if_pos (show (job.withFacade b).config.cplusplus = true from cxx)]
  exact convert_alike parameters

end Wrapper

/-! ### Work on the facade -/

namespace Facade

variable {before : Draft} {needs : List Need}

theorem openClass_hidden (cls : Site) : Hidden types before (openClass job cls) := by
  unfold openClass
  split
  · exact .pure
  · refine .bind .tellUnknownBases fun _ _ _ => .bind .check fun _ _ _ => .get_bind ?_
    split
    · exact .bind .tell fun _ _ _ => .pure
    · exact .bind (.append rfl) fun _ _ _ => .bind (.append rfl) fun _ _ _ => .pure

theorem closeClass_hidden (cls : OpenClass) : Hidden types before (closeClass job cls) := by
  unfold closeClass
  split
  · exact .pure
  · exact .bind .check fun _ _ _ => .bind .check fun _ _ _ => .bind (.append rfl) fun _ _ _ => .pure

theorem parameters_hidden {r : Resolver} {inputs : List TypedParameter}
    (covered : types → ∀ p ∈ inputs, ∀ rendering, r.facadeParameterAt p.type c.site.scopeValue = .ok rendering →
      rendering.needs ⊆ needs)
    (ready : Ready types needs before) : Hidden types before (parameters r c inputs) := by
  induction inputs generalizing before with
  | nil => exact .pure
  | cons first rest ih =>
    refine .lift_bind fun rendering rendered =>
      .bind (.require fun counted need needed => ?_) fun _ middle agree => ?_
    · exact ready counted need (covered counted first List.mem_cons_self rendering rendered needed)
    · exact .bind (ih (fun counted p listed => covered counted p (List.mem_cons_of_mem _ listed))
        (ready.of_agree agree)) fun _ _ _ => .pure

section

variable {w : Written} (covered : types → Covered ⟨job.config, before.table⟩ needs w.callable w.inputs)
  (ready : Ready types needs before)

include covered ready

theorem member_hidden {cls : OpenClass} : Hidden types before (member job cls w) := by
  refine .resolver_bind (.bind .check fun _ second agree => .bind .check fun _ third agreeToo => ?_)
  replace ready := (ready.of_agree agree).of_agree agreeToo
  refine .lift_bind fun rendering rendered => .bind (.require fun counted need needed => ?_) fun _ fourth agree => ?_
  · exact ready counted need ((covered counted).result rendering rendered needed)
  · refine .bind (parameters_hidden (fun counted => (covered counted).parameter) (ready.of_agree agree)) fun _ _ _ => ?_
    exact .bind .lift fun _ _ _ => .get_bind .pure

theorem addMember_hidden {cls : OpenClass} : Hidden types before (addMember job cls w) := by
  unfold addMember
  split
  · exact .pure
  · refine .bind (member_hidden covered ready) fun m _ _ => ?_
    split
    · exact .bind .tell fun _ _ _ => .pure
    · refine .bind (.append rfl) fun _ _ _ => ?_
      split
      · exact .bind (.append rfl) fun _ _ _ => .pure
      · exact .pure

end

/-- A wrapper that was just written has all that its facade member needs in the header. -/
theorem addMember_hidden_of_write {cls : OpenClass} {w : Written} {middle : Draft}
    (cxx : job.config.cplusplus) (plain : types → job.typemaps.HasNoCType)
    (written : Ends (Wrapper.write job c) before (.ok (some w)) middle) :
    Hidden types middle (addMember job cls w) := by
  cases writeEnd_of_ends written survives_ok with
  | published renders named fresh =>
    cases renders with
    | converted _ typed planned implemented declared bodied =>
      refine addMember_hidden (fun counted => Plan.covered cxx (plain counted) planned) ?_
      intro _ need needed
      exact subset_missing _ _ needed
    | direct isC => exact absurd (cxx.symm.trans isC) Bool.noConfusion

end Facade

/-! ### Wrappers -/

namespace Module

theorem wrap_alike (cxx : job.config.cplusplus) :
    Alike types (wrap (job.withFacade a) none c) (wrap (job.withFacade b) none c) Eq := by
  refine .bind_eq .check fun _ => ?_
  split
  · exact .bind_eq Alike.warn fun _ => .pure rfl
  · refine .bind_eq (write_alike cxx) fun written => ?_
    cases written <;> exact .pure rfl

/-- In a class, the facade member that follows a wrapper is hidden. The facade may refuse the member of a wrapper
that has been written, so only the drafts are compared. -/
theorem wrap_agree {one two : OpenClass} {first second : Except Halt (Option OpenClass)}
    {left right lastLeft lastRight : Draft} (cxx : job.config.cplusplus)
    (plain : types → job.typemaps.HasNoCType) (agree : Agree types left right)
    (began : Ends (wrap (job.withFacade a) (some one) c) left first lastLeft)
    (ended : Ends (wrap (job.withFacade b) (some two) c) right second lastRight) (survives : Survives first)
    (survived : Survives second) : Agree types lastLeft lastRight := by
  unfold wrap at began ended
  obtain ⟨_, began⟩ := began.check_bind survives
  obtain ⟨_, ended⟩ := ended.check_bind survived
  cases valid : Text.isSymbolName c.symName with
  | false =>
    simp only [valid, Bool.not_false, if_true] at began ended
    rw [ends_warn_bind] at began ended
    obtain ⟨_, rfl⟩ := began.of_pure
    obtain ⟨_, rfl⟩ := ended.of_pure
    exact { agree with }
  | true =>
    simp only [valid, Bool.not_true, Bool.false_eq_true, if_false] at began ended
    refine (write_alike cxx).agree_of_hidden ?_ ?_ agree began ended survives survived
    all_goals
      intro written before middle wrote
      cases written with
      | none => exact .pure
      | some w => exact .bind (addMember_hidden_of_write cxx plain wrote) fun _ _ _ => .pure

theorem freeFunction_alike (cxx : job.config.cplusplus) (site : Site) :
    Alike types (freeFunction (job.withFacade a) site) (freeFunction (job.withFacade b) site) Eq := by
  unfold freeFunction
  split
  · refine .bind_eq .check fun _ => .bind .get fun left right agree => ?_
    rw [agree.freeFunctions]
    exact .bind_eq (wrap_alike cxx) fun _ => .pure rfl
  · exact .pure rfl

end Module

/-! ### Other declarations -/

theorem declare_alike (site : Site) :
    Alike types (declare? (job.withFacade a) site) (declare? (job.withFacade b) site) Eq := by
  refine Alike.resolver_bind fun table =>
    .bind_eq (@Lockstep.lift (flatly types) _ _ (cVariable? ⟨job.config, table⟩ site)) fun found => ?_
  cases found with
  | none => exact .pure rfl
  | some found => exact .bind_eq .require fun _ => .pure rfl

theorem globalVariable_alike (cxx : job.config.cplusplus) (site : Site) :
    Alike types (Module.globalVariable (job.withFacade a) site) (Module.globalVariable (job.withFacade b) site) Eq := by
  refine .bind_eq (Lockstep.exportDirectly (.refl site) rfl rfl rfl (declare_alike site)) fun exported => ?_
  cases exported with
  | true => exact .pure rfl
  | false =>
    refine Alike.resolver_bind fun table =>
      .bind_eq (@Lockstep.lift (flatly types) _ _ (accessors ⟨job.config, table⟩ _ .globalSet)) fun _ => ?_
    exact Alike.forM _ fun _ => .bind_eq (Module.wrap_alike cxx) fun _ => .pure rfl

theorem facadeEnumeration_hidden (shown : Bool) (enum : Site) (items : List EnumItem) (draft : Draft) :
    Hidden types draft (do
      if shown then append (facadeDeclaration enum items)
      return true) := by
  have inFacade : (facadeDeclaration enum items).isFlat types = false := by
    unfold facadeDeclaration
    cases enum.isMember <;> rfl
  cases shown with
  | true => exact .bind (.append inFacade) fun _ _ _ => .pure
  | false => exact .pure

theorem facadeEnumeration_neverRejects (shown : Bool) (enum : Site) (items : List EnumItem) :
    NeverRejects (do
      if shown then append (facadeDeclaration enum items)
      return true) := by
  cases shown with
  | true => exact .bind .modify fun _ => .pure
  | false => exact .pure

theorem enumeration_alike (enum : Site) (one two : Option OpenClass) :
    Alike types (Enumeration.write (job.withFacade a) enum one) (Enumeration.write (job.withFacade b) enum two)
      fun _ _ => True := by
  unfold Enumeration.write
  split
  · exact .pure trivial
  · refine .bind_eq .check fun _ => .bind_eq .check fun _ => .bind_eq .lift fun items => ?_
    split
    · exact .bind_eq .check fun _ => .bind_eq .tell fun _ => .pure trivial
    · refine .bind_eq (@Lockstep.append (flatly types) _ (Enumeration.declaration job.config enum items)) fun _ => ?_
      exact Alike.hidden (facadeEnumeration_hidden _ enum items) (facadeEnumeration_hidden _ enum items)
        (facadeEnumeration_neverRejects _ enum items) (facadeEnumeration_neverRejects _ enum items)

/-! ### Classes -/

namespace Module

section

variable (cxx : job.config.cplusplus) (plain : types → job.typemaps.HasNoCType)

include cxx plain

theorem classMember_alike (one two : OpenClass) (m : Member) :
    Alike types (classMember (job.withFacade a) one m) (classMember (job.withFacade b) two m) fun _ _ => True := by
  cases m with
  | callable c =>
    intro left right agree first second lastLeft lastRight began ended counts countsToo
    have survives := counts rfl
    have survived := countsToo rfl
    obtain ⟨_, rfl⟩ := (classMember_neverRejects one (.callable c)).value began survives
    obtain ⟨_, rfl⟩ := (classMember_neverRejects two (.callable c)).value ended survived
    refine ⟨?_, trivial⟩
    have reported (cls : OpenClass) (message : String) (site : Option Site) (draft : Draft) :
        Hidden types draft (do
          report .error (site.getD c.site) message
          return cls) := .bind .tell fun _ _ _ => .pure
    obtain ⟨_, middleLeft, began, survives, fromLeft⟩ := began.recover_hidden (fun _ => rfl) (reported one) survives
    obtain ⟨_, middleRight, ended, survived, fromRight⟩ := ended.recover_hidden (fun _ => rfl) (reported two) survived
    obtain ⟨_, began, survives⟩ := began.of_bind_pure survives
    obtain ⟨_, ended, survived⟩ := ended.of_bind_pure survived
    exact fromLeft.symm.trans ((wrap_agree cxx plain agree began ended survives survived).trans fromRight)
  | enumeration site =>
    exact .bind_eq (.guarded (.refl _) (.bind (enumeration_alike site _ _) fun _ _ _ => .pure rfl)) fun _ =>
      .pure trivial
  | constant site => exact .bind_eq (.guarded (.refl _) (.constant job site)) fun _ => .pure trivial

theorem cxxClass_alike (cls : Site) :
    Alike types (cxxClass (job.withFacade a) cls) (cxxClass (job.withFacade b) cls) Eq := by
  refine .bind_eq .check fun _ => .bind_eq .append fun _ => .bind_eq (.record (.refl _) _ rfl) fun _ => ?_
  refine .bind (Alike.hidden (fun _ => openClass_hidden cls) (fun _ => openClass_hidden cls)
    (openClass_neverRejects cls) (openClass_neverRejects cls)) fun one two _ => ?_
  refine .bind_eq Alike.inherit fun abstract => Alike.resolver_bind fun table => ?_
  refine .bind_eq (@Lockstep.lift (flatly types) _ _ (Members.own ⟨job.config, table⟩ cls abstract)) fun own =>
    .bind_eq Alike.inherit fun shadows => ?_
  refine .bind_eq (@Lockstep.lift (flatly types) _ _ (Members.inherited ⟨job.config, table⟩ cls shadows))
    fun inherited => ?_
  refine .bind_eq (Alike.forM _ fun child => .bind_eq .check fun _ => ?_) fun _ => .bind_eq .check fun _ => ?_
  · cases unsupported? cls child with
    | some warning => exact Alike.warn
    | none => exact .pure rfl
  · refine .bind (Alike.foldlM _ (fun one two m _ => classMember_alike cxx plain one two m) trivial) fun one two _ => ?_
    exact .bind (Alike.hidden (fun _ => closeClass_hidden one) (fun _ => closeClass_hidden two)
      (closeClass_neverRejects one) (closeClass_neverRejects two)) fun _ _ _ => .pure rfl

theorem classDecl_alike (cls : Site) :
    Alike types (classDecl (job.withFacade a) cls) (classDecl (job.withFacade b) cls) Eq := by
  refine .bind .get fun left right agree => ?_
  have isCxx (facade : Bool) : (job.withFacade facade).config.cplusplus := cxx
  simp only [agree.runtimeClass, isCxx, Bool.not_true, Bool.false_eq_true, if_false]
  split
  · exact .pure rfl
  · split
    · exact .bind_eq .check fun _ => Alike.warn
    · exact cxxClass_alike cxx plain cls

/-! ### The run -/

theorem declaration_alike (site : Site) :
    Alike types (declaration (job.withFacade a) site) (declaration (job.withFacade b) site) Eq := by
  unfold declaration
  split
  · exact .importDecl rfl
  · exact .insertDecl rfl (.refl site)
  · exact .guarded (.refl _) (classDecl_alike cxx plain site)
  · exact .guarded (.refl _) (freeFunction_alike cxx site)
  · exact .guarded (.refl _) (globalVariable_alike cxx site)
  · exact .guarded (.refl _) (.bind (enumeration_alike site none none) fun _ _ _ => .pure rfl)
  · exact .guarded (.refl _) (.constant job site)
  · exact .pure rfl
  all_goals exact Alike.warn

end

theorem visited_withFacade (facade : Bool) : visited (job.withFacade facade) = visited job := rfl

theorem prepared_agree (a b : Bool) : Agree types (prepared (job.withFacade a)) (prepared (job.withFacade b)) := by
  refine ⟨rfl, rfl, rfl, rfl, rfl, rfl, rfl, ?_, fun _ => rfl⟩
  change flatChunks types (preparedChunks (job.withFacade a)) = flatChunks types (preparedChunks (job.withFacade b))
  have hidden (shown : Prop) [Decidable shown] :
      flatChunks types (if shown then [Chunk.checkSupport] else []) = [] := by
    split <;> rfl
  unfold preparedChunks
  simp only [flatChunks_append, hidden]
  rfl

theorem runs_agree {left right : Draft} (cxx : job.config.cplusplus)
    (plain : types → job.typemaps.HasNoCType) (ran : Module.run (job.withFacade a) = .ok left)
    (ranToo : Module.run (job.withFacade b) = .ok right) : Agree types left right := by
  have began := ends_of_run ran
  have ended := ends_of_run ranToo
  rw [visited_withFacade] at began ended
  exact (Alike.forM _ (declaration_alike cxx plain) _ _ (prepared_agree a b) began ended counts_ok counts_ok).1

/-- A module with a class, one method of which returns a reference to an unknown type. -/
def streamModule : Job :=
  .ofNodes
    [ .mk (.named .classDecl "Stream")
        [ .mk { Declaration.named .functionDecl "isOpen" with type := some ⟨"bool", []⟩ } [],
          .mk
            { Declaration.named .functionDecl "attach" with
              type := some ⟨"Device", [.lvalueReference]⟩
              parameters := [{ name := .string "handle", type := some ⟨"Handle", [.pointer]⟩ }] } [] ] ]

/-- The flat C interface does not depend on the facade: two runs in C++ that both complete, one with a facade and one
without, have the same chunks in every section outside the facade, and the same symbols. The section of types has the
same chunks, too, where no rule of the user gives a C type. -/
theorem flat_output_independent_of_facade {full flat : Draft} (cxx : job.config.cplusplus = true)
    (ranFull : Module.run (job.withFacade true) = .ok full) (ranFlat : Module.run (job.withFacade false) = .ok flat) :
    (∀ target ∈ [Section.cHeader, .declarations, .preamble, .runtime, .support, .wrappers, .closing],
        chunksOf target full.chunks = chunksOf target flat.chunks) ∧
      full.symbols = flat.symbols ∧
      (job.typemaps.HasNoCType → chunksOf .types full.chunks = chunksOf .types flat.chunks) := by
  have agree : Agree false full flat := runs_agree cxx Bool.noConfusion ranFull ranFlat
  refine ⟨fun target listed => agree.chunksOf_eq ?_, agree.symbols, fun plain => ?_⟩
  · revert target
    decide
  · have withTypes : Agree true full flat := runs_agree cxx (fun _ => plain) ranFull ranFlat
    exact withTypes.chunksOf_eq rfl

/-- The facade refuses one member of the class and tells about it; the types are the same all the same. -/
theorem flat_output_independent_of_facade_streamModule :
    ∃ full flat, Module.run (streamModule.withFacade true) = .ok full ∧
      Module.run (streamModule.withFacade false) = .ok flat ∧ streamModule.typemaps.HasNoCType ∧
      full.diagnostics.length = 1 ∧ flat.diagnostics.length = 0 ∧
      chunksOf .types full.chunks =
        [.proxyType "Stream", .boolSupport, .opaqueType "SWIGTYPE_p_Handle", .opaqueType "SWIGTYPE_p_Device"] ∧
      (∀ target ∈ [Section.cHeader, .declarations, .preamble, .runtime, .support, .wrappers, .closing],
        chunksOf target full.chunks = chunksOf target flat.chunks) ∧
      full.symbols = flat.symbols ∧ chunksOf .types full.chunks = chunksOf .types flat.chunks := by
  have told : (Module.run (streamModule.withFacade true)).toOption.map (·.diagnostics.length) = some 1 := by
    decide +kernel
  have silent : (Module.run (streamModule.withFacade false)).toOption.map (·.diagnostics.length) = some 0 := by
    decide +kernel
  have plain : streamModule.typemaps.HasNoCType := by decide
  obtain ⟨full, ranFull, diagnosed⟩ := ok_of_toOption_map told
  obtain ⟨flat, ranFlat, quiet⟩ := ok_of_toOption_map silent
  obtain ⟨sections, symbols, declarations⟩ := flat_output_independent_of_facade rfl ranFull ranFlat
  exact ⟨full, flat, ranFull, ranFlat, plain, diagnosed, quiet, of_ok ranFull (by decide +kernel), sections, symbols,
    declarations plain⟩

end Module

end FlatAbi
