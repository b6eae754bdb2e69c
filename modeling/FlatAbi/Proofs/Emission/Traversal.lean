import FlatAbi.Proofs.Emission.Moves

/-!
Every part of the emission goes by moves, and most parts by moves that every lenient kind has.
-/

namespace FlatAbi

open Emit Move Members Facade FlatAbi.Module Inheritance Wrapper

variable {faults : Bool} {job : Job} {allowed : Move → Prop}

theorem check_within (result : Except Misshapen Unit) : GoesWithin faults job allowed (check result) := .lift

theorem guarded_within {site : Site} {work : Emit Unit} (within : GoesWithin faults job allowed work)
    (told : ∀ event, allowed (.tell event)) : GoesWithin faults job allowed (guarded site work) :=
  .recover within (fun _ _ => .tell (told _)) fun _ => rfl

section noting

variable [noting : Jotting allowed]

theorem report_within (severity : Severity) (site : Site) (message : String) :
    GoesWithin faults job allowed (report severity site message) :=
  .tell (noting.tell _)

theorem warn_within (site : Site) (message : String) : GoesWithin faults job allowed (warn site message) :=
  report_within .warning site message

theorem tellUnknownBases_within (cls : Site) : GoesWithin faults job allowed (tellUnknownBases cls) :=
  .bind .get fun _ => .forM fun _ _ => .tell (noting.tell _)

theorem require_within (needs : List Need) : GoesWithin faults job allowed (require needs) := by
  refine .require fun need _ => noting.jot _ ?_ ?_ <;> cases need <;> rfl

theorem declare_within (site : Site) : GoesWithin faults job allowed (Variable.declare? job site) := by
  refine .bind .resolver fun r => .bind .lift fun found => ?_
  cases found with
  | none => exact .pure
  | some found => exact .bind (require_within _) fun _ => .pure

theorem importDecl_within (site : Site) : GoesWithin faults job allowed (importDecl job site) := by
  unfold importDecl
  dsimp only
  split
  · split
    · exact .append (noting.jot _ rfl rfl) rfl
    · exact .throw
  · exact .pure

theorem insertDecl_within (site : Site) : GoesWithin faults job allowed (insertDecl site) := by
  unfold insertDecl
  split
  · exact .throw
  · exact .throw
  · split
    · exact .bind .lift fun _ => .append (noting.jot _ rfl rfl) rfl
    · exact .tell (noting.tell _)

theorem unsupported_within (cls : Site) (children : List Site) :
    GoesWithin faults job allowed (children.forM fun child => do
      Emit.check (checkUnsupported child)
      match unsupported? cls child with
      | some warning => Emit.warn child warning
      | none => pure ()) := by
  refine .forM fun child _ => .bind (check_within _) fun _ => ?_
  split
  · exact warn_within _ _
  · exact .pure

theorem facadeParameters_within (r : Resolver) (c : Callable) (inputs : List TypedParameter) :
    GoesWithin faults job allowed (Facade.parameters r c inputs) := by
  induction inputs with
  | nil => exact .pure
  | cons p rest ih =>
    exact .bind .lift fun rendering => .bind (require_within _) fun _ => .bind ih fun _ => .pure

theorem facadeMember_within (cls : OpenClass) (w : Written) : GoesWithin faults job allowed (member job cls w) :=
  .bind .resolver fun r => .bind (check_within _) fun _ => .bind (check_within _) fun _ => .bind .lift fun _ =>
    .bind (require_within _) fun _ => .bind (facadeParameters_within r _ _) fun _ => .bind .lift fun _ =>
      .bind .get fun _ => .pure

omit noting in
theorem addMember_within [noting : Noting allowed] (cls : OpenClass) (w : Written) :
    GoesWithin faults job allowed (addMember job cls w) := by
  unfold addMember
  split
  · exact .pure
  · refine .bind (facadeMember_within cls w) fun m => ?_
    split
    · exact .bind (warn_within _ _) fun _ => .pure
    · refine .bind (.append (noting.append _ rfl) rfl) fun _ => ?_
      split
      · exact .bind (.append (noting.append _ rfl) rfl) fun _ => .pure
      · exact .pure

theorem openClass_within_of (forwards : ∀ name, allowed (.append (.facadeForward name)))
    (begins : ∀ name base, allowed (.append (.facadeOpen name base))) (cls : Site) :
    GoesWithin faults job allowed (openClass job cls) := by
  unfold openClass
  split
  · exact .pure
  · refine .bind (tellUnknownBases_within cls) fun _ => .bind .lift fun _ => .bind .get fun draft => ?_
    split
    · exact .bind (warn_within _ _) fun _ => .pure
    · exact .bind (.append (forwards _) rfl) fun _ => .bind (.append (begins _ _) rfl) fun _ => .pure

omit noting in
theorem closeClass_within_of (ends : ∀ fin, allowed (.append (.facadeClose fin))) (cls : OpenClass) :
    GoesWithin faults job allowed (closeClass job cls) := by
  unfold closeClass
  split
  · exact .pure
  · exact .bind .lift fun _ => .bind .lift fun _ => .bind (.append (ends _) rfl) fun _ => .pure

section types

variable (plain : ∀ chunk : Chunk, chunk.isWrapper = false → chunk.isFacadeMember = false → chunk.bracket? = none →
  allowed (.append chunk))

include plain

theorem enumeration_within_of (enum : Site) (cls : Option OpenClass) :
    GoesWithin faults job allowed (Enumeration.write job enum cls) := by
  unfold Enumeration.write
  split
  · exact .pure
  · refine .bind (check_within _) fun _ => .bind (check_within _) fun _ => .bind .lift fun items => ?_
    split
    · exact .bind (check_within _) fun _ => .bind (.tell (noting.tell _)) fun _ => .pure
    · refine .bind (.append (plain _ rfl rfl rfl) rfl) fun _ => ?_
      split
      · exact .bind (.append (plain _ rfl rfl rfl) rfl) fun _ => .pure
      · exact .pure

omit plain in
theorem structMember_within (site : Site) : GoesWithin faults job allowed (Struct.member? job site) :=
  .recover (declare_within site) (fun _ _ => .bind (report_within _ _ _) fun _ => .pure) fun _ => rfl

theorem structChild_within_of (site : Site) : GoesWithin faults job allowed (Struct.child job site) := by
  unfold Struct.child
  split
  · exact .pure
  · split
    · exact .bind (structMember_within site) fun _ => .pure
    · exact .bind (check_within _) fun _ => .bind (warn_within _ _) fun _ => .pure
    · exact .bind (enumeration_within_of plain site none) fun _ => .pure
    · exact .pure

theorem structMembers_within_of (sites : List Site) : GoesWithin faults job allowed (Struct.members job sites) := by
  induction sites with
  | nil => exact .pure
  | cons site rest ih => exact .bind (structChild_within_of plain site) fun _ => .bind ih fun _ => .pure

theorem struct_within_of (cls : Site) : GoesWithin faults job allowed (Struct.write job cls) :=
  .bind (check_within _) fun _ => .bind (structMembers_within_of plain _) fun _ => .append (plain _ rfl rfl rfl) rfl

end types

end noting

theorem openClass_within (cls : Site) : GoesWithin faults job Ordinary (openClass job cls) :=
  openClass_within_of (fun _ => rfl) (fun _ _ => rfl) cls

theorem closeClass_within (cls : OpenClass) : GoesWithin faults job Ordinary (closeClass job cls) :=
  closeClass_within_of (fun _ => rfl) cls

theorem enumeration_within (enum : Site) (cls : Option OpenClass) :
    GoesWithin faults job Inner (Enumeration.write job enum cls) :=
  enumeration_within_of (fun _ wrapper _ bracket => ⟨wrapper, bracket⟩) enum cls

theorem struct_within (cls : Site) : GoesWithin faults job Inner (Struct.write job cls) :=
  struct_within_of (fun _ wrapper _ bracket => ⟨wrapper, bracket⟩) cls

section recording

variable [recording : Recording allowed]

theorem constant_within (site : Site) : GoesWithin faults job allowed (Constant.write job site) :=
  .bind .lift fun _ => .bind (check_within _) fun _ => .bind (.append (recording.jot _ rfl rfl) rfl) fun _ =>
    .record (recording.record _ (by intro impossible; cases impossible))

theorem exportDirectly_within (site : Site) : GoesWithin faults job allowed (Variable.exportDirectly job site) := by
  unfold Variable.exportDirectly
  dsimp only
  split
  · exact .pure
  · split
    case' isTrue => refine .bind (check_within _) fun _ => ?_
    all_goals
      split
      · exact .pure
      · refine .bind (declare_within site) fun declared => ?_
        cases declared with
        | none => exact .pure
        | some declaration =>
          exact .bind (.append (recording.jot _ rfl rfl) rfl) fun _ =>
            .bind (.record (recording.record _ (by intro impossible; cases impossible))) fun _ => .pure

end recording

theorem inherit_within [booking : Booking allowed] {α : Type} {query : SymbolTable → Memo → α × Memo}
    (keeps : ∀ table (memo : Memo), memo.KeptBy (query table memo).2) : Within job allowed (inherit query) := by
  intro before outcome after ends survives
  obtain ⟨_, rfl⟩ := ends_inherit ends survives
  have learned : Goes job allowed before { before with memo := (query before.table before.memo).2 } :=
    .step (.learn before _ (keeps _ _)) (booking.learn _)
  exact learned.trans (.tells (fun _ _ => booking.tell _) _)

section lenient

variable [lenient : Lenient allowed]

theorem write_within {c : Callable} (object : c.role.hasSelf → job.config.cplusplus) :
    Within job allowed (write job c) := by
  intro before outcome after ends survives
  cases writeEnd_of_ends ends survives with
  | published renders named fresh =>
    exact .step (.wrap object ends) (lenient.wrap _ _)
  | unconverted cxx typed planned => exact .tells (fun _ _ => lenient.tell _) before
  | @taken codes defined =>
    have filed : Goes job allowed before { before with names := (before.names.name job.config c codes).2 } :=
      .step (.name before _) (lenient.name _)
    exact filed.trans (.tells (fun _ _ => lenient.tell _) _)
  | rejected => exact .refl before

theorem wrap_within {c : Callable} (object : c.role.hasSelf → job.config.cplusplus)
    (cls : Option OpenClass) : Within job allowed (Module.wrap job cls c) := by
  refine .bind (check_within _) fun _ => ?_
  split
  · exact .bind (warn_within _ _) fun _ => .pure
  · refine .bind (write_within object) fun written => ?_
    split
    · exact .bind (addMember_within _ _) fun _ => .pure
    · exact .pure

theorem freeFunction_within (site : Site) : Within job allowed (freeFunction job site) := by
  unfold freeFunction
  split
  · refine .bind (check_within _) fun _ => .bind .get fun draft => .bind (wrap_within ?_ none) fun _ => .pure
    intro impossible
    cases impossible
  · exact .pure

theorem accessors_eq_ok {r : Resolver} {shape : Callable} {setter : Role} {callables : List Callable}
    (found : accessors r shape setter = .ok callables) :
    ∃ t category, shape.decl.type = some t ∧ r.categoryAt t shape.site.scopeValue = .ok category ∧
      (callables = [{ shape with result := getterResult r.config t category },
        { shape with role := setter, parameters := [{ name := .string "value", type := some t }] }] ∨
      callables = [{ shape with result := getterResult r.config t category }]) := by
  unfold accessors at found
  split at found
  · obtain ⟨_, _, impossible⟩ := bind_eq_ok found
    cases impossible
  next t written =>
    obtain ⟨_, _, found⟩ := bind_eq_ok found
    obtain ⟨category, known, found⟩ := bind_eq_ok found
    refine ⟨t, category, written, known, ?_⟩
    split at found <;> cases found
    · exact .inl rfl
    · exact .inr rfl

theorem globalVariable_within (site : Site) : Within job allowed (globalVariable job site) := by
  refine .bind (exportDirectly_within site) fun exported => ?_
  cases exported with
  | true => exact .pure
  | false =>
    refine .bind .resolver fun r => ?_
    intro before outcome after ends survives
    rcases ends.lift_bind with ⟨callables, found, ends⟩ | ⟨halt, _, _, rfl⟩
    · refine GoesWithin.forM (fun c listed => ?_) before outcome after ends survives
      refine .bind (wrap_within (fun object => ?_) none) fun _ => .pure
      obtain ⟨_, _, _, _, rfl | rfl⟩ := accessors_eq_ok found <;> simp at listed
      · rcases listed with rfl | rfl <;> cases object
      · rw [listed] at object
        cases object
    · exact .refl _

theorem classMember_within_of {m : Member} (cxx : job.config.cplusplus)
    (notEnum : ∀ site, m ≠ .enumeration site) (cls : OpenClass) :
    Within job allowed (classMember job cls m) := by
  cases m with
  | callable c =>
    exact .recover (.bind (wrap_within (fun _ => cxx) (some cls)) fun _ => .pure)
      (fun _ _ => .bind (report_within _ _ _) fun _ => .pure) fun _ => rfl
  | enumeration site => exact (notEnum site rfl).elim
  | constant site => exact .bind (guarded_within (constant_within site) lenient.tell) fun _ => .pure

theorem declaration_within_of {site : Site} (notClass : site.kind ≠ .classDecl) (notEnum : site.kind ≠ .enumDecl) :
    Within job allowed (Module.declaration job site) := by
  unfold Module.declaration
  split
  · exact importDecl_within site
  · exact insertDecl_within site
  · rename_i cls
    exact (notClass cls).elim
  · exact guarded_within (freeFunction_within site) lenient.tell
  · exact guarded_within (globalVariable_within site) lenient.tell
  · rename_i enum
    exact (notEnum enum).elim
  · exact guarded_within (constant_within site) lenient.tell
  · exact .pure
  all_goals exact warn_within _ _

end lenient

theorem classMember_within (cxx : job.config.cplusplus) (cls : OpenClass) (m : Member) :
    Within job Inner (classMember job cls m) := by
  cases m with
  | enumeration site =>
    exact .bind (guarded_within (.bind (enumeration_within site _) fun _ => .pure) fun _ => trivial)
      fun _ => .pure
  | callable c | constant site => exact classMember_within_of cxx (by intro site impossible; cases impossible) cls

theorem cxxClass_within (cxx : job.config.cplusplus) (cls : Site) : Within job Ordinary (cxxClass job cls) := by
  exact .bind .lift fun _ => .bind (.append rfl rfl) fun _ =>
    .bind (.record (by intro impossible; cases impossible)) fun _ => .bind (openClass_within cls) fun _ =>
    .bind (inherit_within fun table memo => isAbstract_keeps table memo cls).ordinary fun _ =>
    .bind .resolver fun _ => .bind .lift fun _ =>
    .bind (inherit_within fun table memo => flatten_keeps table memo cls).ordinary fun _ =>
    .bind .lift fun _ =>
    .bind (unsupported_within cls _).ordinary fun _ => .bind .lift fun _ =>
    .bind (.foldlM (fun opened m _ => (classMember_within cxx opened m).ordinary) _) fun _ =>
    .bind (closeClass_within _) fun _ => .pure

theorem classDecl_within (cls : Site) : Within job Ordinary (classDecl job cls) := by
  refine .bind .get fun draft => ?_
  split
  · exact .pure
  · split
    · exact (struct_within cls).ordinary
    · split
      · exact .bind .lift fun _ => .tell trivial
      · rename_i cxx _
        exact cxxClass_within (by simpa using cxx) cls

/-- Only classes begin and end facade classes. -/
theorem declaration_within_inner {site : Site} (other : site.kind ≠ .classDecl) :
    Within job Inner (Module.declaration job site) := by
  by_cases enum : site.kind = .enumDecl
  · unfold Module.declaration
    rw [enum]
    exact guarded_within (.bind (enumeration_within site none) fun _ => .pure) fun _ => trivial
  · exact declaration_within_of other enum

theorem declaration_within (site : Site) : Within job Ordinary (Module.declaration job site) := by
  by_cases cls : site.kind = .classDecl
  · unfold Module.declaration
    rw [cls]
    exact guarded_within (classDecl_within site) fun _ => trivial
  · exact (declaration_within_inner cls).ordinary

theorem openClass_neverRejects (cls : Site) : NeverRejects (openClass job cls) := by
  unfold openClass
  split
  · exact .pure
  · refine .bind (tellUnknownBases_neverRejects cls) fun _ => .bind .check fun _ => .bind .get fun draft => ?_
    split
    · exact .bind .modify fun _ => .pure
    · exact .bind .modify fun _ => .bind .modify fun _ => .pure

theorem closeClass_neverRejects (opened : OpenClass) : NeverRejects (closeClass job opened) := by
  unfold closeClass
  split
  · exact .pure
  · exact .bind .check fun _ => .bind .check fun _ => .bind .modify fun _ => .pure

theorem classMember_neverRejects (opened : OpenClass) (m : Member) : NeverRejects (classMember job opened m) := by
  cases m with
  | callable c => exact .recover (fun _ _ => .bind .modify fun _ => .pure) fun _ => rfl
  | enumeration site => exact .bind (guarded_neverRejects _ _) fun _ => .pure
  | constant site => exact .bind (guarded_neverRejects _ _) fun _ => .pure

theorem unsupported_neverRejects (cls : Site) (children : List Site) :
    NeverRejects (children.forM fun child => do
      Emit.check (checkUnsupported child)
      match unsupported? cls child with
      | some warning => Emit.warn child warning
      | none => pure ()) := by
  refine .forM fun child => .bind .check fun _ => ?_
  split
  · exact .modify
  · exact .pure

end FlatAbi
