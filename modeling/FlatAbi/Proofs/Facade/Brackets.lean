import FlatAbi.Declaration.Load
import FlatAbi.Proofs.Emission.Classes

/-!
Facade classes in the header. One that offers a variable without a type is begun and never ended.
-/

namespace FlatAbi

open Emit Members Facade FlatAbi.Module Inheritance Wrapper Chunk

variable {job : Job} {before after : Draft} {cls : Site} {shadows : List Shadow}

/-- The beginnings and ends of facade classes in order. -/
def brackets (chunks : List Chunk) : List Bracket :=
  chunks.filterMap bracket?

/-- Every class that is begun is ended before the next one and before the end of the list. -/
def closesEach : List Bracket → Bool
  | [] => true
  | .opens name :: .closes other :: rest => name == other && closesEach rest
  | _ => false

theorem brackets_append (first rest : List Chunk) : brackets (first ++ rest) = brackets first ++ brackets rest :=
  List.filterMap_append

theorem Goes.brackets_eq (goes : Goes job Move.Inner before after) :
    brackets after.chunks = brackets before.chunks := by
  refine Goes.filterMap_eq (fun chunk plain => ?_) (goes.mono fun move inner => ?_)
  · cases chunk <;> first | rfl | simp [isWrapper, isMinor] at plain
  · cases move with
    | append chunk => exact inner.2
    | _ => trivial

theorem GoesWithin.brackets_eq {α : Type} {work : Emit α} {outcome : Except Halt α}
    (within : Within job Move.Inner work) (ends : Ends work before outcome after) (survives : Survives outcome) :
    brackets after.chunks = brackets before.chunks :=
  (within before outcome after ends survives).brackets_eq

/-! ### Members that cannot be listed -/

/-- A variable without a type. -/
def isUntyped (site : Site) : Bool :=
  site.kind == .variableDecl && site.decl.type.isNone

/-- A class declares a public variable without a type. -/
def declaresUntyped (cls : Site) : Bool :=
  cls.children.any fun child => !child.decl.isIgnored && child.decl.isPublic && isUntyped child

variable {r : Resolver}

theorem accessors_of_survives {shape : Callable} {setter : Role}
    (survives : Survives (accessors r shape setter)) :
    (∃ callables, accessors r shape setter = .ok callables) ↔ shape.decl.type.isSome := by
  unfold accessors at *
  cases typed : shape.decl.type with
  | none =>
    simp only [typed] at survives ⊢
    refine ⟨fun ⟨_, found⟩ => ?_, fun impossible => by cases impossible⟩
    obtain ⟨_, _, impossible⟩ := bind_eq_ok found
    cases impossible
  | some t =>
    simp only [typed] at survives ⊢
    refine ⟨fun _ => rfl, fun _ => OnlyFaults.value_of_survives ?_ survives⟩
    refine .bind .ofMisshapen fun _ => .bind (categoryOf_onlyFaults t) fun _ => ?_
    split <;> exact .ok

theorem isUntyped_eq_false_iff {site : Site} (isVariable : site.kind = .variableDecl) :
    isUntyped site = false ↔ site.decl.type.isSome := by
  simp [isUntyped, isVariable]

variable {abstract : Bool}

theorem ofChild_onlyFaults {child : Site} (other : child.kind ≠ .variableDecl) :
    OnlyFaults (ofChild r cls abstract child) := by
  unfold ofChild
  split
  · split <;> exact .ok
  · exact .ok
  · split
    · exact .ok
    · exact .bind .ofMisshapen fun _ => .ok
  · rename_i isVariable
    exact (other isVariable).elim
  · exact .ok

theorem ofChild_of_survives {child : Site} (survives : Survives (ofChild r cls abstract child)) :
    (∃ callables, ofChild r cls abstract child = .ok callables) ↔ isUntyped child = false := by
  by_cases isVariable : child.kind = .variableDecl
  · rw [isUntyped_eq_false_iff isVariable]
    simp only [ofChild, isVariable] at survives ⊢
    exact accessors_of_survives survives
  · have typed : isUntyped child = false := by simp [isUntyped, isVariable]
    exact ⟨fun _ => typed, fun _ => (ofChild_onlyFaults isVariable).value_of_survives survives⟩

/-- The declared members of a class are listed unless one is a public variable without a type. -/
theorem own_of_survives (survives : Survives (Members.own r cls abstract)) :
    (∃ own, Members.own r cls abstract = .ok own) ↔ declaresUntyped cls = false := by
  unfold Members.own at *
  refine (@mapM_of_survives _ _ _ _
    (fun child => (!child.decl.isIgnored && child.decl.isPublic && isUntyped child) = false) ?_ survives).trans ?_
  · intro child _ survived
    cases hidden : child.decl.isIgnored || !child.decl.isPublic with
    | true =>
      have shown : (!child.decl.isIgnored && child.decl.isPublic) = false := by
        rw [← Bool.not_eq_true', Bool.not_and, Bool.not_not, hidden]
      simp [shown]
    | false =>
      obtain ⟨shown, isPublic⟩ : child.decl.isIgnored = false ∧ child.decl.isPublic := by simpa using hidden
      simp only [hidden, Bool.false_eq_true, if_false] at survived ⊢
      simp only [shown, isPublic, Bool.not_false, Bool.true_and]
      rw [map_eq_ok_iff]
      exact ofChild_of_survives (survives_map_iff.mp survived)
  · simp [declaresUntyped]

theorem ofShadow_of_survives {m : Shadow} (survives : Survives (ofShadow r cls m)) :
    (∃ callables, ofShadow r cls m = .ok callables) ↔ isUntyped m.member = false := by
  unfold ofShadow at *
  by_cases isVariable : m.member.kind = .variableDecl
  · rw [isUntyped_eq_false_iff isVariable]
    simp only [isVariable, beq_self_eq_true, if_true] at survives ⊢
    exact accessors_of_survives survives
  · have typed : isUntyped m.member = false := by simp [isUntyped, isVariable]
    have other : (m.member.kind == .variableDecl) = false := beq_eq_false_iff_ne.mpr isVariable
    simp [other, typed]

theorem inherited_of_survives (survives : Survives (Members.inherited r cls shadows)) :
    (∃ inherited, Members.inherited r cls shadows = .ok inherited) ↔ ∀ m ∈ shadows, isUntyped m.member = false := by
  have mapped : Members.inherited r cls shadows = (shadows.mapM (ofShadow r cls)).map List.flatten := by
    unfold Members.inherited
    cases shadows.mapM (ofShadow r cls) <;> rfl
  rw [mapped] at survives ⊢
  rw [map_eq_ok_iff]
  exact mapM_of_survives (fun _ _ survived => ofShadow_of_survives survived) (survives_map_iff.mp survives)

theorem declaresUntyped_of_rejected {halt : Halt} (failed : own r cls abstract = .error halt)
    (survives : Survives (own r cls abstract)) : declaresUntyped cls := by
  cases typed : declaresUntyped cls with
  | true => rfl
  | false =>
    obtain ⟨_, found⟩ := (own_of_survives survives).mpr typed
    rw [failed] at found
    cases found

theorem any_untyped_of_rejected {halt : Halt} (failed : inherited r cls shadows = .error halt)
    (survives : Survives (inherited r cls shadows)) :
    (shadows.any fun m => isUntyped m.member) := by
  cases typed : shadows.any fun m => isUntyped m.member with
  | true => rfl
  | false =>
    obtain ⟨_, found⟩ := (inherited_of_survives survives).mpr (by simpa using typed)
    rw [failed] at found
    cases found

/-! ### The beginning and the end of a class -/

/-- A class has a facade unless it has several bases. -/
def hasFacade (job : Job) (table : SymbolTable) (cls : Site) : Bool :=
  job.config.writesFacade && decide ((usableBases table cls).length < 2)

/-- The chunks that begin a class. -/
def openingChunks (job : Job) (table : SymbolTable) (cls : Site) : List Chunk :=
  if hasFacade job table cls then
    [ .facadeForward cls.decl.symbol,
      .facadeOpen cls.decl.symbol ((usableBases table cls).head?.map (·.decl.symbol)) ]
  else []

theorem ends_openClass {outcome : Except Halt OpenClass} (ends : Ends (openClass job cls) before outcome after)
    (survives : Survives outcome) :
    ∃ opened, outcome = .ok opened ∧ opened.site = cls ∧ opened.isOpen = hasFacade job before.table cls ∧
      after.chunks = before.chunks ++ openingChunks job before.table cls := by
  unfold openClass at ends
  cases writes : job.config.writesFacade with
  | false =>
    rw [writes] at ends
    obtain ⟨rfl, rfl⟩ := ends.of_pure
    exact ⟨_, rfl, rfl, by simp [hasFacade, writes], by simp [openingChunks, hasFacade, writes]⟩
  | true =>
    rw [writes] at ends
    replace ends := (ends_bind_of_ok (run_tellUnknownBases cls before)).mp ends
    obtain ⟨_, ends⟩ := ends.check_bind survives
    rw [ends_get_bind] at ends
    dsimp only at ends
    split at ends
    · rename_i several
      rw [ends_warn_bind] at ends
      obtain ⟨rfl, rfl⟩ := ends.of_pure
      have facadeless : hasFacade job before.table cls = false := by simp [hasFacade, several]
      exact ⟨_, rfl, rfl, facadeless.symm, by simp [openingChunks, facadeless, warnedIn]⟩
    · rename_i few
      rw [ends_append_bind, ends_append_bind] at ends
      obtain ⟨rfl, rfl⟩ := ends.of_pure
      have one : hasFacade job before.table cls := by
        cases bases : usableBases before.table cls with
        | nil => simp [hasFacade, writes, bases]
        | cons first rest =>
          cases rest with
          | nil => simp [hasFacade, writes, bases]
          | cons second others => exact (few first second others bases).elim
      exact ⟨_, rfl, rfl, one.symm, by simp [openingChunks, one]⟩

variable {opened : OpenClass}

theorem ends_closeClass {outcome : Except Halt OpenClass}
    (ends : Ends (closeClass job opened) before outcome after) (survives : Survives outcome) :
    brackets after.chunks =
      brackets before.chunks ++ if opened.isOpen then [.closes opened.site.decl.symbol] else [] := by
  unfold closeClass at ends
  cases isOpen : opened.isOpen with
  | false =>
    rw [isOpen] at ends
    obtain ⟨_, rfl⟩ := ends.of_pure
    simp
  | true =>
    rw [isOpen] at ends
    obtain ⟨_, ends⟩ := ends.check_bind survives
    obtain ⟨_, ends⟩ := ends.check_bind survives
    rw [ends_append_bind] at ends
    obtain ⟨_, rfl⟩ := ends.of_pure
    simp [brackets, bracket?, OpenClass.ending, OpenClass.className]

/-- The same class under emission, as far as brackets go. -/
def SameClass (opened found : OpenClass) : Prop :=
  found.site = opened.site ∧ found.isOpen = opened.isOpen

theorem addMember_returns (opened : OpenClass) (w : Written) : Returns (addMember job opened w) (SameClass opened) := by
  unfold addMember
  split
  · exact .pure ⟨rfl, rfl⟩
  · refine .seq fun m => ?_
    split
    · exact .seq fun _ => .pure ⟨rfl, rfl⟩
    · refine .seq fun _ => ?_
      split
      · exact .seq fun _ => .pure ⟨rfl, rfl⟩
      · exact .pure ⟨rfl, rfl⟩

theorem wrap_returns (opened : OpenClass) (c : Callable) :
    Returns (wrap job (some opened) c) fun found => SameClass opened (found.getD opened) := by
  refine .seq fun _ => ?_
  split
  · exact .seq fun _ => .pure ⟨rfl, rfl⟩
  · refine .seq fun written => ?_
    cases written with
    | none => exact .pure ⟨rfl, rfl⟩
    | some w => exact .bind (addMember_returns opened w) fun _ same => .pure same

theorem classMember_returns (opened : OpenClass) (m : Member) :
    Returns (classMember job opened m) (SameClass opened) := by
  cases m with
  | callable c =>
    refine .recover (.bind (wrap_returns opened c) fun _ same => .pure same) fun halt => ?_
    cases halt with
    | rejected message found => exact .seq fun _ => .pure ⟨rfl, rfl⟩
    | fault cause => exact .throw
  | enumeration site => exact .seq fun _ => .pure ⟨rfl, rfl⟩
  | constant site => exact .seq fun _ => .pure ⟨rfl, rfl⟩

/-- Once the members of a class are listed, nothing keeps it from being ended. -/
theorem ClassFills.brackets_eq {members : List Member} {warned listed : Draft}
    (cxx : job.config.cplusplus) (fills : ClassFills job cls members opened before warned listed after) :
    brackets after.chunks =
      brackets before.chunks ++ if opened.isOpen then [.closes opened.site.decl.symbol] else [] := by
  obtain ⟨finished, closed, emitted, closing⟩ := fills.closing
  have same : SameClass opened finished := by
    refine Returns.foldlM (fun state m good => ?_) ⟨rfl, rfl⟩ _ _ _ emitted
    intro before value after ended
    obtain ⟨site, isOpen⟩ := classMember_returns state m _ _ _ ended
    exact ⟨site.trans good.1, isOpen.trans good.2⟩
  rw [ends_closeClass closing survives_ok, (fills.lists cxx).brackets_eq, same.1, same.2]

/-- A class offers a variable without a type, as its own or as an inherited member. -/
def offersUntyped (draft : Draft) (cls : Site) : Bool :=
  declaresUntyped cls || (flatten draft.table draft.memo cls).1.any fun m => isUntyped m.member

/-- The brackets of a class with a facade. -/
def classBrackets (draft : Draft) (cls : Site) : List Bracket :=
  .opens cls.decl.symbol :: if offersUntyped draft cls then [] else [.closes cls.decl.symbol]

variable {draft : Draft}

theorem flatten_of_extended
    (flattens : Ends (inherit fun table memo => flatten table memo cls) before (.ok shadows) after)
    (later : after.ExtendedBy draft) : (flatten draft.table draft.memo cls).1 = shadows := by
  obtain ⟨same, learned⟩ := ends_inherit flattens survives_ok
  cases same
  have kept := later.memo
  have table := later.table
  rw [learned] at kept table
  rw [← table]
  exact flatten_again kept

variable {outcome : Except Halt Unit}

theorem ClassEnd.offersUntyped_iff (cxx : job.config.cplusplus) (whole : ClassEnd job cls before outcome after)
    (later : after.ExtendedBy draft) : offersUntyped draft cls ↔ outcome ≠ .ok () := by
  have rejected {message : String} {site : Option Site} (offered : offersUntyped draft cls) :
      offersUntyped draft cls ↔ (.error (.rejected message site) : Except Halt Unit) ≠ .ok () :=
    iff_of_true offered (by intro impossible; cases impossible)
  cases whole with
  | unlisted begins failed =>
    apply rejected
    rw [offersUntyped, declaresUntyped_of_rejected failed (by rw [failed]; trivial), Bool.true_or]
  | uninherited begins owned flattens failed =>
    have typed := (own_of_survives (by rw [owned]; trivial)).mp ⟨_, owned⟩
    apply rejected
    rw [offersUntyped, typed, flatten_of_extended flattens later, Bool.false_or]
    exact any_untyped_of_rejected failed (by rw [failed]; trivial)
  | filled begins owned flattens found fills =>
    have typed := (own_of_survives (by rw [owned]; trivial)).mp ⟨_, owned⟩
    have allTyped := (inherited_of_survives (by rw [found]; trivial)).mp ⟨_, found⟩
    have offered : offersUntyped draft cls = false := by
      simpa [offersUntyped, typed, flatten_of_extended flattens ((fills.extended cxx).trans later)] using allTyped
    simp [offered]

theorem ClassBegins.brackets_eq {begun asked : Draft}
    (begins : ClassBegins job cls before opened abstract begun asked) :
    opened.site = cls ∧ opened.isOpen = hasFacade job before.table cls ∧ brackets asked.chunks =
      brackets before.chunks ++ if hasFacade job before.table cls then [.opens cls.decl.symbol] else [] := by
  obtain ⟨_, same, site, isOpen, begun⟩ := ends_openClass begins.opening survives_ok
  cases same
  refine ⟨site, isOpen, ?_⟩
  rw [begins.asks.brackets_eq, begun, brackets_append, classDeclaredIn, brackets_append, List.append_assoc,
    openingChunks]
  cases hasFacade job before.table cls <;> rfl

/-- A class of C++ is begun if it has a facade, and ended unless it offers a variable without a type. -/
theorem ends_cxxClass (cxx : job.config.cplusplus) (ends : Ends (cxxClass job cls) before outcome after)
    (survives : Survives outcome) (later : after.ExtendedBy draft) :
    brackets after.chunks =
      brackets before.chunks ++ if hasFacade job draft.table cls then classBrackets draft cls else [] := by
  have table : before.table = draft.table :=
    (((cxxClass_within cxx cls).goes ends survives).extended.trans later).table
  have whole := classEnd_of_ends ends survives
  have offered := whole.offersUntyped_iff cxx later
  rw [← table]
  cases whole with
  | unlisted begins failed =>
    obtain ⟨_, _, asked⟩ := begins.brackets_eq
    rw [asked, classBrackets, offered.mpr (by simp)]
    rfl
  | uninherited begins owned flattens failed =>
    obtain ⟨_, _, asked⟩ := begins.brackets_eq
    have toFlattened : Goes job Move.Inner _ after := goes_of_flattens flattens
    rw [toFlattened.brackets_eq, asked, classBrackets, offered.mpr (by simp)]
    rfl
  | @filled _ _ _ _ flattened _ _ _ _ _ _ begins owned flattens found fills =>
    obtain ⟨site, isOpen, asked⟩ := begins.brackets_eq
    have toFlattened : Goes job Move.Inner _ flattened := goes_of_flattens flattens
    have typed : offersUntyped draft cls = false := by simpa using offered
    rw [fills.brackets_eq cxx, toFlattened.brackets_eq, asked, isOpen, site, classBrackets, typed]
    cases hasFacade job before.table cls <;> simp

/-! ### The classes of a run -/

namespace Module

/-- A site is a class that gets a facade. -/
def opensFacade (job : Job) (site : Site) : Bool :=
  site.kind == .classDecl && !isForeign job site && !site.isMember && hasFacade job (prepared job).table site

def facadeClasses (job : Job) : List Site :=
  (visited job).filter (opensFacade job)

end Module

theorem Module.opensFacade_eq (isClass : cls.kind = .classDecl) :
    Module.opensFacade job cls = (writesClass job cls && hasFacade job (prepared job).table cls) := by
  simp [opensFacade, writesClass, isClass]

theorem ends_classDecl (started : (Module.prepared job).ExtendedBy before) (isClass : cls.kind = .classDecl)
    (ends : Ends (classDecl job cls) before outcome after) (survives : Survives outcome)
    (later : after.ExtendedBy draft) :
    brackets after.chunks =
      brackets before.chunks ++ if Module.opensFacade job cls then classBrackets draft cls else [] := by
  have table : (Module.prepared job).table = draft.table :=
    (started.trans (((classDecl_within cls).goes ends survives).extended.trans later)).table
  rw [opensFacade_eq isClass, table]
  cases cxx : job.config.cplusplus with
  | false =>
    have noFacade : hasFacade job draft.table cls = false := by simp [hasFacade, Config.writesFacade, cxx]
    rw [noFacade, Bool.and_false, if_neg Bool.false_ne_true, List.append_nil]
    rcases ends_classDecl_of_plain started cxx ends with wrote | ⟨_, rfl⟩
    · exact (struct_within cls).brackets_eq wrote survives
    · rfl
  | true =>
    rcases ends_classDecl_of_cxx started cxx ends survives with ⟨unwritten, _, told, rfl⟩ | ⟨written, ends⟩
    · simp [unwritten]
    · rw [written, Bool.true_and]
      exact ends_cxxClass cxx ends survives later

theorem visit_brackets {site : Site} (started : (Module.prepared job).ExtendedBy before)
    (visit : Ends (declaration job site) before (.ok ()) after) (later : after.ExtendedBy draft) :
    brackets after.chunks =
      brackets before.chunks ++ if Module.opensFacade job site then classBrackets draft site else [] := by
  by_cases isClass : site.kind = .classDecl
  · obtain ⟨outcome, middle, told, ends, survives, rfl⟩ := exists_ends_of_visit isClass visit
    have held : middle.ExtendedBy draft :=
      ⟨later.table, later.runtimeClass, later.chunks, later.symbols, later.memo⟩
    have whole := ends_classDecl started isClass ends survives held
    exact whole
  · have closed : Module.opensFacade job site = false := by simp [Module.opensFacade, isClass]
    rw [(declaration_within_inner isClass).brackets_eq visit survives_ok, closed]
    simp

theorem Visits.brackets_eq {visits : List Visit} (started : (Module.prepared job).ExtendedBy before)
    (chain : Visits job visits before after) (later : after.ExtendedBy draft) :
    brackets after.chunks = brackets before.chunks ++
      ((visits.map (·.site)).filter (Module.opensFacade job)).flatMap (classBrackets draft) := by
  rw [← flatMap_ite]
  exact chain.filterMap_eq started later visit_brackets

theorem closesEach_opens (draft : Draft) (name : String) (classes : List Site) :
    closesEach (.opens name :: classes.flatMap (classBrackets draft)) = false := by
  cases classes <;> rfl

theorem closesEach_iff (draft : Draft) (classes : List Site) :
    closesEach (classes.flatMap (classBrackets draft)) ↔ ∀ cls ∈ classes, offersUntyped draft cls = false := by
  induction classes with
  | nil => simp [closesEach]
  | cons cls rest ih =>
    rw [List.flatMap_cons, classBrackets, List.forall_mem_cons, ← ih]
    cases offersUntyped draft cls with
    | true => simp [closesEach_opens]
    | false => simp [closesEach]

theorem Module.prepared_brackets (job : Job) : brackets (prepared job).chunks = [] := by
  refine List.filterMap_eq_nil_iff.mpr fun chunk listed => ?_
  simp only [prepared, preparedChunks] at listed
  grind [bracket?]

/-- In a run that completes, each class with a facade is begun once and then ended, unless it offers a variable without
a type. So every class that is begun is ended before the next one exactly when no class with a facade offers such a
variable. -/
theorem Module.facade_classes_closed_iff {draft : Draft} (ran : run job = .ok draft) :
    brackets draft.chunks = (facadeClasses job).flatMap (classBrackets draft) ∧
      (closesEach (brackets draft.chunks) ↔ ∀ cls ∈ facadeClasses job, offersUntyped draft cls = false) := by
  obtain ⟨visits, chain, sites⟩ := exists_visits ran
  have whole : brackets draft.chunks = (facadeClasses job).flatMap (classBrackets draft) := by
    rw [chain.brackets_eq (.refl _) (.refl _), prepared_brackets, sites]
    rfl
  refine ⟨whole, ?_⟩
  rw [whole]
  exact closesEach_iff draft (facadeClasses job)

/-- A module of two classes, of which the second one inherits a variable. -/
def shapesModule : Job :=
  .ofNodes
    [ .mk (.named .classDecl "Shape")
        [.mk { Declaration.named .variableDecl "area" with type := some ⟨"int", []⟩ } []],
      .mk { Declaration.named .classDecl "Square" with bases := [.string "Shape"] } [] ]

theorem Module.facade_classes_closed_iff_shapesModule :
    ∃ draft, run shapesModule = .ok draft ∧
      brackets draft.chunks = [.opens "Shape", .closes "Shape", .opens "Square", .closes "Square"] ∧
      ∀ cls ∈ facadeClasses shapesModule, offersUntyped draft cls = false :=
  exists_ok (by decide +kernel) fun _ ran same => (facade_classes_closed_iff ran).2.mp (by rw [same]; rfl)

/-- A document with a class whose variable has no type. -/
def untypedDocument : Value :=
  .object [("module", .object [("kind", .string "module"), ("name", .string "m"), ("children", .array
    [.object [("kind", .string "class"), ("name", .string "A"), ("children", .array
      [.object [("kind", .string "variable"), ("name", .string "v")]])]])])]

/-- The class of that document is begun and never ended. -/
theorem Module.untypedDocument_leaves_class_open :
    ((Load.document true untypedDocument).toOption.bind fun loaded => (run
      ⟨{ givenModule := .string "m", exceptions := false }, .root loaded.tree, loaded.typemaps⟩).toOption).map
        (fun draft => (brackets draft.chunks, closesEach (brackets draft.chunks))) = some ([.opens "A"], false) := by
  decide +kernel

end FlatAbi
