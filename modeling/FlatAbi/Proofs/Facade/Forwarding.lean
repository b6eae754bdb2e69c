import FlatAbi.Proofs.Emission.Members
import FlatAbi.Proofs.Emission.Offers
import FlatAbi.Proofs.Facade.Needs
import FlatAbi.Proofs.Wrapper.Alignment

/-!
Members of facade classes forward to C functions, and check for an exception where the function can leave one.
-/

namespace FlatAbi

open Emit Wrapper Facade List

variable {job : Job} {c : Callable} {before after draft : Draft} {m : FacadeMember}

/-! ### The call of a member -/

variable {r : Resolver} {site : Site} {cls : OpenClass} {symbol : String} {support : ExceptionSupport}
  {written : Written}

namespace FacadeMember

def isConstructor (m : FacadeMember) : Bool :=
  m.role == .constructor || m.role == .copyConstructor

/-- The expressions that a member passes to its C function. -/
def callArguments (m : FacadeMember) : List String :=
  if m.isConstructor then m.parameters.map (·.argument) else m.arguments

def call (m : FacadeMember) : String :=
  m.symbol ++ "(" ++ Text.join ", " m.callArguments ++ ")"

/-- The call with its check, which follows the call where there is no value to hand on. -/
def guardedCall (m : FacadeMember) : String :=
  if !m.checked then m.call
  else if m.isConstructor || !m.result.isVoid then "swig_check(" ++ m.call ++ ")"
  else m.call ++ "; swig_check()"

def beforeCall (m : FacadeMember) : String :=
  if m.isConstructor then
    "inline " ++ m.className ++ "::" ++ m.className ++ "(" ++ m.declared ++ ") : " ++ m.className ++ "\x7b"
  else
    "inline " ++ declareFacade m.result.type "" ++ m.className ++ "::" ++ m.name ++ "(" ++ m.declared ++ ")" ++
      m.constWord ++ " \x7b " ++ if m.result.isVoid then "" else "return " ++ m.result.before

def afterCall (m : FacadeMember) : String :=
  if m.isConstructor then "\x7d \x7b\x7d\n" else (if m.result.isVoid then "" else m.result.after) ++ "; \x7d\n"

theorem definition_eq (m : FacadeMember) : m.definition = m.beforeCall ++ m.guardedCall ++ m.afterCall := by
  cases constructed : m.isConstructor with
  | true =>
    have role : m.role = .constructor ∨ m.role = .copyConstructor := by simpa [isConstructor] using constructed
    rcases role with role | role <;> cases checked : m.checked <;>
      simp [definition, role, beforeCall, guardedCall, afterCall, call, callArguments, passed, checkedCall, checkStart,
        checkEnd, constructed, checked, String.append_assoc]
  | false =>
    unfold definition
    split
    · rename_i role
      simp [isConstructor, role] at constructed
    · rename_i role
      simp [isConstructor, role] at constructed
    · cases checked : m.checked <;> cases isVoid : m.result.isVoid <;>
        simp [beforeCall, guardedCall, afterCall, call, callArguments, methodBody, checkedCall, checkStart, checkEnd,
          FacadeRendering.wrap, constructed, checked, isVoid, String.append_assoc]

end FacadeMember

/-! ### Parameters -/

/-- A parameter of a facade member that stands for a parameter of its function. -/
structure Facade.Receives (r : Resolver) (c : Callable) (p : TypedParameter) (q : FacadeParameter) : Prop where
  name : q.name = p.name.getD ""
  converted : r.facadeParameterAt p.type c.site.scopeValue = .ok q.rendering

theorem Facade.parameters_returns (r : Resolver) (c : Callable) (inputs : List TypedParameter) :
    Returns (Facade.parameters r c inputs) (Forall₂ (Receives r c) inputs) := by
  induction inputs with
  | nil => exact .pure .nil
  | cons p rest ih =>
    exact .bind .lift fun _ converted => .seq fun _ => .bind ih fun _ others => .pure (.cons ⟨rfl, converted⟩ others)

/-- What a member passes on for a parameter of its function: its own object for the object, and for any other parameter
the name with the conversion that its type asks for. -/
inductive Facade.Passes (job : Job) (r : Resolver) (c : Callable) : SignatureParameter → String → Prop where
  | object {owner : Site} (owned : c.owner = some owner) :
      Passes job r c ⟨"self", .handle (Naming.proxyName job.config owner)⟩ "swig_self()"
  | value {name : String} {t : CxxType} {category : Category} {rendering : FacadeRendering}
      (known : categoryOf r c t = .ok category) (converted : r.facadeParameterAt t c.site.scopeValue = .ok rendering) :
      Passes job r c ⟨name, .c (cTypeOf job r t c.site.scopeName category .header).text⟩ (rendering.wrap name)

theorem Facade.passes_of_receives (job : Job) {args : List Argument} {parameters : List FacadeParameter}
    (known : ∀ a ∈ args, categoryOf r c a.type = .ok a.category)
    (received : Forall₂ (Receives r c) (args.map fun a => ⟨some a.cName, a.type⟩) parameters) :
    Forall₂ (Passes job r c)
      (args.map fun a => ⟨a.cName, .c (cTypeOf job r a.type c.site.scopeName a.category .header).text⟩)
      (parameters.map (·.argument)) := by
  induction args generalizing parameters with
  | nil =>
    cases received
    exact .nil
  | cons a rest ih =>
    rw [map_cons] at received
    cases received with
    | @cons _ q _ others head tail =>
      refine .cons ?_ (ih (fun other listed => known other (mem_cons_of_mem a listed)) tail)
      change Passes job r c _ (q.rendering.wrap q.name)
      rw [head.name]
      exact .value (known a mem_cons_self) head.converted

theorem Facade.passes_of_signature {parameters : List TypedParameter} {p : Plan} {header : Signature}
    (planned : plan job r c parameters = .ok p) (declared : p.signature job r symbol .header = .ok header)
    (outside : m.isDefinedOutside) (role : m.role = c.role)
    (received : Forall₂ (Receives r c) (p.visible.map fun a => ⟨some a.cName, a.type⟩) m.parameters) :
    Forall₂ (Passes job r c) header.parameters m.callArguments := by
  have known := plan_category planned
  obtain ⟨rfl, _, _⟩ := plan_eq_ok planned
  obtain ⟨self, found, declared⟩ := bind_eq_ok declared
  cases declared
  have values : Forall₂ (Passes job r p.callable)
      (p.visible.map fun a => ⟨a.cName, .c (p.argumentType job r .header a).text⟩) (m.parameters.map (·.argument)) :=
    passes_of_receives job (fun a listed => known a (mem_filter.mp listed).1) received
  have roles : m.role = .constructor ∨ m.role = .copyConstructor ∨ m.role = .staticMethod ∨ m.role = .method := by
    simp only [FacadeMember.isDefinedOutside, Bool.or_eq_true, beq_iff_eq] at outside
    grind
  unfold Plan.selfParameter at found
  unfold FacadeMember.callArguments FacadeMember.isConstructor FacadeMember.arguments
  rcases roles with same | same | same | same <;> rw [← role, same] at found <;> rw [same]
  · cases found
    exact values
  · cases found
    exact values
  · cases found
    exact values
  · cases owned : p.callable.owner with
    | none =>
      rw [owned] at found
      cases found
    | some owner =>
      rw [owned] at found
      cases found
      exact .cons (.object owned) values

/-! ### Checks -/

theorem Wrapper.body_guard {p : Plan} {body : Body} (bodied : p.body job r support = .ok body) :
    guardOf support p.callable = .ok body.guard := by
  obtain ⟨_, _, bodied⟩ := bind_eq_ok bodied
  obtain ⟨_, _, bodied⟩ := bind_eq_ok bodied
  obtain ⟨_, _, bodied⟩ := bind_eq_ok bodied
  obtain ⟨_, _, bodied⟩ := bind_eq_ok bodied
  obtain ⟨guard, guarded, bodied⟩ := bind_eq_ok bodied
  obtain ⟨_, _, bodied⟩ := bind_eq_ok bodied
  obtain ⟨_, _, bodied⟩ := bind_eq_ok bodied
  cases bodied
  exact guarded

theorem Wrapper.guardOf_standard_iff {guard : Guard} (unhandled : (c.decl.feature "except").truthy = false)
    (found : guardOf support c = .ok guard) :
    guard = .standard ↔ support ≠ .disabled ∧ c.decl.cannotThrow = false := by
  have unguarded : userCode c.decl "except" = .ok [] := by simp [userCode, unhandled]
  rw [guardOf, unguarded] at found
  change (if _ then pure Guard.bare else pure Guard.standard) = Except.ok guard at found
  split at found <;> cases found
  · rename_i harmless
    simp at harmless
    grind
  · rename_i harmful
    simpa using harmful

namespace Module

theorem runtimeClass_cannotThrow {root child : Site} (listed : child ∈ (runtimeClass root).children) :
    child.decl.cannotThrow := by
  have quiet : ∀ n ∈ runtimeNode.children, n.decl.cannotThrow := by decide
  exact quiet child.node (Site.mem_childrenFrom listed).1

/-- The only class under the name of the exception class that gets wrappers is the runtime class. -/
theorem eq_runtimeClass_of_writesClass {tree : Node} {cls : Site} (rooted : job.root = .root tree)
    (visits : cls ∈ visited job) (writes : writesClass job cls) (named : cls.name = exceptionClass) :
    cls = runtimeClass job.root := by
  have sameId : (ownRuntimeClass? job).map (·.id) = some cls.id := by
    simpa [writesClass, isForeign, named] using (Bool.and_eq_true_iff.mp writes).1
  obtain ⟨runtime, own, same⟩ := Option.map_eq_some_iff.mp sameId
  have listed : runtime ∈ visited job := mem_append_left _ (Option.mem_toList.mpr own)
  rw [← inj_on_of_nodup_map (visited_ids_nodup rooted) listed visits same]
  exact ownRuntimeClass_eq own

theorem Offers.cannotThrow {tree : Node} {cls : Site} (rooted : job.root = .root tree) (visits : site ∈ visited job)
    (offers : Offers job site (some cls) c) (named : cls.name = exceptionClass) (own : c.inheritedFrom = none) :
    c.decl.cannotThrow := by
  cases offers with
  | member cxx isClass writes found listed =>
    obtain rfl := eq_runtimeClass_of_writesClass rooted visits writes named
    obtain ⟨owned, owning, found⟩ := bind_eq_ok found
    obtain ⟨inherited, inheriting, found⟩ := bind_eq_ok found
    cases found
    rcases (Members.inOrder_place owning inheriting listed).2 with ⟨child, declared, place⟩ | ⟨_, _, place⟩ | implicit
    · simp only [Members.place, Prod.mk.injEq] at place
      rw [Callable.decl, place.1]
      exact runtimeClass_cannotThrow declared
    · simp [Members.place, own] at place
    · cases implicit

end Module

/-! ### Members and their wrappers -/

/-- A member of a facade class forwards to the wrapper of an entry. -/
structure Facade.Forwards (job : Job) (m : FacadeMember) (entry : Wrapper.Entry) : Prop where
  symbol : entry.written.symbol = m.symbol
  role : entry.written.callable.role = m.role
  own : entry.written.callable.inheritedFrom = none
  notFriend : entry.written.callable.decl.isFriend = false
  passes : Forall₂ (Passes job (Module.resolver job) entry.written.callable) entry.prototype.parameters
    m.callArguments
  checked : (entry.written.callable.decl.feature "except").truthy = false →
    (m.checked ↔ entry.definition.body.guard = .standard)

theorem ends_facadeMember (settled : before.IsSetFor job)
    (ends : Ends (Facade.member job cls written) before (.ok m) after) :
    m.role = written.callable.role ∧ m.symbol = written.symbol ∧
      Forall₂ (Receives (Module.resolver job) written.callable) written.inputs m.parameters ∧
      m.checked = ((Module.prepared job).checked && !written.callable.decl.cannotThrow &&
        cls.site.name != exceptionClass) := by
  unfold Facade.member at ends
  rw [ends_resolver_bind, settled.resolver_eq] at ends
  obtain ⟨_, ends⟩ := ends.check_bind survives_ok
  obtain ⟨_, ends⟩ := ends.check_bind survives_ok
  rcases ends.lift_bind with ⟨result, _, ends⟩ | ⟨_, _, impossible, _⟩
  · rw [ends_require_bind] at ends
    rcases ends.bind_cases with ⟨parameters, middle, receiving, ends⟩ | ⟨_, _, impossible⟩
    · have required : (before.supplied result.needs).IsSetFor job :=
        ⟨⟨settled.table, settled.freeFunctions, settled.runtimeClass⟩, settled.exceptions, settled.checked,
          settled.declaresOnce.supplied _⟩
      have goes : Goes job Move.Plain _ middle := (facadeParameters_within _ _ _).goes receiving survives_ok
      rcases ends.lift_bind with ⟨_, _, ends⟩ | ⟨_, _, impossible, _⟩
      · rw [ends_get_bind] at ends
        obtain ⟨same, _⟩ := ends.of_pure
        cases same
        refine ⟨rfl, rfl, parameters_returns _ _ _ _ _ _ receiving, ?_⟩
        rw [← (required.goes goes).checked]
        rfl
      · cases impossible
    · cases impossible
  · cases impossible

/-- A member that is added is declared, and defined where it is defined outside. Else nothing is added to the facade. -/
theorem ends_addMember {outcome : Except Halt OpenClass} (ends : Ends (addMember job cls written) before outcome after)
    (survives : Survives outcome) :
    Goes job Move.Plain before after ∨
      ∃ m middle, Ends (Facade.member job cls written) before (.ok m) middle ∧
        written.callable.inheritedFrom = none ∧ written.callable.decl.isFriend = false ∧
        Goes job Move.Plain before middle ∧ middle.ExtendedBy after ∧
        after.chunks = middle.chunks ++ .facadeMember m ::
          if m.isDefinedOutside then [.facadeDefinition m] else [] := by
  unfold addMember at ends
  split at ends
  · obtain ⟨_, rfl⟩ := ends.of_pure
    exact .inl (.refl _)
  · rename_i added
    obtain ⟨⟨_, own⟩, notFriend⟩ : (cls.isOpen ∧ written.callable.inheritedFrom = none) ∧
        written.callable.decl.isFriend = false := by simpa using added
    rcases ends.bind_survived survives with ⟨m, middle, made, ends⟩ | ⟨message, site, made, _⟩
    · have goes : Goes job Move.Plain before middle := (facadeMember_within _ _).goes made survives_ok
      split at ends
      · rw [ends_warn_bind] at ends
        obtain ⟨_, rfl⟩ := ends.of_pure
        exact .inl (goes.trans (.step (step_warnedIn job _ _ _) trivial))
      · rw [ends_append_bind] at ends
        refine .inr ⟨m, middle, made, own, notFriend, goes, ?_⟩
        split at ends
        · rename_i outside
          rw [ends_append_bind] at ends
          obtain ⟨_, rfl⟩ := ends.of_pure
          simp only [outside, if_true, append_assoc, cons_append, nil_append, and_true]
          exact ⟨rfl, rfl, prefix_append _ _, prefix_rfl, .refl _⟩
        · rename_i inside
          obtain ⟨_, rfl⟩ := ends.of_pure
          simp only [inside, Bool.false_eq_true, if_false, and_true]
          exact ⟨rfl, rfl, prefix_append _ _, prefix_rfl, .refl _⟩
    · exact .inl ((facadeMember_within _ _).goes made survives_rejected)

/-! ### Runs -/

/-- Every member of a facade class that is defined outside of it has its definition, and forwards to a wrapper. -/
def Draft.ForwardsMembers (job : Job) (draft : Draft) : Prop :=
  ∀ m, .facadeMember m ∈ draft.chunks → m.isDefinedOutside →
    .facadeDefinition m ∈ draft.chunks ∧ ∃ entry, entry.InDraft job draft ∧ Forwards job m entry

namespace Draft.ForwardsMembers

theorem extended (kept : before.ForwardsMembers job) (later : before.ExtendedBy after)
    (earlier : ∀ m, .facadeMember m ∈ after.chunks → .facadeMember m ∈ before.chunks) : after.ForwardsMembers job := by
  intro m listed outside
  obtain ⟨defined, entry, inDraft, forwards⟩ := kept m (earlier m listed) outside
  exact ⟨later.chunks.subset defined, entry, inDraft.extended later, forwards⟩

theorem step {move : Move} (permitted : move.Plain) (moves : Step job move before after)
    (kept : before.ForwardsMembers job) : after.ForwardsMembers job := by
  refine kept.extended moves.extended fun m listed => ?_
  cases moves with
  | append _ chunk =>
    rcases mem_append.mp listed with earlier | last
    · exact earlier
    · obtain rfl := mem_singleton.mp last
      cases permitted.2
  | tell | record | learn => exact listed
  | name | wrap => exact permitted.elim

theorem goes (goes : Goes job Move.Plain before after) (kept : before.ForwardsMembers job) :
    after.ForwardsMembers job :=
  goes.preserves (Draft.ForwardsMembers job) (fun permitted moves kept => kept.step permitted moves) kept

theorem write {outcome : Except Halt (Option Written)} (object : c.role.hasSelf → job.config.cplusplus)
    (ends : Ends (write job c) before outcome after) (survives : Survives outcome) (kept : before.ForwardsMembers job) :
    after.ForwardsMembers job := by
  have goes : Goes job Move.Inner before after := (write_within object).goes ends survives
  refine kept.extended goes.extended fun m listed => ?_
  cases writeEnd_of_ends ends survives with
  | published renders named fresh =>
    simp only [Rendering.publishedIn, append_assoc, mem_append, mem_cons, not_mem_nil, or_false,
      reduceCtorEq] at listed
    rcases listed with earlier | supplied
    · exact earlier
    · obtain ⟨need, _, same⟩ := exists_need_of_mem_supply supplied
      cases need <;> cases same
  | unconverted | taken | rejected => exact listed

end Draft.ForwardsMembers

section

variable {tree : Node} (rooted : job.root = .root tree) (facade : job.config.writesFacade)

include rooted facade

theorem forwards_of_member {rendering : Rendering} {start : Draft} (visits : site ∈ Module.visited job)
    (offers : Module.Offers job site (some cls.site) c) (settled : start.IsSetFor job)
    (renders : Renders job ⟨job.config, start.table⟩ start.exceptions c symbol rendering)
    (settledToo : before.IsSetFor job)
    (made : Ends (Facade.member job cls ⟨symbol, c, rendering.inputs⟩) before (.ok m) after)
    (own : c.inheritedFrom = none) (notFriend : c.decl.isFriend = false) (outside : m.isDefinedOutside) :
    Forwards job m ⟨⟨symbol, c, rendering.inputs⟩, rendering.definition, rendering.prototype⟩ := by
  obtain ⟨role, same, received, checked⟩ := ends_facadeMember settledToo made
  rw [settled.resolver_eq, settled.exceptions] at renders
  cases renders with
  | direct plain typed bodied =>
    rw [Config.writesFacade, plain, Bool.and_false] at facade
    cases facade
  | @converted parameters p implementation header body cxx typed planned implemented declared bodied =>
    refine ⟨same.symm, role.symm, own, notFriend,
      passes_of_signature planned declared outside role received, fun unhandled => ?_⟩
    have guarded := body_guard bodied
    rw [(plan_eq_ok planned).1] at guarded
    rw [guardOf_standard_iff unhandled guarded, checked]
    have support : (Module.prepared job).checked = ((Module.prepared job).exceptions != .disabled) := by
      simp [Module.prepared, facade]
    cases named : cls.site.name == exceptionClass with
    | true =>
      have quiet := offers.cannotThrow rooted visits (beq_iff_eq.mp named) own
      simp [quiet]
    | false =>
      have other : (cls.site.name != exceptionClass) := by rw [bne, named]; rfl
      simp [support, other]

theorem Module.forwardsMembers_steady (visits : site ∈ visited job) :
    Steady job (Offers job site) (Draft.ForwardsMembers job) where
  plain permitted moves _ kept := kept.step permitted moves
  wrap := by
    intro opened c offers before outcome after settled ends survives kept
    have cxx : job.config.cplusplus := (Bool.and_eq_true_iff.mp facade).2
    cases wrapping_of_ends ends survives with
    | @refused warning invalid =>
      have told := step_warnedIn job c.site warning before
      exact ⟨settled.step told, kept.goes (.step told trivial)⟩
    | wrote valid wrote survives =>
      exact ⟨write_isSetFor settled wrote survives, kept.write (fun _ => cxx) wrote survives⟩
    | @added cls written _ middle _ valid isOpened wrote adds survives =>
      subst isOpened
      have settledToo := write_isSetFor settled wrote survives_ok
      have keptToo := kept.write (fun _ => cxx) wrote survives_ok
      have goes : Goes job Move.Silent middle after := (addMember_within _ _).goes adds survives
      refine ⟨settledToo.goes goes, ?_⟩
      rcases ends_addMember adds survives with goes | ⟨m, last, made, own, notFriend, goes, later, chunks⟩
      · exact keptToo.goes goes
      · intro other listed outside
        rw [chunks, mem_append, mem_cons] at listed
        rcases listed with earlier | same | impossible
        · obtain ⟨defined, entry, inDraft, forwards⟩ := keptToo.goes goes other earlier outside
          exact ⟨later.chunks.subset defined, entry, inDraft.extended later, forwards⟩
        · cases same
          have defined : .facadeDefinition m ∈ after.chunks := by simp [chunks, outside]
          cases writeEnd_of_ends wrote survives_ok with
          | published renders named fresh =>
            have inDraft := Entry.inDraft_of_published settled.declaresOnce (fun _ => cxx) renders wrote
            exact ⟨defined, _, inDraft.extended (goes.extended.trans later),
              forwards_of_member rooted facade visits offers settled renders settledToo made own notFriend outside⟩
        · split at impossible <;> simp at impossible

/-- In a run with a facade, every constructor, method and static method of a facade class forwards to a C function: its
definition has one call, which passes one expression for each parameter of the prototype, in order, and which is checked
exactly if the definition of the C function has the standard handler, a handler of the user apart. -/
theorem Module.facade_members_forward (ran : run job = .ok draft) (m : FacadeMember)
    (listed : .facadeMember m ∈ draft.chunks) (outside : m.isDefinedOutside) :
    .facadeDefinition m ∈ draft.chunks ∧ m.definition = m.beforeCall ++ m.guardedCall ++ m.afterCall ∧
      ∃ entry, entry.InDraft job draft ∧ Forwards job m entry := by
  have start : (prepared job).ForwardsMembers job := by
    intro m listed
    simp only [prepared, preparedChunks] at listed
    grind
  have whole := kept_of_run (fun site visits => forwardsMembers_steady rooted facade visits) ran start
  obtain ⟨defined, forwards⟩ := whole m listed outside
  exact ⟨defined, m.definition_eq, forwards⟩

end

/-- A module that imports its exceptions, with a class whose method takes an object of the class. -/
def turtleModule : Job where
  config := { givenModule := .string "m" }
  root := .root <| .mk (.named .moduleDecl "m")
    [ .mk (.named .importDecl "base") [],
      .mk (.named .classDecl "Turtle")
        [ .mk
            { Declaration.named .functionDecl "follow" with
              type := some ⟨"bool", []⟩
              parameters :=
                [ { name := .string "leader", type := some ⟨"Turtle", [.lvalueReference]⟩ },
                  { type := some ⟨"int", []⟩ } ] } [] ] ]
  typemaps := {}

def Chunk.facadeMember? : Chunk → Option FacadeMember
  | .facadeMember m => some m
  | _ => none

theorem Module.facade_members_forward_turtleModule :
    ∃ draft m entry, Module.run turtleModule = .ok draft ∧ .facadeMember m ∈ draft.chunks ∧
      m.isDefinedOutside = true ∧ m.checked ∧
      m.definition = m.beforeCall ++ "swig_check(Turtle_follow(swig_self(), leader.swig_self(), carg3))" ++
        m.afterCall ∧
      entry.InDraft turtleModule draft ∧ Forwards turtleModule m entry := by
  have written : (Module.run turtleModule).toOption.map (fun draft =>
      ((draft.chunks.filterMap Chunk.facadeMember?).find? (·.name == "follow")).map
        fun m => (m.isDefinedOutside, m.checked, m.guardedCall)) =
        some (some (true, true, "swig_check(Turtle_follow(swig_self(), leader.swig_self(), carg3))")) := by
    decide +kernel
  obtain ⟨draft, ran, found⟩ := ok_of_toOption_map written
  obtain ⟨m, looked, same⟩ := Option.map_eq_some_iff.mp found
  simp only [Prod.mk.injEq] at same
  obtain ⟨outside, checked, call⟩ := same
  obtain ⟨chunk, listed, view⟩ := mem_filterMap.mp (mem_of_find?_eq_some looked)
  have member : chunk = .facadeMember m := by
    cases chunk <;> first | cases view; rfl | cases view
  subst member
  obtain ⟨_, text, entry, inDraft, forwards⟩ := facade_members_forward rfl rfl ran m listed outside
  rw [call] at text
  exact ⟨draft, m, entry, ran, listed, outside, checked, text, inDraft, forwards⟩

end FlatAbi
