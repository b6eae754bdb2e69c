import FlatAbi.Proofs.Emission.Counterparts
import FlatAbi.Proofs.Emission.Over
import FlatAbi.Proofs.Emission.Symbols
import FlatAbi.Proofs.Resolver.Reordering

/-!
The order of declarations does not matter for the symbols of a module.
-/

namespace FlatAbi

open Site Emit Wrapper FlatAbi.Module Inheritance List SymbolTable Members Variable

/-! ### Symbols of twins -/

section twins

variable {pairing : Pairing} {job : Job} {root' site site' : Site} {c c' : Callable}

theorem symbolOf_eq (same : Namesake site site') (kind : SymbolKind) (name : Value) :
    symbolOf kind name site = symbolOf kind name site' := by
  rw [symbolOf, symbolOf, same.qualifiedValue, same.file, same.line]

namespace Module

theorem ifOk_eq {α β : Type} {Error : Halt → Halt → Prop} {Same : α → β → Prop} {result : Except Halt α}
    {result' : Except Halt β} {symbols : α → List Symbol} {symbols' : β → List Symbol}
    (same : SameResult Error Same result result')
    (each : ∀ value value', Same value value' → symbols value = symbols' value') :
    ifOk symbols result = ifOk symbols' result' := by
  cases result with
  | ok value =>
    cases result' with
    | ok value' => exact each value value' same
    | error halt => exact same.elim
  | error halt =>
    cases result' with
    | ok value' => exact same.elim
    | error halt => rfl

variable (tables : (prepared job).table.Counterpart pairing (prepared (job.over root')).table)

theorem constantSymbols_eq (config : Config) (twin : pairing.Twin site site') :
    constantSymbols config site = constantSymbols config site' := by
  refine ifOk_eq (Constant.value_same twin) fun _ _ _ => ?_
  rw [Constant.name_eq config twin, symbolOf_eq (pairing.namesake twin)]

include tables

theorem codes_eq (twin : TwinCallable pairing c c') :
    codes? job (resolver job) c = codes? (job.over root') (resolver (job.over root')) c' := by
  have same : SameCallable pairing true job (prepared job).table (prepared (job.over root')).table c c' :=
    twin.same tables
  refine congrArg Option.join ((typedParameters_same same).toOption_map fun parameters parameters' typed => ?_)
  have codes : (plan job (resolver job) c parameters).toOption.map (·.codes) =
      (plan job (resolver (job.over root')) c' parameters').toOption.map (·.codes) :=
    (plan_same tables same typed).toOption_map fun _ _ plans => plans.codes
  rw [codes, plan_over]
  rfl

theorem callableSymbols_eq (twin : TwinCallable pairing c c') :
    callableSymbols job c = callableSymbols (job.over root') c' := by
  have same : SameCallable pairing true job (prepared job).table (prepared (job.over root')).table c c' :=
    twin.same tables
  have config : (job.over root').config = job.config := rfl
  unfold callableSymbols wrapperSymbols
  rw [same.symName, codes_eq tables twin, config]
  simp only [same.wrapperName, symbolOf_eq twin.namesake]

theorem accessorSymbols_eq (twin : pairing.Twin site site') :
    accessorSymbols job site = accessorSymbols (job.over root') site' := by
  have shape : TwinCallable pairing (globalShape site) (globalShape site') :=
    ⟨pairing.decl twin, pairing.frame twin, pairing.sameId twin, rfl, (pairing.namesake twin).symbolValue, rfl, rfl,
      .none, .none, rfl, rfl, rfl⟩
  refine ifOk_eq (accessors_twins tables shape .globalSet) fun _ _ callables => ?_
  exact flatMap_eq_of_forall₂ callables fun _ _ twin => callableSymbols_eq tables twin

theorem variableSymbols_eq (twin : pairing.Twin site site') :
    variableSymbols job site = variableSymbols (job.over root') site' := by
  have config : (job.over root').config = job.config := rfl
  have isStatic : site.decl.isStatic = site'.decl.isStatic := congrArg _ (pairing.decl twin)
  have shortName : site.decl.shortName = site'.decl.shortName := (pairing.namesake twin).shortName
  unfold variableSymbols
  rw [isStatic, config, isExportable_eq job.config twin, accessorSymbols_eq tables twin, shortName,
    symbolOf_eq (pairing.namesake twin)]
  have exported : ifOk (fun found => if found.isSome then [symbolOf .variable (.string site'.decl.shortName) site']
        else accessorSymbols (job.over root') site') (cVariable? (resolver job) site) =
      ifOk (fun found => if found.isSome then [symbolOf .variable (.string site'.decl.shortName) site']
        else accessorSymbols (job.over root') site') (cVariable? (resolver (job.over root')) site') :=
    ifOk_eq (cVariable_same tables twin) fun _ _ same => by rw [same]
  rw [exported]

theorem memberSymbols_eq {m m' : Member} (twins : TwinMember pairing m m') :
    memberSymbols job m = memberSymbols (job.over root') m' := by
  cases twins with
  | callable twin => exact callableSymbols_eq tables twin
  | enumeration => rfl
  | constant twin => exact constantSymbols_eq job.config twin

theorem membersOf_twins (twins : pairing.TwinClass site site') (abstract : Bool) {shadows shadows' : List Shadow}
    (inherited : TwinShadows pairing shadows shadows') :
    SameResult NamesakeHalt (TwinMembers pairing) (membersOf job site abstract shadows)
      (membersOf (job.over root') site' abstract shadows') :=
  .bind (own_twins tables twins abstract) fun _ _ own =>
    .bind (inherited_twins tables twins.1 inherited) fun _ _ inherited =>
      inOrder_twins twins abstract own inherited

theorem classSymbols_eq (twins : pairing.TwinClass site site') :
    classSymbols job site = classSymbols (job.over root') site' := by
  have abstract := (isAbstract_twins tables (.empty pairing) twins).1
  have shadows := (flatten_twins tables (.empty pairing) twins).1
  have config : (job.over root').config = job.config := rfl
  unfold classSymbols
  dsimp only
  rw [abstract, config, Naming.proxyValue_eq job.config (pairing.namesake twins.1),
    symbolOf_eq (pairing.namesake twins.1)]
  refine congrArg _ (ifOk_eq (membersOf_twins tables twins _ shadows) fun _ _ members => ?_)
  exact flatMap_eq_of_forall₂ members fun _ _ twin => memberSymbols_eq tables twin

omit tables in
theorem writesClass_eq (twin : pairing.Twin site site')
    (runtime : Option.Rel pairing.SameId ((ownRuntimeClass? job).map (·.id))
      ((ownRuntimeClass? (job.over root')).map (·.id))) :
    writesClass job site = writesClass (job.over root') site' := by
  have same := pairing.namesake twin
  have own := pairing.option_eq_iff runtime (.some (pairing.sameId twin))
  have foreign : ((ownRuntimeClass? job).map (·.id) != some site.id) =
      ((ownRuntimeClass? (job.over root')).map (·.id) != some site'.id) := by
    rw [Bool.eq_iff_iff, bne_iff_ne, bne_iff_ne]
    exact not_congr own
  rw [writesClass, writesClass, isForeign, isForeign, same.name, foreign, same.isMember]

theorem functionSymbols_eq (twin : pairing.Twin site site')
    (counts : (prepared job).freeFunctions.count (overloadKey site) =
      (prepared (job.over root')).freeFunctions.count (overloadKey site')) :
    functionSymbols job site = functionSymbols (job.over root') site' := by
  have isFriend : site.decl.isFriend = site'.decl.isFriend := congrArg _ (pairing.decl twin)
  have callables : TwinCallable pairing (freeCallable job site) (freeCallable (job.over root') site') := by
    rw [freeCallable, freeCallable, counts]
    exact .function twin _
  rw [functionSymbols, functionSymbols, isFriend, callableSymbols_eq tables callables]

theorem symbolsOf_eq (twin : pairing.Twin site site')
    (runtime : Option.Rel pairing.SameId ((ownRuntimeClass? job).map (·.id))
      ((ownRuntimeClass? (job.over root')).map (·.id)))
    (counts : site.kind = .functionDecl → (prepared job).freeFunctions.count (overloadKey site) =
      (prepared (job.over root')).freeFunctions.count (overloadKey site')) :
    symbolsOf job site = symbolsOf (job.over root') site' := by
  have config : (job.over root').config = job.config := rfl
  unfold symbolsOf
  rw [← pairing.kind twin]
  cases kind : site.kind with
  | classDecl =>
    dsimp only
    rw [config, writesClass_eq twin runtime, classSymbols_eq tables ⟨twin, kind⟩]
  | functionDecl => exact functionSymbols_eq tables twin (counts kind)
  | variableDecl => exact variableSymbols_eq tables twin
  | constantDecl => exact constantSymbols_eq job.config twin
  | _ => rfl

end Module

end twins

/-! ### Visits in two orders -/

section orders

variable {config : Config} {typemaps : TypemapTable} {tree tree' : Node} {pairs : List (Site × Site)}
  {pair other : Site × Site}

theorem Site.PairedRing.scope {one two : Site} (ring : PairedRing pairs one.above two.above) :
    Option.Rel (fun id id' => ∃ pair ∈ pairs, pair.1.id = id ∧ pair.2.id = id') (one.scope?.map (·.id))
      (two.scope?.map (·.id)) :=
  scope_rel (ring.imp fun _ _ first => ⟨first.1, congrArg Declaration.kind first.2⟩)

variable (matching : Matching [] pairs [root tree] [root tree'])

section listed

include matching

theorem overloadKey_iff (member : pair ∈ pairs) (memberToo : other ∈ pairs) :
    Module.overloadKey pair.1 = Module.overloadKey other.1 ↔
      Module.overloadKey pair.2 = Module.overloadKey other.2 := by
  have scope {pair : Site × Site} (member : pair ∈ pairs) :
      Option.Rel matching.pairing.SameId (pair.1.scope?.map (·.id)) (pair.2.scope?.map (·.id)) := by
    refine rel_elim (matching.coupled pair member).ring.scope .none fun _ _ ids => ?_
    obtain ⟨scope, listed, rfl, rfl⟩ := ids
    exact .some (matching.matchedId listed)
  have decl {pair : Site × Site} (member : pair ∈ pairs) : pair.1.decl = pair.2.decl :=
    (matching.coupled pair member).decl
  have scopes := matching.pairing.option_eq_iff (scope member) (scope memberToo)
  simp only [Module.overloadKey, Prod.mk.injEq, scopes, decl member, decl memberToo]

variable (reach : ∀ passes, ∃ found ⊆ pairs, Lists found ((root tree).reach passes) ((root tree').reach passes))

include reach

theorem emitted_lists : ∃ found ⊆ pairs, Lists found (root tree).emitted (root tree').emitted := by
  obtain ⟨found, subset, lists⟩ := reach isOpenGroup
  refine ⟨_, fun _ member => subset (mem_filter.mp member).1, lists.filter fun pair member => ?_⟩
  rw [(matching.coupled pair (subset member)).decl]

theorem freeFunctions_lists : ∃ found ⊆ pairs, Lists found (root tree).freeFunctions (root tree').freeFunctions := by
  obtain ⟨found, subset, lists⟩ := reach isGroup
  refine ⟨_, fun _ member => subset (mem_filter.mp member).1, lists.filter fun pair member => ?_⟩
  have decl := (matching.coupled pair (subset member)).decl
  have kind : pair.1.kind = pair.2.kind := congrArg Declaration.kind decl
  rw [decl, kind]

theorem overloads_eq_of_matching (member : pair ∈ pairs) :
    (Module.prepared (Job.ofTree config typemaps tree)).freeFunctions.count (Module.overloadKey pair.1) =
      (Module.prepared (Job.ofTree config typemaps tree')).freeFunctions.count (Module.overloadKey pair.2) := by
  obtain ⟨found, subset, lists⟩ := freeFunctions_lists matching reach
  change ((root tree).freeFunctions.map Module.overloadKey).count _ =
    ((root tree').freeFunctions.map Module.overloadKey).count _
  rw [← (lists.right.map Module.overloadKey).count_eq, ← lists.left, map_map, map_map]
  simp only [count_eq_countP, countP_map]
  refine countP_congr fun function listed => ?_
  simp only [Function.comp_apply, beq_iff_eq]
  exact overloadKey_iff matching (subset listed) member

theorem namedImport_isSome_eq : (root tree).namedImport?.isSome = (root tree').namedImport?.isSome := by
  obtain ⟨found, subset, lists⟩ := reach fun d => d.kind == .includeDecl
  unfold namedImport?
  rw [isSome_find?, isSome_find?, ← lists.left, ← lists.right.any_eq, any_map, any_map]
  have self : Forall₂ (fun one two => one = two ∧ one ∈ found) found found :=
    forall₂_same.mpr fun _ listed => ⟨rfl, listed⟩
  refine any_eq_of_forall₂ self ?_
  rintro pair _ ⟨rfl, listed⟩
  have decl := (matching.coupled pair (subset listed)).decl
  have kind : pair.1.kind = pair.2.kind := congrArg Declaration.kind decl
  simp only [Function.comp_apply, decl, kind]

/-- The support of exceptions does not depend on which import provides it. -/
theorem support_eq (config : Config) :
    (exceptionSupport config (root tree)).1 = (exceptionSupport config (root tree')).1 := by
  have imported := namedImport_isSome_eq matching reach
  unfold exceptionSupport
  split
  · rfl
  · cases one : (root tree).namedImport? with
    | none =>
      cases two : (root tree').namedImport? with
      | none => rfl
      | some found =>
        rw [one, two] at imported
        cases imported
    | some found =>
      cases two : (root tree').namedImport? with
      | none =>
        rw [one, two] at imported
        cases imported
      | some other => rfl

theorem ownRuntimeClass_rel (config : Config) (typemaps : TypemapTable) :
    Option.Rel SameRuntime (ownRuntimeClass? (.ofTree config typemaps tree))
      (ownRuntimeClass? (.ofTree config typemaps tree')) := by
  have roots : (root tree, root tree') ∈ pairs := (forall₂_cons.mp matching.heads).1
  have decl : tree.decl.untyped = tree'.decl.untyped := congrArg Declaration.untyped (matching.coupled _ roots).decl
  unfold ownRuntimeClass? Job.ofTree
  rw [support_eq matching reach config]
  split
  · exact .some ⟨⟨[], rfl, rfl⟩, rfl, .cons decl .nil⟩
  · exact .none

theorem prepared_counterpart (config : Config) (typemaps : TypemapTable)
    (distinct : Distinct (root tree).walk) :
    (Module.prepared (.ofTree config typemaps tree)).table.Counterpart matching.pairing
      (Module.prepared (.ofTree config typemaps tree')).table := by
  have agrees := matching.agrees distinct
  unfold Module.prepared
  exact rel_elim (ownRuntimeClass_rel matching reach config typemaps) (matching.aligned.counterpart.of_agrees agrees)
    fun _ cls' same => (matching.aligned.register (.inr same)).counterpart.of_agrees (agrees.register cls')

/-- What is visited in two orders are twins. Only the runtime class is no site of the trees. -/
theorem visited_lists (config : Config) (typemaps : TypemapTable) :
    ∃ found, Lists found (Module.visited (.ofTree config typemaps tree))
      (Module.visited (.ofTree config typemaps tree')) ∧
      ∀ pair ∈ found, matching.pairing.Twin pair.1 pair.2 ∧ (pair.1.kind = .functionDecl → pair ∈ pairs) := by
  obtain ⟨found, subset, lists⟩ := emitted_lists matching reach
  unfold Module.visited
  rcases rel_cases (ownRuntimeClass_rel matching reach config typemaps) with
    ⟨absent, absentToo⟩ | ⟨cls, cls', own, ownToo, same⟩
  · rw [absent, absentToo]
    exact ⟨found, lists, fun pair member => ⟨.inl (subset member), fun _ => subset member⟩⟩
  · rw [own, ownToo]
    have first : Lists [(cls, cls')] [cls] [cls'] := ⟨rfl, .refl _⟩
    refine ⟨(cls, cls') :: found, first.append lists, fun pair member => ?_⟩
    rcases mem_cons.mp member with rfl | member
    · refine ⟨.inr same, fun function => ?_⟩
      rw [ownRuntimeClass_eq own] at function
      cases function
    · exact ⟨.inl (subset member), fun _ => subset member⟩

end listed

/-! ### Bases in two orders -/

theorem exists_chain_of_twins {pairing : Pairing} {table table' : SymbolTable} {cls cls' base' : Site}
    (tables : table.Counterpart pairing table') (twin : pairing.Twin cls cls')
    (leads : Relation.TransGen (HasBase table') cls' base') :
    ∃ base, pairing.Twin base base' ∧ Relation.TransGen (HasBase table) cls base := by
  have step {cls cls' base' : Site} (twin : pairing.Twin cls cls') (has : HasBase table' cls' base') :
      ∃ base, pairing.Twin base base' ∧ HasBase table cls base := by
    obtain ⟨base, listed, twins⟩ := exists_of_mem_right (usableBases_twins tables twin) has
    exact ⟨base, twins.1, listed⟩
  induction leads with
  | single has =>
    obtain ⟨base, twin, has⟩ := step twin has
    exact ⟨base, twin, .single has⟩
  | tail _ has ih =>
    obtain ⟨middle, twin, leads⟩ := ih
    obtain ⟨base, twin, has⟩ := step twin has
    exact ⟨base, twin, leads.tail has⟩

theorem Site.Matching.acyclic (matching : Matching [] pairs [root tree] [root tree'])
    (distinct : Distinct (root tree).walk) (acyclic : Acyclic (.ofTree (root tree))) :
    Acyclic (.ofTree (root tree')) := by
  have tables := matching.aligned.counterpart.of_agrees (matching.agrees distinct)
  intro cls' leads
  obtain ⟨_, _, has'⟩ := Relation.TransGen.tail'_iff.mp leads
  obtain ⟨cls, member⟩ := matching.exists_left has'.mem_walk
  have twin : matching.pairing.Twin cls cls' := .inl member
  obtain ⟨other, twinToo, leads⟩ := exists_chain_of_twins tables twin leads
  obtain ⟨_, _, has⟩ := Relation.TransGen.tail'_iff.mp leads
  have ids : other.id = cls.id := (matching.pairing.biunique (matching.pairing.sameId twinToo)
    (matching.pairing.sameId twin)).mpr rfl
  have declared : (root tree).id = .declared [] := rfl
  have same : other = cls := eq_of_mem_walk declared has.mem_walk (matching.mem_left member) ids
  exact acyclic cls (same ▸ leads)

theorem prepared_acyclic (job : Job) (acyclic : Acyclic (.ofTree job.root)) : Acyclic (Module.prepared job).table := by
  unfold Module.prepared
  cases own : ownRuntimeClass? job with
  | none => exact acyclic
  | some cls => exact acyclic.register (ownRuntimeClass_eq own ▸ rfl)

/-! ### Symbols in two orders -/

/-- The symbols of a module do not depend on the order of its declarations: as long as no name is filed twice, no class
is among its own bases and no symbol is found taken, two runs over trees that differ in the order of declarations add
the same symbols up to order. -/
theorem Module.symbols_perm_of_reordered {draft draft' : Draft} (reordered : tree.Reordered tree')
    (distinct : Distinct (root tree).walk) (acyclic : Acyclic (.ofTree (root tree)))
    (ran : run (.ofTree config typemaps tree) = .ok draft)
    (ranToo : run (.ofTree config typemaps tree') = .ok draft')
    (untaken : draft.NoneTaken) (untakenToo : draft'.NoneTaken) : draft.symbols.Perm draft'.symbols := by
  have rootless : PairedRing [] (root tree).above (root tree').above := .nil
  obtain ⟨pairs, matching, reach⟩ := exists_matching reordered rootless
  have symbols : draft.symbols =
      (visited (.ofTree config typemaps tree)).flatMap (symbolsOf (.ofTree config typemaps tree)) :=
    symbols_of_run rfl (prepared_acyclic _ acyclic) ran untaken
  have symbolsToo :
      draft'.symbols = (visited (.ofTree config typemaps tree')).flatMap (symbolsOf (.ofTree config typemaps tree')) :=
    symbols_of_run rfl (prepared_acyclic _ (matching.acyclic distinct acyclic)) ranToo untakenToo
  obtain ⟨found, lists, twins⟩ := visited_lists matching reach config typemaps
  have runtime : Option.Rel matching.pairing.SameId ((ownRuntimeClass? (.ofTree config typemaps tree)).map (·.id))
      ((ownRuntimeClass? (.ofTree config typemaps tree')).map (·.id)) := by
    refine rel_elim (ownRuntimeClass_rel matching reach config typemaps) .none fun cls cls' same => ?_
    have twin : matching.pairing.Twin cls cls' := .inr same
    exact .some (matching.pairing.sameId twin)
  have tables := prepared_counterpart matching reach config typemaps distinct
  have each (pair : Site × Site) (listed : pair ∈ found) :
      symbolsOf (.ofTree config typemaps tree) pair.1 = symbolsOf (.ofTree config typemaps tree') pair.2 := by
    obtain ⟨twin, function⟩ := twins pair listed
    have counts (isFunction : pair.1.kind = .functionDecl) :=
      @overloads_eq_of_matching config typemaps _ _ _ _ matching reach
      (function isFunction)
    exact @symbolsOf_eq _ (.ofTree config typemaps tree) (root tree') _ _ tables twin runtime counts
  rw [symbols, symbolsToo, ← lists.left, flatMap_map, flatMap_congr each, ← flatMap_map]
  exact lists.right.flatMap_right _

end orders

/-! ### Drawings in two orders -/

namespace Drawing

def shape : Node :=
  .mk (.named .classDecl "Shape")
    [.mk { Declaration.named .functionDecl "area" with type := some ⟨"int", []⟩ } []]

def square : Node :=
  .mk { Declaration.named .classDecl "Square" with bases := [.string "Shape"] } []

def draw : Node :=
  .mk (.named .functionDecl "draw") []

def drawShape : Node :=
  .mk
    { Declaration.named .functionDecl "draw" with
      parameters := [{ name := .string "shape", type := some ⟨"n::Shape", [.pointer]⟩ }] } []

def namespaceNode (nodes : List Node) : Node :=
  .mk (.named .namespaceDecl "n") nodes

def moduleNode (nodes : List Node) : Node :=
  .mk (.named .moduleDecl "m") nodes

def tree : Node :=
  moduleNode [namespaceNode [shape, square], draw, drawShape]

def reorderedTree : Node :=
  moduleNode [drawShape, namespaceNode [square, shape], draw]

def jobOf (tree : Node) : Job :=
  .ofTree { givenModule := .string "m", exceptions := false } (.ofRules [] true) tree

theorem tree_reordered : tree.Reordered reorderedTree := by
  have leaf (d : Declaration) : (Node.mk d []).Reordered (.mk d []) := .mk .nil (.inl rfl)
  have shapes : shape.Reordered shape := .mk (.cons (leaf _) .nil) (.inl rfl)
  have inner : (namespaceNode [shape, square]).Reordered (namespaceNode [square, shape]) :=
    .mk (.cons shapes (.cons (leaf _) .nil)) (.inr ⟨rfl, .swap _ _ _⟩)
  refine .mk (.cons inner (.cons (leaf _) (.cons (leaf _) .nil))) (.inr ⟨rfl, ?_⟩)
  exact @perm_append_comm _ [namespaceNode [square, shape], draw] [drawShape]

theorem tree_distinct : Distinct (root tree).walk :=
  ⟨.of_nodup (by decide +kernel), .of_nodup (by decide +kernel), .of_nodup (by decide +kernel)⟩

theorem tree_acyclic : Acyclic (.ofTree (root tree)) := by
  let listed := (ofTree (root tree)).classes.map (·.2.id)
  exact acyclic_of_rank (fun cls => listed.idxOf cls.id) (by decide +kernel)

end Drawing

open Drawing

theorem Draft.NoneTaken.of_silent {draft : Draft} (silent : draft.diagnostics = []) : draft.NoneTaken := by
  intro d reported
  rw [silent] at reported
  cases reported

/-- The overloads and the inherited members get the same names, whether or not their likes came before. -/
theorem Module.symbols_perm_of_drawing :
    ∃ draft draft', run (jobOf tree) = .ok draft ∧
      run (jobOf reorderedTree) = .ok draft' ∧
      draft.symbols.map (·.name.display) =
        ["Shape", "Shape_area", "Shape_new", "Shape_delete", "Square", "Square_area", "Square_new", "Square_delete",
          "m_draw", "m_draw_pn_Shape"] ∧
      draft'.symbols.map (·.name.display) =
        ["m_draw_pn_Shape", "Square", "Square_area", "Square_new", "Square_delete", "Shape", "Shape_area", "Shape_new",
          "Shape_delete", "m_draw"] ∧
      draft.symbols.Perm draft'.symbols := by
  have silent : (run (jobOf tree)).toOption.map (·.diagnostics.length) = some 0 := by decide +kernel
  have silentToo : (run (jobOf reorderedTree)).toOption.map (·.diagnostics.length) = some 0 := by decide +kernel
  obtain ⟨draft, ran, silent⟩ := ok_of_toOption_map silent
  obtain ⟨draft', ranToo, silentToo⟩ := ok_of_toOption_map silentToo
  exact ⟨draft, draft', ran, ranToo, of_ok ran (by decide +kernel), of_ok ranToo (by decide +kernel),
    symbols_perm_of_reordered tree_reordered tree_distinct tree_acyclic ran ranToo
      (.of_silent (eq_nil_of_length_eq_zero silent)) (.of_silent (eq_nil_of_length_eq_zero silentToo))⟩

end FlatAbi
