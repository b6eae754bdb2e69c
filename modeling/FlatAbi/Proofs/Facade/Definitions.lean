import FlatAbi.Proofs.Emission.Symbols
import FlatAbi.Proofs.Facade.Brackets

/-!
The definitions of facade classes. A base clause may name a class without a facade, and two classes may share a name.
-/

namespace FlatAbi

open Emit FlatAbi.Module List Naming Inheritance

variable {job : Job} {cls base : Site} {before after draft : Draft}

/-- How a facade class is begun: its name, and the name of its base. -/
def Chunk.head? : Chunk → Option (String × Option String)
  | .facadeOpen className base => some (className, base)
  | _ => none

def facadeHeads (chunks : List Chunk) : List (String × Option String) :=
  chunks.filterMap Chunk.head?

theorem Move.Inner.headless {move : Move} (inner : move.Inner) : move.Hides Chunk.head? := by
  cases move with
  | append chunk =>
    cases chunk with
    | facadeOpen => cases inner.2
    | _ => rfl
  | _ => trivial

theorem Goes.facadeHeads_eq (goes : Goes job (Move.Hides Chunk.head?) before after) :
    facadeHeads after.chunks = facadeHeads before.chunks := by
  refine goes.filterMap_eq fun chunk plain => ?_
  cases chunk <;> first | rfl | simp [Chunk.isWrapper, Chunk.isMinor] at plain

theorem Goes.facadeHeads_eq_of_inner (goes : Goes job Move.Inner before after) :
    facadeHeads after.chunks = facadeHeads before.chunks :=
  (goes.mono fun _ => Move.Inner.headless).facadeHeads_eq

namespace Module

/-- The base in the base clause of a facade class. -/
def facadeBase? (job : Job) (cls : Site) : Option Site :=
  (usableBases (prepared job).table cls).head?

def facadeHead (job : Job) (cls : Site) : String × Option String :=
  (cls.decl.symbol, (facadeBase? job cls).map (·.decl.symbol))

end Module

theorem ClassBegins.facadeHeads_eq {opened : Facade.OpenClass} {abstract : Bool} {begun asked : Draft}
    (begins : ClassBegins job cls before opened abstract begun asked) :
    facadeHeads asked.chunks = facadeHeads before.chunks ++ facadeHeads (openingChunks job before.table cls) := by
  obtain ⟨_, _, _, _, begun⟩ := ends_openClass begins.opening survives_ok
  have declared : facadeHeads (classDeclaredIn job cls before).chunks = facadeHeads before.chunks := by
    simp [facadeHeads, classDeclaredIn, Chunk.head?]
  rw [begins.asks.facadeHeads_eq_of_inner, begun, facadeHeads, filterMap_append, ← facadeHeads, declared]
  rfl

theorem ClassFills.facadeHeads_eq {members : List Members.Member} {opened : Facade.OpenClass} {warned listed : Draft}
    (cxx : job.config.cplusplus) (fills : ClassFills job cls members opened before warned listed after) :
    facadeHeads after.chunks = facadeHeads before.chunks := by
  obtain ⟨finished, closed, emitted, closing⟩ := fills.closing
  have toAfter : Goes job (Move.Hides Chunk.head?) listed after :=
    (closeClass_within_of (fun _ => rfl) finished).goes closing survives_ok
  rw [toAfter.facadeHeads_eq, (fills.lists cxx).facadeHeads_eq_of_inner]

theorem ends_cxxClass_heads {outcome : Except Halt Unit} (cxx : job.config.cplusplus)
    (ends : Ends (cxxClass job cls) before outcome after) (survives : Survives outcome) :
    facadeHeads after.chunks = facadeHeads before.chunks ++ facadeHeads (openingChunks job before.table cls) := by
  cases classEnd_of_ends ends survives with
  | unlisted begins failed => exact begins.facadeHeads_eq
  | uninherited begins owned flattens failed =>
    rw [(goes_of_flattens flattens : Goes job _ _ _).facadeHeads_eq_of_inner, begins.facadeHeads_eq]
  | filled begins owned flattens found fills =>
    rw [fills.facadeHeads_eq cxx, (goes_of_flattens flattens : Goes job _ _ _).facadeHeads_eq_of_inner,
      begins.facadeHeads_eq]

theorem openingChunks_heads (job : Job) (cls : Site) :
    facadeHeads (openingChunks job (Module.prepared job).table cls) =
      if hasFacade job (Module.prepared job).table cls then [facadeHead job cls] else [] := by
  unfold openingChunks
  split <;> rfl

theorem visit_heads (started : (Module.prepared job).ExtendedBy before)
    (visit : Ends (declaration job cls) before (.ok ()) after) :
    facadeHeads after.chunks =
      facadeHeads before.chunks ++ if opensFacade job cls then [facadeHead job cls] else [] := by
  have closed (unopened : opensFacade job cls = false) (goes : Goes job Move.Inner before after) :
      facadeHeads after.chunks =
        facadeHeads before.chunks ++ if opensFacade job cls then [facadeHead job cls] else [] := by
    simp [goes.facadeHeads_eq_of_inner, unopened]
  by_cases isClass : cls.kind = .classDecl
  · cases cxx : job.config.cplusplus with
    | false =>
      have unopened : opensFacade job cls = false := by
        simp [opensFacade, hasFacade, Config.writesFacade, cxx]
      have within : Within job Move.Inner (classDecl job cls) := by
        refine .bind .get fun draft => ?_
        rw [cxx]
        split
        · exact .pure
        · exact struct_within cls
      unfold declaration at visit
      rw [isClass] at visit
      exact closed unopened ((guarded_within within fun _ => trivial).goes visit survives_ok)
    | true =>
      rw [opensFacade_eq isClass]
      rcases ends_declaration_of_class started cxx isClass visit with
        ⟨unwritten, same⟩ | ⟨written, outcome, middle, told, ends, survives, rfl⟩
      · simp [same, unwritten]
      · simp [ends_cxxClass_heads cxx ends survives, ← started.table, openingChunks_heads, written]
  · have unopened : opensFacade job cls = false := by simp [opensFacade, isClass]
    exact closed unopened ((declaration_within_inner isClass).goes visit survives_ok)

namespace Module

theorem prepared_heads (job : Job) : facadeHeads (prepared job).chunks = [] := by
  refine filterMap_eq_nil_iff.mpr fun chunk listed => ?_
  simp only [prepared, preparedChunks] at listed
  grind [Chunk.head?]

theorem facadeHeads_of_run (ran : run job = .ok draft) :
    facadeHeads draft.chunks = (facadeClasses job).map (facadeHead job) := by
  obtain ⟨visits, chain, sites⟩ := exists_visits ran
  have heads : facadeHeads draft.chunks = facadeHeads (prepared job).chunks ++ (visits.map (·.site)).flatMap fun cls =>
      if opensFacade job cls then [facadeHead job cls] else [] :=
    chain.filterMap_eq (.refl _) (.refl _) fun started visit _ => visit_heads started visit
  rw [heads, prepared_heads, sites, nil_append, flatMap_ite, ← map_eq_flatMap]
  rfl

theorem facadeClasses_nodup {tree : Node} (rooted : job.root = .root tree) : (facadeClasses job).Nodup :=
  (Nodup.of_map _ (visited_ids_nodup rooted)).filter _

theorem kind_of_facadeBase (found : facadeBase? job cls = some base) : base.kind = .classDecl := by
  have has : HasBase (prepared job).table cls base := mem_of_head? found
  obtain ⟨entry, listed, rfl⟩ := has.listed
  have named := (mem_prepared_classes listed).2
  unfold SymbolTable.classNames at named
  split at named
  · rename_i isClass
    simp only [Bool.and_eq_true, beq_iff_eq] at isClass
    exact isClass.1
  · cases named

theorem mem_earlier_iff {tree : Node} {earlier later : List Site} (rooted : job.root = .root tree)
    (split : facadeClasses job = earlier ++ cls :: later) :
    base ∈ earlier ↔ [base, cls].Sublist (visited job) ∧ opensFacade job base := by
  have listed : cls ∈ facadeClasses job := by simp [split]
  constructor
  · intro member
    have ordered : [base, cls].Sublist (facadeClasses job) := by
      rw [split]
      exact Sublist.append (singleton_sublist.mpr member) (singleton_sublist.mpr (by simp))
    have memberToo : base ∈ facadeClasses job := by simp [split, member]
    exact ⟨ordered.trans filter_sublist, (mem_filter.mp memberToo).2⟩
  · rintro ⟨ordered, opens⟩
    have distinct := facadeClasses_nodup rooted
    have filtered : [base, cls].Sublist (facadeClasses job) := by
      have both := ordered.filter (opensFacade job)
      simpa [facadeClasses, opens, (mem_filter.mp listed).2] using both
    rw [split] at filtered distinct
    obtain ⟨front, back, same, inFront, inBack⟩ := sublist_append_iff.mp filtered
    cases front with
    | cons first rest =>
      obtain rfl : base = first := (List.cons.inj same).1
      exact inFront.subset (by simp)
    | nil =>
      -- Then the class itself would be listed twice.
      have again : cls ∈ later := by
        obtain rfl : [base, cls] = back := same
        rcases cons_sublist_cons'.mp inBack with inRest | ⟨_, inRest⟩
        · exact inRest.subset (by simp)
        · exact inRest.subset (by simp)
      have single := (nodup_cons.mp (nodup_append.mp distinct).2.1).1
      exact (single again).elim

end Module

/-- A site inside of a declaration of another module. -/
def Site.isImported (s : Site) : Bool :=
  s.above.any fun entry => entry.2.kind == .importDecl

/-- A run begins a facade class for each class that gets one, in order, with the first usable base in the base clause.
The base has a facade that came before, or an import provides it, exactly if it is imported, or if it is visited before
its class, is written as a class and has at most one usable base itself. -/
theorem Module.base_clause_backed_iff {tree : Node} (rooted : job.root = .root tree)
    (ran : Module.run job = .ok draft) :
    facadeHeads draft.chunks = (facadeClasses job).map (facadeHead job) ∧
      ∀ earlier cls later, facadeClasses job = earlier ++ cls :: later → ∀ base, facadeBase? job cls = some base →
        (base ∈ earlier ∨ base.isImported ↔
          base.isImported = true ∨ [base, cls].Sublist (visited job) ∧ writesClass job base ∧
            (usableBases (prepared job).table base).length < 2) := by
  refine ⟨facadeHeads_of_run ran, fun earlier cls later split base found => ?_⟩
  have listed : cls ∈ facadeClasses job := by simp [split]
  have writes : job.config.writesFacade := by
    have opens := (mem_filter.mp listed).2
    simp only [opensFacade, hasFacade, Bool.and_eq_true] at opens
    exact opens.2.1
  rw [mem_earlier_iff rooted split, opensFacade_eq (kind_of_facadeBase found), hasFacade, writes, or_comm]
  simp

theorem Module.base_clause_backed_iff_shapesModule :
    ∃ draft, Module.run shapesModule = .ok draft ∧
      facadeHeads draft.chunks = [("Shape", none), ("Square", some "Shape")] ∧
      ∀ earlier cls later, facadeClasses shapesModule = earlier ++ cls :: later →
        ∀ base, facadeBase? shapesModule cls = some base →
          (base ∈ earlier ∨ base.isImported ↔
            base.isImported = true ∨ [base, cls].Sublist (visited shapesModule) ∧ writesClass shapesModule base ∧
              (usableBases (prepared shapesModule).table base).length < 2) :=
  exists_ok (by decide +kernel) fun _ ran _ => (base_clause_backed_iff rfl ran).2

/-- A class with two bases, and a class that is derived from it. -/
def twoBasesModule : Job :=
  .ofNodes
    [ .mk (.named .classDecl "A") [],
      .mk (.named .classDecl "B") [],
      .mk { Declaration.named .classDecl "C" with bases := [.string "A", .string "B"] } [],
      .mk { Declaration.named .classDecl "D" with bases := [.string "C"] } [] ]

/-- The class with two bases has no facade, but the facade of the derived class names it as its base. -/
theorem Module.twoBasesModule_unbacked :
    (Module.run twoBasesModule).toOption.map (fun draft => facadeHeads draft.chunks) =
        some [("A", none), ("B", none), ("D", some "C")] ∧
      (facadeClasses twoBasesModule).all (fun cls => (facadeBase? twoBasesModule cls).all (!·.isImported)) = true := by
  decide +kernel

/-- The classes that a run declares, in order. -/
def Module.writtenClasses (job : Job) : List Site :=
  (visited job).filter fun site => site.kind == .classDecl && writesClass job site

theorem Module.facadeClasses_sublist (job : Job) : (facadeClasses job).Sublist (writtenClasses job) := by
  refine monotone_filter_right _ fun cls opens => ?_
  simp only [opensFacade, Bool.and_eq_true] at opens
  simp only [writesClass, Bool.and_eq_true]
  exact ⟨opens.1.1.1, opens.1.1.2, opens.1.2⟩

/-- Where the declared classes have different names in C, the facade classes have different names exactly if those with
the same symbol have the same name in front of it in C: a facade class does without that name. -/
theorem Module.facade_names_nodup_iff (ran : Module.run job = .ok draft)
    (distinct : ((writtenClasses job).map (proxyName job.config)).Nodup) :
    ((facadeHeads draft.chunks).map (·.1)).Nodup ↔
      ∀ one ∈ facadeClasses job, ∀ two ∈ facadeClasses job, one.decl.symbol = two.decl.symbol →
        proxyPart? job.config one = proxyPart? job.config two := by
  have names : (facadeHeads draft.chunks).map (·.1) = (facadeClasses job).map (·.decl.symbol) := by
    rw [facadeHeads_of_run ran, map_map]
    rfl
  rw [names]
  constructor
  · intro apart one listed two listedToo same
    rw [inj_on_of_nodup_map apart listed listedToo same]
  · intro parts
    have proxies := ((facadeClasses_sublist job).map _).nodup distinct
    rw [Nodup, pairwise_map] at proxies ⊢
    refine proxies.imp_of_mem fun {one two} listed listedToo other same => other ?_
    unfold proxyName
    rw [parts one listed two listedToo same, same]

/-- Two namespaces with a class each. -/
def namespacesModule (first second : String) : Job :=
  .ofNodes
    [ .mk { Declaration.named .namespaceDecl "a" with features := [("nspace", .bool true)] }
        [.mk (.named .classDecl first) []],
      .mk { Declaration.named .namespaceDecl "b" with features := [("nspace", .bool true)] }
        [.mk (.named .classDecl second) []] ]

theorem Module.facade_names_nodup_iff_namespacesModule :
    ∃ draft, Module.run (namespacesModule "X" "Y") = .ok draft ∧
      ((writtenClasses (namespacesModule "X" "Y")).map (proxyName (namespacesModule "X" "Y").config)) =
        ["a_X", "b_Y"] ∧
      ((facadeHeads draft.chunks).map (·.1)).Nodup := by
  have proxies : ((writtenClasses (namespacesModule "X" "Y")).map (proxyName (namespacesModule "X" "Y").config)) =
      ["a_X", "b_Y"] := by
    decide +kernel
  have parts : ∀ one ∈ facadeClasses (namespacesModule "X" "Y"), ∀ two ∈ facadeClasses (namespacesModule "X" "Y"),
      one.decl.symbol = two.decl.symbol → proxyPart? (namespacesModule "X" "Y").config one =
        proxyPart? (namespacesModule "X" "Y").config two := by
    decide +kernel
  have completes : (Module.run (namespacesModule "X" "Y")).isOk := by decide +kernel
  obtain ⟨draft, ran⟩ := ok_of_isOk completes
  exact ⟨draft, ran, proxies, (facade_names_nodup_iff ran (by rw [proxies]; decide)).mpr parts⟩

/-- Classes of one name in two namespaces have different names in C, and the same facade class is defined twice. -/
theorem Module.namespacesModule_defines_twice :
    (writtenClasses (namespacesModule "X" "X")).map (proxyName (namespacesModule "X" "X").config) =
        ["a_X", "b_X"] ∧
      (Module.run (namespacesModule "X" "X")).toOption.map (fun draft => facadeHeads draft.chunks) =
        some [("X", none), ("X", none)] := by
  decide +kernel

end FlatAbi
