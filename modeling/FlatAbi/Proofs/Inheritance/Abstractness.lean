import FlatAbi.Proofs.Inheritance.Lineage

/-!
Abstract classes on a line of single inheritance. A pure virtual function that is not handed down does not count.
-/

namespace FlatAbi.Inheritance

open List Query Site SymbolTable

variable {table : SymbolTable} {cls p : Site} {below lower line above : List Site}

/-- A class on a line declares a member, and `lower` are the classes below it on the line. -/
inductive MemberAt : List Site → List Site → Site → Prop where
  | here {c p : Site} {line : List Site} (child : p ∈ c.children) : MemberAt (c :: line) [] p
  | higher {c p : Site} {line lower : List Site} (member : MemberAt line lower p) : MemberAt (c :: line) (c :: lower) p

/-- A function of the class has the symbol, whatever its access. -/
def overrides (cls : Site) (symbol : Value) : Bool :=
  cls.children.any fun c => c.kind == .functionDecl && c.decl.givenSymbol.atom? == symbol.atom?

/-- A pure virtual function that no function of a class below overrides. -/
structure LeftPure (line lower : List Site) (p : Site) : Prop where
  member : MemberAt line lower p
  function : p.kind = .functionDecl
  pureVirtual : p.decl.isPureVirtual
  unoverridden : ∀ other ∈ lower, overrides other p.decl.givenSymbol = false

theorem overrides_eq_false_of_declares {symbol : Value} (undeclared : declares cls symbol = false) :
    overrides cls symbol = false := by
  rw [declares, any_eq_false] at undeclared
  rw [overrides, any_eq_false]
  intro c child overriding
  simp only [Bool.and_eq_true, beq_iff_eq] at overriding
  exact undeclared c child (by simp [isHiding, overriding])

/-- A pure virtual member of a class on a line that a class at the end of `below` inherits: derived classes offer it
again, and no class on the way declares its symbol. -/
structure OfferedPure (below line lower : List Site) (p : Site) : Prop where
  member : MemberAt line lower p
  inheritable : p.decl.IsInheritable
  pureVirtual : p.decl.isPureVirtual
  undeclared : ∀ other ∈ below ++ lower, declares other p.decl.givenSymbol = false

theorem exists_pure_uncovered_iff :
    (∃ m ∈ uncovered below cls, m.member.decl.isPureVirtual) ↔
      ∃ p ∈ cls.children, p.decl.IsInheritable ∧ p.decl.isPureVirtual ∧
        ∀ other ∈ below, declares other p.decl.givenSymbol = false := by
  constructor
  · rintro ⟨m, listed, isPure⟩
    obtain ⟨child, inheritable, _, symbol, undeclared⟩ := mem_uncovered listed
    rw [symbol] at undeclared
    exact ⟨m.member, child, inheritable, isPure, undeclared⟩
  · rintro ⟨p, child, inheritable, isPure, undeclared⟩
    refine ⟨_, mem_map.mpr ⟨p, mem_filter.mpr ⟨child, ?_⟩, rfl⟩, isPure⟩
    simpa [isInheritable_iff.mpr inheritable] using undeclared

theorem exists_pure_inherited_iff :
    (∃ m ∈ inheritedAlong below line, m.member.decl.isPureVirtual) ↔ ∃ lower p, OfferedPure below line lower p := by
  induction line generalizing below with
  | nil =>
    constructor
    · rintro ⟨m, listed, _⟩
      cases listed
    · rintro ⟨lower, p, offered⟩
      cases offered.member
  | cons c line ih =>
    simp only [inheritedAlong, mem_append, or_and_right, exists_or, exists_pure_uncovered_iff, ih]
    constructor
    · rintro (⟨p, child, inheritable, isPure, undeclared⟩ | ⟨lower, p, member, inheritable, isPure, undeclared⟩)
      · exact ⟨[], p, .here child, inheritable, isPure, by simpa using undeclared⟩
      · exact ⟨c :: lower, p, .higher member, inheritable, isPure, by simpa [or_assoc] using undeclared⟩
    · rintro ⟨lower, p, member, inheritable, isPure, undeclared⟩
      cases member with
      | here child => exact .inl ⟨p, child, inheritable, isPure, by simpa using undeclared⟩
      | higher member => exact .inr ⟨_, p, member, inheritable, isPure, by simpa [or_assoc] using undeclared⟩

/-- A pure virtual member above a class shows: it is a function, and unless it is overridden, derived classes offer it
again and nothing below hides it. -/
def PureShows (cls : Site) (above : List Site) : Prop :=
  ∀ lower p, MemberAt above lower p → p.decl.isPureVirtual →
    p.kind = .functionDecl ∧ ((∀ other ∈ cls :: lower, overrides other p.decl.givenSymbol = false) →
      p.decl.IsInheritable ∧ ∀ other ∈ cls :: lower, declares other p.decl.givenSymbol = false)

theorem isDeclaredAbstract_iff :
    isDeclaredAbstract cls ↔ (cls.decl.attr "abstract").truthy ∨
      ∃ p ∈ cls.children, p.kind = .functionDecl ∧ p.decl.isPureVirtual := by
  simp only [isDeclaredAbstract, Bool.or_eq_true, any_eq_true, Bool.and_eq_true, beq_iff_eq]

/-- What is offered again tells whether a class is abstract, where all pure virtual members show. -/
theorem PureShows.abstract_iff (shows : PureShows cls above) :
    (isDeclaredAbstract cls ∨ ∃ lower p, OfferedPure [cls] above lower p) ↔
      (cls.decl.attr "abstract").truthy ∨ ∃ lower p, LeftPure (cls :: above) lower p := by
  rw [isDeclaredAbstract_iff]
  constructor
  · rintro ((marked | ⟨p, child, function, isPure⟩) | ⟨lower, p, member, _, isPure, undeclared⟩)
    · exact .inl marked
    · exact .inr ⟨[], p, .here child, function, isPure, forall_mem_nil _⟩
    · have function := (shows lower p member isPure).1
      exact .inr ⟨_, p, .higher member, function, isPure, fun other isLower =>
        overrides_eq_false_of_declares (undeclared other isLower)⟩
  · rintro (marked | ⟨lower, p, member, function, isPure, unoverridden⟩)
    · exact .inl (.inl marked)
    · cases member with
      | here child => exact .inl (.inr ⟨p, child, function, isPure⟩)
      | higher member =>
        obtain ⟨inheritable, undeclared⟩ := (shows _ p member isPure).2 unoverridden
        exact .inr ⟨_, p, member, inheritable, isPure, undeclared⟩

theorem plain_abstractness_of_lineage {tree : Node} (lineage : Lineage (.ofTree (.root tree)) cls above) {found : Bool}
    (answered : (abstractness cls).plain (.ofTree (.root tree)) = .ok (.abstractness found)) :
    found ↔ isDeclaredAbstract cls ∨ ∃ lower p, OfferedPure [cls] above lower p := by
  rw [Query.plain] at answered
  split at answered
  next declared =>
    cases answered
    simp [declared]
  next undeclared =>
    obtain ⟨members, inherits, same⟩ := map_eq_ok answered
    cases same
    rw [gathered_of_lineage lineage inherits, any_eq_true, exists_pure_inherited_iff]
    simp [undeclared]

/-- After queries that had answers, a class at the end of a line is said to be abstract if it is declared so, or if a
pure virtual member of a class above it is offered again. Where all pure virtual members show, these are the classes
that are marked, or that leave a pure virtual function without an override. -/
theorem abstractness_along_lineage (tree : Node) (earlier : List Query) (cls : Site) (above : List Site)
    (asked : ∀ q ∈ abstractness cls :: earlier, q.cls ∈ (root tree).walk)
    (serves : ({} : Memo).Serves (.ofTree (.root tree)) earlier) (lineage : Lineage (.ofTree (.root tree)) cls above) :
    let table := ofTree (.root tree)
    let answer := ((abstractness cls).answer table (({} : Memo).after table earlier)).1
    (∀ found, answer = .ok (.abstractness found) →
        (found = true ↔ isDeclaredAbstract cls = true ∨ ∃ lower p, OfferedPure [cls] above lower p) ∧
        (PureShows cls above →
          (found = true ↔ (cls.decl.attr "abstract").truthy = true ∨ ∃ lower p, LeftPure (cls :: above) lower p))) ∧
      ((∀ c ∈ cls :: above, Readable c) → ∃ found, answer = .ok (.abstractness found)) ∧
      ((root tree).IsTextual → ∀ c ∈ cls :: above, Readable c) := by
  intro table answer
  have plain : answer = (abstractness cls).plain table := answer_eq_plain asked serves lineage.acyclic
  rw [plain]
  refine ⟨fun found answered => ?_, fun readable => ?_, fun textual c onLine => readable_of_isTextual textual ?_⟩
  · have found_iff := plain_abstractness_of_lineage lineage answered
    exact ⟨found_iff, fun shows => found_iff.trans shows.abstract_iff⟩
  · obtain ⟨members, inherits⟩ := exists_gathered_of_lineage lineage readable
    rw [Query.plain, inherits]
    split
    · exact ⟨true, rfl⟩
    · exact ⟨_, rfl⟩
  · have listed := asked (.abstractness cls) mem_cons_self
    exact forall_mem_cons.mpr ⟨listed, lineage.mem_walk⟩ c onLine

namespace Orchestra

def part (name : String) (access : Access) (isPure : Bool) : Node :=
  .mk { Declaration.named .functionDecl name with access, attributes := [("pure_virtual", .bool isPure)] } []

def player (name : String) (bases : List Value) (parts : List Node) : Node :=
  .mk { Declaration.named .classDecl name with bases } parts

def instrumentNode (access : Access) : Node :=
  player "Instrument" [] [part "play" access true, part "tune" .publicAccess true]

def stringsNode : Node :=
  player "Strings" [.string "Instrument"] [part "tune" .publicAccess false]

def violinNode : Node :=
  player "Violin" [.string "Strings"] []

/-- One of two pure virtual functions is overridden on the way to the violin. The other one has a given access. -/
def tree (access : Access) : Node :=
  .mk (.named .moduleDecl "m") [instrumentNode access, stringsNode, violinNode]

def instrument (access : Access) : Site := ⟨.declared [0], instrumentNode access, (root (tree access)).inside⟩

def strings (access : Access) : Site := ⟨.declared [1], stringsNode, (root (tree access)).inside⟩

def violin (access : Access) : Site := ⟨.declared [2], violinNode, (root (tree access)).inside⟩

theorem violin_lineage (access : Access) :
    Lineage (.ofTree (.root (tree access))) (violin access) [strings access, instrument access] :=
  ⟨rfl, rfl, rfl⟩

theorem violin_leftPure (access : Access) :
    ∃ lower p, LeftPure [violin access, strings access, instrument access] lower p := by
  have child : (⟨.declared [0, 0], part "play" access true, (instrument access).inside⟩ : Site) ∈
      (instrument access).children :=
    mem_cons_self
  exact ⟨_, _, .higher (.higher (.here child)), rfl, rfl, forall_mem_cons.mpr ⟨rfl, forall_mem_singleton.mpr rfl⟩⟩

theorem violin_mem_walk (access : Access) : violin access ∈ (root (tree access)).walk :=
  child_mem_walk (mem_walk_self _) (mem_of_getElem? (i := 2) rfl)

theorem violin_pureShows : PureShows (violin .publicAccess) [strings .publicAccess, instrument .publicAccess] := by
  intro lower p member isPure
  cases member with
  | here child =>
    obtain rfl := mem_singleton.mp child
    cases isPure
  | higher member =>
    cases member with
    | higher member => cases member
    | here child =>
      rcases mem_cons.mp child with rfl | last
      · refine ⟨rfl, fun _ => ⟨isInheritable_iff.mp rfl, ?_⟩⟩
        exact forall_mem_cons.mpr ⟨rfl, forall_mem_singleton.mpr rfl⟩
      · obtain rfl := mem_singleton.mp last
        refine ⟨rfl, fun unoverridden => ?_⟩
        cases unoverridden (strings .publicAccess) (by simp)

end Orchestra

open Orchestra

theorem abstractness_along_lineage_violin : let table := ofTree (.root (tree .publicAccess))
    let violin := violin .publicAccess
    let above := [strings .publicAccess, instrument .publicAccess]
    Lineage table violin above ∧ PureShows violin above ∧
      ((abstractness violin).answer table (({} : Memo).after table [.members violin])).1 =
        .ok (.abstractness true) := by
  have textual : (root (tree .publicAccess)).IsTextual := by decide +kernel
  have listed := violin_mem_walk .publicAccess
  have serves : ({} : Memo).Serves (.ofTree (.root (tree .publicAccess))) [.members (violin .publicAccess)] :=
    Memo.Fair.serves (tree_census _) (fun _ => readable_of_isTextual textual) (by simpa [Query.cls] using listed)
      (.empty _ _)
  obtain ⟨answers, answered, readable⟩ := abstractness_along_lineage _ _ (violin .publicAccess) _
    (by simpa [Query.cls] using listed) serves (violin_lineage .publicAccess)
  obtain ⟨found, isFound⟩ := answered (readable textual)
  have isAbstract := ((answers found isFound).2 violin_pureShows).mpr (.inr (violin_leftPure _))
  subst isAbstract
  exact ⟨violin_lineage _, violin_pureShows, isFound⟩

/-- A protected function that is left pure does not show, so the violin is said not to be abstract. -/
theorem violin_said_concrete : let table := ofTree (.root (tree .protectedAccess))
    let violin := violin .protectedAccess
    let above := [strings .protectedAccess, instrument .protectedAccess]
    violin ∈ (root (tree .protectedAccess)).walk ∧ Lineage table violin above ∧
      ((abstractness violin).answer table {}).1 = .ok (.abstractness false) ∧
      ∃ lower p, LeftPure (violin :: above) lower p :=
  ⟨violin_mem_walk _, violin_lineage _, rfl, violin_leftPure _⟩

end FlatAbi.Inheritance
