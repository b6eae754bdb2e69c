import FlatAbi.Proofs.Inheritance.Uncached

/-!
Single inheritance. A class inherits what the classes above hand down, except for what is declared below.
-/

namespace FlatAbi.Inheritance

open Relation List SymbolTable Declaration

variable {table : SymbolTable} {cls : Site} {below line above : List Site} {m other : Shadow}

/-- Each class has the next one for its only usable base, and the last one has none. So no class comes twice. -/
def Lineage (table : SymbolTable) : Site → List Site → Prop
  | cls, [] => usableBases table cls = []
  | cls, base :: above => usableBases table cls = [base] ∧ Lineage table base above

theorem Lineage.acyclic (lineage : Lineage table cls above) : AcyclicAbove table cls := by
  induction above generalizing cls with
  | nil =>
    have baseless (base : Site) : ¬ HasBase table cls base := by
      intro has
      rw [HasBase, show usableBases table cls = [] from lineage] at has
      cases has
    intro other leads again
    rcases leads.cases_head with rfl | ⟨base, has, _⟩
    · obtain ⟨base, has, _⟩ := TransGen.head'_iff.mp again
      exact baseless base has
    · exact baseless base has
  | cons first rest ih =>
    have acyclic := ih lineage.2
    have only {base : Site} (has : HasBase table cls base) : base = first := by
      rwa [HasBase, lineage.1, mem_singleton] at has
    intro other leads again
    rcases leads.cases_head with rfl | ⟨base, has, leads⟩
    · -- the way back to the class would be a cycle above its base
      obtain ⟨base, has, back⟩ := TransGen.head'_iff.mp again
      obtain rfl := only has
      exact acyclic base .refl (.tail' back has)
    · obtain rfl := only has
      exact acyclic other leads again

/-- A function or variable of the class has the symbol, whatever its access. -/
def declares (cls : Site) (symbol : Value) : Bool :=
  cls.children.any fun c => isHiding c && c.decl.givenSymbol.atom? == symbol.atom?

/-- The inheritable members of a class that no class below it declares, in order, under their own symbols. -/
def uncovered (below : List Site) (cls : Site) : List Shadow :=
  (cls.children.filter fun c => isInheritable c.decl && !below.any (declares · c.decl.givenSymbol)).map fun c =>
    ⟨c, cls, c.decl.givenSymbol, none⟩

/-- What comes down a line of classes, each with those below it. -/
def inheritedAlong (below : List Site) : List Site → List Shadow
  | [] => []
  | cls :: above => uncovered below cls ++ inheritedAlong (below ++ [cls]) above

theorem mem_uncovered (listed : m ∈ uncovered below cls) :
    m.member ∈ cls.children ∧ m.member.decl.IsInheritable ∧ m.origin = cls ∧
      m.symbol = m.member.decl.givenSymbol ∧ ∀ lower ∈ below, declares lower m.symbol = false := by
  obtain ⟨c, member, rfl⟩ := mem_map.mp listed
  obtain ⟨child, isUncovered⟩ := mem_filter.mp member
  simp only [Bool.and_eq_true, Bool.not_eq_true', any_eq_false, Bool.not_eq_true] at isUncovered
  exact ⟨child, isInheritable_iff.mp isUncovered.1, rfl, rfl, isUncovered.2⟩

theorem declares_of_mem_uncovered (listed : m ∈ uncovered below cls) : declares cls m.symbol := by
  obtain ⟨child, inheritable, _, symbol, _⟩ := mem_uncovered listed
  refine any_eq_true.mpr ⟨m.member, child, ?_⟩
  rw [symbol, beq_self_eq_true, Bool.and_true]
  exact isHiding_of_isInheritable inheritable

theorem undeclared_of_mem (listed : m ∈ inheritedAlong below line) :
    ∀ lower ∈ below, declares lower m.symbol = false := by
  induction line generalizing below with
  | nil => cases listed
  | cons cls above ih =>
    rcases mem_append.mp listed with here | higher
    · exact (mem_uncovered here).2.2.2.2
    · exact fun lower isBelow => ih higher lower (by simp [isBelow])

theorem origin_eq_of_symbol (listed : m ∈ inheritedAlong below line) (otherListed : other ∈ inheritedAlong below line)
    (same : m.symbol.atom? = other.symbol.atom?) : m.origin = other.origin := by
  have declared_iff (cls : Site) : declares cls m.symbol = declares cls other.symbol := by
    rw [declares, declares, same]
  induction line generalizing below with
  | nil => cases listed
  | cons cls above ih =>
    rcases mem_append.mp listed with here | higher <;> rcases mem_append.mp otherListed with hereToo | higherToo
    · rw [(mem_uncovered here).2.2.1, (mem_uncovered hereToo).2.2.1]
    · have covered := undeclared_of_mem higherToo cls (by simp)
      simp [← declared_iff, declares_of_mem_uncovered here] at covered
    · have covered := undeclared_of_mem higher cls (by simp)
      simp [declared_iff, declares_of_mem_uncovered hereToo] at covered
    · exact ih higher higherToo

theorem mem_inheritedAlong {tree : Node} (known : ∀ cls ∈ line, cls ∈ (Site.root tree).walk)
    (listed : m ∈ inheritedAlong below line) :
    m.member ∈ (Site.root tree).walk ∧ m.symbol = m.member.decl.givenSymbol := by
  induction line generalizing below with
  | nil => cases listed
  | cons cls above ih =>
    obtain ⟨first, others⟩ := forall_mem_cons.mp known
    rcases mem_append.mp listed with here | higher
    · obtain ⟨child, _, _, symbol, _⟩ := mem_uncovered here
      exact ⟨Site.child_mem_walk first child, symbol⟩
    · exact ih others higher

/-- No member comes down a line twice: it would be covered by itself. -/
theorem inheritedAlong_nodup {tree : Node} (known : ∀ cls ∈ line, cls ∈ (Site.root tree).walk) (below : List Site) :
    ((inheritedAlong below line).map (·.member.id)).Nodup := by
  induction line generalizing below with
  | nil => exact nodup_nil
  | cons cls above ih =>
    obtain ⟨first, others⟩ := forall_mem_cons.mp known
    rw [inheritedAlong, map_append, nodup_append]
    refine ⟨?_, ih others _, ?_⟩
    · rw [uncovered, List.map_map]
      exact (Site.children_ids_nodup_of_mem_walk rfl first).sublist (filter_sublist.map _)
    · intro id here id' higher same
      obtain ⟨m, listed, rfl⟩ := mem_map.mp here
      obtain ⟨other, otherListed, rfl⟩ := mem_map.mp higher
      obtain ⟨inside, symbol⟩ := mem_inheritedAlong others otherListed
      obtain ⟨child, _, _, ownSymbol, _⟩ := mem_uncovered listed
      have sameMember : m.member = other.member :=
        Site.eq_of_mem_walk rfl (Site.child_mem_walk first child) inside same
      -- the class itself covers what it declares, for all classes above it
      have covered := undeclared_of_mem otherListed cls (by simp)
      rw [symbol, ← sameMember, ← ownSymbol, declares_of_mem_uncovered listed] at covered
      cases covered

theorem inheritedAlong_cons (lower : Site) (below line : List Site) :
    inheritedAlong (lower :: below) line = (inheritedAlong below line).filter fun m => !declares lower m.symbol := by
  induction line generalizing below with
  | nil => rfl
  | cons cls above ih =>
    -- the classes below are passed on with one more class at their end, so the induction is over all of them
    rw [inheritedAlong, inheritedAlong, filter_append, cons_append, ih]
    congr 1
    rw [uncovered, uncovered, filter_map, filter_filter]
    congr 1
    refine filter_congr fun c _ => ?_
    simp [Bool.and_left_comm]

theorem foldl_take_eq_filter {own : List Atom} {offered taken : List Shadow}
    (distinct : ((taken ++ offered).map (·.member.id)).Nodup) :
    offered.foldl (take own) taken = taken ++ offered.filter fun m => !isOwn own m := by
  induction offered generalizing taken with
  | nil => simp
  | cons first rest ih =>
    have fresh : taken.any (·.member.id == first.member.id) = false := by
      rw [any_eq_false]
      intro m listed same
      rw [map_append, nodup_append] at distinct
      exact distinct.2.2 _ (mem_map_of_mem listed) _ mem_cons_self (beq_iff_eq.mp same)
    rw [foldl_cons, take, fresh, Bool.or_false]
    cases hidden : isOwn own first with
    | true =>
      rw [if_pos rfl, filter_cons_of_neg (by simp [hidden])]
      exact ih (distinct.sublist ((sublist_cons_self first rest).append_left taken |>.map _))
    | false =>
      rw [if_neg Bool.false_ne_true, filter_cons_of_pos (by simp [hidden]), ih (by simpa using distinct)]
      simp

theorem disambiguate_eq_self {members : List Shadow}
    (same : ∀ m ∈ members, ∀ other ∈ members, other.symbol.atom? = m.symbol.atom? → other.origin = m.origin) :
    disambiguate members = members := by
  have apart : ∀ m ∈ members, (if collides members m then rename m else m) = m := by
    intro m listed
    refine if_neg ?_
    simp only [collides, any_eq_true, Bool.and_eq_true, beq_iff_eq, bne_iff_ne, not_exists, not_and, not_not]
    intro other otherListed symbol
    rw [same m listed other otherListed symbol]
  exact (map_congr_left apart).trans (map_id members)

theorem isOwn_eq_declares (filed : checkOwn cls = .ok ()) (m : Shadow) :
    isOwn (ownSymbols cls) m = declares cls m.symbol := by
  rw [Bool.eq_iff_iff, declares, any_eq_true]
  simp only [isOwn, ownSymbols, Option.any_eq_true, contains_iff_mem, mem_filterMap, Option.ite_none_right_eq_some,
    Bool.and_eq_true, beq_iff_eq]
  constructor
  · rintro ⟨atom, isAtom, c, listed, hides, same⟩
    exact ⟨c, listed, hides, same.trans isAtom.symm⟩
  · rintro ⟨c, listed, hides, same⟩
    have check := forM_eq_ok_iff.mp filed c listed
    rw [if_pos hides, Value.checkKey] at check
    cases isAtom : c.decl.givenSymbol.atom? with
    | none => simp [isAtom] at check
    | some atom => exact ⟨atom, same.symm.trans isAtom, c, listed, hides, isAtom⟩

theorem handedDown_eq_uncovered (cls : Site) : handedDown cls = uncovered [] cls := by
  unfold handedDown uncovered
  simp only [any_nil, Bool.not_false, Bool.and_true]
  refine map_congr_left fun c listed => ?_
  have inheritable := isInheritable_iff.mp (mem_filter.mp listed).2
  rw [show c.decl.symbolValue = c.decl.givenSymbol from if_pos inheritable.symbol]

theorem Lineage.mem_walk {tree : Node} (lineage : Lineage (.ofTree (.root tree)) cls above) :
    ∀ base ∈ above, base ∈ (Site.root tree).walk := by
  induction above generalizing cls with
  | nil => exact forall_mem_nil _
  | cons base above ih =>
    have has : HasBase (.ofTree (.root tree)) cls base := by
      rw [HasBase, lineage.1]
      exact mem_singleton_self base
    exact forall_mem_cons.mpr ⟨has.mem_walk, ih lineage.2⟩

/-- A class takes over what comes down to its base, and hides what it declares. -/
theorem gathered_of_lineage {tree : Node} (lineage : Lineage (.ofTree (.root tree)) cls above) {found : List Shadow}
    (inherits : gathered (.ofTree (.root tree)) cls = .ok found) : found = inheritedAlong [cls] above := by
  induction above generalizing cls found with
  | nil =>
    rw [gathered_eq lineage.acyclic, gather, show usableBases _ cls = [] from lineage] at inherits
    obtain ⟨_, _, inherits⟩ := bind_eq_ok inherits
    obtain ⟨_, _, inherits⟩ := bind_eq_ok inherits
    cases inherits
    rfl
  | cons base above ih =>
    rw [gathered_eq lineage.acyclic, gather, lineage.1, foldlM_cons, bind_assoc] at inherits
    obtain ⟨_, filed, inherits⟩ := bind_eq_ok inherits
    obtain ⟨_, _, inherits⟩ := bind_eq_ok inherits
    obtain ⟨taken, gathers, inherits⟩ := bind_eq_ok inherits
    obtain ⟨_, _, gathers⟩ := bind_eq_ok gathers
    obtain ⟨inherited, fromBase, gathers⟩ := bind_eq_ok gathers
    obtain ⟨_, _, gathers⟩ := bind_eq_ok gathers
    cases inherits
    cases gathers
    -- a base offers all that comes down from it on, with nothing below to cover it
    have offered : handedDown base ++ inherited = inheritedAlong [] (base :: above) := by
      rw [handedDown_eq_uncovered, ih lineage.2 fromBase]
      rfl
    have taken : (inheritedAlong [] (base :: above)).foldl (take (ownSymbols cls)) [] =
        inheritedAlong [cls] (base :: above) := by
      rw [inheritedAlong_cons cls [] (base :: above)]
      simp only [← isOwn_eq_declares filed]
      exact foldl_take_eq_filter (inheritedAlong_nodup lineage.mem_walk [])
    rw [offered, taken]
    exact disambiguate_eq_self fun m listed other otherListed => origin_eq_of_symbol otherListed listed

theorem checkSymbols_inheritedAlong (filed : ∀ cls ∈ line, checkOwn cls = .ok ()) (below : List Site) :
    ∀ m ∈ inheritedAlong below line, m.symbol.checkKey = .ok () := by
  induction line generalizing below with
  | nil => exact forall_mem_nil _
  | cons cls above ih =>
    obtain ⟨first, others⟩ := forall_mem_cons.mp filed
    refine forall_mem_append.mpr ⟨fun m listed => ?_, ih others _⟩
    obtain ⟨child, inheritable, _, symbol, _⟩ := mem_uncovered listed
    rw [symbol]
    exact checkKey_of_checkOwn first child inheritable

theorem exists_gathered_of_lineage {tree : Node} (lineage : Lineage (.ofTree (.root tree)) cls above)
    (readable : ∀ c ∈ cls :: above, Readable c) : ∃ found, gathered (.ofTree (.root tree)) cls = .ok found := by
  induction above generalizing cls with
  | nil =>
    have here := readable cls (by simp)
    refine ⟨[], ?_⟩
    rw [gathered_eq lineage.acyclic, gather, show usableBases _ cls = [] from lineage, here.own, here.bases]
    rfl
  | cons base above ih =>
    obtain ⟨here, higher⟩ := forall_mem_cons.mp readable
    obtain ⟨inherited, fromBase⟩ := ih lineage.2 higher
    have offered : checkSymbols (handedDown base ++ inherited) = .ok () := by
      rw [gathered_of_lineage lineage.2 fromBase, handedDown_eq_uncovered]
      exact forM_eq_ok_iff.mpr (checkSymbols_inheritedAlong (fun c listed => (higher c listed).own) [])
    have gathers : gatherFrom (gathered (.ofTree (.root tree))) cls [] base =
        .ok ((handedDown base ++ inherited).foldl (take (ownSymbols cls)) []) := by
      rw [gatherFrom, (higher base (by simp)).handedDown, fromBase]
      change (checkSymbols (handedDown base ++ inherited) >>= fun _ => _) = _
      rw [offered]
      rfl
    rw [gathered_eq lineage.acyclic, gather, here.own, here.bases, lineage.1, foldlM_cons, gathers]
    exact ⟨_, rfl⟩

/-- After queries that had answers, a class at the end of a line inherits from each class above it the members that no
class in between declares, and nothing is renamed. It has an answer if the classes on the line can be read, as they can
in every tree whose names are text. -/
theorem members_along_lineage (tree : Node) (earlier : List Query) (cls : Site) (above : List Site)
    (asked : ∀ q ∈ Query.members cls :: earlier, q.cls ∈ (Site.root tree).walk)
    (serves : ({} : Memo).Serves (.ofTree (.root tree)) earlier) (lineage : Lineage (.ofTree (.root tree)) cls above) :
    let table := ofTree (.root tree)
    let answer := ((Query.members cls).answer table (({} : Memo).after table earlier)).1
    (∀ found, answer = .ok (.members found) → found = inheritedAlong [cls] above) ∧
      ((∀ c ∈ cls :: above, Readable c) → answer = .ok (.members (inheritedAlong [cls] above))) ∧
      ((Site.root tree).IsTextual → ∀ c ∈ cls :: above, Readable c) := by
  intro table answer
  have plain : answer = (gathered table cls).map .members := answer_eq_plain asked serves lineage.acyclic
  refine ⟨fun found given => ?_, fun readable => ?_, fun textual c onLine => readable_of_isTextual textual ?_⟩
  · rw [plain] at given
    obtain ⟨members, inherits, same⟩ := map_eq_ok given
    cases same
    exact gathered_of_lineage lineage inherits
  · obtain ⟨found, inherits⟩ := exists_gathered_of_lineage lineage readable
    rw [plain, inherits, gathered_of_lineage lineage inherits]
    rfl
  · have listed := asked (.members cls) mem_cons_self
    exact forall_mem_cons.mpr ⟨listed, lineage.mem_walk⟩ c onLine

namespace Coach

def part (symbol : String) (access : Access) (features : Fields) : Node :=
  .mk { named .functionDecl symbol with access, features } []

def vehicle (name : String) (bases : List Value) (parts : List Node) : Node :=
  .mk { named .classDecl name with bases } parts

def cartNode : Node :=
  vehicle "Cart" [] [part "pull" .publicAccess [], part "load" .publicAccess [], part "axle" .privateAccess [],
    part "turn" .publicAccess []]

def wagonNode : Node :=
  vehicle "Wagon" [.string "Cart"] [part "load" .publicAccess [("ignore", .bool true)], part "brake" .publicAccess []]

def coachNode : Node :=
  vehicle "Coach" [.string "Wagon"] [part "pull" .privateAccess []]

/-- Members are covered by a private and by an ignored one, and a private member is not handed down. -/
def tree : Node :=
  .mk (.named .moduleDecl "m") [cartNode, wagonNode, coachNode]

def cart : Site := ⟨.declared [0], cartNode, (Site.root tree).inside⟩

def wagon : Site := ⟨.declared [1], wagonNode, (Site.root tree).inside⟩

def coach : Site := ⟨.declared [2], coachNode, (Site.root tree).inside⟩

theorem coach_lineage : Lineage (.ofTree (.root tree)) coach [wagon, cart] :=
  ⟨rfl, rfl, rfl⟩

end Coach

open Coach

/-- Only what no vehicle below declares comes down to the coach. -/
theorem members_along_lineage_coach : let table := ofTree (.root tree)
    (inheritedAlong [coach] [wagon, cart]).map (fun m => (m.origin.name, m.symName, m.baseName)) =
        [("Wagon", "brake", none), ("Cart", "turn", none)] ∧
      ((Query.members coach).answer table (({} : Memo).after table [.abstractness coach])).1 =
        .ok (.members (inheritedAlong [coach] [wagon, cart])) := by
  have listed : coach ∈ (Site.root tree).walk :=
    Site.child_mem_walk (Site.mem_walk_self _) (mem_of_getElem? (i := 2) rfl)
  have textual : (Site.root tree).IsTextual := by decide +kernel
  have serves : ({} : Memo).Serves (.ofTree (.root tree)) [.abstractness coach] :=
    Memo.Fair.serves (tree_census tree) (fun _ => readable_of_isTextual textual)
      (by simpa [Query.cls] using listed) (.empty _ _)
  obtain ⟨_, answer, readable⟩ := members_along_lineage tree _ coach [wagon, cart]
    (by simpa [Query.cls] using listed) serves coach_lineage
  exact ⟨by decide +kernel, answer (readable textual)⟩

end FlatAbi.Inheritance
