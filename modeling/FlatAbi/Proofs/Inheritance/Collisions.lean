import FlatAbi.Proofs.Inheritance.Lineage

/-!
Names that are made for inherited members. They are not compared with the symbols that are there already.
-/

namespace FlatAbi

open List Text SymbolTable

theorem Text.startsWith_append (head rest : String) : startsWith head (head ++ rest) := by
  simp [startsWith]

theorem Text.startsWith_or {one two s : String} (first : startsWith one s) (second : startsWith two s) :
    startsWith one two ∨ startsWith two one := by
  simp only [startsWith, isPrefixOf_iff_prefix] at *
  exact prefix_or_prefix_of_prefix first second

namespace Inheritance

open Relation

variable {table : SymbolTable} {cls base : Site} {offered found : List Shadow} {m other : Shadow}

/-! ### Members before they are renamed -/

/-- The members that come to a class from its bases, under the symbols that they have there. -/
def collected (table : SymbolTable) (cls : Site) : Except Misshapen (List Shadow) := do
  checkOwn cls
  checkBases cls
  (usableBases table cls).foldlM (gatherFrom (gathered table) cls) []

theorem gathered_eq_collected (acyclic : AcyclicAbove table cls) :
    gathered table cls = (collected table cls).map disambiguate := by
  rw [gathered_eq acyclic, gather, collected]
  cases checkOwn cls with
  | error cause => rfl
  | ok _ =>
    cases checkBases cls with
    | error cause => rfl
    | ok _ =>
      change _ = Except.map disambiguate ((usableBases table cls).foldlM (gatherFrom (gathered table) cls) [])
      cases (usableBases table cls).foldlM (gatherFrom (gathered table) cls) [] <;> rfl

theorem foldlM_gatherFrom_eq_ok {inherited : Site → Except Misshapen (List Shadow)} {bases : List Site}
    {taken : List Shadow} (collects : bases.foldlM (gatherFrom inherited cls) taken = .ok offered) :
    ∃ all : List Shadow, offered = all.foldl (take (ownSymbols cls)) taken ∧
      ∀ m ∈ all, ∃ base ∈ bases, m ∈ handedDown base ∨ ∃ found, inherited base = .ok found ∧ m ∈ found := by
  induction bases generalizing taken with
  | nil =>
    cases collects
    exact ⟨[], rfl, forall_mem_nil _⟩
  | cons base rest ih =>
    rw [foldlM_cons] at collects
    obtain ⟨next, gathers, collects⟩ := bind_eq_ok collects
    obtain ⟨_, _, gathers⟩ := bind_eq_ok gathers
    obtain ⟨found, inherits, gathers⟩ := bind_eq_ok gathers
    obtain ⟨_, _, gathers⟩ := bind_eq_ok gathers
    cases gathers
    obtain ⟨more, taken, sources⟩ := ih collects
    refine ⟨handedDown base ++ found ++ more, by rw [taken, ← foldl_append], ?_⟩
    simp only [forall_mem_append]
    refine ⟨⟨fun m handed => ⟨base, by simp, .inl handed⟩,
      fun m passed => ⟨base, by simp, .inr ⟨found, inherits, passed⟩⟩⟩, fun m listed => ?_⟩
    obtain ⟨source, among, comes⟩ := sources m listed
    exact ⟨source, mem_cons_of_mem _ among, comes⟩

section Kind

variable {P : Site → Shadow → Prop}
  (handed : ∀ {cls base m}, HasBase table cls base → m ∈ handedDown base → P cls m)
  (passed : ∀ {cls base m}, HasBase table cls base → P base m → P cls m)
  (renamed : ∀ {cls m}, P cls m → P cls (rename m))

include handed passed renamed

theorem forall_gatherWithin {depth : Nat} (inherits : gatherWithin table depth cls = .ok found) :
    ∀ m ∈ found, P cls m := by
  induction depth generalizing cls found with
  | zero =>
    cases inherits
    exact forall_mem_nil _
  | succ depth ih =>
    obtain ⟨_, _, inherits⟩ := bind_eq_ok inherits
    obtain ⟨_, _, inherits⟩ := bind_eq_ok inherits
    obtain ⟨taken, collects, inherits⟩ := bind_eq_ok inherits
    cases inherits
    obtain ⟨all, rfl, sources⟩ := foldlM_gatherFrom_eq_ok collects
    refine forall_disambiguate (fun _ => renamed) (forall_take (fun m listed => ?_) (forall_mem_nil _))
    obtain ⟨base, has, handedDown | ⟨above, inherits, listed⟩⟩ := sources m listed
    · exact handed has handedDown
    · exact passed has (ih inherits m listed)

theorem forall_collected (collects : collected table cls = .ok offered) : ∀ m ∈ offered, P cls m := by
  obtain ⟨_, _, collects⟩ := bind_eq_ok collects
  obtain ⟨_, _, collects⟩ := bind_eq_ok collects
  obtain ⟨all, rfl, sources⟩ := foldlM_gatherFrom_eq_ok collects
  refine forall_take (fun m listed => ?_) (forall_mem_nil _)
  obtain ⟨base, has, handedDown | ⟨above, inherits, listed⟩⟩ := sources m listed
  · exact handed has handedDown
  · exact passed has (forall_gatherWithin handed passed renamed inherits m listed)

end Kind

theorem passedOn_of_collected (collects : collected table cls = .ok offered) : ∀ m ∈ offered, PassedOn table cls m :=
  forall_collected PassedOn.of_handedDown PassedOn.of_base PassedOn.rename collects

theorem undeclared_of_collected (collects : collected table cls = .ok offered) :
    ∀ m ∈ offered, declares cls m.symbol = false := by
  obtain ⟨_, filed, collects⟩ := bind_eq_ok collects
  obtain ⟨_, _, collects⟩ := bind_eq_ok collects
  obtain ⟨all, rfl, _⟩ := foldlM_gatherFrom_eq_ok collects
  intro m listed
  rw [← isOwn_eq_declares filed]
  exact foldl_take_hidden (forall_mem_nil _) m listed

/-! ### Members that stand apart -/

/-- The class does not declare the symbol of a member, and no member of another class goes by it. -/
def StandsApart (cls : Site) (members : List Shadow) (m : Shadow) : Prop :=
  declares cls m.symbol = false ∧ ∀ other ∈ members, other.origin ≠ m.origin → other.symbol.atom? ≠ m.symbol.atom?

theorem exists_of_collides {members : List Shadow} (met : members.any (collides members)) :
    ∃ m ∈ members, ∃ other ∈ members, other.origin ≠ m.origin ∧ other.symbol.atom? = m.symbol.atom? := by
  obtain ⟨m, listed, met⟩ := any_eq_true.mp met
  obtain ⟨other, otherListed, met⟩ := any_eq_true.mp met
  simp only [Bool.and_eq_true, beq_iff_eq, bne_iff_ne] at met
  exact ⟨m, listed, other, otherListed, fun same => met.2 (congrArg Site.id same), met.1⟩

/-- Members that keep their symbols stand apart from each other, so it is up to the new names. -/
theorem standApart_iff (undeclared : ∀ m ∈ offered, declares cls m.symbol = false)
    (identifies : ∀ m ∈ offered, ∀ other ∈ offered, other.origin.id = m.origin.id → other.origin = m.origin) :
    (∀ m ∈ disambiguate offered, StandsApart cls (disambiguate offered) m) ↔
      ∀ m ∈ offered, collides offered m → StandsApart cls (disambiguate offered) (rename m) := by
  have renamed {m : Shadow} (listed : m ∈ offered) (met : collides offered m) : rename m ∈ disambiguate offered :=
    mem_map.mpr ⟨m, listed, if_pos met⟩
  have kept {m : Shadow} (listed : m ∈ offered) (unmet : ¬ collides offered m) : m ∈ disambiguate offered :=
    mem_map.mpr ⟨m, listed, if_neg unmet⟩
  constructor
  · intro apart m listed met
    exact apart (rename m) (renamed listed met)
  · intro apart m result
    obtain ⟨m, listed, rfl⟩ := mem_map.mp result
    by_cases met : collides offered m
    · rw [if_pos met]
      exact apart m listed met
    · rw [if_neg met]
      refine ⟨undeclared m listed, fun other otherResult apartFrom same => ?_⟩
      obtain ⟨other, otherListed, rfl⟩ := mem_map.mp otherResult
      by_cases otherMet : collides offered other
      · rw [if_pos otherMet] at apartFrom same
        exact (apart other otherListed otherMet).2 m (kept listed met) apartFrom.symm same.symm
      · -- a member from another class under the same symbol would be a collision
        rw [if_neg otherMet] at apartFrom same
        refine met (any_eq_true.mpr ⟨other, otherListed, ?_⟩)
        have otherId : other.origin.id ≠ m.origin.id := fun id => apartFrom (identifies m listed other otherListed id)
        simp [same, otherId]

/-! ### Labels -/

/-- What a class puts before the symbol of a member that is renamed after it. -/
def label (origin : Site) : String :=
  origin.decl.symbol ++ "_"

/-- A symbol begins with the label of a class. -/
def wears (origin : Site) (symbol : Value) : Bool :=
  symbol.asString?.any (startsWith (label origin))

/-- The labels of the classes above a class can be told from everything else: they begin no symbol of the class itself,
and no symbol and no label of another class above it. -/
structure LabelsTold (table : SymbolTable) (cls : Site) : Prop where
  own : ∀ origin, TransGen (HasBase table) cls origin → ∀ c ∈ cls.children, isHiding c →
    wears origin c.decl.givenSymbol = false
  members : ∀ origin, TransGen (HasBase table) cls origin → ∀ other, TransGen (HasBase table) cls other →
    other.id ≠ origin.id → ∀ c ∈ other.children, isInheritable c.decl → wears origin c.decl.givenSymbol = false
  labels : ∀ origin, TransGen (HasBase table) cls origin → ∀ other, TransGen (HasBase table) cls other →
    other.id ≠ origin.id → startsWith (label origin) (label other) = false

theorem exists_of_wears {origin : Site} {symbol : Value} (wearing : wears origin symbol) :
    ∃ text, symbol = .string text ∧ startsWith (label origin) text := by
  cases symbol with
  | string text => exact ⟨text, rfl, wearing⟩
  | _ => cases wearing

theorem wears_rename (m : Shadow) : wears m.origin (rename m).symbol :=
  startsWith_append (label m.origin) m.symName

/-- A member goes by its own symbol, or by one that begins with the label of its class. -/
def Labelled (m : Shadow) : Prop :=
  m.symbol = m.member.decl.givenSymbol ∨ wears m.origin m.symbol

theorem labelled_rename (m : Shadow) : Labelled (rename m) :=
  .inr (wears_rename m)

theorem labelled_of_handedDown (handed : m ∈ handedDown base) : Labelled m := by
  obtain ⟨c, listed, rfl⟩ := mem_map.mp handed
  exact .inl (if_pos (isInheritable_iff.mp (mem_filter.mp listed).2).symbol)

theorem labelled_of_collected (collects : collected table cls = .ok offered) : ∀ m ∈ offered, Labelled m :=
  forall_collected (P := fun _ => Labelled) (fun _ => labelled_of_handedDown) (fun _ labelled => labelled)
    (fun {_ m} _ => labelled_rename m) collects

theorem LabelsTold.standsApart (told : LabelsTold table cls) {members : List Shadow}
    (passed : ∀ m ∈ members, PassedOn table cls m) (labelled : ∀ m ∈ members, Labelled m)
    (identifies : ∀ one two, TransGen (HasBase table) cls one → TransGen (HasBase table) cls two → one.id = two.id →
      one = two)
    (above : TransGen (HasBase table) cls m.origin) (wearing : wears m.origin m.symbol) :
    StandsApart cls members m := by
  obtain ⟨text, symbol, begins⟩ := exists_of_wears wearing
  have worn {v : Value} (same : v.atom? = m.symbol.atom?) : v = .string text := by
    rw [symbol] at same
    exact Value.eq_string_of_atom same
  constructor
  · rw [declares, any_eq_false]
    intro c child hides
    simp only [Bool.and_eq_true, beq_iff_eq] at hides
    have clean := told.own m.origin above c child hides.1
    rw [worn hides.2] at clean
    exact Bool.false_ne_true (clean.symm.trans begins)
  · intro other listed apart same
    have otherAbove := (passed other listed).above
    have otherId : other.origin.id ≠ m.origin.id := fun id => apart (identifies _ _ otherAbove above id)
    rcases labelled other listed with own | labelled
    · have clean := told.members m.origin above other.origin otherAbove otherId other.member (passed other listed).child
        (isInheritable_iff.mpr (passed other listed).inheritable)
      rw [← own, worn same] at clean
      exact Bool.false_ne_true (clean.symm.trans begins)
    · -- the text begins with two labels, so one of them begins the other one
      rw [worn same] at labelled
      rcases startsWith_or labelled begins with first | second
      · exact Bool.false_ne_true ((told.labels _ otherAbove _ above otherId.symm).symm.trans first)
      · exact Bool.false_ne_true ((told.labels _ above _ otherAbove otherId).symm.trans second)

/-! ### Queries -/

theorem eq_of_id_above {tree : Node} {one two : Site} (up : TransGen (HasBase (.ofTree (.root tree))) cls one)
    (upToo : TransGen (HasBase (.ofTree (.root tree))) cls two) (same : one.id = two.id) : one = two := by
  obtain ⟨_, _, has⟩ := TransGen.tail'_iff.mp up
  obtain ⟨_, _, hasToo⟩ := TransGen.tail'_iff.mp upToo
  exact Site.eq_of_mem_walk rfl has.mem_walk hasToo.mem_walk same

theorem exists_gathered_of_isTextual {tree : Node} (textual : (Site.root tree).IsTextual)
    (listed : cls ∈ (Site.root tree).walk) (acyclic : AcyclicAbove (.ofTree (.root tree)) cls) :
    ∃ found, gathered (.ofTree (.root tree)) cls = .ok found := by
  have plain : ((Query.members cls).answer (.ofTree (.root tree)) {}).1 =
      (gathered (.ofTree (.root tree)) cls).map .members :=
    answer_eq_plain (forall_mem_singleton.mpr listed) trivial acyclic
  obtain ⟨_, given⟩ := (Query.answer_fair (q := .members cls) (tree_census tree) listed (.empty _ _)).2 fun _ =>
    readable_of_isTextual textual
  rw [plain] at given
  obtain ⟨found, inherits, _⟩ := map_eq_ok given
  exact ⟨found, inherits⟩

/-- Whether the members that a class inherits stand apart is up to the names that were made for it: they do exactly if
each member that was renamed does. This is so if the labels of the classes above can be told from all other symbols. -/
theorem members_apart_iff (tree : Node) (acyclic : Acyclic (.ofTree (.root tree))) (earlier : List Query) (cls : Site)
    (asked : ∀ q ∈ Query.members cls :: earlier, q.cls ∈ (Site.root tree).walk)
    (serves : ({} : Memo).Serves (.ofTree (.root tree)) earlier) :
    let table := ofTree (.root tree)
    let answer := ((Query.members cls).answer table (({} : Memo).after table earlier)).1
    (∀ found, answer = .ok (.members found) → ∃ offered,
      collected table cls = .ok offered ∧ found = disambiguate offered ∧
        ((∀ m ∈ found, StandsApart cls found m) ↔
          ∀ m ∈ offered, collides offered m = true → StandsApart cls found (rename m)) ∧
        (LabelsTold table cls → ∀ m ∈ found, StandsApart cls found m)) ∧
      ((Site.root tree).IsTextual → ∃ found, answer = .ok (.members found)) := by
  intro table answer
  have above : AcyclicAbove table cls := fun other _ => acyclic other
  have plain : answer = (gathered table cls).map .members := answer_eq_plain asked serves above
  refine ⟨fun found given => ?_, fun textual => ?_⟩
  · rw [plain, gathered_eq_collected above] at given
    obtain ⟨_, disambiguated, same⟩ := map_eq_ok given
    cases same
    obtain ⟨offered, collects, rfl⟩ := map_eq_ok disambiguated
    have passed := passedOn_of_collected collects
    have apart_iff := standApart_iff (undeclared_of_collected collects) fun m listed other otherListed =>
      eq_of_id_above (passed other otherListed).above (passed m listed).above
    refine ⟨offered, collects, rfl, apart_iff, fun told => apart_iff.mpr fun m listed _ => ?_⟩
    exact told.standsApart (forall_disambiguate (fun _ => .rename) passed)
      (forall_disambiguate (fun m _ => labelled_rename m) (labelled_of_collected collects))
      (fun _ _ => eq_of_id_above) (passed m listed).above (wears_rename m)
  · have listed : cls ∈ (Site.root tree).walk := asked (.members cls) mem_cons_self
    obtain ⟨found, inherits⟩ := exists_gathered_of_isTextual textual listed above
    rw [plain, inherits]
    exact ⟨found, rfl⟩

/-! ### Names that meet -/

namespace Amphibian

def deed (name : String) : Node :=
  .mk (.named .functionDecl name) []

def craft (name : String) (bases : List Value) (deeds : List Node) : Node :=
  .mk { Declaration.named .classDecl name with bases } deeds

/-- Both bases of a class can stop. One base and the class itself can do something else. -/
def tree (ofCar own : String) : Node :=
  .mk (.named .moduleDecl "m")
    [craft "Car" [] [deed "stop", deed ofCar], craft "Boat" [] [deed "stop"],
      craft "Amphibian" [.string "Car", .string "Boat"] [deed own]]

def amphibian (ofCar own : String) : Site :=
  ⟨.declared [2], craft "Amphibian" [.string "Car", .string "Boat"] [deed own], (Site.root (tree ofCar own)).inside⟩

theorem mem_walk (ofCar own : String) : amphibian ofCar own ∈ (Site.root (tree ofCar own)).walk :=
  Site.child_mem_walk (Site.mem_walk_self _) (mem_of_getElem? (i := 2) rfl)

def rank (cls : Site) : Nat :=
  [.declared [0], .declared [1], .declared [2]].idxOf cls.id

theorem labelsTold : LabelsTold (.ofTree (.root (tree "honk" "dive"))) (amphibian "honk" "dive") := by
  let classes := (ofTree (.root (tree "honk" "dive"))).classes
  have own : ∀ entry ∈ classes, ∀ c ∈ (amphibian "honk" "dive").children, isHiding c →
      wears entry.2 c.decl.givenSymbol = false := by decide +kernel
  have members : ∀ entry ∈ classes, ∀ other ∈ classes, other.2.id ≠ entry.2.id → ∀ c ∈ other.2.children,
      isInheritable c.decl → wears entry.2 c.decl.givenSymbol = false := by decide +kernel
  have labels : ∀ entry ∈ classes, ∀ other ∈ classes, other.2.id ≠ entry.2.id →
      startsWith (label entry.2) (label other.2) = false := by decide +kernel
  have known {origin : Site} (up : TransGen (HasBase (.ofTree (.root (tree "honk" "dive"))))
      (amphibian "honk" "dive") origin) :
      ∃ entry ∈ classes, entry.2 = origin := by
    obtain ⟨_, _, has⟩ := TransGen.tail'_iff.mp up
    exact has.listed
  refine ⟨fun origin up => ?_, fun origin up other upToo => ?_, fun origin up other upToo => ?_⟩
  · obtain ⟨entry, listed, rfl⟩ := known up
    exact own entry listed
  · obtain ⟨entry, listed, rfl⟩ := known up
    obtain ⟨otherEntry, otherListed, rfl⟩ := known upToo
    exact members entry listed otherEntry otherListed
  · obtain ⟨entry, listed, rfl⟩ := known up
    obtain ⟨otherEntry, otherListed, rfl⟩ := known upToo
    exact labels entry listed otherEntry otherListed

end Amphibian

open Amphibian

/-- New names that nothing else has keep the members apart. -/
theorem members_apart_amphibian : let table := ofTree (.root (tree "honk" "dive"))
    let cls := amphibian "honk" "dive"
    ∃ found, ((Query.members cls).answer table (({} : Memo).after table [.abstractness cls])).1 = .ok (.members found) ∧
      found.map (fun m => (m.origin.name, m.symName)) = [("Car", "Car_stop"), ("Car", "honk"), ("Boat", "Boat_stop")] ∧
      ∀ m ∈ found, StandsApart cls found m := by
  have acyclic : Acyclic (.ofTree (.root (tree "honk" "dive"))) :=
    acyclic_of_rank rank (by decide +kernel)
  have textual : (Site.root (tree "honk" "dive")).IsTextual := by decide +kernel
  have listed := mem_walk "honk" "dive"
  have serves : ({} : Memo).Serves (.ofTree (.root (tree "honk" "dive")))
      [.abstractness (amphibian "honk" "dive")] :=
    Memo.Fair.serves (tree_census _) (fun _ => readable_of_isTextual textual) (by simpa [Query.cls] using listed)
      (.empty _ _)
  obtain ⟨apart, _⟩ := members_apart_iff _ acyclic _ (amphibian "honk" "dive")
    (by simpa [Query.cls] using listed) serves
  obtain ⟨_, _, _, _, told⟩ := apart _ rfl
  exact ⟨_, rfl, by decide +kernel, told labelsTold⟩

/-- A new name can be that of a member of another base, or of the class itself. -/
theorem amphibian_members_meet : let table := ofTree (.root (tree "Boat_stop" "Car_stop"))
    let cls := amphibian "Boat_stop" "Car_stop"
    Acyclic table ∧ cls ∈ (Site.root (tree "Boat_stop" "Car_stop")).walk ∧
      ∃ found, ((Query.members cls).answer table {}).1 = .ok (.members found) ∧
        found.map (fun m => (m.origin.name, m.symName)) =
          [("Car", "Car_stop"), ("Car", "Boat_stop"), ("Boat", "Boat_stop")] ∧
        cls.children.map (·.decl.symbol) = ["Car_stop"] ∧
        (∃ m ∈ found, ∃ other ∈ found, other.origin ≠ m.origin ∧ other.symbol.atom? = m.symbol.atom?) ∧
        ∃ m ∈ found, declares cls m.symbol = true := by
  exact ⟨acyclic_of_rank rank (by decide +kernel), mem_walk _ _, _, rfl, by decide +kernel,
    by decide +kernel, exists_of_collides (by decide +kernel), any_eq_true.mp (by decide +kernel)⟩

end Inheritance

end FlatAbi
