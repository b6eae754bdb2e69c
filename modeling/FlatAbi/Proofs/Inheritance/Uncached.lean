import FlatAbi.Proofs.Inheritance.Origins

/-!
The recursion on bases without a memo. Where no class is among its own bases, it gives the same answers.
-/

namespace FlatAbi.Inheritance

open Relation Memo List SymbolTable

variable {table : SymbolTable} {Known Good : Site → Prop} {cls base : Site} {memo : Memo}

/-! ### The recursion itself -/

/-- Take the members that a base has to offer, given what bases inherit. -/
def gatherFrom (inherited : Site → Except Misshapen (List Shadow)) (cls : Site) (taken : List Shadow) (base : Site) :
    Except Misshapen (List Shadow) := do
  checkHandedDown base
  let offered := handedDown base ++ (← inherited base)
  checkSymbols offered
  return offered.foldl (take (ownSymbols cls)) taken

/-- The members that a class inherits, given what its bases inherit. -/
def gather (table : SymbolTable) (inherited : Site → Except Misshapen (List Shadow)) (cls : Site) :
    Except Misshapen (List Shadow) := do
  checkOwn cls
  checkBases cls
  let taken ← (usableBases table cls).foldlM (gatherFrom inherited cls) []
  return disambiguate taken

/-- The members that a class inherits, at most `depth` classes up. -/
def gatherWithin (table : SymbolTable) : Nat → Site → Except Misshapen (List Shadow)
  | 0, _ => .ok []
  | depth + 1, cls => gather table (gatherWithin table depth) cls

/-- The members that a class inherits, with nothing remembered. -/
def gathered (table : SymbolTable) (cls : Site) : Except Misshapen (List Shadow) :=
  gatherWithin table (table.classes.length + 1) cls

theorem gather_congr {one two : Site → Except Misshapen (List Shadow)}
    (same : ∀ base, HasBase table cls base → one base = two base) : gather table one cls = gather table two cls := by
  have folds {bases : List Site} (listed : ∀ base ∈ bases, HasBase table cls base) (taken : List Shadow) :
      bases.foldlM (gatherFrom one cls) taken = bases.foldlM (gatherFrom two cls) taken := by
    induction bases generalizing taken with
    | nil => rfl
    | cons base rest ih =>
      obtain ⟨has, others⟩ := forall_mem_cons.mp listed
      simp only [foldlM_cons, ih others, gatherFrom, same base has]
  unfold gather
  rw [folds fun _ has => has]

theorem gatherWithin_eq {one two : Nat} (settles : Settles table one cls) (settlesToo : Settles table two cls) :
    gatherWithin table one cls = gatherWithin table two cls := by
  induction one generalizing two cls with
  | zero => exact settles.elim
  | succ one ih =>
    cases two with
    | zero => exact settlesToo.elim
    | succ two => exact gather_congr fun base has => ih (settles base has) (settlesToo base has)

theorem AcyclicAbove.of_base (acyclic : AcyclicAbove table cls) (has : HasBase table cls base) :
    AcyclicAbove table base :=
  fun other leads => acyclic other (.head has leads)

theorem gathered_eq (acyclic : AcyclicAbove table cls) : gathered table cls = gather table (gathered table) cls := by
  refine gather_congr fun base has => gatherWithin_eq ?_ ((acyclic.of_base has).settles (Nat.lt_succ_self _))
  exact acyclic.settles (Nat.lt_succ_self _) base has

/-! ### Entries -/

/-- As long as work was not broken off, all answers are as without a memo, except for classes on cycles and classes
under work. -/
def Memo.Exact (table : SymbolTable) (Known working : Site → Prop) (memo : Memo) : Prop :=
  memo.verdict = .ok () → ∀ cls, Known cls → AcyclicAbove table cls → ¬ working cls →
    ∀ found, memo.entries.lookup cls.id = some found → gathered table cls = .ok found

namespace Memo.Exact

variable {working : Site → Prop}

theorem empty (table : SymbolTable) (Known working : Site → Prop) : ({} : Memo).Exact table Known working := by
  intro _ cls _ _ _ found stored
  cases stored

theorem note (exact : memo.Exact table Known working) (check : Except Misshapen Unit) :
    (memo.note check).Exact table Known working := by
  intro passes cls isKnown acyclic free found stored
  rw [note_verdict] at passes
  rw [note_entries] at stored
  obtain ⟨_, unbroken, _⟩ := bind_eq_ok passes
  exact exact unbroken cls isKnown acyclic free found stored

section

variable (census : Census table Known Good) (isKnown : Known cls)

include census isKnown

theorem start (exact : memo.Exact table Known working) :
    (memo.start cls).Exact table Known fun other => working other ∨ other = cls := by
  intro passes other otherKnown acyclic free found stored
  rw [start_verdict] at passes
  obtain ⟨_, unbroken, _⟩ := bind_eq_ok passes
  have apart : other.id ≠ cls.id := fun same => free (.inr (census.identifies other cls otherKnown isKnown same))
  rw [start_entries, lookup_eq_of_ne apart] at stored
  exact exact unbroken other otherKnown acyclic (fun under => free (.inl under)) found stored

theorem finish {result : List Shadow} (exact : memo.Exact table Known fun other => working other ∨ other = cls)
    (right : memo.verdict = .ok () → AcyclicAbove table cls → gathered table cls = .ok result) :
    (memo.finish cls result).Exact table Known working := by
  intro unbroken other otherKnown acyclic free found stored
  by_cases same : other.id = cls.id
  · obtain rfl := census.identifies other cls otherKnown isKnown same
    simp only [Memo.finish, lookup_cons_self, Option.some.injEq] at stored
    rw [← stored]
    exact right unbroken acyclic
  · simp only [Memo.finish, lookup_eq_of_ne same] at stored
    refine exact unbroken other otherKnown acyclic (fun under => ?_) found stored
    rcases under with under | rfl
    · exact free under
    · exact same rfl

theorem worked {below : List Shadow} {learned : Memo}
    (exact : learned.Exact table Known fun other => working other ∨ other = cls)
    (gathers : AcyclicAbove table cls → (learned.verdict >>= fun _ => .ok below) = (memo.start cls).verdict >>= fun _ =>
      (usableBases table cls).foldlM (gatherFrom (gathered table) cls) []) :
    (learned.finish cls (disambiguate below)).Exact table Known working ∧
      (AcyclicAbove table cls → ((learned.finish cls (disambiguate below)).verdict >>= fun _ =>
        .ok (disambiguate below)) = memo.verdict >>= fun _ => gathered table cls) := by
  have inherits (acyclic : AcyclicAbove table cls) :
      (learned.verdict >>= fun _ => .ok (disambiguate below)) = memo.verdict >>= fun _ => gathered table cls := by
    have renamed := congrArg (· >>= fun found => Except.ok (disambiguate found)) (gathers acyclic)
    simp only [start_verdict, bind_assoc] at renamed
    rw [gathered_eq acyclic]
    exact renamed
  refine ⟨exact.finish census isKnown fun unbroken acyclic => ?_, inherits⟩
  have inherits := inherits acyclic
  rw [unbroken] at inherits
  obtain ⟨_, _, inherits⟩ := bind_eq_ok inherits.symm
  exact inherits

end

end Memo.Exact

/-- A class that is not among its own bases is not under work when one of the classes under work asks for it. -/
theorem AcyclicAbove.not_working {working : Site → Prop} (acyclic : AcyclicAbove table base)
    (has : HasBase table cls base)
    (under : ∀ other, working other → ReflTransGen (HasBase table) other cls) : ¬ working base :=
  fun isWorking => acyclic base .refl (.tail' (under base isWorking) has)

theorem offer_gathers {before : Except Misshapen Unit} {found taken : List Shadow}
    (inherits : (memo.verdict >>= fun _ => .ok found) =
      before >>= fun _ => checkHandedDown base >>= fun _ => gathered table base)
    (rest : List Site) :
    ((offer cls base found (taken, memo)).2.verdict >>= fun _ =>
        rest.foldlM (gatherFrom (gathered table) cls) (offer cls base found (taken, memo)).1) =
      before >>= fun _ => (base :: rest).foldlM (gatherFrom (gathered table) cls) taken := by
  let next (inherited : List Shadow) : Except Misshapen (List Shadow) :=
    checkSymbols (handedDown base ++ inherited) >>= fun _ =>
      rest.foldlM (gatherFrom (gathered table) cls) ((handedDown base ++ inherited).foldl (take (ownSymbols cls)) taken)
  calc
    _ = (memo.verdict >>= fun _ => .ok found) >>= next := by
        rw [offer, note_verdict, bind_assoc, bind_assoc]
        rfl
    _ = (before >>= fun _ => checkHandedDown base >>= fun _ => gathered table base) >>= next := by rw [inherits]
    _ = before >>= fun _ => (base :: rest).foldlM (gatherFrom (gathered table) cls) taken := by
        simp only [next, foldlM_cons, gatherFrom, bind_assoc, pure_bind]

section

variable (census : Census table Known Good)

include census

/-- Members are collected from bases as they are gathered, if the classes under work all lead to the class. -/
theorem Collects.exact {bases : List Site} {state final : List Shadow × Memo}
    (collects : Collects table cls bases state final) {working : Site → Prop}
    (listed : ∀ base ∈ bases, HasBase table cls base)
    (under : ∀ other, working other → ReflTransGen (HasBase table) other cls)
    (exact : state.2.Exact table Known working) :
    final.2.Exact table Known working ∧
      (AcyclicAbove table cls → (final.2.verdict >>= fun _ => .ok final.1) =
        state.2.verdict >>= fun _ => bases.foldlM (gatherFrom (gathered table) cls) state.1) := by
  induction collects generalizing working with
  | done => exact ⟨exact, fun _ => rfl⟩
  | @known cls base rest taken found memo final stored _ ih =>
    obtain ⟨has, others⟩ := forall_mem_cons.mp listed
    obtain ⟨known, ends⟩ := ih others under ((exact.note (checkHandedDown base)).note _)
    refine ⟨known, fun acyclic => (ends acyclic).trans (offer_gathers ?_ rest)⟩
    rw [note_verdict, bind_assoc]
    cases unbroken : memo.verdict with
    | error cause => rfl
    | ok _ =>
      -- the entry is not the empty one of a class under work
      have above := acyclic.of_base has
      rw [exact unbroken base (census.bases cls base has) above (above.not_working has under) found stored]
  | @worked cls base rest taken below memo learned final unknown _ _ ihAbove ih =>
    obtain ⟨has, others⟩ := forall_mem_cons.mp listed
    have isKnown := census.bases cls base has
    -- while the base is worked on, it is one of the classes that lead to it
    have underBase : ∀ other, working other ∨ other = base → ReflTransGen (HasBase table) other base := by
      rintro other (isWorking | rfl)
      · exact (under other isWorking).tail has
      · exact .refl
    obtain ⟨learnedExact, gathers⟩ := ihAbove (fun _ has => has) underBase
      ((exact.note (checkHandedDown base)).start census isKnown)
    obtain ⟨workedExact, inherits⟩ := learnedExact.worked census isKnown gathers
    obtain ⟨known, ends⟩ := ih others under (workedExact.note _)
    refine ⟨known, fun acyclic => (ends acyclic).trans (offer_gathers ?_ rest)⟩
    rw [inherits (acyclic.of_base has), note_verdict, bind_assoc]

/-- Nothing is asked about while nothing is under work, so answers about classes without cycles above them are as
without a memo. -/
theorem Flattens.exact {found : List Shadow × Memo} (flattens : Flattens table memo cls found) (isKnown : Known cls)
    (unbroken : memo.verdict = .ok ()) (exact : memo.Exact table Known idle) :
    found.2.Exact table Known idle ∧
      (AcyclicAbove table cls → (found.2.verdict >>= fun _ => .ok found.1) = gathered table cls) := by
  cases flattens with
  | known stored =>
    refine ⟨exact, fun acyclic => ?_⟩
    rw [unbroken, exact unbroken cls isKnown acyclic id _ stored]
    rfl
  | @worked below learned unknown above =>
    have under : ∀ other, idle other ∨ other = cls → ReflTransGen (HasBase table) other cls := by
      rintro other (impossible | rfl)
      · exact impossible.elim
      · exact .refl
    obtain ⟨learnedExact, gathers⟩ := above.exact census (fun _ has => has) under (exact.start census isKnown)
    obtain ⟨workedExact, inherits⟩ := learnedExact.worked census isKnown gathers
    refine ⟨workedExact, fun acyclic => ?_⟩
    rw [inherits acyclic, unbroken]
    rfl

variable (isKnown : Known cls) (acyclic : AcyclicAbove table cls) (unbroken : memo.verdict = .ok ())
  (exact : memo.Exact table Known idle)

include isKnown acyclic unbroken exact

theorem flatten_exact (answered : (flatten table memo cls).2.verdict = .ok ()) :
    (flatten table memo cls).1 = (flatten table {} cls).1 ∧ (flatten table memo cls).2.Exact table Known idle := by
  obtain ⟨learned, ends⟩ := (flatten_flattens table memo cls).exact census isKnown unbroken exact
  obtain ⟨_, fresh⟩ := (flatten_flattens table {} cls).exact census isKnown rfl (.empty table Known idle)
  have same := (ends acyclic).trans (fresh acyclic).symm
  rw [answered] at same
  obtain ⟨_, _, same⟩ := bind_eq_ok same.symm
  exact ⟨(Except.ok.inj same).symm, learned⟩

theorem isAbstract_exact (answered : (isAbstract table memo cls).2.verdict = .ok ()) :
    (isAbstract table memo cls).1 = (isAbstract table {} cls).1 ∧
      (isAbstract table memo cls).2.Exact table Known idle := by
  unfold isAbstract at answered ⊢
  split
  · exact ⟨rfl, exact⟩
  next concrete =>
    rw [if_neg concrete] at answered
    obtain ⟨members, learned⟩ := flatten_exact census isKnown acyclic unbroken exact answered
    exact ⟨by simp only [members], learned⟩

end

/-! ### Queries -/

/-- The answer to a query with nothing remembered. -/
def Query.plain (table : SymbolTable) : Query → Except Misshapen Answer
  | .members cls => (gathered table cls).map .members
  | .bases cls => (checkBases cls).map fun _ => .bases (usableBases table cls)
  | .abstractness cls =>
    if isDeclaredAbstract cls then .ok (.abstractness true)
    else (gathered table cls).map fun members => .abstractness (members.any (·.member.decl.isPureVirtual))

theorem Memo.settle_exact {answer given : Answer} (exact : memo.Exact table Known idle)
    (settled : (memo.settle answer).1 = .ok given) :
    (memo.settle answer).2.verdict = .ok () ∧ (memo.settle answer).2.Exact table Known idle := by
  rw [settle_eq] at settled ⊢
  obtain ⟨_, unbroken, _⟩ := map_eq_ok settled
  rw [recovered_of_unbroken (verdict_eq_ok_iff.mp unbroken)]
  exact ⟨unbroken, exact⟩

theorem Query.answer_exact (census : Census table Known Good) {q : Query} (isKnown : Known q.cls)
    (unbroken : memo.verdict = .ok ()) (exact : memo.Exact table Known idle) :
    (AcyclicAbove table q.cls → (q.answer table memo).1 = q.plain table) ∧
      ∀ given, (q.answer table memo).1 = .ok given →
        (q.answer table memo).2.verdict = .ok () ∧ (q.answer table memo).2.Exact table Known idle := by
  have settles {learned : Memo} {found : List Shadow} {inherited : Except Misshapen (List Shadow)}
      (ends : (learned.verdict >>= fun _ => .ok found) = inherited) (form : List Shadow → Answer) :
      (learned.settle (form found)).1 = inherited.map form := by
    rw [← ends, settle_eq]
    cases learned.verdict <;> rfl
  cases q with
  | members cls =>
    obtain ⟨learned, ends⟩ := (flatten_flattens table memo cls).exact census isKnown unbroken exact
    exact ⟨fun acyclic => settles (ends acyclic) .members, fun _ settled => settle_exact learned settled⟩
  | bases cls => exact ⟨fun _ => rfl, fun _ _ => ⟨unbroken, exact⟩⟩
  | abstractness cls =>
    unfold answer plain isAbstract
    by_cases declared : isDeclaredAbstract cls
    · simp only [if_pos declared]
      refine ⟨fun _ => ?_, fun _ settled => settle_exact exact settled⟩
      rw [settle_eq, unbroken]
      rfl
    · simp only [if_neg declared]
      obtain ⟨learned, ends⟩ := (flatten_flattens table memo cls).exact census isKnown unbroken exact
      exact ⟨fun acyclic => settles (ends acyclic) fun members =>
        .abstractness (members.any (·.member.decl.isPureVirtual)), fun _ settled => settle_exact learned settled⟩

theorem Memo.Exact.after (census : Census table Known Good) {queries : List Query} (asked : ∀ q ∈ queries, Known q.cls)
    (unbroken : memo.verdict = .ok ()) (exact : memo.Exact table Known idle) (serves : memo.Serves table queries) :
    (memo.after table queries).verdict = .ok () ∧ (memo.after table queries).Exact table Known idle := by
  induction queries generalizing memo with
  | nil => exact ⟨unbroken, exact⟩
  | cons q rest ih =>
    obtain ⟨first, others⟩ := forall_mem_cons.mp asked
    obtain ⟨⟨given, answered⟩, serves⟩ := serves
    obtain ⟨unbroken, exact⟩ := (Query.answer_exact census first unbroken exact).2 given answered
    exact ih others unbroken exact serves

/-- After queries on a tree that all had answers, a query about a class without cycles above it is answered as if
nothing were remembered. -/
theorem answer_eq_plain {tree : Node} {earlier : List Query} {q : Query}
    (asked : ∀ p ∈ q :: earlier, p.cls ∈ (Site.root tree).walk)
    (serves : ({} : Memo).Serves (.ofTree (.root tree)) earlier) (acyclic : AcyclicAbove (.ofTree (.root tree)) q.cls) :
    (q.answer (.ofTree (.root tree)) (({} : Memo).after (.ofTree (.root tree)) earlier)).1 =
      q.plain (.ofTree (.root tree)) := by
  obtain ⟨listed, others⟩ := forall_mem_cons.mp asked
  obtain ⟨unbroken, exact⟩ := Exact.after (tree_census tree) others rfl (.empty _ _ idle) serves
  exact (Query.answer_exact (tree_census tree) listed unbroken exact).1 acyclic

/-- The memo does not show. On a tree in which no class is among its own bases, what a class inherits is gathered from
what its bases inherit; after queries that had answers, a query has the answer that this recursion gives with nothing
remembered; and if the names in the tree are text, all queries have answers. -/
theorem answers_as_without_memo (tree : Node) (acyclic : Acyclic (.ofTree (.root tree))) :
    let table := ofTree (.root tree)
    (∀ cls, gathered table cls = gather table (gathered table) cls) ∧
      (∀ earlier q, (∀ p ∈ q :: earlier, p.cls ∈ (Site.root tree).walk) → ({} : Memo).Serves table earlier →
        (q.answer table (({} : Memo).after table earlier)).1 = q.plain table) ∧
      ((Site.root tree).IsTextual →
        ∀ queries, (∀ q ∈ queries, Query.cls q ∈ (Site.root tree).walk) → ({} : Memo).Serves table queries) := by
  refine ⟨fun cls => ?_, fun earlier q asked serves => ?_, fun textual queries asked => ?_⟩
  · exact gathered_eq fun other _ => acyclic other
  · exact answer_eq_plain asked serves fun other _ => acyclic other
  · exact Fair.serves (tree_census tree) (fun _ => readable_of_isTextual textual) asked (.empty _ _)

/-! ### Two ways to the same class -/

namespace Diamond

def member (name : String) : Node :=
  .mk (.named .functionDecl name) []

def facet (name : String) (bases : List Value) (members : List Node) : Node :=
  .mk { Declaration.named .classDecl name with bases } members

/-- A class has two bases with one base in common, and members of the same name come from both of them. -/
def tree : Node :=
  .mk (.named .moduleDecl "m")
    [facet "Top" [] [member "cut"], facet "Left" [.string "Top"] [member "side"],
      facet "Right" [.string "Top"] [member "side"], facet "Bottom" [.string "Left", .string "Right"] []]

def bottom : Site :=
  ⟨.declared [3], facet "Bottom" [.string "Left", .string "Right"] [], (Site.root tree).inside⟩

theorem tree_acyclic : Acyclic (.ofTree (.root tree)) := by
  let listed := (ofTree (.root tree)).classes.map (·.2.id)
  exact acyclic_of_rank (fun cls => listed.idxOf cls.id) (by decide +kernel)

end Diamond

open Diamond

/-- The member of the common base is found once, whether or not its entry was there before. -/
theorem answers_as_without_memo_diamond : let table := ofTree (.root tree)
    (gathered table bottom).toOption.map (·.map fun m => (m.origin.name, m.symName)) =
        some [("Left", "Left_side"), ("Top", "cut"), ("Right", "Right_side")] ∧
      ((Query.members bottom).answer table
        (({} : Memo).after table [.abstractness bottom, .bases bottom])).1 =
          (gathered table bottom).map .members := by
  have listed : bottom ∈ (Site.root tree).walk :=
    Site.child_mem_walk (Site.mem_walk_self _) (mem_of_getElem? (i := 3) rfl)
  obtain ⟨_, answers, serves⟩ := answers_as_without_memo tree tree_acyclic
  refine ⟨by decide +kernel, answers _ _ ?_ (serves (by decide +kernel) _ ?_)⟩
  · simpa [Query.cls] using listed
  · simpa [Query.cls] using listed

end FlatAbi.Inheritance
