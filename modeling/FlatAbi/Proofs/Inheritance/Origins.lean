import FlatAbi.Proofs.Declaration.Textual
import FlatAbi.Proofs.Emission.Ends
import FlatAbi.Proofs.Inheritance.Queries
import FlatAbi.Proofs.Inheritance.Shadows

/-!
Where inherited members come from, on every graph of bases and after any queries.
-/

namespace FlatAbi

open Site List Value

variable {members found : List Shadow} {queries : List Query}

/-- A declaration that derived classes offer again. -/
structure Declaration.IsInheritable (d : Declaration) : Prop where
  kind : d.kind = .functionDecl ∨ d.kind = .variableDecl
  access : d.access = .publicAccess
  storage : d.storage ≠ some .static ∧ d.storage ≠ some .friend
  unignored : (d.feature "ignore").truthy = false
  symbol : d.givenSymbol.truthy
  assignment : Text.replace " " "" d.name ≠ "operator="

namespace Inheritance

variable {table : SymbolTable} {Known Good : Site → Prop} {cls base : Site} {m : Shadow} {memo : Memo}

theorem isInheritable_iff {d : Declaration} : isInheritable d ↔ d.IsInheritable := by
  simp only [isInheritable, isOffered, isAssignment, Declaration.isPublic, Declaration.isStatic, Declaration.isFriend,
    Declaration.isIgnored, Bool.and_eq_true, Bool.or_eq_true, Bool.not_eq_true', beq_iff_eq, beq_eq_false_iff_ne]
  constructor
  · rintro ⟨⟨⟨⟨⟨⟨kind, access⟩, notStatic⟩, notFriend⟩, unignored⟩, symbol⟩, assignment⟩
    exact ⟨kind, access, ⟨notStatic, notFriend⟩, unignored, symbol, assignment⟩
  · rintro ⟨kind, access, ⟨notStatic, notFriend⟩, unignored, symbol, assignment⟩
    exact ⟨⟨⟨⟨⟨⟨kind, access⟩, notStatic⟩, notFriend⟩, unignored⟩, symbol⟩, assignment⟩

/-- A member that comes to a class from a class above it. It has the symbol of the member itself, or a longer one that
ends with it, and then the name of the member to call it by. -/
structure PassedOn (table : SymbolTable) (cls : Site) (m : Shadow) : Prop where
  inheritable : m.member.decl.IsInheritable
  child : m.member ∈ m.origin.children
  above : Relation.TransGen (HasBase table) cls m.origin
  symbol : m.symbol = m.member.decl.givenSymbol ∧ m.baseName = none ∨
    ∃ front, m.symbol = .string (front ++ "_" ++ m.member.decl.givenSymbol.display) ∧
      m.baseName = some m.member.decl.shortName

theorem PassedOn.of_handedDown (has : HasBase table cls base) (handed : m ∈ handedDown base) :
    PassedOn table cls m := by
  obtain ⟨child, member, rfl⟩ := mem_map.mp handed
  obtain ⟨listed, inheritable⟩ := mem_filter.mp member
  have isInheritable := isInheritable_iff.mp inheritable
  exact ⟨isInheritable, listed, .single has, .inl ⟨if_pos isInheritable.symbol, rfl⟩⟩

theorem PassedOn.of_base (has : HasBase table cls base) (passed : PassedOn table base m) : PassedOn table cls m :=
  { passed with above := .head has passed.above }

theorem PassedOn.rename (passed : PassedOn table cls m) : PassedOn table cls (rename m) := by
  refine ⟨passed.inheritable, passed.child, passed.above, .inr ?_⟩
  rcases passed.symbol with ⟨own, unnamed⟩ | ⟨front, renamed, named⟩
  · refine ⟨m.origin.decl.symbol, ?_, ?_⟩
    · simp only [Inheritance.rename, Shadow.symName, own]
    · simp [Inheritance.rename, unnamed, Text.orElse, Shadow.name]
  · refine ⟨m.origin.decl.symbol ++ "_" ++ front, ?_, ?_⟩
    · simp only [Inheritance.rename, Shadow.symName, renamed, display, String.append_assoc]
    · simp [Inheritance.rename, named, Text.orElse, Shadow.name]

/-- Different members that come to a class from classes above it. -/
structure Legacy (table : SymbolTable) (cls : Site) (members : List Shadow) : Prop where
  distinct : (members.map (·.member.id)).Nodup
  passedOn : ∀ m ∈ members, PassedOn table cls m

theorem Legacy.nil (table : SymbolTable) (cls : Site) : Legacy table cls [] :=
  ⟨nodup_nil, forall_mem_nil _⟩

theorem Legacy.disambiguate (legacy : Legacy table cls members) : Legacy table cls (disambiguate members) := by
  refine ⟨?_, forall_disambiguate (fun _ => .rename) legacy.passedOn⟩
  rw [disambiguate_ids]
  exact legacy.distinct

/-- All that is looked at in a class can be read. -/
structure Readable (cls : Site) : Prop where
  own : checkOwn cls = .ok ()
  bases : checkBases cls = .ok ()
  handedDown : checkHandedDown cls = .ok ()

theorem readable_of_isTextual {tree : Node} (textual : (root tree).IsTextual) (member : cls ∈ (root tree).walk) :
    Readable cls := by
  have child {c : Site} (listed : c ∈ cls.children) : c.decl.IsTextual := textual c (child_mem_walk member listed)
  refine ⟨forM_eq_ok_iff.mpr fun c listed => ?_, forM_eq_ok_iff.mpr fun base listed => ?_,
    forM_eq_ok_iff.mpr fun c listed => ?_⟩
  · split
    · rcases (child listed).symbol with missing | text
      · cases symbol : c.decl.givenSymbol with
        | null => rfl
        | _ => simp [symbol, isNull] at missing
      · obtain ⟨symbol, isSymbol⟩ := exists_of_isText text
        rw [isSymbol]
        rfl
    · rfl
  · obtain ⟨place, text⟩ := textual.scope member
    rw [place, checkText, if_pos ((textual cls member).bases base listed), checkText, if_pos text]
    rfl
  · split
    · exact if_pos (child listed).name
    · rfl

theorem isHiding_of_isInheritable {c : Site} (inheritable : c.decl.IsInheritable) : isHiding c := by
  rw [isHiding, Bool.or_eq_true, beq_iff_eq, beq_iff_eq]
  exact inheritable.kind

theorem checkKey_of_checkOwn {c : Site} (filed : checkOwn cls = .ok ()) (child : c ∈ cls.children)
    (inheritable : c.decl.IsInheritable) : c.decl.givenSymbol.checkKey = .ok () := by
  have check := forM_eq_ok_iff.mp filed c child
  rwa [if_pos (isHiding_of_isInheritable inheritable)] at check

theorem PassedOn.checkKey (readable : Readable m.origin) (passed : PassedOn table cls m) :
    m.symbol.checkKey = .ok () := by
  rcases passed.symbol with ⟨own, _⟩ | ⟨front, renamed, _⟩
  · rw [own]
    exact checkKey_of_checkOwn readable.own passed.child passed.inheritable
  · rw [renamed]
    rfl

/-- Each answer is a legacy of its class, and so were those that were known when work was broken off; and it was not
broken off if all classes can be read. -/
structure Memo.Fair (table : SymbolTable) (Known : Site → Prop) (memo : Memo) : Prop where
  entries : ∀ entry ∈ memo.entries, ∀ cls, Known cls → cls.id = entry.1 → Legacy table cls entry.2
  recalls : ∀ b, memo.broken = some b → b.entries ⊆ memo.entries
  unbroken : (∀ cls, Known cls → Readable cls) → memo.broken = none

namespace Memo.Fair

theorem empty (table : SymbolTable) (Known : Site → Prop) : ({} : Memo).Fair table Known :=
  ⟨forall_mem_nil _, fun _ broken => (Option.some_ne_none _ broken.symm).elim, fun _ => rfl⟩

section

variable (fair : memo.Fair table Known)

include fair

theorem note {check : Except Misshapen Unit} (passes : (∀ cls, Known cls → Readable cls) → check = .ok ()) :
    (memo.note check).Fair table Known := by
  refine ⟨fun entry listed => fair.entries entry (by rwa [note_entries] at listed), fun b broken => ?_,
    fun readable => ?_⟩
  · rw [note_entries]
    unfold Memo.note at broken
    split at broken
    · cases broken
      exact Subset.refl _
    · exact fair.recalls b broken
  · rw [← verdict_eq_ok_iff, note_verdict, verdict_eq_ok_iff.mpr (fair.unbroken readable), passes readable]
    rfl

theorem cons (identifies : ∀ other, Known other → other.id = cls.id → other = cls) (legacy : Legacy table cls members) :
    ({ memo with entries := (cls.id, members) :: memo.entries } : Memo).Fair table Known := by
  refine ⟨forall_mem_cons.mpr ⟨?_, fair.entries⟩, fun b broken => ?_, fair.unbroken⟩
  · intro other isKnown same
    rw [identifies other isKnown same]
    exact legacy
  · exact subset_cons_of_subset _ (fair.recalls b broken)

theorem start (identifies : ∀ other, Known other → other.id = cls.id → other = cls) (isKnown : Known cls) :
    (memo.start cls).Fair table Known := by
  have begun := (fair.cons identifies (.nil table cls)).note fun readable => (readable cls isKnown).own
  unfold Memo.start
  refine note ?_ fun readable => (readable cls isKnown).bases
  exact ⟨begun.entries, begun.recalls, begun.unbroken⟩

theorem recovered : memo.recovered.Fair table Known := by
  refine ⟨fun entry listed => fair.entries entry ?_, fun b broken => ?_, fun _ => recovered_broken memo⟩
  · unfold Memo.recovered at listed
    cases broken : memo.broken with
    | none => rwa [broken] at listed
    | some b =>
      rw [broken] at listed
      exact fair.recalls b broken listed
  · rw [recovered_broken] at broken
    cases broken

theorem of_lookup (isKnown : Known cls) (stored : memo.entries.lookup cls.id = some found) :
    Legacy table cls found := by
  obtain ⟨before, after, entries, _⟩ := lookup_eq_some_iff.mp stored
  exact fair.entries (cls.id, found) (by simp [entries]) cls isKnown rfl

end

end Memo.Fair

section

variable (census : Census table Known Good)

include census

theorem Legacy.offer (has : HasBase table cls base) {taken : List Shadow} (legacy : Legacy table cls taken)
    (inherited : Legacy table base found) (fair : memo.Fair table Known) :
    Legacy table cls (offer cls base found (taken, memo)).1 ∧
      (offer cls base found (taken, memo)).2.Fair table Known := by
  have passed : ∀ m ∈ handedDown base ++ found, PassedOn table cls m := by
    refine forall_mem_append.mpr ⟨fun _ handed => .of_handedDown has handed, fun m listed => ?_⟩
    exact .of_base has (inherited.passedOn m listed)
  refine ⟨⟨foldl_take_nodup legacy.distinct, forall_take passed legacy.passedOn⟩, fair.note fun readable => ?_⟩
  refine forM_eq_ok_iff.mpr fun m listed => ?_
  obtain ⟨_, _, hasOrigin⟩ := Relation.TransGen.tail'_iff.mp (passed m listed).above
  exact (passed m listed).checkKey (readable m.origin (census.bases _ _ hasOrigin))

theorem Collects.legacy {bases : List Site} {state final : List Shadow × Memo}
    (collects : Collects table cls bases state final) (listed : ∀ base ∈ bases, HasBase table cls base)
    (legacy : Legacy table cls state.1) (fair : state.2.Fair table Known) :
    Legacy table cls final.1 ∧ final.2.Fair table Known := by
  induction collects with
  | done => exact ⟨legacy, fair⟩
  | known stored _ ih =>
    obtain ⟨has, others⟩ := forall_mem_cons.mp listed
    have isKnown := census.bases _ _ has
    have noted := fair.note fun readable => (readable _ isKnown).handedDown
    obtain ⟨taken, learned⟩ := Legacy.offer census has legacy (fair.of_lookup isKnown stored) noted
    exact ih others taken learned
  | @worked cls base _ _ _ _ _ _ unknown _ _ ihAbove ih =>
    obtain ⟨has, others⟩ := forall_mem_cons.mp listed
    have isKnown := census.bases _ _ has
    have identifies (other : Site) (otherKnown : Known other) := census.identifies other base otherKnown isKnown
    have noted := fair.note fun readable => (readable _ isKnown).handedDown
    obtain ⟨below, learned⟩ := ihAbove (fun _ has => has) (.nil table base) (noted.start identifies isKnown)
    obtain ⟨taken, known⟩ := Legacy.offer census has legacy below.disambiguate
      (learned.cons identifies below.disambiguate)
    exact ih others taken known

theorem Flattens.legacy {found : List Shadow × Memo} (flattens : Flattens table memo cls found) (isKnown : Known cls)
    (fair : memo.Fair table Known) : Legacy table cls found.1 ∧ found.2.Fair table Known := by
  cases flattens with
  | known stored => exact ⟨fair.of_lookup isKnown stored, fair⟩
  | worked unknown above =>
    have identifies (other : Site) (otherKnown : Known other) := census.identifies other cls otherKnown isKnown
    obtain ⟨below, learned⟩ := above.legacy census (fun _ has => has) (.nil table cls) (fair.start identifies isKnown)
    exact ⟨below.disambiguate, learned.cons identifies below.disambiguate⟩

theorem isAbstract_fair (isKnown : Known cls) (fair : memo.Fair table Known) :
    (isAbstract table memo cls).2.Fair table Known := by
  unfold isAbstract
  split
  · exact fair
  · exact ((flatten_flattens table memo cls).legacy census isKnown fair).2

theorem Query.answer_fair {q : Query} (isKnown : Known q.cls) (fair : memo.Fair table Known) :
    (q.answer table memo).2.Fair table Known ∧
      ((∀ cls, Known cls → Readable cls) → ∃ answer, (q.answer table memo).1 = .ok answer) := by
  have settled {learned : Memo} (fair : learned.Fair table Known) (answer : Answer) :
      (learned.settle answer).2.Fair table Known ∧
        ((∀ cls, Known cls → Readable cls) → ∃ answer', (learned.settle answer).1 = .ok answer') := by
    rw [Memo.settle_eq]
    refine ⟨fair.recovered, fun readable => ⟨answer, ?_⟩⟩
    rw [Memo.verdict_eq_ok_iff.mpr (fair.unbroken readable)]
    rfl
  cases q with
  | members cls => exact settled ((flatten_flattens table memo cls).legacy census isKnown fair).2 _
  | bases cls =>
    refine ⟨fair, fun readable => ⟨.bases (usableBases table cls), ?_⟩⟩
    rw [answer, (readable cls isKnown).bases]
    rfl
  | abstractness cls => exact settled (isAbstract_fair census isKnown fair) _

theorem Memo.Fair.after (asked : ∀ q ∈ queries, Known q.cls) (fair : memo.Fair table Known) :
    (memo.after table queries).Fair table Known := by
  induction queries generalizing memo with
  | nil => exact fair
  | cons q rest ih =>
    obtain ⟨first, others⟩ := forall_mem_cons.mp asked
    exact ih others (Query.answer_fair census first fair).1

theorem Memo.Fair.serves (readable : ∀ cls, Known cls → Readable cls) (asked : ∀ q ∈ queries, Known q.cls)
    (fair : memo.Fair table Known) : memo.Serves table queries := by
  induction queries generalizing memo with
  | nil => trivial
  | cons q rest ih =>
    obtain ⟨first, others⟩ := forall_mem_cons.mp asked
    obtain ⟨learned, answers⟩ := Query.answer_fair census first fair
    exact ⟨answers readable, ih others learned⟩

end

theorem tree_census (tree : Node) : Census (.ofTree (.root tree)) (· ∈ (root tree).walk) (· ∈ (root tree).walk) where
  identifies _ _ member memberToo same := eq_of_mem_walk rfl member memberToo same
  bases _ _ has := HasBase.mem_walk has
  members _ member _ listed := child_mem_walk member listed

/-- On every graph of bases and after any queries, the recursion on the bases of a class ends, and the members that it
finds are different, and come from classes above, under their own symbols or longer ones. If the names in the tree are
text they are the answer to the query. -/
theorem flatten_legacy (tree : Node) (earlier : List Query) (asked : ∀ q ∈ earlier, q.cls ∈ (root tree).walk)
    (cls : Site) (listed : cls ∈ (root tree).walk) :
    let table := SymbolTable.ofTree (.root tree)
    let memo := ({} : Memo).after table earlier
    (∀ found, Flattens table memo cls found ↔ found = flatten table memo cls) ∧
      Legacy table cls (flatten table memo cls).1 ∧
      ((root tree).IsTextual →
        ((Query.members cls).answer table memo).1 = .ok (.members (flatten table memo cls).1)) := by
  intro table memo
  have fair : memo.Fair table (· ∈ (root tree).walk) :=
    Memo.Fair.after (tree_census tree) asked (.empty table _)
  obtain ⟨legacy, learned⟩ := (flatten_flattens table memo cls).legacy (tree_census tree) listed fair
  refine ⟨fun _ => flattens_iff, legacy, fun textual => ?_⟩
  have unbroken := learned.unbroken fun _ => readable_of_isTextual textual
  change ((flatten table memo cls).2.settle _).1 = _
  rw [Memo.settle_eq, Memo.verdict_eq_ok_iff.mpr unbroken]
  rfl

namespace Gearbox

def shift : Node :=
  .mk (.named .functionDecl "shift") []

def gear (name : String) (bases : List Value) (members : List Node) : Node :=
  .mk { Declaration.named .classDecl name with bases } members

/-- A class and one of its bases are bases of each other. Both bases have a member of the same name. -/
def tree : Node :=
  .mk (.named .moduleDecl "m")
    [gear "Left" [.string "Both"] [shift], gear "Right" [] [shift], gear "Both" [.string "Left", .string "Right"] []]

def left : Site := ⟨.declared [0], gear "Left" [.string "Both"] [shift], (root tree).inside⟩

end Gearbox

open Gearbox

/-- On the cycle the class comes to inherit its own member, under the name that it got on the way. -/
theorem flatten_legacy_gearbox : let table := SymbolTable.ofTree (.root tree)
    let memo := ({} : Memo).after table [.abstractness left]
    (flatten table memo left).1.map (fun m => (m.origin.name, m.symName, m.baseName)) =
        [("Left", "Left_shift", some "shift"), ("Right", "Right_shift", some "shift")] ∧
      Legacy table left (flatten table memo left).1 ∧
      ((Query.members left).answer table memo).1 = .ok (.members (flatten table memo left).1) := by
  have listed : left ∈ (root tree).walk :=
    child_mem_walk (mem_walk_self _) mem_cons_self
  have asked : ∀ q ∈ [Query.abstractness left], q.cls ∈ (root tree).walk := by
    simpa [Query.cls] using listed
  obtain ⟨_, legacy, answer⟩ := flatten_legacy tree _ asked left listed
  exact ⟨by decide +kernel, legacy, answer (by decide +kernel)⟩

end Inheritance

end FlatAbi
