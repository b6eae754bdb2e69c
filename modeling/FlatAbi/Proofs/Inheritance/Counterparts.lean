import FlatAbi.Proofs.Inheritance.Memo
import FlatAbi.Proofs.Resolver.Counterparts

/-!
Inherited members in two trees side by side. Classes that are twins inherit twins.
-/

namespace FlatAbi.Inheritance

open Site List

variable {pairing : Pairing} {table table' : SymbolTable} {cls cls' : Site}
  {members members' taken taken' : List Shadow} {own : List Atom} {state state' : List Shadow × Memo}

/-- Inherited members that are twins. -/
structure TwinShadow (pairing : Pairing) (m m' : Shadow) : Prop where
  member : pairing.Twin m.member m'.member
  origin : pairing.Twin m.origin m'.origin
  symbol : m.symbol = m'.symbol
  baseName : m.baseName = m'.baseName

abbrev TwinShadows (pairing : Pairing) : List Shadow → List Shadow → Prop :=
  Forall₂ (TwinShadow pairing)

theorem usableBases_twins (tables : table.Counterpart pairing table') (twin : pairing.Twin cls cls') :
    Forall₂ pairing.TwinClass (usableBases table cls) (usableBases table' cls') := by
  unfold usableBases
  rw [pairing.decl twin, (pairing.namesake twin).scopeName]
  refine rel_filterMap (fun base _ same => ?_) (forall₂_eq_eq_eq ▸ rfl)
  subst same
  refine rel_filter (tables.class_rel base cls'.scopeName) fun found found' twins => ?_
  rw [pairing.decl twins.1, bne, bne, pairing.id_beq twins.1 twin]

theorem checkBases_eq (twin : pairing.Twin cls cls') : checkBases cls = checkBases cls' := by
  simp only [checkBases, pairing.decl twin, (pairing.namesake twin).checkScope, (pairing.namesake twin).scopeValue]

theorem unknownBases_eq (tables : table.Counterpart pairing table') (twin : pairing.Twin cls cls') :
    unknownBases table cls = unknownBases table' cls' := by
  have known (base : String) : (table.class? base cls'.scopeName).isNone =
      (table'.class? base cls'.scopeName).isNone := by
    rw [← Option.not_isSome, ← Option.not_isSome, isSome_eq_of_rel (tables.class_rel base cls'.scopeName)]
  have readable : hasReadableScope cls = hasReadableScope cls' := by
    rw [hasReadableScope, hasReadableScope, (pairing.namesake twin).checkScope, (pairing.namesake twin).scopeValue]
  unfold unknownBases
  rw [readable, pairing.decl twin, (pairing.namesake twin).scopeName]
  simp only [known]

theorem handedDown_twins (twins : pairing.TwinClass cls cls') :
    TwinShadows pairing (handedDown cls) (handedDown cls') := by
  have listed := forall₂_filter twins.children fun _ _ child => congrArg isInheritable (pairing.decl child)
  refine rel_map (fun c c' child => ?_) listed
  exact ⟨child, twins.1, by rw [pairing.decl child], rfl⟩

theorem checkHandedDown_eq (twins : pairing.TwinClass cls cls') : checkHandedDown cls = checkHandedDown cls' :=
  forM_eq_of_forall₂ twins.children fun _ _ child => by rw [pairing.decl child]

theorem isHiding_eq {child child' : Site} (twin : pairing.Twin child child') : isHiding child = isHiding child' := by
  rw [isHiding, isHiding, pairing.kind twin]

theorem ownSymbols_eq (twins : pairing.TwinClass cls cls') : ownSymbols cls = ownSymbols cls' :=
  filterMap_eq_of_forall₂ twins.children fun _ _ child => by rw [isHiding_eq child, pairing.decl child]

theorem checkOwn_eq (twins : pairing.TwinClass cls cls') : checkOwn cls = checkOwn cls' :=
  forM_eq_of_forall₂ twins.children fun _ _ child => by rw [isHiding_eq child, pairing.decl child]

theorem checkSymbols_eq (twins : TwinShadows pairing members members') : checkSymbols members = checkSymbols members' :=
  forM_eq_of_forall₂ twins fun _ _ twin => by rw [twin.symbol]

theorem take_twins {m m' : Shadow} (twins : TwinShadows pairing taken taken') (twin : TwinShadow pairing m m') :
    TwinShadows pairing (take own taken m) (take own taken' m') := by
  have known : (taken.any (·.member.id == m.member.id)) = taken'.any (·.member.id == m'.member.id) :=
    any_eq_of_forall₂ twins fun _ _ other => pairing.id_beq other.member twin.member
  unfold take isOwn
  rw [known, twin.symbol]
  split
  · exact twins
  · exact rel_append twins (.cons twin .nil)

theorem foldl_take_twins {offered offered' : List Shadow} (twins : TwinShadows pairing taken taken')
    (more : TwinShadows pairing offered offered') :
    TwinShadows pairing (offered.foldl (take own) taken) (offered'.foldl (take own) taken') := by
  induction more generalizing taken taken' with
  | nil => exact twins
  | cons first _ ih => exact ih (take_twins twins first)

theorem disambiguate_twins (twins : TwinShadows pairing members members') :
    TwinShadows pairing (disambiguate members) (disambiguate members') := by
  refine rel_map (fun m m' twin => ?_) twins
  have collides : collides members m = collides members' m' :=
    any_eq_of_forall₂ twins fun _ _ other => by
      rw [other.symbol, twin.symbol, bne, bne, pairing.id_beq other.origin twin.origin]
  rw [collides]
  split
  · refine ⟨twin.member, twin.origin, ?_, ?_⟩
    · simp only [rename, Shadow.symName, pairing.decl twin.origin, twin.symbol]
    · simp only [rename, Shadow.name, pairing.decl twin.member, twin.baseName]
  · exact twin

abbrev TwinEntries (pairing : Pairing) : List (NodeId × List Shadow) → List (NodeId × List Shadow) → Prop :=
  Forall₂ fun entry entry' => pairing.SameId entry.1 entry'.1 ∧ TwinShadows pairing entry.2 entry'.2

/-- Breaks with the same cause, before which twins were known. -/
structure TwinBreak (pairing : Pairing) (b b' : Break) : Prop where
  cause : b.cause = b'.cause
  entries : TwinEntries pairing b.entries b'.entries
  opened : Forall₂ pairing.Twin b.opened b'.opened

/-- Memos that know twins. -/
structure TwinMemo (pairing : Pairing) (memo memo' : Memo) : Prop where
  entries : TwinEntries pairing memo.entries memo'.entries
  opened : Forall₂ pairing.Twin memo.opened memo'.opened
  broken : Option.Rel (TwinBreak pairing) memo.broken memo'.broken

namespace TwinMemo

variable {memo memo' : Memo}

theorem empty (pairing : Pairing) : TwinMemo pairing {} {} := ⟨.nil, .nil, .none⟩

theorem lookup {entries entries' : List (NodeId × List Shadow)} (twins : TwinEntries pairing entries entries')
    {id id' : NodeId} (same : pairing.SameId id id') :
    Option.Rel (TwinShadows pairing) (entries.lookup id) (entries'.lookup id') := by
  induction twins with
  | nil => exact .none
  | @cons entry entry' _ _ first _ ih =>
    obtain ⟨key, known⟩ := entry
    obtain ⟨key', known'⟩ := entry'
    have test : (id == key) = (id' == key') := by
      rw [Bool.eq_iff_iff, beq_iff_eq, beq_iff_eq]
      exact pairing.biunique same first.1
    rw [lookup_cons, lookup_cons, test]
    split
    · exact .some first.2
    · exact ih

section

variable (twins : TwinMemo pairing memo memo')

include twins

theorem note (check : Except Misshapen Unit) : TwinMemo pairing (memo.note check) (memo'.note check) := by
  unfold Memo.note
  refine rel_elim twins.broken ?_ fun _ _ _ => twins
  cases check with
  | ok _ => exact twins
  | error cause => exact ⟨twins.entries, twins.opened, .some ⟨rfl, twins.entries, twins.opened⟩⟩

theorem start (classes : pairing.TwinClass cls cls') : TwinMemo pairing (memo.start cls) (memo'.start cls') := by
  have begun : TwinMemo pairing { memo with entries := (cls.id, []) :: memo.entries }
      { memo' with entries := (cls'.id, []) :: memo'.entries } :=
    ⟨.cons ⟨pairing.sameId classes.1, .nil⟩ twins.entries, twins.opened, twins.broken⟩
  have checked := begun.note (checkOwn cls')
  have opened := rel_append checked.opened (.cons classes.1 .nil)
  unfold Memo.start
  rw [checkOwn_eq classes, checkBases_eq classes.1]
  refine note ?_ _
  exact ⟨checked.entries, opened, checked.broken⟩

theorem finish {result result' : List Shadow} (twin : pairing.Twin cls cls')
    (found : TwinShadows pairing result result') :
    TwinMemo pairing (memo.finish cls result) (memo'.finish cls' result') :=
  ⟨.cons ⟨pairing.sameId twin, found⟩ twins.entries, twins.opened, twins.broken⟩

theorem settle {α : Type} {Same : α → α → Prop} {answer answer' : α} (same : Same answer answer') :
    ((∃ cause, (memo.settle answer).1 = .error cause ∧ (memo'.settle answer').1 = .error cause) ∨
      ((memo.settle answer).1 = .ok answer ∧ (memo'.settle answer').1 = .ok answer' ∧ Same answer answer')) ∧
      TwinMemo pairing (memo.settle answer).2 (memo'.settle answer').2 := by
  unfold Memo.settle
  refine rel_elim twins.broken ⟨.inr ⟨rfl, rfl, same⟩, twins⟩ fun b b' both => ?_
  exact ⟨.inl ⟨b.cause, rfl, by rw [both.cause]⟩, both.entries, both.opened, .none⟩

end

end TwinMemo

/-- Related answers and memos. -/
def TwinState (pairing : Pairing) (state state' : List Shadow × Memo) : Prop :=
  TwinShadows pairing state.1 state'.1 ∧ TwinMemo pairing state.2 state'.2

section

variable {depth : Nat}
  (each : ∀ {memo memo' cls cls'}, TwinMemo pairing memo memo' → pairing.TwinClass cls cls' →
    TwinState pairing (flattenWithin table depth memo cls) (flattenWithin table' depth memo' cls'))
  (classes : pairing.TwinClass cls cls')

include each classes

theorem takeBase_twins {base base' : Site} (states : TwinState pairing state state')
    (bases : pairing.TwinClass base base') :
    TwinState pairing (takeBase table depth cls state base) (takeBase table' depth cls' state' base') := by
  have noted : TwinMemo pairing (state.2.note (checkHandedDown base)) (state'.2.note (checkHandedDown base')) := by
    rw [checkHandedDown_eq bases]
    exact states.2.note _
  obtain ⟨inherited, memos⟩ := each noted bases
  have offered := rel_append (handedDown_twins bases) inherited
  unfold takeBase
  dsimp only
  rw [ownSymbols_eq classes, checkSymbols_eq offered]
  exact ⟨foldl_take_twins states.1 offered, memos.note _⟩

theorem foldl_takeBase_twins {bases bases' : List Site} (listed : Forall₂ pairing.TwinClass bases bases')
    (states : TwinState pairing state state') :
    TwinState pairing (bases.foldl (takeBase table depth cls) state)
      (bases'.foldl (takeBase table' depth cls') state') := by
  induction listed generalizing state state' with
  | nil => exact states
  | cons first _ ih => exact ih (takeBase_twins each classes states first)

end

theorem flattenWithin_twins (tables : table.Counterpart pairing table') (depth : Nat) {memo memo' : Memo}
    {cls cls' : Site} (memos : TwinMemo pairing memo memo') (classes : pairing.TwinClass cls cls') :
    TwinState pairing (flattenWithin table depth memo cls) (flattenWithin table' depth memo' cls') := by
  induction depth generalizing memo memo' cls cls' with
  | zero => exact ⟨.nil, memos⟩
  | succ depth ih =>
    rcases rel_cases (TwinMemo.lookup memos.entries (pairing.sameId classes.1)) with
      ⟨unknown, unknownToo⟩ | ⟨found, found', known, knownToo, twins⟩
    · rw [flattenWithin_of_unknown unknown, flattenWithin_of_unknown unknownToo]
      have started : TwinState pairing ([], memo.start cls) ([], memo'.start cls') := ⟨.nil, memos.start classes⟩
      have worked := foldl_takeBase_twins ih classes (usableBases_twins tables classes.1) started
      have members := disambiguate_twins worked.1
      exact ⟨members, worked.2.finish classes.1 members⟩
    · rw [flattenWithin_of_known known, flattenWithin_of_known knownToo]
      exact ⟨twins, memos⟩

theorem flatten_twins (tables : table.Counterpart pairing table') {memo memo' : Memo}
    (memos : TwinMemo pairing memo memo') (classes : pairing.TwinClass cls cls') :
    TwinState pairing (flatten table memo cls) (flatten table' memo' cls') := by
  unfold flatten
  rw [tables.size]
  exact flattenWithin_twins tables _ memos classes

theorem isDeclaredAbstract_eq (classes : pairing.TwinClass cls cls') :
    isDeclaredAbstract cls = isDeclaredAbstract cls' := by
  have children : (cls.children.any fun c => c.kind == .functionDecl && c.decl.isPureVirtual) =
      cls'.children.any fun c => c.kind == .functionDecl && c.decl.isPureVirtual :=
    any_eq_of_forall₂ classes.children fun _ _ child => by rw [pairing.kind child, pairing.decl child]
  rw [isDeclaredAbstract, isDeclaredAbstract, pairing.decl classes.1, children]

theorem isAbstract_twins (tables : table.Counterpart pairing table') {memo memo' : Memo}
    (memos : TwinMemo pairing memo memo') (classes : pairing.TwinClass cls cls') :
    (isAbstract table memo cls).1 = (isAbstract table' memo' cls').1 ∧
      TwinMemo pairing (isAbstract table memo cls).2 (isAbstract table' memo' cls').2 := by
  unfold isAbstract
  rw [isDeclaredAbstract_eq classes]
  split
  · exact ⟨rfl, memos⟩
  · obtain ⟨members, known⟩ := flatten_twins tables memos classes
    exact ⟨any_eq_of_forall₂ members fun _ _ twin => by rw [pairing.decl twin.member], known⟩

end FlatAbi.Inheritance
