import FlatAbi.Emission.Module
import FlatAbi.Proofs.Declaration.Reordering
import FlatAbi.Proofs.Resolver.Counterparts
import Mathlib.Data.List.Pairwise

/-!
Tables of trees in another order. They find twins as long as no name is filed twice for one sort.
-/

namespace FlatAbi

open Site SymbolTable List

variable {tree tree' : Node} {pairs : List (Site × Site)} {pair other : Site × Site} {s s' : Site}
  (matching : Matching [] pairs [root tree] [root tree'])

namespace Site.Matching

include matching

theorem walk_left : pairs.map (·.1) = (root tree).walk := by
  simpa using matching.walks.left

theorem walk_right : (pairs.map (·.2)).Perm (root tree').walk := by
  simpa using matching.walks.right

theorem mem_left (member : pair ∈ pairs) : pair.1 ∈ (root tree).walk := by
  rw [← matching.walk_left]
  exact mem_map_of_mem member

theorem mem_right (member : pair ∈ pairs) : pair.2 ∈ (root tree').walk :=
  matching.walk_right.subset (mem_map_of_mem member)

theorem exists_left (member : s' ∈ (root tree').walk) : ∃ s, (s, s') ∈ pairs := by
  obtain ⟨⟨s, _⟩, listed, rfl⟩ := mem_map.mp (matching.walk_right.symm.subset member)
  exact ⟨s, listed⟩

theorem id_iff (member : pair ∈ pairs) (memberToo : other ∈ pairs) :
    pair.1.id = other.1.id ↔ pair.2.id = other.2.id := by
  have left : (pairs.map (·.1.id)).Nodup := by
    have distinct : ((root tree).walk.map (·.id)).Nodup := walk_ids_nodup rfl
    rwa [← matching.walk_left, map_map] at distinct
  have right : (pairs.map (·.2.id)).Nodup := by
    have distinct : ((root tree').walk.map (·.id)).Nodup := walk_ids_nodup rfl
    rw [← (matching.walk_right.map _).nodup_iff, map_map] at distinct
    exact distinct
  constructor
  · intro same
    rw [inj_on_of_nodup_map left member memberToo same]
  · intro same
    rw [inj_on_of_nodup_map right member memberToo same]

end Site.Matching

/-- Paths to sites that are matched. -/
def SamePath (pairs : List (Site × Site)) (path path' : List Nat) : Prop :=
  ∃ pair ∈ pairs, pair.1.id = .declared path ∧ pair.2.id = .declared path'

/-- Identities that belong together: those of sites that are matched, those of the members that such sites get
implicitly, and those in the runtime class. -/
inductive MatchedId (pairs : List (Site × Site)) : NodeId → NodeId → Prop where
  | declared {path path' : List Nat} (same : SamePath pairs path path') :
      MatchedId pairs (.declared path) (.declared path')
  | implicit {path path' : List Nat} (same : SamePath pairs path path') (destructor : Bool) :
      MatchedId pairs (.implicit path destructor) (.implicit path' destructor)
  | runtime (path : List Nat) : MatchedId pairs (.runtime path) (.runtime path)

/-- Sites of the runtime class in two trees. -/
structure SameRuntime (s s' : Site) : Prop where
  id : ∃ path, s.id = .runtime path ∧ s'.id = .runtime path
  node : s.node = s'.node
  frame : SameFrame s.above s'.above

theorem SameRuntime.children (same : SameRuntime s s') : Forall₂ SameRuntime s.children s'.children := by
  rw [Site.children, Site.children, ← same.node]
  refine childrenFrom_related (fun index n => ?_) 0 _
  obtain ⟨path, id, id'⟩ := same.id
  refine ⟨⟨path ++ [index], by rw [id]; rfl, by rw [id']; rfl⟩, rfl, ?_⟩
  exact .cons (congrArg Declaration.untyped (congrArg Node.decl same.node)) same.frame

theorem Site.PairedRing.frame {above above' : List (NodeId × Node)} (ring : PairedRing pairs above above') :
    SameFrame above above' := by
  induction ring with
  | nil => exact .nil
  | cons first _ ih => exact .cons (congrArg Declaration.untyped first.2) ih

namespace Site.Matching

include matching

theorem samePath_iff {one one' two two' : List Nat} (same : SamePath pairs one one')
    (sameToo : SamePath pairs two two') :
    one = two ↔ one' = two' := by
  obtain ⟨pair, member, left, right⟩ := same
  obtain ⟨other, memberToo, leftToo, rightToo⟩ := sameToo
  have both := matching.id_iff member memberToo
  rw [left, right, leftToo, rightToo] at both
  simpa using both

theorem matchedId_iff {i i' j j' : NodeId} (same : MatchedId pairs i i') (sameToo : MatchedId pairs j j') :
    i = j ↔ i' = j' := by
  cases same with
  | declared same =>
    cases sameToo with
    | declared sameToo => simpa using matching.samePath_iff same sameToo
    | implicit | runtime => simp
  | implicit same destructor =>
    cases sameToo with
    | implicit sameToo destructor' => simp [matching.samePath_iff same sameToo]
    | declared | runtime => simp
  | runtime path => cases sameToo <;> simp

theorem exists_path (member : pair ∈ pairs) :
    ∃ path path', pair.1.id = .declared path ∧ pair.2.id = .declared path' := by
  have declared (n : Node) : (root n).id = .declared [] := rfl
  obtain ⟨path, left⟩ := id_of_mem_walk (declared tree) (matching.mem_left member)
  obtain ⟨path', right⟩ := id_of_mem_walk (declared tree') (matching.mem_right member)
  exact ⟨_, _, left, right⟩

theorem matchedId (member : pair ∈ pairs) : MatchedId pairs pair.1.id pair.2.id := by
  obtain ⟨path, path', left, right⟩ := matching.exists_path member
  rw [left, right]
  exact .declared ⟨pair, member, left, right⟩

omit matching in
/-- The sites of reordered trees that belong together. -/
def pairing (matching : Matching [] pairs [root tree] [root tree']) : Pairing where
  SameId := MatchedId pairs
  Twin s s' := (s, s') ∈ pairs ∨ SameRuntime s s'
  biunique := matching.matchedId_iff
  sameId twin := by
    rcases twin with member | same
    · exact matching.matchedId member
    · obtain ⟨path, id, id'⟩ := same.id
      rw [id, id']
      exact .runtime path
  decl twin := by
    rcases twin with member | same
    · exact (matching.coupled _ member).decl
    · exact congrArg Node.decl same.node
  frame twin := by
    rcases twin with member | same
    · exact (matching.coupled _ member).ring.frame
    · exact same.frame
  children {s s'} twin kind := by
    rcases twin with member | same
    · have fixed : s.decl.isReorderable = false := by
        have kind : s.decl.kind = .classDecl ∨ s.decl.kind = .enumDecl := kind
        rcases kind with kind | kind <;> simp [Declaration.isReorderable, kind]
      exact ((matching.coupled _ member).children fixed).imp fun _ _ member => .inl member
    · exact same.children.imp fun _ _ same => .inr same
  implicit {s s'} twin destructor := by
    unfold Members.implicitId
    rcases twin with member | same
    · obtain ⟨path, path', left, right⟩ := matching.exists_path member
      dsimp only at left right
      rw [left, right]
      exact .implicit ⟨_, member, left, right⟩ destructor
    · obtain ⟨path, id, id'⟩ := same.id
      rw [id, id']
      exact .runtime path

end Site.Matching

namespace SymbolTable

variable {names : Site → List String} {sites sites' : List Site} {table middle table' : SymbolTable}

/-- No name stands for two sites. -/
def Unambiguous (names : Site → List String) (sites : List Site) : Prop :=
  ∀ one ∈ sites, ∀ two ∈ sites, ∀ name ∈ names one, name ∈ names two → one = two

theorem Unambiguous.of_nodup (distinct : (sites.flatMap names).Nodup) : Unambiguous names sites := by
  have symmetric : Std.Symm (Function.onFun List.Disjoint names) :=
    ⟨fun _ _ apart _ named namedToo => apart namedToo named⟩
  intro one member two memberToo name named namedToo
  by_contra other
  exact (nodup_flatMap.mp distinct).2.forall member memberToo other named namedToo

theorem lookup_eq_some_iff (unique : Unambiguous names sites) {name : String} :
    (sites.flatMap fun s => (names s).map (·, s)).lookup name = some s ↔ s ∈ sites ∧ name ∈ names s := by
  have listed (site : Site) : (name, site) ∈ (sites.flatMap fun s => (names s).map (·, s)) ↔
      site ∈ sites ∧ name ∈ names site := by
    simp only [mem_flatMap, mem_map, Prod.mk.injEq]
    constructor
    · rintro ⟨_, member, _, named, rfl, rfl⟩
      exact ⟨member, named⟩
    · rintro ⟨member, named⟩
      exact ⟨site, member, name, named, rfl, rfl⟩
  have sound {site : Site} (found : (sites.flatMap fun s => (names s).map (·, s)).lookup name = some site) :
      site ∈ sites ∧ name ∈ names site := by
    obtain ⟨before, after, same, _⟩ := List.lookup_eq_some_iff.mp found
    exact (listed site).mp (by simp [same])
  refine ⟨sound, fun ⟨member, named⟩ => ?_⟩
  cases found : (sites.flatMap fun s => (names s).map (·, s)).lookup name with
  | none =>
    have absent := lookup_eq_none_iff.mp found (name, s) ((listed s).mpr ⟨member, named⟩)
    simp at absent
  | some site =>
    obtain ⟨memberToo, namedToo⟩ := sound found
    rw [unique site memberToo s member name namedToo named]

theorem lookup_eq_of_perm (unique : Unambiguous names sites) (order : sites.Perm sites') (name : String) :
    (sites.flatMap fun s => (names s).map (·, s)).lookup name =
      (sites'.flatMap fun s => (names s).map (·, s)).lookup name := by
  have uniqueToo : Unambiguous names sites' := fun one member two memberToo =>
    unique one (order.mem_iff.mpr member) two (order.mem_iff.mpr memberToo)
  ext s
  rw [lookup_eq_some_iff unique, lookup_eq_some_iff uniqueToo, order.mem_iff]

/-- Tables that give the same answers. -/
structure Agrees (table table' : SymbolTable) : Prop where
  classes : ∀ name, table.classes.lookup name = table'.classes.lookup name
  enums : ∀ name, table.enums.lookup name = table'.enums.lookup name
  typedefs : ∀ name, table.typedefs.lookup name = table'.typedefs.lookup name
  bases : ∀ name, name ∈ table.typedefBases ↔ name ∈ table'.typedefBases
  size : table.classes.length = table'.classes.length

theorem Agrees.register (same : Agrees table table') (s : Site) : Agrees (table.register s) (table'.register s) where
  classes name := by simp only [SymbolTable.register, lookup_append, same.classes]
  enums name := by simp only [SymbolTable.register, lookup_append, same.enums]
  typedefs name := by simp only [SymbolTable.register, lookup_append, same.typedefs]
  bases name := by
    have bases := same.bases name
    simp only [SymbolTable.register, typedefBases, filterMap_append, mem_append] at bases ⊢
    rw [bases]
  size := by simp only [SymbolTable.register, length_append, same.size]

theorem Counterpart.of_agrees {pairing : Pairing} (tables : table.Counterpart pairing middle)
    (same : middle.Agrees table') :
    table.Counterpart pairing table' where
  classes name := same.classes name ▸ tables.classes name
  enums name := same.enums name ▸ tables.enums name
  typedefs name := same.typedefs name ▸ tables.typedefs name
  bases name := (tables.bases name).trans (same.bases name)
  size := tables.size.trans same.size

/-- No two classes, no two enums and no two typedefs are filed under the same name. -/
structure Distinct (sites : List Site) : Prop where
  classes : Unambiguous classNames sites
  enums : Unambiguous enumNames sites
  typedefs : Unambiguous typedefNames sites

theorem Agrees.ofSites (distinct : Distinct sites) (order : sites.Perm sites') :
    Agrees (.ofSites sites) (.ofSites sites') := by
  rw [ofSites_eq, ofSites_eq]
  exact
    { classes := lookup_eq_of_perm distinct.classes order
      enums := lookup_eq_of_perm distinct.enums order
      typedefs := lookup_eq_of_perm distinct.typedefs order
      bases := fun _ => ((order.flatMap_right _).filterMap _).mem_iff
      size := (order.flatMap_right _).length_eq }

end SymbolTable

namespace Site.Matching

include matching

theorem aligned : Aligned matching.pairing (.ofTree (root tree)) (.ofSites (pairs.map (·.2))) := by
  have walks : Forall₂ (fun s s' => matching.pairing.Twin s s' ∨ ¬ IsFiled s ∧ ¬ IsFiled s')
      (pairs.map (·.1)) (pairs.map (·.2)) := by
    rw [forall₂_map_left_iff, forall₂_map_right_iff]
    exact forall₂_same.mpr fun _ member => .inl (.inl member)
  rw [matching.walk_left] at walks
  exact Aligned.ofSites walks

theorem unambiguous {names : Site → List String} (same : ∀ pair ∈ pairs, names pair.1 = names pair.2)
    (unique : Unambiguous names (root tree).walk) : Unambiguous names (pairs.map (·.2)) := by
  intro one member two memberToo name named namedToo
  obtain ⟨pair, listed, rfl⟩ := mem_map.mp member
  obtain ⟨other, listedToo, rfl⟩ := mem_map.mp memberToo
  rw [← same _ listed] at named
  rw [← same _ listedToo] at namedToo
  have first := unique _ (matching.mem_left listed) _ (matching.mem_left listedToo) name named namedToo
  have ids := (matching.id_iff listed listedToo).mp (congrArg Site.id first)
  have declared : (root tree').id = .declared [] := rfl
  exact eq_of_mem_walk declared (matching.mem_right listed) (matching.mem_right listedToo) ids

theorem agrees (distinct : Distinct (root tree).walk) : Agrees (.ofSites (pairs.map (·.2))) (.ofTree (root tree')) := by
  have twin (pair : Site × Site) (member : pair ∈ pairs) : matching.pairing.Twin pair.1 pair.2 := .inl member
  refine Agrees.ofSites ⟨?_, ?_, ?_⟩ matching.walk_right
  · exact matching.unambiguous (fun pair member => classNames_eq (twin pair member)) distinct.classes
  · exact matching.unambiguous (fun pair member => enumNames_eq (twin pair member)) distinct.enums
  · exact matching.unambiguous (fun pair member => typedefNames_eq (twin pair member)) distinct.typedefs

end Site.Matching

end FlatAbi
