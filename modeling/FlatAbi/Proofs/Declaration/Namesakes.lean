import FlatAbi.Naming.Basic
import Mathlib.Data.List.Forall2
import Mathlib.Data.Option.Basic

/-!
Sites with the same names. Names do not depend on types, nor on includes around a declaration.
-/

namespace FlatAbi

open List Declaration Value

/-- A declaration without its types. -/
def Declaration.untyped (d : Declaration) : Declaration :=
  { d with type := none, parameters := [] }

namespace Site

/-- Surroundings that look the same from inside. -/
inductive SameFrame : List (NodeId × Node) → List (NodeId × Node) → Prop where
  | nil : SameFrame [] []
  | cons {id id' : NodeId} {n n' : Node} {rest rest' : List (NodeId × Node)}
      (decl : n.decl.untyped = n'.decl.untyped) (outer : SameFrame rest rest') :
      SameFrame ((id, n) :: rest) ((id', n') :: rest')
  | skip {id : NodeId} {n : Node} {rest rest' : List (NodeId × Node)} (group : n.kind = .includeDecl)
      (plain : (n.decl.feature "nspace").truthy = false) (outer : SameFrame rest rest') :
      SameFrame ((id, n) :: rest) rest'

theorem SameFrame.refl (above : List (NodeId × Node)) : SameFrame above above := by
  induction above with
  | nil => exact .nil
  | cons _ _ ih => exact .cons rfl ih

/-- Sites with the same names. -/
structure Namesake (s s' : Site) : Prop where
  untyped : s.decl.untyped = s'.decl.untyped
  frame : SameFrame s.above s'.above

end Site

section untyped

variable {d d' : Declaration} (same : d.untyped = d'.untyped)

include same

theorem Declaration.kind_eq : d.kind = d'.kind :=
  (congrArg Declaration.kind same :)

theorem Declaration.givenName_eq : d.givenName = d'.givenName :=
  (congrArg Declaration.givenName same :)

theorem Declaration.feature_eq (key : String) : d.feature key = d'.feature key := by
  have features : d.features = d'.features := (congrArg Declaration.features same :)
  rw [feature, feature, features]

theorem Declaration.attr_eq (key : String) : d.attr key = d'.attr key := by
  have attributes : d.attributes = d'.attributes := (congrArg Declaration.attributes same :)
  rw [attr, attr, attributes]

theorem Declaration.symbolValue_eq : d.symbolValue = d'.symbolValue := by
  have symbol : d.givenSymbol = d'.givenSymbol := (congrArg givenSymbol same :)
  rw [symbolValue, symbolValue, symbol, givenName_eq same]

end untyped

section rel

variable {α β : Type} {Rel : α → β → Prop} {a : Option α} {b : Option β}

section

variable (rel : Option.Rel Rel a b)

include rel

theorem rel_cases : (a = none ∧ b = none) ∨ ∃ x y, a = some x ∧ b = some y ∧ Rel x y := by
  cases rel with
  | none => exact .inl ⟨rfl, rfl⟩
  | some related => exact .inr ⟨_, _, rfl, rfl, related⟩

@[elab_as_elim] theorem rel_elim {motive : Option α → Option β → Prop} (absent : motive none none)
    (present : ∀ x y, Rel x y → motive (some x) (some y)) : motive a b := by
  cases rel with
  | none => exact absent
  | some related => exact present _ _ related

theorem eq_none_of_rel (absent : a = none) : b = none := by
  subst absent
  cases rel
  rfl

theorem exists_of_rel {x : α} (found : a = some x) : ∃ y, b = some y ∧ Rel x y := by
  subst found
  cases rel with
  | some related => exact ⟨_, rfl, related⟩

theorem isSome_eq_of_rel : a.isSome = b.isSome := by
  cases rel <;> rfl

theorem map_toList_eq_of_rel {γ : Type} {f : α → γ} {g : β → γ} (same : ∀ x y, Rel x y → f x = g y) :
    a.toList.map f = b.toList.map g := by
  cases rel with
  | none => rfl
  | some related => exact congrArg (fun c => [c]) (same _ _ related)

theorem forM_eq_of_rel {m : Type → Type} [Monad m] {f : α → m PUnit} {g : β → m PUnit}
    (same : ∀ x y, Rel x y → f x = g y) : a.forM f = b.forM g := by
  cases rel with
  | none => rfl
  | some related => exact same _ _ related

theorem rel_filter {p : α → Bool} {q : β → Bool} (same : ∀ x y, Rel x y → p x = q y) :
    Option.Rel Rel (a.filter p) (b.filter q) := by
  cases rel with
  | none => exact .none
  | @some x y related =>
    rw [Option.filter_some, Option.filter_some, same x y related]
    split
    · exact .some related
    · exact .none

end

theorem rel_findSome {γ : Type} {f : γ → Option α} {g : γ → Option β} {items : List γ}
    (each : ∀ item, Option.Rel Rel (f item) (g item)) : Option.Rel Rel (items.findSome? f) (items.findSome? g) := by
  induction items with
  | nil => exact .none
  | cons item rest ih =>
    rw [findSome?_cons, findSome?_cons]
    exact rel_elim (each item) ih fun _ _ related => .some related

end rel

section lists

variable {α β γ δ : Type} {Rel : α → β → Prop} {items : List α} {others : List β}

section

variable {f : α → Bool} {g : β → Bool} (listed : Forall₂ Rel items others)

include listed

theorem exists_of_mem_right {b : β} (member : b ∈ others) : ∃ a ∈ items, Rel a b := by
  induction listed with
  | nil => cases member
  | @cons first other _ _ related _ ih =>
    rcases mem_cons.mp member with rfl | member
    · exact ⟨first, by simp, related⟩
    · obtain ⟨a, listed, related⟩ := ih member
      exact ⟨a, by simp [listed], related⟩

theorem map_eq_of_forall₂ {f : α → γ} {g : β → γ} (same : ∀ a b, Rel a b → f a = g b) : items.map f = others.map g := by
  induction listed with
  | nil => rfl
  | cons first _ ih => rw [map_cons, map_cons, same _ _ first, ih]

theorem flatMap_eq_of_forall₂ {f : α → List γ} {g : β → List γ} (same : ∀ a b, Rel a b → f a = g b) :
    items.flatMap f = others.flatMap g := by
  rw [flatMap_def, flatMap_def, map_eq_of_forall₂ listed same]

theorem forM_eq_of_forall₂ {m : Type → Type} [Monad m] {f : α → m PUnit} {g : β → m PUnit}
    (same : ∀ a b, Rel a b → f a = g b) : items.forM f = others.forM g := by
  induction listed with
  | nil => rfl
  | cons first _ ih => exact congrArg₂ (· >>= ·) (same _ _ first) (funext fun _ => ih)

theorem any_eq_of_forall₂ (same : ∀ a b, Rel a b → f a = g b) : items.any f = others.any g := by
  induction listed with
  | nil => rfl
  | cons first _ ih => rw [any_cons, any_cons, same _ _ first, ih]

theorem forall₂_filter (same : ∀ a b, Rel a b → f a = g b) : Forall₂ Rel (items.filter f) (others.filter g) :=
  List.rel_filter (fun a b related => Bool.eq_iff_iff.mp (same a b related)) listed

theorem rel_find (same : ∀ a b, Rel a b → f a = g b) : Option.Rel Rel (items.find? f) (others.find? g) := by
  induction listed with
  | nil => exact .none
  | cons first _ ih =>
    rw [find?_cons, find?_cons, same _ _ first]
    split
    · exact .some first
    · exact ih

theorem filterMap_eq_of_forall₂ {f : α → Option γ} {g : β → Option γ} (same : ∀ a b, Rel a b → f a = g b) :
    items.filterMap f = others.filterMap g := by
  induction listed with
  | nil => rfl
  | cons first _ ih => rw [filterMap_cons, filterMap_cons, same _ _ first, ih]

end

end lists

namespace Site

variable {s s' : Site} {above above' : List (NodeId × Node)}

theorem SameFrame.scope_eq (frame : SameFrame above above') :
    scopeNameOf above = scopeNameOf above' ∧ checkScopeOf above = checkScopeOf above' := by
  induction frame with
  | nil => exact ⟨rfl, rfl⟩
  | @cons id id' n n' rest rest' decl outer ih =>
    have kind : n.kind = n'.kind := kind_eq decl
    simp only [scopeNameOf, checkScopeOf, kind, ih.1, ih.2, givenName_eq decl, and_self]
  | skip group plain outer ih => simpa only [scopeNameOf, checkScopeOf, group] using ih

/-- The closest sites around namesakes are namesakes, as long as includes are seen through. -/
theorem SameFrame.closest_rel {through : Kind → Bool} (includes : through .includeDecl)
    (frame : SameFrame above above') : Option.Rel Namesake (closest through above) (closest through above') := by
  induction frame with
  | nil => exact .none
  | @cons id id' n n' rest rest' decl outer ih =>
    have kind : n.kind = n'.kind := kind_eq decl
    simp only [closest, kind]
    split
    · exact ih
    · exact .some ⟨decl, outer⟩
  | skip group plain outer ih => simpa only [closest, group, includes, if_true] using ih

theorem scope_rel {SameId : NodeId → NodeId → Prop}
    (ring : Forall₂ (fun entry entry' => SameId entry.1 entry'.1 ∧ entry.2.kind = entry'.2.kind) s.above s'.above) :
    Option.Rel SameId (s.scope?.map (·.id)) (s'.scope?.map (·.id)) := by
  unfold scope?
  generalize s.above = above, s'.above = above' at ring
  induction ring with
  | nil => exact .none
  | @cons entry entry' _ _ first _ ih =>
    obtain ⟨id, n⟩ := entry
    obtain ⟨id', n'⟩ := entry'
    obtain ⟨ids, kind⟩ := first
    unfold closest
    rw [kind]
    split
    · exact ih
    · simp only [Option.filter_some, Site.kind, kind]
      split
      · exact .some ids
      · exact .none

theorem SameFrame.namedNamespaces_eq (frame : SameFrame above above') :
    (((above.map fun e => e.2.decl).filter fun d => d.kind == .namespaceDecl && d.hasName).map (·.givenName)) =
      (((above'.map fun e => e.2.decl).filter fun d => d.kind == .namespaceDecl && d.hasName).map (·.givenName)) := by
  induction frame with
  | nil => rfl
  | @cons id id' n n' rest rest' decl outer ih =>
    have name := givenName_eq decl
    have shown : n.decl.hasName = n'.decl.hasName := congrArg truthy name
    simp only [map_cons, filter_cons, kind_eq decl, shown]
    split
    · rw [map_cons, map_cons, name, ih]
    · exact ih
  | @skip id n rest rest' group plain outer ih =>
    have kind : n.decl.kind = .includeDecl := group
    rw [map_cons, filter_cons_of_neg (by simp [kind])]
    exact ih

theorem SameFrame.usesNamespace_eq (frame : SameFrame above above') :
    (above.any fun e => (e.2.decl.feature "nspace").truthy) =
      above'.any fun e => (e.2.decl.feature "nspace").truthy := by
  induction frame with
  | nil => rfl
  | cons decl outer ih => rw [any_cons, any_cons, ih, feature_eq decl]
  | skip group plain outer ih => rw [any_cons, plain, Bool.false_or, ih]

theorem display_qualifiedValue (site : Site) : site.qualifiedValue.display = site.qualifiedName := by
  unfold qualifiedValue
  split
  · rfl
  · split
    · rename_i plain
      unfold qualifiedName qualify
      cases separated : site.decl.givenName.holdsSeparator with
      | true => rfl
      | false =>
        have global : site.scopeName = "" := by simpa [separated] using plain
        simp [global]
    · rfl

theorem display_scopeValue (site : Site) : site.scopeValue.display = site.scopeName := by
  obtain ⟨id, node, above⟩ := site
  induction above generalizing id node with
  | nil => rfl
  | cons outer rest ih =>
    obtain ⟨outerId, outerNode⟩ := outer
    cases kind : outerNode.kind with
    | includeDecl | importDecl =>
      simpa [scopeValue, scope?, scopeName, scopeNameOf, closest, kind] using ih id node
    | namespaceDecl | classDecl =>
      have shown := display_qualifiedValue ⟨outerId, outerNode, rest⟩
      simpa [scopeValue, scope?, scopeName, scopeNameOf, closest, Site.kind, kind, Option.filter, qualifiedName,
        Site.decl] using shown
    | _ => simp [scopeValue, scope?, scopeName, scopeNameOf, closest, Site.kind, kind, Option.filter, display]

namespace Namesake

theorem refl (s : Site) : Namesake s s := ⟨rfl, .refl _⟩

theorem of_decl (decl : s.decl = s'.decl) (frame : SameFrame s.above s'.above) : Namesake s s' :=
  ⟨congrArg Declaration.untyped decl, frame⟩

variable (same : Namesake s s')

include same

theorem kind : s.kind = s'.kind := kind_eq same.untyped

theorem givenName : s.decl.givenName = s'.decl.givenName := givenName_eq same.untyped

theorem name : s.name = s'.name := congrArg display same.givenName

theorem hasName : s.decl.hasName = s'.decl.hasName := congrArg truthy same.givenName

theorem shortName : s.decl.shortName = s'.decl.shortName := congrArg Text.lastComponent same.name

theorem checkName : s.decl.checkName = s'.decl.checkName := congrArg checkText same.givenName

theorem symbolValue : s.decl.symbolValue = s'.decl.symbolValue := symbolValue_eq same.untyped

theorem symbol : s.decl.symbol = s'.decl.symbol := congrArg display same.symbolValue

theorem feature (key : String) : s.decl.feature key = s'.decl.feature key := feature_eq same.untyped key

theorem attr (key : String) : s.decl.attr key = s'.decl.attr key := attr_eq same.untyped key

theorem isIgnored : s.decl.isIgnored = s'.decl.isIgnored := congrArg truthy (same.feature "ignore")

theorem file : s.decl.file = s'.decl.file := (congrArg Declaration.file same.untyped :)

theorem line : s.decl.line = s'.decl.line := (congrArg Declaration.line same.untyped :)

theorem cannotThrow : s.decl.cannotThrow = s'.decl.cannotThrow := (congrArg Declaration.cannotThrow same.untyped :)

theorem scopeName : s.scopeName = s'.scopeName := same.frame.scope_eq.1

theorem checkScope : s.checkScope = s'.checkScope := same.frame.scope_eq.2

theorem qualifiedName : s.qualifiedName = s'.qualifiedName := by
  rw [Site.qualifiedName, Site.qualifiedName, same.scopeName, same.givenName]

theorem qualifiedValue : s.qualifiedValue = s'.qualifiedValue := by
  rw [Site.qualifiedValue, Site.qualifiedValue, same.qualifiedName, same.scopeName, same.givenName]

theorem checkQualified : s.checkQualified = s'.checkQualified := by
  rw [Site.checkQualified, Site.checkQualified, same.checkScope, same.givenName]

theorem scope : Option.Rel Namesake s.scope? s'.scope? :=
  rel_filter (same.frame.closest_rel rfl) fun _ _ outer => by rw [outer.kind]

theorem scopeValue : s.scopeValue = s'.scopeValue := by
  unfold Site.scopeValue
  exact rel_elim same.scope rfl fun _ _ outer => outer.qualifiedValue

theorem enclosingClass : Option.Rel Namesake s.enclosingClass? s'.enclosingClass? :=
  rel_filter (same.frame.closest_rel rfl) fun _ _ outer => by rw [outer.kind]

theorem isMember : s.isMember = s'.isMember := isSome_eq_of_rel same.enclosingClass

theorem namespaceNames : s.namedNamespaces.map (·.givenName) = s'.namedNamespaces.map (·.givenName) := by
  rw [namedNamespaces, namedNamespaces, map_reverse, map_reverse]
  exact congrArg reverse same.frame.namedNamespaces_eq

theorem namespaceName : s.namespaceName = s'.namespaceName := by
  have names (t : Site) : t.namedNamespaces.map (·.name) = (t.namedNamespaces.map (·.givenName)).map display := by
    rw [map_map]
    rfl
  rw [Site.namespaceName, Site.namespaceName, names, names, same.namespaceNames]

theorem checkNamespace : s.checkNamespace = s'.checkNamespace := by
  have checks (t : Site) : t.checkNamespace = (t.namedNamespaces.map (·.givenName)).forM checkPart := by
    unfold Site.checkNamespace
    induction t.namedNamespaces with
    | nil => rfl
    | cons d rest ih => exact congrArg (d.givenName.checkPart >>= ·) (funext fun _ => ih)
  rw [checks, checks, same.namespaceNames]

theorem usesNamespace : s.usesNamespace = s'.usesNamespace := by
  have own : (s.node.decl.feature "nspace").truthy = (s'.node.decl.feature "nspace").truthy :=
    congrArg truthy (same.feature "nspace")
  have outer := same.frame.usesNamespace_eq
  exact congrArg₂ or own outer

end Namesake

end Site

namespace Naming

open Site

variable {s s' : Site} (config : Config) (same : Namesake s s')

include same

theorem scopePart_eq : scopePart? s = scopePart? s' := by
  unfold scopePart?
  refine rel_elim same.scope rfl fun _ _ outer => ?_
  simp only [outer.kind, outer.usesNamespace, outer.qualifiedName]

theorem checkScopePart_eq : checkScopePart s = checkScopePart s' := by
  unfold checkScopePart
  refine rel_elim same.scope rfl fun _ _ outer => ?_
  simp only [outer.kind, outer.usesNamespace, outer.checkQualified, outer.qualifiedValue]

theorem freePart_eq : freePart config s = freePart config s' := by
  rw [freePart, freePart, scopePart_eq same]

theorem proxyPart_eq : proxyPart? config s = proxyPart? config s' := by
  rw [proxyPart?, proxyPart?, same.namespaceName, same.usesNamespace]

theorem proxyName_eq : proxyName config s = proxyName config s' := by
  rw [proxyName, proxyName, proxyPart_eq config same, same.symbol]

theorem proxyValue_eq : proxyValue config s = proxyValue config s' := by
  rw [proxyValue, proxyValue, proxyPart_eq config same, same.symbol, same.symbolValue]

theorem checkProxy_eq : checkProxy s = checkProxy s' := same.checkNamespace

theorem classPointer_eq : classPointer config s = classPointer config s' := by
  rw [classPointer, classPointer, proxyName_eq config same]

theorem enumPart_eq : enumPart config s = enumPart config s' := by
  unfold enumPart
  exact rel_elim same.enclosingClass (freePart_eq config same) fun _ _ owner => proxyName_eq config owner

theorem checkEnumPart_eq : checkEnumPart s = checkEnumPart s' := by
  unfold checkEnumPart
  exact rel_elim same.enclosingClass (checkScopePart_eq same) fun _ _ owner => checkProxy_eq owner

theorem isAnonymous_eq : isAnonymous s.decl = isAnonymous s'.decl := by
  rw [isAnonymous, isAnonymous, same.attr, same.hasName]

theorem enumTag_eq : enumTag? config s = enumTag? config s' := by
  rw [enumTag?, enumTag?, isAnonymous_eq same, enumPart_eq config same, same.shortName]

theorem checkEnumTag_eq : checkEnumTag s = checkEnumTag s' := by
  rw [checkEnumTag, checkEnumTag, isAnonymous_eq same, checkEnumPart_eq same, same.checkName]

theorem enumType_eq : enumType? config s = enumType? config s' := by
  rw [enumType?, enumType?, same.attr, enumPart_eq config same, enumTag_eq config same]

theorem checkEnumType_eq : checkEnumType s = checkEnumType s' := by
  rw [checkEnumType, checkEnumType, same.attr, checkEnumPart_eq same, checkEnumTag_eq same]

end Naming

end FlatAbi
