import FlatAbi.Proofs.Declaration.Walk

/-!
Trees whose names are text. Every scope in them has a name that others can be looked up from.
-/

namespace FlatAbi

open List Value

theorem Value.exists_of_isText {v : Value} (text : v.isText) : ∃ s, v = .string s := by
  cases v with
  | string s => exact ⟨s, rfl⟩
  | _ => cases text

/-- Name, symbol and bases are text, as far as they are given. -/
structure Declaration.IsTextual (d : Declaration) : Prop where
  name : d.givenName.isText
  symbol : d.givenSymbol.isNull ∨ d.givenSymbol.isText
  bases : ∀ base ∈ d.bases, base.isText

instance (d : Declaration) : Decidable d.IsTextual :=
  decidable_of_iff (d.givenName.isText ∧ (d.givenSymbol.isNull ∨ d.givenSymbol.isText) ∧
      ∀ base ∈ d.bases, base.isText)
    ⟨fun ⟨name, symbol, bases⟩ => ⟨name, symbol, bases⟩, fun textual => ⟨textual.name, textual.symbol, textual.bases⟩⟩

namespace Site

variable {root site : Site}

def IsTextual (root : Site) : Prop :=
  ∀ site ∈ root.walk, site.decl.IsTextual

instance (root : Site) : Decidable root.IsTextual :=
  inferInstanceAs (Decidable (∀ site ∈ root.walk, site.decl.IsTextual))

theorem above_of_mem_walk (member : site ∈ root.walk) :
    ∀ entry ∈ site.above, entry ∈ root.above ∨ ∃ outer ∈ root.walk, outer.node = entry.2 := by
  induction root using children_induction with
  | step root ih =>
    rw [walk_eq] at member
    rcases mem_cons.mp member with rfl | member
    · exact fun entry around => .inl around
    · obtain ⟨child, listed, member⟩ := mem_flatMap.mp member
      intro entry around
      rcases ih child listed member entry around with around | ⟨outer, inside, same⟩
      · rw [above_of_mem_childrenFrom listed] at around
        rcases mem_cons.mp around with rfl | around
        · exact .inr ⟨root, mem_walk_self root, rfl⟩
        · exact .inl around
      · exact .inr ⟨outer, walk_child_subset listed inside, same⟩

variable {above : List (NodeId × Node)}

theorem checkScopeOf_of_isText (text : ∀ entry ∈ above, entry.2.decl.givenName.isText) :
    checkScopeOf above = .ok () := by
  induction above with
  | nil => rfl
  | cons entry rest ih =>
    obtain ⟨id, n⟩ := entry
    obtain ⟨here, outer⟩ := forall_mem_cons.mp text
    obtain ⟨name, isName⟩ := exists_of_isText here
    have outside := ih outer
    unfold checkScopeOf
    split
    · exact outside
    · exact outside
    · simp only [isName, searchable, outside]
      split <;> rfl
    · simp only [isName, searchable, outside]
      split <;> rfl
    · rfl

theorem inside_suffix_of_closest {through : Kind → Bool} (found : closest through above = some site) :
    site.inside <:+ above := by
  induction above with
  | nil => cases found
  | cons entry rest ih =>
    unfold closest at found
    split at found
    · exact (ih found).trans (suffix_cons _ _)
    · cases found
      exact suffix_rfl

theorem mem_of_closest {through : Kind → Bool} (found : closest through above = some site) :
    (site.id, site.node) ∈ above :=
  (inside_suffix_of_closest found).subset mem_cons_self

theorem scopeValue_of_isText (text : ∀ entry ∈ site.above, entry.2.decl.givenName.isText) : site.scopeValue.isText := by
  unfold scopeValue
  cases found : site.scope? with
  | none => rfl
  | some scope =>
    have named : scope.decl.givenName.isText :=
      text _ (mem_of_closest (Option.filter_eq_some_iff.mp found).1)
    change scope.qualifiedValue.isText
    rw [qualifiedValue, if_pos named]
    rfl

theorem IsTextual.scope {tree : Node} (textual : (Site.root tree).IsTextual) (member : site ∈ (Site.root tree).walk) :
    site.checkScope = .ok () ∧ site.scopeValue.isText := by
  have text : ∀ entry ∈ site.above, entry.2.decl.givenName.isText := by
    intro entry around
    rcases above_of_mem_walk member entry around with outside | ⟨outer, inside, same⟩
    · cases outside
    · rw [← same]
      exact (textual outer inside).name
  exact ⟨checkScopeOf_of_isText text, scopeValue_of_isText text⟩

end Site

end FlatAbi
