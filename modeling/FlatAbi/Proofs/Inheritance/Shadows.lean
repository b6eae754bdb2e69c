import FlatAbi.Proofs.Inheritance.Memo
import Mathlib.Data.List.Nodup

/-!
The members that a class inherits are different, and each has its own symbol or a longer one.
-/

namespace FlatAbi

open List

variable {cls : Site} {m : Shadow} {offered taken : List Shadow} {memo : Memo} {own : List Atom}

/-- A member under a symbol that is longer than its own. -/
def Shadow.IsLonger (m : Shadow) : Prop :=
  ∃ text, m.symbol = .string text ∧ m.member.decl.symbol.length < text.length

theorem Shadow.IsLonger.symbol_ne (longer : m.IsLonger) : m.symbol ≠ m.member.decl.symbolValue := by
  obtain ⟨text, symbol, longer⟩ := longer
  intro same
  rw [Declaration.symbol, ← same, symbol] at longer
  exact absurd longer (Nat.lt_irrefl _)

namespace Inheritance

variable {table : SymbolTable} {Known Good : Site → Prop}

/-- A member that derived classes offer, under its own symbol or a longer one. -/
structure Lent (Good : Site → Prop) (m : Shadow) : Prop where
  good : Good m.member
  inheritable : isInheritable m.member.decl
  symbol : m.symbol = m.member.decl.symbolValue ∨ m.IsLonger

theorem Lent.rename (lent : Lent Good m) : Lent Good (rename m) ∧ (Inheritance.rename m).IsLonger := by
  have longer : (Inheritance.rename m).IsLonger := by
    refine ⟨_, rfl, ?_⟩
    rcases lent.symbol with own | ⟨text, symbol, longer⟩
    · simp only [String.length_append, Shadow.symName, own]
      change m.member.decl.symbol.length < _ + 1 + m.member.decl.symbol.length
      omega
    · simp only [String.length_append, Shadow.symName, symbol]
      change m.member.decl.symbol.length < _ + 1 + text.length
      omega
  exact ⟨⟨lent.good, lent.inheritable, .inr longer⟩, longer⟩

theorem Lent.givenSymbol (lent : Lent Good m) :
    m.member.decl.givenSymbol.truthy ∧ m.member.decl.symbolValue = m.member.decl.givenSymbol := by
  have inheritable := lent.inheritable
  simp only [isInheritable, isOffered, Bool.and_eq_true] at inheritable
  have truthy := inheritable.1.2
  exact ⟨truthy, if_pos truthy⟩

theorem Lent.truthy (lent : Lent Good m) : m.symbol.truthy := by
  rcases lent.symbol with own | ⟨text, symbol, longer⟩
  · rw [own, lent.givenSymbol.2]
    exact lent.givenSymbol.1
  · rw [symbol, Value.truthy, bne_iff_ne]
    rintro rfl
    exact absurd longer (Nat.not_lt_zero _)

theorem lent_of_handedDown {base : Site} (good : ∀ child ∈ base.children, Good child) :
    ∀ m ∈ handedDown base, Lent Good m := by
  intro m handed
  obtain ⟨child, member, rfl⟩ := mem_map.mp handed
  obtain ⟨listed, inheritable⟩ := mem_filter.mp member
  exact ⟨good child listed, inheritable, .inl rfl⟩

theorem foldl_take_nodup (distinct : (taken.map (·.member.id)).Nodup) :
    ((offered.foldl (take own) taken).map (·.member.id)).Nodup := by
  induction offered generalizing taken with
  | nil => exact distinct
  | cons first rest ih =>
    apply ih
    unfold take
    split
    · exact distinct
    next fresh =>
      simp only [Bool.or_eq_true, not_or, any_eq_true, beq_iff_eq, not_exists, not_and] at fresh
      rw [map_append, nodup_append]
      refine ⟨distinct, nodup_singleton _, ?_⟩
      intro id earlier other last same
      obtain ⟨m, member, rfl⟩ := mem_map.mp earlier
      rw [map_singleton, mem_singleton] at last
      exact fresh.2 m member (same.trans last)

theorem foldl_take_hidden (hidden : ∀ m ∈ taken, isOwn own m = false) :
    ∀ m ∈ offered.foldl (take own) taken, isOwn own m = false := by
  induction offered generalizing taken with
  | nil => exact hidden
  | cons first rest ih =>
    apply ih
    unfold take
    split
    · exact hidden
    next fresh =>
      intro m member
      rcases mem_append.mp member with earlier | last
      · exact hidden m earlier
      · obtain rfl := mem_singleton.mp last
        simp only [Bool.or_eq_true, not_or, Bool.not_eq_true] at fresh
        exact fresh.1

theorem disambiguate_ids (members : List Shadow) :
    (disambiguate members).map (·.member.id) = members.map (·.member.id) := by
  rw [disambiguate, map_map]
  apply map_congr_left
  intro m _
  simp only [Function.comp_apply]
  split <;> rfl

/-- Members that a class with an identity can inherit. -/
structure Inherits (Known Good : Site → Prop) (id : NodeId) (members : List Shadow) : Prop where
  distinct : (members.map (·.member.id)).Nodup
  lent : ∀ m ∈ members, Lent Good m
  hidden : ∀ cls, Known cls → cls.id = id → ∀ m ∈ members, m.symbol = m.member.decl.symbolValue →
    isOwn (ownSymbols cls) m = false

theorem Inherits.nil (id : NodeId) : Inherits Known Good id [] :=
  ⟨nodup_nil, forall_mem_nil _, fun _ _ _ => forall_mem_nil _⟩

theorem Inherits.disambiguate (identifies : ∀ cls other, Known cls → Known other → cls.id = other.id → cls = other)
    (isKnown : Known cls) (lent : ∀ m ∈ offered, Lent Good m) :
    Inherits Known Good cls.id (disambiguate (offered.foldl (take (ownSymbols cls)) [])) := by
  have taken : ∀ m ∈ offered.foldl (take (ownSymbols cls)) [], Lent Good m := forall_take lent (forall_mem_nil _)
  refine ⟨?_, forall_disambiguate (fun _ lent => lent.rename.1) taken, ?_⟩
  · rw [disambiguate_ids]
    exact foldl_take_nodup nodup_nil
  · intro other otherKnown same m listed own
    obtain rfl := identifies other cls otherKnown isKnown same
    obtain ⟨original, member, rfl⟩ := mem_map.mp listed
    split at own
    · exact absurd own (taken original member).rename.2.symbol_ne
    next apart =>
      rw [if_neg apart]
      exact foldl_take_hidden (forall_mem_nil _) original member

/-- Every answer that a memo has is one that its class can inherit. -/
def Memo.Inherits (Known Good : Site → Prop) (memo : Memo) : Prop :=
  ∀ entry ∈ memo.entries, Inheritance.Inherits Known Good entry.1 entry.2

/-- The classes of a table, told apart by their identities. -/
structure Census (table : SymbolTable) (Known Good : Site → Prop) : Prop where
  identifies : ∀ cls other, Known cls → Known other → cls.id = other.id → cls = other
  bases : ∀ cls, ∀ base ∈ usableBases table cls, Known base
  members : ∀ cls, Known cls → ∀ child ∈ cls.children, Good child

theorem Census.fitting (census : Census table Known Good) : Fitting table Known (Lent Good) (Inherits Known Good) where
  nil := .nil
  made isKnown lent := .disambiguate census.identifies isKnown lent
  good := Inherits.lent
  bases cls base listed :=
    ⟨census.bases cls base listed, lent_of_handedDown (census.members base (census.bases cls base listed))⟩

end Inheritance

end FlatAbi
