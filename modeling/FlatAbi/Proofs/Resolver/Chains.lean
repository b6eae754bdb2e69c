import FlatAbi.Proofs.Declaration.Namesakes
import FlatAbi.Resolver.Typedefs
import Mathlib.Logic.Relation

/-!
Chains of typedefs. Tables with the same typedefs resolve alike, whichever names outside the chain are pending.
-/

namespace FlatAbi.SymbolTable

open Relation

variable {table table' : SymbolTable} {name : String} {site : Site} {one two start : String × String}

/-- One step along a chain of typedefs: from a name seen in a scope to the name that it stands for, seen where its
typedef is declared. -/
def Step (table : SymbolTable) (one two : String × String) : Prop :=
  ∃ site target, table.typedef? one.1 one.2 = some site ∧ site.decl.type = some target ∧
    two = (target.base, site.scopeName)

/-- The chain of typedefs from a name in a scope comes to another name. -/
def Comes (table : SymbolTable) (start : String × String) (name : String) : Prop :=
  ∃ scope, ReflTransGen table.Step start (name, scope)

theorem comes_self {scope : String} : table.Comes (name, scope) name := ⟨scope, .refl⟩

theorem Comes.of_step (step : table.Step one two) (comes : table.Comes two name) : table.Comes one name :=
  comes.imp fun _ chain => .head step chain

theorem Comes.cases (comes : table.Comes one name) :
    one.1 = name ∨ ∃ site target, table.typedef? one.1 one.2 = some site ∧ site.decl.type = some target ∧
      table.Comes (target.base, site.scopeName) name := by
  obtain ⟨scope, chain⟩ := comes
  rcases chain.cases_head with rfl | ⟨_, ⟨site, target, found, typed, rfl⟩, rest⟩
  · exact .inl rfl
  · exact .inr ⟨site, target, found, typed, scope, rest⟩

/-- A name seen from a scope stands for another name, seen where its typedef is declared. Builtin names stand for
themselves. -/
def Leads (table : SymbolTable) (one two : String × String) : Prop :=
  isBuiltinName one.1 = false ∧ table.Step one two

/-- A typedef is met under a spelling when names are followed from one in a scope. -/
def Meets (table : SymbolTable) (start : String × String) (name : String) (site : Site) : Prop :=
  ∃ scope, ReflTransGen table.Leads start (name, scope) ∧ isBuiltinName name = false ∧
    table.typedef? name scope = some site

theorem Meets.of_leads (leads : table.Leads one two) (meets : table.Meets two name site) : table.Meets one name site :=
  meets.imp fun _ chain => ⟨.head leads chain.1, chain.2⟩

theorem Meets.comes (meets : table.Meets start name site) : table.Comes start name :=
  meets.imp fun _ chain => chain.1.lift id fun _ _ leads => leads.2

theorem Meets.cases (meets : table.Meets start name site) :
    isBuiltinName start.1 = false ∧
      (name = start.1 ∧ table.typedef? start.1 start.2 = some site ∨
        ∃ next, table.Step start next ∧ table.Meets next name site) := by
  obtain ⟨scope, chain, isName, found⟩ := meets
  rcases chain.cases_head with rfl | ⟨next, leads, rest⟩
  · exact ⟨isName, .inl ⟨rfl, found⟩⟩
  · exact ⟨leads.1, .inr ⟨next, leads.2, scope, rest, isName, found⟩⟩

/-- Typedefs of the same names stand for the same types, in the same scopes. -/
def SameTypedefs (table table' : SymbolTable) : Prop :=
  ∀ name scope, Option.Rel (fun s s' => s.decl.type = s'.decl.type ∧ s.Namesake s')
    (table.typedef? name scope) (table'.typedef? name scope)

theorem SameTypedefs.of_eq (same : table.typedefs = table'.typedefs) : table.SameTypedefs table' := by
  intro name scope
  rw [typedef?, typedef?, same]
  cases find? table'.typedefs name scope with
  | none => exact .none
  | some site => exact .some ⟨rfl, .refl site⟩

variable (tables : table.SameTypedefs table') {pending pending' : List String} {t : CxxType}

include tables

/-- Only spellings under which a typedef is met need to be pending. -/
theorem SameTypedefs.resolveFrom_eq {scope : String}
    (same : ∀ other site, table.Meets (t.base, scope) other site → (other ∈ pending ↔ other ∈ pending')) :
    table.resolveFrom pending t scope = table'.resolveFrom pending' t scope := by
  fun_induction SymbolTable.resolveFrom table pending t scope generalizing pending' with
  | case1 pending t scope builtin => rw [resolveFrom, if_pos builtin]
  | case2 pending t scope named isOpen unknown =>
    rw [resolveFrom, if_neg named, eq_none_of_rel (tables t.base scope) unknown]
    split <;> rfl
  | case3 pending t scope named isOpen site found untyped =>
    obtain ⟨site', foundToo, type, _⟩ := exists_of_rel (tables t.base scope) found
    rw [resolveFrom, if_neg named, foundToo]
    simp only [← type, untyped, dite_eq_ite, ite_self]
  | case4 pending t scope named isOpen site found target typed ih =>
    obtain ⟨site', foundToo, type, alike⟩ := exists_of_rel (tables t.base scope) found
    have plain : isBuiltinName t.base = false := Bool.eq_false_iff.mpr named
    have leads : table.Leads (t.base, scope) (target.base, site.scopeName) :=
      ⟨plain, site, target, found, typed, rfl⟩
    have next : table.resolveFrom (strike t.base pending) (target.under t.declarators) site.scopeName =
        table'.resolveFrom (strike t.base pending') (target.under t.declarators) site.scopeName :=
      ih fun other site meets => by simp [strike, same other site (meets.of_leads leads)]
    have stillOpen := (same _ site ⟨scope, .refl, plain, found⟩).mp isOpen
    rw [next, resolveFrom.eq_def table' pending', if_neg named, dif_pos stillOpen, foundToo]
    simp only [← type, typed, ← alike.scopeName]
  | case5 pending t scope named closed =>
    rw [resolveFrom, if_neg named]
    split
    · rename_i isOpen
      rcases rel_cases (tables t.base scope) with ⟨_, unknown⟩ | ⟨site, _, found, _⟩
      · rw [unknown]
      · exact absurd ((same _ site ⟨scope, .refl, Bool.eq_false_iff.mpr named, found⟩).mpr isOpen) closed
    · rfl

theorem SameTypedefs.checkFrom_eq {scope : Value}
    (same : ∀ other, table.Comes (t.base, scope.display) other → (other ∈ pending ↔ other ∈ pending')) :
    table.checkFrom pending t scope = table'.checkFrom pending' t scope := by
  fun_induction SymbolTable.checkFrom table pending t scope generalizing pending' with
  | case1 pending t scope builtin => rw [checkFrom, if_pos builtin]
  | case2 pending t scope named isOpen ih =>
    rw [checkFrom, if_neg named, dif_pos ((same _ comes_self).mp isOpen)]
    refine congrArg (scope.checkText >>= ·) (funext fun _ => ?_)
    rcases rel_cases (tables t.base scope.display) with ⟨found, foundToo⟩ | ⟨site, site', found, foundToo, type, alike⟩
    · rw [found, foundToo]
    · rw [found, foundToo]
      simp only [← type, ← alike.checkScope, ← alike.scopeValue]
      cases typed : site.decl.type with
      | none => rfl
      | some target =>
        have step : table.Step (t.base, scope.display) (target.base, site.scopeName) :=
          ⟨site, target, found, typed, rfl⟩
        refine congrArg (site.checkScope >>= ·) (funext fun _ => ih site target fun other comes => ?_)
        rw [Site.display_scopeValue] at comes
        simp [strike, same other (comes.of_step step)]
  | case3 pending t scope named closed =>
    rw [checkFrom, if_neg named, dif_neg fun isOpen => closed ((same _ comes_self).mpr isOpen)]

end FlatAbi.SymbolTable
