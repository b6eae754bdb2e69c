import FlatAbi.Emission.Enumeration
import FlatAbi.Proofs.Declaration.Textual
import FlatAbi.Proofs.Emission.Ends

/-!
Enums are written whole or not at all, and both declarations of an enum list the same elements.
-/

namespace FlatAbi

open Emit List Facade Text Value

/-- The names of a site and of all declarations around it are text. -/
def Site.IsNamed (s : Site) : Prop :=
  ∀ entry ∈ s.inside, entry.2.decl.givenName.isText

namespace Site

variable {s outer : Site}

section

variable (named : s.IsNamed)

include named

theorem IsNamed.of_closest {through : Kind → Bool} (found : closest through s.above = some outer) : outer.IsNamed :=
  fun entry listed => named entry (mem_cons_of_mem _ ((inside_suffix_of_closest found).subset listed))

theorem IsNamed.name : s.decl.givenName.isText :=
  named _ mem_cons_self

theorem IsNamed.checkQualified : s.checkQualified = .ok () := by
  obtain ⟨name, isName⟩ := exists_of_isText named.name
  have scope : s.checkScope = .ok () :=
    checkScopeOf_of_isText fun entry listed => named entry (mem_cons_of_mem _ listed)
  unfold Site.checkQualified
  rw [isName, scope]
  split <;> rfl

theorem IsNamed.checkNamespace : s.checkNamespace = .ok () := by
  refine forM_eq_ok_iff.mpr fun d listed => ?_
  simp only [namedNamespaces, mem_reverse, mem_filter, mem_map] at listed
  obtain ⟨⟨entry, around, rfl⟩, _⟩ := listed
  rw [checkPart, if_pos (named entry (mem_cons_of_mem _ around))]

theorem IsNamed.checkScopePart : Naming.checkScopePart s = .ok () := by
  unfold Naming.checkScopePart
  cases found : s.scope? with
  | none => rfl
  | some scope =>
    have outer := named.of_closest (Option.filter_eq_some_iff.mp found).1
    have text : scope.qualifiedValue.checkText = .ok () := by
      rw [qualifiedValue, if_pos outer.name]
      rfl
    simp only [outer.checkQualified, text]
    split <;> rfl

theorem IsNamed.checkEnumPart : Naming.checkEnumPart s = .ok () := by
  unfold Naming.checkEnumPart
  cases found : s.enclosingClass? with
  | none => exact named.checkScopePart
  | some owner => exact (named.of_closest (Option.filter_eq_some_iff.mp found).1).checkNamespace

theorem IsNamed.checkEnumTag : Naming.checkEnumTag s = .ok () := by
  unfold Naming.checkEnumTag
  split
  · rfl
  · rw [named.checkEnumPart, Declaration.checkName, checkText, if_pos named.name]
    rfl

end

end Site

namespace Enumeration

variable {job : Job} {enum element : Site} {cls : Option OpenClass} {before after : Draft}

/-- An element with a boolean value that is neither of the two literals. -/
def IsUnsupported (element : Site) : Prop :=
  (element.decl.attr "enumvalue").isNull = false ∧ valueType element.decl = some "bool" ∧
    (element.decl.attr "enumvalue").display ≠ "true" ∧ (element.decl.attr "enumvalue").display ≠ "false"

/-- What is said about an element with such a value. -/
def complaint (element : Site) : Halt :=
  .rejected ("Unsupported boolean enum value \"" ++ (element.decl.attr "enumvalue").display ++ "\".") (some element)

/-- A text has the elements of an enum one below the other, with the same start before each name. -/
def Lists (text start : String) (items : List EnumItem) : Prop :=
  ∃ head tail, text = head ++ " \x7b\n" ++ join ",\n" (items.map (EnumItem.text start)) ++ "\n" ++ tail

/-- The declarations of an enum: in C, and in the facade where that has the enum. -/
def declarations (config : Config) (enum : Site) (cls : Option OpenClass) (items : List EnumItem) : List Chunk :=
  declaration config enum items :: if inFacade config enum cls then [facadeDeclaration enum items] else []

/-- How writing an enum ends. All elements are read before the first declaration. -/
inductive Writes (job : Job) (enum : Site) (cls : Option OpenClass) (before : Draft) :
    Except Halt Bool → Draft → Prop
  | hidden (hidden : isHidden enum) : Writes job enum cls before (.ok false) before
  | unnamed {cause : Fault} (unnamed : ¬ enum.IsNamed) : Writes job enum cls before (.error (.fault cause)) before
  | refused {halt : Halt} (shown : isHidden enum = false) (failed : (survivors enum).mapM item = .error halt) :
      Writes job enum cls before (.error halt) before
  | empty {name : Value} (shown : isHidden enum = false) (unlisted : (survivors enum).mapM item = .ok []) :
      Writes job enum cls before (.ok false) { before with events := before.events ++ [.enumWithoutElements name] }
  | declared {items : List EnumItem} (shown : isHidden enum = false) (filled : items ≠ [])
      (accepted : (survivors enum).mapM item = .ok items) :
      Writes job enum cls before (.ok true)
        { before with chunks := before.chunks ++ declarations job.config enum cls items }

theorem writes_of_ends {outcome : Except Halt Bool} (ends : Ends (write job enum cls) before outcome after) :
    Writes job enum cls before outcome after := by
  unfold write at ends
  split at ends
  next hidden =>
    obtain ⟨rfl, rfl⟩ := ends.of_pure
    exact .hidden hidden
  next shown =>
    rw [Bool.not_eq_true] at shown
    rcases ends.check_bind_cases with ⟨_, ends⟩ | ⟨cause, failed, rfl, rfl⟩
    rotate_left
    · exact .unnamed fun named => by simp [named.checkEnumTag] at failed
    rcases ends.check_bind_cases with ⟨_, ends⟩ | ⟨cause, failed, rfl, rfl⟩
    rotate_left
    · exact .unnamed fun named => by simp [named.checkEnumPart] at failed
    rcases ends.lift_bind with ⟨items, accepted, ends⟩ | ⟨halt, failed, rfl, rfl⟩
    rotate_left
    · exact .refused shown failed
    cases items with
    | nil =>
      rcases ends.check_bind_cases with ⟨_, ends⟩ | ⟨cause, failed, rfl, rfl⟩
      · rw [ends_tell_bind] at ends
        obtain ⟨rfl, rfl⟩ := ends.of_pure
        exact .empty shown accepted
      · exact .unnamed fun named => by simp [named.checkQualified] at failed
    | cons first rest =>
      simp only [isEmpty_cons, Bool.false_eq_true, if_false, ends_append_bind] at ends
      have written : Writes job enum cls before (.ok true) _ := .declared shown (cons_ne_nil first rest) accepted
      unfold declarations at written
      split at ends
      next inside =>
        rw [ends_append_bind] at ends
        obtain ⟨rfl, rfl⟩ := ends.of_pure
        simpa [inside] using written
      next outside =>
        obtain ⟨rfl, rfl⟩ := ends.of_pure
        simpa [outside] using written

/-- What is appended for an enum, as its outcome has it. Either nothing is, because the enum is hidden or has no element
left, or because of the value of some element; or a C declaration is, and with it one in the facade where the facade has
the enum. Both list the elements that are left, in C with one start and an underscore before the names. -/
def Accounts (job : Job) (enum : Site) (cls : Option OpenClass) (added : List Chunk) : Except Halt Bool → Prop
  | .ok false => added = [] ∧ (isHidden enum ∨ survivors enum = [])
  | .ok true =>
    isHidden enum = false ∧ survivors enum ≠ [] ∧ (∀ element ∈ survivors enum, ¬ IsUnsupported element) ∧
      ∃ items declared inside, added = declared :: inside ∧
        Forall₂ (fun element listed => item element = .ok listed) (survivors enum) items ∧
        declared.home = .types ∧
        Lists declared.text (indentation ++ elementPart job.config enum ++ "_") items ∧
        if inFacade job.config enum cls then
          ∃ facade pad, inside = [facade] ∧ Lists facade.text (pad ++ indentation) items ∧
            facade.home = if enum.isMember then .facadeDeclarations else .facadeTypes
        else inside = []
  | .error (.rejected message site) =>
    added = [] ∧ isHidden enum = false ∧
      ∃ element ∈ survivors enum, IsUnsupported element ∧ .rejected message site = complaint element
  | .error (.fault _) => added = [] ∧ ¬ enum.IsNamed

end Enumeration

end FlatAbi
