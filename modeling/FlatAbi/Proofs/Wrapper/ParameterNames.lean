import FlatAbi.Wrapper.ParameterNames
import Std.Data.String.ToInt

/-!
Names of parameters. They are pairwise distinct, and none is a name that the body of a wrapper uses itself.
-/

namespace FlatAbi.Wrapper

open List Text

variable {name : String} {used : List String} {position : Int} {declared : List (Option String)}

theorem isDecimalDigit_of_mem_toDigits {c : Char} {n : Nat} (listed : c ∈ Nat.toDigits 10 n) : isDecimalDigit c := by
  have digit := Nat.isDigit_of_mem_toDigits (by decide) (by decide) listed
  have range : 48 ≤ c.toNat ∧ c.toNat ≤ 57 := Char.isDigit_iff_toNat.mp digit
  rw [isDecimalDigit, digitValue?, if_pos (by omega), if_pos digit, Option.isSome_some]

theorem getLast?_digits_ne (front : List Char) (n : Nat) : (front ++ Nat.toDigits 10 n).getLast? ≠ some '\n' := by
  rw [getLast?_append, getLast?_eq_some_getLast Nat.toDigits_ne_nil, Option.some_or]
  intro last
  cases isDecimalDigit_of_mem_toDigits (Option.some.inj last ▸ getLast_mem Nat.toDigits_ne_nil)

theorem isDigits_toDigits (n : Nat) : isDigits (Nat.toDigits 10 n) := by
  have digits : (Nat.toDigits 10 n).all isDecimalDigit :=
    all_eq_true.mpr fun _ => isDecimalDigit_of_mem_toDigits
  have last := getLast?_digits_ne [] n
  simp_all [isDigits, Nat.toDigits_ne_nil]

/-- No declared name with a number after one of the two stems is kept. -/
theorem isUsableName_numbered {stem : String} (known : stem = "arg" ∨ stem = "carg") (k : Int) :
    isUsableName (stem ++ toString k) = false := by
  cases k with
  | ofNat n =>
    have numbered : isPositionalName (stem ++ n.repr) := by
      rcases known with rfl | rfl <;> simp [isPositionalName, String.toList_append, isDigits_toDigits]
    change isUsableName (stem ++ n.repr) = false
    simp [isUsableName, numbered]
  | negSucc n =>
    change isUsableName (stem ++ ("-" ++ (n + 1).repr)) = false
    have sign : isWordChar '-' = false := by decide
    have signed : isSymbolName (stem ++ ("-" ++ (n + 1).repr)) = false := by
      have last := getLast?_digits_ne (stem.toList ++ ['-']) (n + 1)
      rcases known with rfl | rfl <;> simp_all [isSymbolName, String.toList_append]
    simp [isUsableName, signed]

theorem parameterName_cases (used : List String) (position : Int) (declared : Option String) :
    (isUsableName (parameterName used position declared) ∧ parameterName used position declared ∉ used) ∨
      parameterName used position declared = "carg" ++ toString position := by
  unfold parameterName
  dsimp only
  split
  next usable => exact .inl (by simpa using usable)
  · exact .inr rfl

theorem mem_parameterNamesFrom (listed : name ∈ parameterNamesFrom used position declared) :
    isUsableName name ∨ ∃ k : Int, name = "carg" ++ toString k := by
  induction declared generalizing used position with
  | nil => cases listed
  | cons first rest ih =>
    rcases mem_cons.mp listed with rfl | later
    · exact (parameterName_cases used position first).imp And.left fun same => ⟨position, same⟩
    · exact ih later

/-- Positions that are still to come have not named a parameter, so that their names are fresh. -/
theorem parameterNamesFrom_fresh (ahead : ∀ k ≥ position, "carg" ++ toString k ∉ used) :
    (parameterNamesFrom used position declared).Nodup ∧
      ∀ name ∈ parameterNamesFrom used position declared, name ∉ used := by
  induction declared generalizing used position with
  | nil => exact ⟨.nil, forall_mem_nil _⟩
  | cons first rest ih =>
    have fresh : parameterName used position first ∉ used := by
      rcases parameterName_cases used position first with ⟨_, fresh⟩ | same
      · exact fresh
      · exact same ▸ ahead position (Int.le_refl _)
    have further : ∀ k ≥ position + 1, "carg" ++ toString k ∉ parameterName used position first :: used := by
      intro k later listed
      rcases mem_cons.mp listed with taken | earlier
      · rcases parameterName_cases used position first with ⟨usable, _⟩ | same
        · rw [← taken, isUsableName_numbered (.inr rfl)] at usable
          cases usable
        · have number : k.repr = position.repr := by simpa using taken.trans same
          have := Int.repr_inj.mp number
          omega
      · exact ahead k (by omega) earlier
    obtain ⟨distinct, others⟩ := ih further
    refine ⟨nodup_cons.mpr ⟨fun again => others _ again mem_cons_self, distinct⟩, ?_⟩
    exact forall_mem_cons.mpr
      ⟨fresh, fun name listed earlier => others name listed (mem_cons_of_mem _ earlier)⟩

theorem parameterNamesFrom_length (used : List String) (position : Int) (declared : List (Option String)) :
    (parameterNamesFrom used position declared).length = declared.length := by
  induction declared generalizing used position with
  | nil => rfl
  | cons first rest ih => exact congrArg (· + 1) (ih _ _)

/-- A word that cannot be kept as a name is not given as one, unless it begins like the names that are made. -/
theorem not_mem_parameterNamesFrom {word : String} (refused : isUsableName word = false)
    (apart : startsWith "carg" word = false) : word ∉ parameterNamesFrom used position declared := by
  intro listed
  rcases mem_parameterNamesFrom listed with usable | ⟨k, rfl⟩
  · rw [refused] at usable
    cases usable
  · simp [startsWith, String.toList_append] at apart

/-- Every parameter gets a name of its own, which is none of the names in the body. -/
theorem parameterNames_never_clash (first : Int) (declared : List (Option String)) :
    (parameterNames first declared).length = declared.length ∧ (parameterNames first declared).Nodup ∧
      ∀ name ∈ parameterNames first declared, name ≠ "self" ∧ name ≠ "result" ∧ name ≠ "cppresult" ∧
        ∀ k : Int, name ≠ s!"arg{k}" := by
  refine ⟨parameterNamesFrom_length _ _ _, (parameterNamesFrom_fresh fun _ _ => not_mem_nil).1, ?_⟩
  intro name listed
  have numbered (k : Int) : startsWith "carg" ("arg" ++ toString k) = false := by
    simp [startsWith, String.toList_append, isPrefixOf]
  refine ⟨?_, ?_, ?_, fun k => ?_⟩ <;> rintro rfl
  · exact not_mem_parameterNamesFrom (by decide) (by decide) listed
  · exact not_mem_parameterNamesFrom (by decide) (by decide) listed
  · exact not_mem_parameterNamesFrom (by decide) (by decide) listed
  · exact not_mem_parameterNamesFrom (isUsableName_numbered (.inl rfl) k) (numbered k) listed

end FlatAbi.Wrapper
