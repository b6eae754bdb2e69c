import FlatAbi.CxxType.Reader
import FlatAbi.Proofs.Text.Blanks

/-!
Tokens keep every character of a type that is not a blank, in order.
-/

namespace FlatAbi

open List Chars

open Text (isBlank)

namespace Chars

variable {part replacement : List Char} {p : Char → Bool}

theorem splitFrom_ne_nil (part : List Char) (skip : Nat) (cs : List Char) : splitFrom part skip cs ≠ [] := by
  fun_induction splitFrom part skip cs with
  | case1 | case3 => simp
  | case2 _ _ _ ih => exact ih
  | case4 c cs =>
    cases splitFrom part 0 cs <;> simp [prepend]

theorem filter_replace (filled : part ≠ []) (same : replacement.filter p = part.filter p) (cs : List Char) :
    (replace part replacement cs).filter p = cs.filter p := by
  suffices split : ∀ skip, (replacement.intercalate (splitFrom part skip cs)).filter p = (cs.drop skip).filter p from
    split 0
  intro skip
  fun_induction splitFrom part skip cs with
  | case1 => simp [intercalate]
  | case2 _ _ _ ih => exact ih
  | case3 c cs found ih =>
    obtain ⟨rest, whole⟩ := isPrefixOf_iff_prefix.mp found
    have passed : cs.drop (part.length - 1) = rest := by
      have skipped := congrArg (drop part.length) whole
      rwa [drop_left, drop_cons (length_pos_iff.mpr filled), eq_comm] at skipped
    rw [intercalate_cons_of_ne_nil (splitFrom_ne_nil _ _ _), nil_append, filter_append, ih, same, passed,
      drop_zero, ← whole, filter_append]
  | case4 c cs _ ih =>
    rw [intercalate_prepend c (splitFrom_ne_nil _ _ _), drop_zero, filter_cons, filter_cons, ih,
      drop_zero]

theorem filter_dropWhile_isBlank (cs : List Char) :
    (cs.dropWhile isBlank).filter (!isBlank ·) = cs.filter (!isBlank ·) := by
  induction cs with
  | nil => rfl
  | cons c cs ih => cases first : isBlank c <;> simp [first, ih]

end Chars

namespace Token

variable {cs taken rest : List Char}

theorem filter_normalize (taken : List Char) : (normalize taken).filter (!isBlank ·) = taken.filter (!isBlank ·) := by
  rw [normalize, filter_replace (by simp) (by decide), filter_replace (by simp) (by decide),
    filter_collapse]

/-- A token begins where the blanks before it end, so that something of it is left. -/
theorem normalize_ne_nil (found : token? (cs.dropWhile isBlank) = some (taken, rest)) : normalize taken ≠ [] := by
  intro empty
  have lost := filter_normalize taken
  rw [empty, filter_nil, eq_comm, filter_eq_nil_iff] at lost
  cases first : taken with
  | nil => exact token?_nonempty found first
  | cons c more =>
    have solid := head?_dropWhile_not isBlank cs
    rw [← token?_append found, first] at solid
    have blank := lost c (by simp [first])
    simp_all

/-- Scanning keeps all characters but blanks, or stops before text at which no token begins. -/
theorem scan_cases (cs : List Char) :
    (∃ tokens, scan cs = .ok tokens ∧ (∀ token ∈ tokens, token ≠ []) ∧
      tokens.flatten.filter (!isBlank ·) = cs.filter (!isBlank ·)) ∨
    ∃ rest, scan cs = .error rest ∧ rest <:+ cs ∧ rest.all isBlank = false ∧
      token? (rest.dropWhile isBlank) = none := by
  fun_induction scan cs with
  | case1 cs taken rest found ih =>
    rcases ih with ⟨tokens, scanned, full, kept⟩ | ⟨left, stopped, inside, solid, stuck⟩
    · refine .inl ⟨normalize taken :: tokens, by rw [scanned]; rfl, ?_, ?_⟩
      · exact forall_mem_cons.mpr ⟨normalize_ne_nil found, full⟩
      · rw [flatten_cons, filter_append, filter_normalize, kept, ← filter_append, token?_append found,
          filter_dropWhile_isBlank]
    · have after : rest <:+ cs.dropWhile isBlank := ⟨taken, token?_append found⟩
      exact .inr ⟨left, by rw [stopped]; rfl, inside.trans (after.trans (dropWhile_suffix _)), solid, stuck⟩
  | case2 cs missing blank =>
    refine .inl ⟨[], rfl, forall_mem_nil _, ?_⟩
    rw [← filter_dropWhile_isBlank cs, isEmpty_iff.mp blank]
    rfl
  | case3 cs missing solid =>
    refine .inr ⟨cs, rfl, suffix_rfl, ?_, missing⟩
    rw [Bool.eq_false_iff]
    exact fun blank => solid (isEmpty_iff.mpr (dropWhile_eq_nil_iff.mpr (all_eq_true.mp blank)))

end Token

namespace CxxType

theorem tokenize_eq_ok_iff {text : List Char} {tokens : List (List Char)} :
    tokenize text = .ok tokens ↔ Token.scan text = .ok tokens := by
  unfold tokenize
  cases Token.scan text <;> simp [Except.mapError]

/-- Tokenizing keeps every character but blanks, and each token has some. A text is refused where no token begins. -/
theorem tokenize_conserves (text : List Char) :
    (∃ tokens, tokenize text = .ok tokens ∧ (∀ token ∈ tokens, token ≠ []) ∧
      tokens.flatten.filter (!isBlank ·) = text.filter (!isBlank ·)) ∨
    ∃ rest, tokenize text = .error (.unreadable (String.ofList text) (String.ofList rest)) ∧ rest <:+ text ∧
      rest.all isBlank = false ∧ Token.token? (rest.dropWhile isBlank) = none := by
  rcases Token.scan_cases text with ⟨tokens, scanned, kept⟩ | ⟨rest, stopped, stuck⟩
  · exact .inl ⟨tokens, tokenize_eq_ok_iff.mpr scanned, kept⟩
  · exact .inr ⟨rest, by rw [tokenize, stopped]; rfl, stuck⟩

end CxxType

end FlatAbi
