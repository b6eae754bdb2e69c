import FlatAbi.Document.Value

/-!
Values that something can be filed under. Numbers and truth values are filed by their size.
-/

namespace FlatAbi

inductive Atom where
  | nothing
  | text (s : String)
  | whole (n : Int)
  | number (x : Binary)
  deriving DecidableEq, Repr

def Value.atom? : Value → Option Atom
  | .null => some .nothing
  | .bool b => some (.whole (if b then 1 else 0))
  | .int n => some (.whole n)
  | .float x =>
    match x.whole? with
    | some n => some (.whole n)
    | none => some (.number x)
  | .string s => some (.text s)
  | .array _ | .object _ => none

theorem Value.eq_string_of_atom {v : Value} {text : String} (same : v.atom? = some (.text text)) :
    v = .string text := by
  cases v with
  | string s => simpa [atom?] using same
  | float x =>
    simp only [atom?] at same
    split at same <;> simp at same
  | _ => simp [atom?] at same

end FlatAbi
