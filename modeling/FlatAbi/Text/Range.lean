/-!
Character classes above the ASCII range, given as lengths of runs.
-/

namespace FlatAbi.Text

/-- A class is given by how many characters are outside it, then how many are inside, and so on in turn. -/
def inRuns : List Nat → Nat → Bool
  | outside :: inside :: rest, count =>
    if count < outside then false
    else count - outside < inside || inRuns rest (count - outside - inside)
  | _, _ => false

end FlatAbi.Text
