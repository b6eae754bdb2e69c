import FlatAbi.Text.Basic
import FlatAbi.Text.Quoted

/-!
Headers of imported modules given on the command line as `module=header`.
-/

namespace FlatAbi.ImportHeader

structure Malformed where
  text : String
  deriving DecidableEq, Repr

def Malformed.message (e : Malformed) : String :=
  "Invalid --import-header " ++ Text.quoted e.text ++ ", expected MODULE=HEADER"

def read (text : String) : Except Malformed (String × String) :=
  match Chars.cut ['='] text.toList with
  | none => .error ⟨text⟩
  | some (before, after) =>
    let name := Text.trim (String.ofList before)
    let header := Text.trim (String.ofList after)
    if name == "" || header == "" then .error ⟨text⟩ else .ok (name, header)

/-- Put an entry in its place by name. A later entry of the same name wins. -/
def insert (name header : String) : List (String × String) → List (String × String)
  | [] => [(name, header)]
  | (n, h) :: rest =>
    if name == n then (name, header) :: rest
    else if name < n then (name, header) :: (n, h) :: rest
    else (n, h) :: insert name header rest

def sorted (entries : List (String × String)) : List (String × String) :=
  entries.foldl (fun sorted (name, header) => insert name header sorted) []

def readAll (texts : List String) : Except Malformed (List (String × String)) := do
  return sorted (← texts.mapM read)

end FlatAbi.ImportHeader
