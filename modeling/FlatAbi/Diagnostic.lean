import FlatAbi.Declaration.Site

/-!
Diagnostics: what went wrong, and the declaration it was found in.
-/

namespace FlatAbi

inductive Severity where
  | warning
  | error
  deriving DecidableEq, Repr

namespace Severity

def word : Severity → String
  | .warning => "warning"
  | .error => "error"

def label : Severity → String
  | .warning => "Warning"
  | .error => "Error"

end Severity

structure Diagnostic where
  severity : Severity
  message : String
  file : Value := .string ""
  line : Int := 0
  symbol : Value := .string ""

namespace Diagnostic

def about (severity : Severity) (site : Option Site) (message : String) : Diagnostic :=
  match site with
  | some s => ⟨severity, message, s.decl.file, s.decl.line, s.decl.symbolValue⟩
  | none => { severity := severity, message := message }

def text (d : Diagnostic) : String :=
  let file := if d.file.truthy then d.file.display else "<input>"
  s!"{file}:{d.line}: {d.severity.label}: {d.message}"

end Diagnostic

end FlatAbi
