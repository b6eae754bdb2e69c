import FlatAbi.Declaration.Load
import FlatAbi.Emission.Draft
import FlatAbi.Files.Tree
import FlatAbi.Log.Record

/-!
What a run of the command line tells, and the log record of each notice.
-/

namespace FlatAbi.CommandLine

open FlatAbi.Log

def kindOfFault : FileFault → String
  | .missing => "FileNotFoundError"
  | .exists => "FileExistsError"
  | .notDirectory => "NotADirectoryError"
  | .isDirectory => "IsADirectoryError"
  | .nameTooLong | .busy => "OSError"
  | .embeddedNull => "ValueError"
  | .unencodable => "UnicodeEncodeError"

/-- A failure on files; one that has a number is kept by the number and its words. -/
def failureOfFile (e : FileError) : Failure :=
  { kind := kindOfFault e.fault
    parts := match FileError.numbered? e.fault with
      | some (number, reason) => [.int number, .string reason]
      | none => [.string e.message]
    message := e.message }

def failureOfValue (message : String) : Failure :=
  ⟨"ValueError", [.string message], message⟩

def failureOfDocument (message : String) : Failure :=
  ⟨"TreeLoadError", [.string message], message⟩

def failureOfTemplating : Failure :=
  let message := "jinja2 is not available or failed to import components. Install with: pip install Jinja2"
  ⟨"RuntimeError", [.string message], message⟩

/-- The failure of a load that is refused. Shape faults other than those of content break a run off. -/
def failureOfLoad? : LoadError → Option Failure
  | .misshapen cause => if cause.isContent then some (failureOfValue cause.message) else none
  | e => some (failureOfDocument e.message)

inductive Notice where
  | loaded (name : Value) (nodes rules : Nat)
  | refused (cause : Failure)
  | noTemplating
  | noTemplates (directory : Path)
  | event (e : Event)
  | notRendered (name : Value) (cause : Failure)
  | summary (name : Value) (symbols warnings errors : Nat)
  | written (path : Path)
  | unchanged (path : Path)
  | spared (path : Path)
  | notWrittenTo (directory : Path) (cause : Failure)
  | notWritten (cause : Failure)
  | nothingWritten
  | noManifest (cause : Failure)
  | faulty (errors : Nat) (name : Value)

def plain (level : Level) (origin : Origin) (template : String) (details : List Detail) : Record :=
  { level := level, origin := origin, template := template, details := details }

def failed (origin : Origin) (template : String) (details : List Detail) (cause : Failure) : Record :=
  { level := .error, origin := origin, template := template, details := details, failure := some cause }

def recordOfEvent : Event → Record
  | .diagnosed d =>
    match d.severity with
    | .error => plain .error ⟨.diagnostics, "_add", 80⟩ "%s" [.text d.text]
    | .warning => plain .warning ⟨.diagnostics, "_add", 82⟩ "%s" [.text d.text]
  | .wrapped declaration symbol =>
    plain .debug ⟨.wrapping, "_emit_cxx", 304⟩ "Wrapped %s as %s" [.value declaration, .text symbol]
  | .enumWithoutElements declaration =>
    plain .debug ⟨.enumerations, "emit_enum", 103⟩ "Enum %s has no elements, not emitted" [.value declaration]
  | .unknownBase base cls =>
    plain .debug ⟨.inheritance, "usable_bases", 67⟩ "Base %s of %s is not wrapped" [.text base, .value cls]

namespace Notice

def record : Notice → Record
  | .loaded name nodes rules =>
    plain .debug ⟨.loading, "load_tree_data", 186⟩ "Loaded module %s (%d nodes, %d typemaps)"
      [.value name, .count nodes, .count rules]
  | .refused cause => plain .error ⟨.commandLine, "main", 201⟩ "%s" [.failure cause]
  | .noTemplating => failed ⟨.commandLine, "main", 193⟩ "Failed to initialize templating" [] failureOfTemplating
  | .noTemplates directory =>
    plain .warning ⟨.files, "__init__", 131⟩ "Templates directory %s does not exist; using package templates"
      [.path directory]
  | .event e => recordOfEvent e
  | .notRendered name cause =>
    failed ⟨.emission, "generate", 195⟩ "Failed to render templates for module %s" [.value name] cause
  | .summary name symbols warnings errors =>
    plain .info ⟨.emission, "generate", 199⟩ "Module %s: %d symbols, %d warnings, %d errors"
      [.value name, .count symbols, .count warnings, .count errors]
  | .written path => plain .info ⟨.files, "atomic_write_text", 261⟩ "[write] %s" [.path path]
  | .unchanged path => plain .debug ⟨.files, "atomic_write_text", 247⟩ "[skip] %s (unchanged)" [.path path]
  | .spared path => plain .info ⟨.files, "write_text", 282⟩ "[dry-run] write %s" [.path path]
  | .notWrittenTo directory cause =>
    failed ⟨.emission, "emit", 217⟩ "Failed to write generated files to %s" [.path directory] cause
  | .notWritten cause => failed ⟨.commandLine, "main", 225⟩ "Failed to write generated files" [] cause
  | .nothingWritten => plain .info ⟨.commandLine, "main", 229⟩ "Dry-run complete (no files written)." []
  | .noManifest cause => failed ⟨.commandLine, "main", 235⟩ "Failed to emit generation manifest" [] cause
  | .faulty errors name =>
    plain .error ⟨.commandLine, "main", 239⟩ "%d error(s) reported for module %s" [.count errors, .value name]

end Notice

end FlatAbi.CommandLine
