import FlatAbi.Document.Value
import FlatAbi.Files.Path

/-!
Log records. A record keeps its message as a template with the details that fill it, and tells where in the program
it comes from.
-/

namespace FlatAbi.Log

inductive Level where
  | all
  | debug
  | info
  | warning
  | error
  | critical
  deriving DecidableEq, Repr

namespace Level

def number : Level → Nat
  | .all => 0
  | .debug => 10
  | .info => 20
  | .warning => 30
  | .error => 40
  | .critical => 50

def word : Level → String
  | .all => "NOTSET"
  | .debug => "DEBUG"
  | .info => "INFO"
  | .warning => "WARNING"
  | .error => "ERROR"
  | .critical => "CRITICAL"

def listed : List Level :=
  [.critical, .error, .warning, .info, .debug, .all]

/-- A level by its name in capitals or in small letters, but not in a mix of both. -/
def ofWord? (s : String) : Option Level :=
  listed.find? fun level => level.word == s || String.ofList (level.word.toList.map Char.toLower) == s

end Level

inductive Channel where
  | commandLine
  | loading
  | wrapping
  | enumerations
  | inheritance
  | emission
  | diagnostics
  | files
  deriving DecidableEq, Repr

def Channel.name : Channel → String
  | .commandLine => "cabi_binding_generator.generate_bindings"
  | .loading => "cabi_binding_generator.parsing.tree_loader"
  | .wrapping => "cabi_binding_generator.emitters.c_wrapper_emitter"
  | .enumerations => "cabi_binding_generator.emitters.enum_emitter"
  | .inheritance => "cabi_binding_generator.inheritance"
  | .emission => "cabi_binding_generator.emitters.module_emitter"
  | .diagnostics => "cabi_binding_generator.diagnostics"
  | .files => "cabi_binding_generator.utils"

def Channel.shortName (c : Channel) : String :=
  (Text.splitOn "." c.name).getLast?.getD ""

def Channel.file (c : Channel) : String :=
  "/" ++ Text.replace "." "/" c.name ++ ".py"

/-- Where records are made: the channel, the step of the work and the position of that step in its channel. -/
structure Origin where
  channel : Channel
  step : String
  position : Nat
  deriving DecidableEq, Repr

/-- A failure as a record keeps it: its kind, what it was made from, and its message. -/
structure Failure where
  kind : String
  parts : List Value
  message : String

def Failure.literal (f : Failure) : String :=
  f.kind ++ "(" ++ Text.join ", " (f.parts.map Value.literal) ++ ")"

inductive Detail where
  | value (v : Value)
  | path (p : Path)
  | failure (f : Failure)

namespace Detail

def text (s : String) : Detail :=
  .value (.string s)

def count (n : Nat) : Detail :=
  .value (.int n)

def shown : Detail → String
  | .value v => v.display
  | .path p => p.text
  | .failure f => f.message

def literal : Detail → String
  | .value v => v.literal
  | .path p => "PosixPath(" ++ Text.quoted p.text ++ ")"
  | .failure f => f.literal

end Detail

/-- `failure` is what a record about a failure tells besides its message. -/
structure Record where
  level : Level
  origin : Origin
  template : String
  details : List Detail := []
  failure : Option Failure := none

namespace Record

def fill : List Char → List Detail → List Char
  | '%' :: 's' :: cs, d :: ds => d.shown.toList ++ fill cs ds
  | '%' :: 'd' :: cs, d :: ds => d.shown.toList ++ fill cs ds
  | c :: cs, ds => c :: fill cs ds
  | [], _ => []

def message (r : Record) : String :=
  String.ofList (fill r.template.toList r.details)

/-- The literal form of the details, in brackets. A single one has a comma after it. -/
def detailsLiteral (r : Record) : String :=
  match r.details with
  | [d] => "(" ++ d.literal ++ ",)"
  | ds => "(" ++ Text.join ", " (ds.map Detail.literal) ++ ")"

end Record

end FlatAbi.Log
