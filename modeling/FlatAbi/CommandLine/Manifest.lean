import FlatAbi.Emission.Draft
import FlatAbi.Files.Path

/-!
The manifest of a run. It has no time in it, so that a repeated run leaves it as it is.
-/

namespace FlatAbi.Manifest

def generatorName : String := "cabi-binding-generator"

def generatorVersion : String := "0.1.0"

/-- Where the generator runs: the version of the language it is run by, and the system. -/
structure Host where
  languageVersion : String
  system : String
  deriving DecidableEq, Repr

def isShellSafe (c : Char) : Bool :=
  c.isAlphanum || "_@%+=:,./-".toList.contains c

def shellQuoted (word : String) : String :=
  if word == "" then "''"
  else if word.toList.all isShellSafe then word
  else "'" ++ Text.replace "'" "'\"'\"'" word ++ "'"

def configValue (c : Config) : Value :=
  .object
    [("module", c.givenModule),
     ("namespace", c.givenNamespace),
     ("cxx_wrappers", .bool c.facade),
     ("exceptions", .bool c.exceptions),
     ("cplusplus", .bool c.cplusplus),
     ("header_name", .string c.outputHeader),
     ("import_headers", .object (c.importHeaders.foldl
       (fun (fields : Fields) (name, header) => fields.set name (.string header)) []))]

def symbolValue (s : Symbol) : Value :=
  .object
    [("kind", .string s.kind.word), ("name", s.name), ("declaration", s.declaration), ("file", s.file),
     ("line", .int s.line)]

def diagnosticValue (d : Diagnostic) : Value :=
  .object
    [("severity", .string d.severity.word), ("message", .string d.message), ("file", d.file),
     ("line", .int d.line), ("symbol", d.symbol)]

def summary (config : Config) (draft : Draft) : Fields :=
  [("config", configValue config),
   ("header", .string config.outputHeader),
   ("source", .string config.outputSource),
   ("symbols", .array (draft.symbols.map symbolValue)),
   ("diagnostics", .array (draft.diagnostics.map diagnosticValue))]

def value (host : Host) (words : List String) (input outputDir : Path) (config : Config) (draft : Draft) : Value :=
  let line := generatorName :: words
  .object
    ([("generator", .object [("name", .string generatorName), ("version", .string generatorVersion)]),
      ("invocation", .object
        [("argv", .array (line.map .string)), ("command_line", .string (Text.join " " (line.map shellQuoted)))]),
      ("environment", .object
        [("python_version", .string host.languageVersion), ("system", .string host.system)]),
      ("input", .string input.text),
      ("output_dir", .string outputDir.text),
      ("files", .array [.string config.outputHeader, .string config.outputSource]),
      ("symbol_count", .int draft.symbols.length)] ++ summary config draft)

def text (host : Host) (words : List String) (input outputDir : Path) (config : Config) (draft : Draft) : String :=
  Json.indented 0 (value host words input outputDir config draft) ++ "\n"

end FlatAbi.Manifest
