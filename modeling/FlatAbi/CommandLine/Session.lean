import FlatAbi.Artifact.Template
import FlatAbi.CommandLine.ImportHeader
import FlatAbi.CommandLine.Manifest
import FlatAbi.CommandLine.Notice
import FlatAbi.CommandLine.Options
import FlatAbi.Emission.Module
import FlatAbi.Log.Format

/-!
One run of the command line, from the input to the files that are written.
-/

namespace FlatAbi.CommandLine

open FlatAbi.Artifact FlatAbi.Log

/-- Why a run is broken off without an exit code. Nothing may be given for a path or for the header of an imported
module only as long as it is not needed. -/
inductive Breakdown where
  | logFormat (cause : Format.Invalid)
  | noPath
  | noImportHeader
  | file (cause : FileError)
  | load (cause : LoadError)
  | emission (halt : Halt)
  | template (cause : TemplateFault)

/-- What a run is given besides the files. There may be no engine for templates. -/
structure Setting where
  host : Manifest.Host
  directory : Path
  words : List String
  engine : Option Engine
  moment : Nat := 0

structure Progress where
  files : FileTree
  recorder : Recorder
  logFile : Option Path := none
  records : List Record := []

/-- Log a record. The log file gets its line at once. -/
def Progress.note (p : Progress) (record : Record) : Progress :=
  { p with
    records := p.records ++ [record]
    files := match p.logFile with
      | some path => p.files.extend path (p.recorder.line record)
      | none => p.files }

/-- A file that was replaced at its path takes no more of the log. -/
def Progress.replaced (p : Progress) (path : Path) : Progress :=
  if (p.files.target path).toOption = p.logFile.map .named then { p with logFile := none } else p

/-- Work that may end the run, with an exit code or by breaking it off. -/
inductive Stop where
  | exit (code : Nat)
  | breakdown (cause : Breakdown)

abbrev Run := ExceptT Stop (StateM Progress)

namespace Run

def tell (notice : Notice) : Run Unit :=
  modify fun p => p.note notice.record

def onFiles {α : Type} (work : FileWork α) : Run (Except FileError α) := do
  let p ← get
  let (result, files) := work.run.run p.files
  set { p with files := files }
  return result

def place (s : Setting) : Given → Run Path
  | .nothing => throw (.breakdown .noPath)
  | .text written => do
    let path := s.directory.resolve written
    match FileTree.checkCharacters (s.directory.append written) with
    | .ok () => return path
    | .error fault => throw (.breakdown (.file ⟨fault, path⟩))

def fail {α : Type} (code : Nat) (notice : Notice) : Run α := do
  tell notice
  throw (.exit code)

end Run

def loadInput (path : Path) : Run Loaded := do
  match (← get).files.read path with
  | .error e => Run.fail 2 (.refused (failureOfFile e))
  | .ok content =>
    let text := Text.normalizeNewlines content
    match Json.parse text with
    | .error (.malformed fault remaining) =>
      let reason := Json.Refusal.message text (.malformed fault remaining)
      Run.fail 2 (.refused (failureOfDocument (path.text ++ ": invalid JSON: " ++ reason)))
    | .error refusal => Run.fail 2 (.refused (failureOfValue (refusal.message text)))
    | .ok value =>
      match Load.document true value with
      | .ok loaded =>
        Run.tell (.loaded loaded.tree.decl.givenName (Site.root loaded.tree).walk.length loaded.ruleCount)
        return loaded
      | .error e =>
        match failureOfLoad? e with
        | some failure => Run.fail 2 (.refused failure)
        | none => throw (.breakdown (.load e))

def readImportHeader : Given → Run (String × String)
  | .nothing => throw (.breakdown .noImportHeader)
  | .text written =>
    match ImportHeader.read written with
    | .ok entry => return entry
    | .error e => Run.fail 2 (.refused (failureOfValue e.message))

def readImportHeaders (o : Options) : Run (List (String × String)) := do
  return ImportHeader.sorted (← o.importHeaders.mapM readImportHeader)

/-- The options of the generation; the module is named after its root by default. -/
def configOf (o : Options) (loaded : Loaded) (importHeaders : List (String × String)) : Config :=
  { givenModule := if o.moduleName == "" then loaded.tree.decl.givenName else .string o.moduleName
    givenNamespace := (o.namespaceName.map Given.value).getD .null
    facade := !o.noFacade
    exceptions := !o.noExceptions
    cplusplus := !o.plainC
    headerName := o.headerName
    importHeaders := importHeaders }

/-- The engine for templates, and their directory if one is given. -/
structure Templating where
  engine : Engine
  directory : Option Path

def engineOf (s : Setting) : Run Engine :=
  match s.engine with
  | some engine => return engine
  | none => Run.fail 1 .noTemplating

def templating (s : Setting) (o : Options) : Run Templating := do
  if o.templatesDir == "" then return ⟨← engineOf s, none⟩
  let path ← Run.place s (.text o.templatesDir)
  let engine ← engineOf s
  if !(← get).files.isDirectory path then Run.tell (.noTemplates path)
  return ⟨engine, some path⟩

def templatePlace (directory : Path) (name : String) : Path :=
  ⟨directory.components ++ Path.split name⟩

/-- The templates in a directory, if it exists, and below it. A name with `..` in it leads to none. -/
def offerOf (files : FileTree) (directory : Path) : Offer := fun name =>
  if !files.isDirectory directory || (Path.split name).contains Path.back then none
  else match files.find? (templatePlace directory name) with
    | some (.file text) => some text
    | _ => none

/-- The text of a file: made of the template of this name if there is one, else in its own layout. -/
def Templating.text (t : Templating) (moment : Nat) (files : FileTree) (name : String) (layout : Content → String)
    (content : Content) : Except TemplateFault String :=
  match t.directory.filter fun directory => (offerOf files directory name).isSome with
  | some directory => t.engine.render moment (offerOf files directory) name content
  | none => .ok (layout content)

def emitted {α : Type} : Except Halt α → Run α
  | .ok value => return value
  | .error halt => throw (.breakdown (.emission halt))

def errorCount (draft : Draft) : Nat :=
  (draft.diagnostics.filter (·.severity == .error)).length

def warningCount (draft : Draft) : Nat :=
  (draft.diagnostics.filter (·.severity == .warning)).length

def emitDraft (job : Job) : Run Draft := do
  let start ← emitted (Draft.start job.root)
  let (outcome, draft) := (Module.emit job).run.run start
  draft.events.forM fun event => Run.tell (.event event)
  emitted outcome
  emitted (Halt.ofMisshapen (checkNamespaces job.config))
  return draft

/-- What a run has before it generates the texts of files. -/
structure Gathered where
  templating : Templating
  input : Path
  directory : Path
  config : Config
  draft : Draft

def gather (s : Setting) (o : Options) : Run Gathered := do
  let templating ← templating s o
  let input ← Run.place s (o.input.getD .nothing)
  let loaded ← loadInput input
  let importHeaders ← readImportHeaders o
  let config := configOf o loaded importHeaders
  let directory ← Run.place s o.outputDir
  let draft ← emitDraft ⟨config, .root loaded.tree, loaded.typemaps⟩
  return { templating, input, directory, config, draft }

structure Generated where
  header : String
  source : String

def Templating.texts (t : Templating) (moment : Nat) (files : FileTree) (content : Content) :
    Except TemplateFault Generated := do
  let header ← t.text moment files headerTemplate header content
  let source ← t.text moment files sourceTemplate source content
  return ⟨header, source⟩

def layOut (moment : Nat) (g : Gathered) : Run Generated := do
  match g.templating.texts moment (← get).files (.ofDraft g.config g.draft) with
  | .ok generated =>
    Run.tell (.summary g.config.givenModule g.draft.symbols.length (warningCount g.draft) (errorCount g.draft))
    return generated
  | .error cause =>
    Run.tell (.notRendered g.config.givenModule cause.failure)
    if cause.isOfFiles then Run.fail 4 (.notWritten cause.failure) else throw (.breakdown (.template cause))

/-- Write a file unless it holds the text already. A dry run only tells about it. -/
def writeFile (dryRun : Bool) (path : Path) (text : String) : Run (Except FileError Unit) := do
  if dryRun then
    Run.tell (.spared path)
    return .ok ()
  match ← Run.onFiles (FileWork.write path text true true) with
  | .error e => return .error e
  | .ok true =>
    modify fun p => p.replaced path
    Run.tell (.written path)
    return .ok ()
  | .ok false =>
    Run.tell (.unchanged path)
    return .ok ()

def makeOutputDirectory (o : Options) (directory : Path) : Run Unit := do
  if !o.dryRun then
    match ← Run.onFiles (FileWork.ensureDirectory directory) with
    | .ok () => return
    | .error e => Run.fail 4 (.notWritten (failureOfFile e))

def writeGenerated (o : Options) (directory : Path) (name text : String) : Run Unit := do
  match ← writeFile o.dryRun (directory.append name) text with
  | .ok () => return
  | .error e =>
    Run.tell (.notWrittenTo directory (failureOfFile e))
    if e.isOfFiles then Run.fail 4 (.notWritten (failureOfFile e)) else throw (.breakdown (.file e))

def manifestName : String := "manifest.json"

def writeManifest (o : Options) (directory : Path) (text : String) : Run Unit := do
  match ← writeFile o.dryRun (directory.append manifestName) text with
  | .ok () => return
  | .error e => Run.fail 5 (.noManifest (failureOfFile e))

def deliver (s : Setting) (o : Options) (g : Gathered) (generated : Generated) : Run Unit := do
  makeOutputDirectory o g.directory
  writeGenerated o g.directory g.config.outputHeader generated.header
  writeGenerated o g.directory g.config.outputSource generated.source
  if o.dryRun then Run.tell .nothingWritten
  if !o.noManifest then
    writeManifest o g.directory (Manifest.text s.host s.words g.input g.directory g.config g.draft)

def conclude (config : Config) (draft : Draft) : Run Nat := do
  let errors := errorCount draft
  if errors > 0 then
    Run.tell (.faulty errors config.givenModule)
    return 3
  return 0

def finish (s : Setting) (o : Options) (g : Gathered) : Run Nat := do
  let generated ← layOut s.moment g
  deliver s o g generated
  conclude g.config g.draft

def work (s : Setting) (o : Options) : Run Nat := do
  finish s o (← gather s o)

inductive Ending where
  | exit (code : Nat)
  | usage
  | help
  | breakdown (cause : Breakdown)

structure Outcome where
  ending : Ending
  log : String := ""
  files : FileTree

def openLog (s : Setting) (o : Options) (files : FileTree) : Except FileError (Option Path × FileTree) :=
  if o.logFile == "" then .ok (none, files)
  else
    let path := s.directory.resolve o.logFile
    (files.truncate path).map fun files => (some path, files)

def runWith (s : Setting) (o : Options) (files : FileTree) : Outcome :=
  match Format.read o.logFormat with
  | .error e => { ending := .breakdown (.logFormat e), files := files }
  | .ok format =>
    match openLog s o files with
    | .error e => { ending := .breakdown (.file e), files := files }
    | .ok (logFile, files) =>
      let recorder : Recorder := ⟨format, o.threshold⟩
      let (result, progress) := (work s o).run.run { files := files, recorder := recorder, logFile := logFile }
      { ending := match result with
          | .ok code => .exit code
          | .error (.exit code) => .exit code
          | .error (.breakdown cause) => .breakdown cause
        log := recorder.text progress.records
        files := progress.files }

def loaded? (files : FileTree) (input : Path) : Option Loaded := do
  let text ← (files.read input).toOption
  let value ← (Json.parse (Text.normalizeNewlines text)).toOption
  (Load.document true value).toOption

/-- The paths that a run with these options looks at. Those of the generated files are known once the input is. -/
def consulted (s : Setting) (o : Options) (files : FileTree) : List Path :=
  let input := s.directory.resolve (o.input.getD .nothing).orEmpty
  let directory := s.directory.resolve o.outputDir.orEmpty
  let templates := s.directory.resolve o.templatesDir
  [input, directory.append manifestName, templates.append headerTemplate, templates.append sourceTemplate,
    s.directory.resolve o.logFile] ++
    match loaded? files input with
    | some loaded =>
      let config := configOf o loaded []
      [directory.append config.outputHeader, directory.append config.outputSource]
    | none => []

def run (s : Setting) (files : FileTree) : Outcome :=
  match request s.words with
  | .run o => runWith s o files
  | .help => { ending := .help, files := files }
  | .misuse => { ending := .usage, files := files }

end FlatAbi.CommandLine
