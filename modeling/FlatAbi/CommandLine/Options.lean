import FlatAbi.Log.Record

/-!
Options of the command line. Long options may be shortened, short ones joined.
-/

namespace FlatAbi.CommandLine

inductive Switch where
  | help
  | input
  | outputDir
  | moduleName
  | namespaceName
  | noFacade
  | noExceptions
  | plainC
  | headerName
  | importHeader
  | templatesDir
  | noManifest
  | dryRun
  | verbose
  | quiet
  | logLevel
  | logFormat
  | logFile
  deriving DecidableEq, Repr

namespace Switch

def all : List Switch :=
  [.help, .input, .outputDir, .moduleName, .namespaceName, .noFacade, .noExceptions, .plainC, .headerName,
   .importHeader, .templatesDir, .noManifest, .dryRun, .verbose, .quiet, .logLevel, .logFormat, .logFile]

def spellings : Switch → List String
  | .help => ["-h", "--help"]
  | .input => ["--input"]
  | .outputDir => ["--output-dir"]
  | .moduleName => ["--module"]
  | .namespaceName => ["--namespace"]
  | .noFacade => ["--nocxx"]
  | .noExceptions => ["--noexcept"]
  | .plainC => ["--c"]
  | .headerName => ["--header-name"]
  | .importHeader => ["--import-header"]
  | .templatesDir => ["--templates-dir"]
  | .noManifest => ["--no-manifest"]
  | .dryRun => ["--dry-run"]
  | .verbose => ["-v", "--verbose"]
  | .quiet => ["-q", "--quiet"]
  | .logLevel => ["--log-level"]
  | .logFormat => ["--log-format"]
  | .logFile => ["--log-file"]

def takesValue : Switch → Bool
  | .input | .outputDir | .moduleName | .namespaceName | .headerName | .importHeader | .templatesDir | .logLevel
  | .logFormat | .logFile => true
  | _ => false

def listed : List (String × Switch) :=
  all.flatMap fun s => s.spellings.map (·, s)

def named? (spelling : String) : Option Switch :=
  listed.lookup spelling

end Switch

/-- One word of the command line. An option has its spelling and what is attached to it. -/
inductive Word where
  | option (switch : Switch) (spelling : String) (attached : Option String)
  | unknownOption
  | value (text : String)
  | separator
  deriving DecidableEq, Repr

namespace Word

def splitValue (word : String) : String × Option String :=
  match Chars.cut ['='] word.toList with
  | some (before, after) => (String.ofList before, some (String.ofList after))
  | none => (word, none)

def longCandidates (word : String) : List Word :=
  let (start, attached) := splitValue word
  (Switch.listed.filter fun (spelling, _) => Text.startsWith start spelling).map fun (spelling, switch) =>
    .option switch spelling attached

def shortCandidates (word : String) : List Word :=
  let short := String.ofList (word.toList.take 2)
  Switch.listed.filterMap fun (spelling, switch) =>
    if spelling == short then some (.option switch spelling (some (String.ofList (word.toList.drop 2))))
    else if Text.startsWith word spelling then some (.option switch spelling none)
    else none

def candidates (word : String) : List Word :=
  if Text.startsWith "--" word then longCandidates word else shortCandidates word

def isNegativeNumber (word : String) : Bool :=
  match word.toList with
  | '-' :: cs =>
    let cs := if cs.getLast? == some '\n' then cs.dropLast else cs
    let rest := cs.dropWhile Text.isDecimalDigit
    match rest with
    | [] => !cs.isEmpty
    | '.' :: fraction => !fraction.isEmpty && fraction.all Text.isDecimalDigit
    | _ => false
  | _ => false

/-- The option that a word spells exactly, with or without a value attached. -/
def spelled? (word : String) : Option Word :=
  match Switch.named? word with
  | some switch => some (.option switch word none)
  | none =>
    match splitValue word with
    | (spelling, some attached) =>
      (Switch.named? spelling).map fun switch => .option switch spelling (some attached)
    | _ => none

/-- What a word is; a word that shortens several options is nothing. -/
def classify? (word : String) : Option Word :=
  if !Text.startsWith "-" word || word == "-" then some (.value word)
  else match spelled? word with
    | some found => some found
    | none =>
      match candidates word with
      | [found] => some found
      | _ :: _ :: _ => none
      | [] =>
        if isNegativeNumber word || Text.occurs " " word then some (.value word) else some .unknownOption

def separatorText : String := "--"

/-- Classify all words. After a separator every word is a value. -/
def classifyAll? : List String → Option (List Word)
  | [] => some []
  | word :: rest =>
    if word == separatorText then some (.separator :: rest.map .value)
    else do
      let first ← classify? word
      let others ← classifyAll? rest
      return first :: others

end Word

/-- What is given for an option: a text, or nothing where the separator is attached to the option. -/
inductive Given where
  | text (s : String)
  | nothing
  deriving DecidableEq, Repr

namespace Given

def ofAttached (attached : String) : Given :=
  if attached == Word.separatorText then .nothing else .text attached

def orEmpty : Given → String
  | .text s => s
  | .nothing => ""

def value : Given → Value
  | .text s => .string s
  | .nothing => .array []

end Given

structure Options where
  input : Option Given := none
  outputDir : Given := .text "generated"
  moduleName : String := ""
  namespaceName : Option Given := none
  noFacade : Bool := false
  noExceptions : Bool := false
  plainC : Bool := false
  headerName : String := ""
  importHeaders : List Given := []
  templatesDir : String := ""
  noManifest : Bool := false
  dryRun : Bool := false
  verbose : Nat := 0
  quiet : Nat := 0
  logLevel : Option Log.Level := none
  logFormat : String := "%(levelname)s: %(message)s"
  logFile : String := ""
  deriving DecidableEq, Repr

namespace Options

def flag (o : Options) : Switch → Options
  | .noFacade => { o with noFacade := true }
  | .noExceptions => { o with noExceptions := true }
  | .plainC => { o with plainC := true }
  | .noManifest => { o with noManifest := true }
  | .dryRun => { o with dryRun := true }
  | .verbose => { o with verbose := o.verbose + 1 }
  | .quiet => { o with quiet := o.quiet + 1 }
  | _ => o

/-- Set a value. Only the names of levels are accepted for a level, and nothing, which leaves it open. -/
def value? (o : Options) (given : Given) : Switch → Option Options
  | .input => some { o with input := some given }
  | .outputDir => some { o with outputDir := given }
  | .moduleName => some { o with moduleName := given.orEmpty }
  | .namespaceName => some { o with namespaceName := some given }
  | .headerName => some { o with headerName := given.orEmpty }
  | .importHeader => some { o with importHeaders := o.importHeaders ++ [given] }
  | .templatesDir => some { o with templatesDir := given.orEmpty }
  | .logLevel =>
    match given with
    | .text word => (Log.Level.ofWord? word).map fun level => { o with logLevel := some level }
    | .nothing => some { o with logLevel := none }
  | .logFormat => some { o with logFormat := given.orEmpty }
  | .logFile => some { o with logFile := given.orEmpty }
  | _ => some o

def threshold (o : Options) : Log.Level :=
  match o.logLevel with
  | some level => level
  | none =>
    if o.verbose ≥ 1 then .debug
    else if o.quiet ≥ 2 then .error
    else if o.quiet == 1 then .warning
    else .info

end Options

def joined? (first : Switch) : List Char → Option (List Switch)
  | [] => some [first]
  | c :: cs =>
    match Switch.named? (String.ofList ['-', c]) with
    | some next => if next.takesValue then none else (joined? next cs).map (first :: ·)
    | none => none

def flags? (switch : Switch) (spelling : String) : Option String → Option (List Switch)
  | none => some [switch]
  | some attached =>
    if Text.startsWith "--" spelling || attached == "" then none else joined? switch attached.toList

inductive Request where
  | run (options : Options)
  | help
  | misuse
  deriving DecidableEq, Repr

/-- Read classified words. A word without a place makes the whole line unusable, once it is known that no help is
asked for. -/
def requestFrom (o : Options) (surplus : Bool) : List Word → Request
  | [] => if surplus || o.input.isNone then .misuse else .run o
  | .option switch spelling attached :: rest =>
    if switch.takesValue then
      match attached, rest with
      | some text, rest =>
        match o.value? (.ofAttached text) switch with
        | some o => requestFrom o surplus rest
        | none => .misuse
      | none, .value text :: rest =>
        match o.value? (.text text) switch with
        | some o => requestFrom o surplus rest
        | none => .misuse
      | none, _ => .misuse
    else
      match flags? switch spelling attached with
      | none => .misuse
      | some flags =>
        if flags.contains .help then .help else requestFrom (flags.foldl Options.flag o) surplus rest
  | _ :: rest => requestFrom o true rest

def request (words : List String) : Request :=
  match Word.classifyAll? words with
  | some classified => requestFrom {} false classified
  | none => .misuse

end FlatAbi.CommandLine
