import FlatAbi.Diagnostic
import FlatAbi.Inheritance.Basic
import FlatAbi.Output.Chunk
import FlatAbi.Typemap.Basic

/-!
The draft of the output that one run writes. It only grows, also where emission stops at a declaration.
-/

namespace FlatAbi

/-- Whether C++ exceptions cross the C boundary, and which module defines the class that carries them. -/
inductive ExceptionSupport where
  | enabled
  | disabled
  | imported
  deriving DecidableEq, Repr

inductive SymbolKind where
  | type
  | function
  | constant
  | variable
  deriving DecidableEq, Repr

def SymbolKind.word : SymbolKind → String
  | .type => "type"
  | .function => "function"
  | .constant => "constant"
  | .variable => "variable"

structure Symbol where
  kind : SymbolKind
  name : Value
  declaration : Value
  file : Value
  line : Int

inductive Event where
  | diagnosed (d : Diagnostic)
  | wrapped (declaration : Value) (symbol : String)
  | enumWithoutElements (declaration : Value)
  | unknownBase (base : String) (cls : Value)

structure Job where
  config : Config
  root : Site
  typemaps : TypemapTable

/-- `declared` lists what the types section was made to declare, `checked` tells whether the facade checks for pending
exceptions, `freeFunctions` lists scope and symbol of the functions outside classes, and `runtimeClass` is the exception
class of this module. -/
structure Draft where
  table : SymbolTable
  chunks : List Chunk := []
  declared : List Need := []
  symbols : List Symbol := []
  events : List Event := []
  names : NameBook := []
  memo : Inheritance.Memo := {}
  exceptions : ExceptionSupport := .disabled
  checked : Bool := false
  freeFunctions : List (Option NodeId × Option Atom) := []
  runtimeClass : Option Site := none

namespace Draft

def ofTree (root : Site) : Draft :=
  { table := SymbolTable.ofTree root }

def start (root : Site) : Except Halt Draft := do
  Halt.ofMisshapen (SymbolTable.checkTree root)
  return ofTree root

def sectionText (draft : Draft) (target : Section) : String :=
  FlatAbi.sectionText target draft.chunks

def diagnostics (draft : Draft) : List Diagnostic :=
  draft.events.filterMap fun
    | .diagnosed d => some d
    | _ => none

def isDefined (draft : Draft) (name : String) : Bool :=
  draft.symbols.any (·.name.asString? == some name)

end Draft

abbrev Emit := ExceptT Halt (StateM Draft)

namespace Emit

def lift {α : Type} : Except Halt α → Emit α
  | .ok value => pure value
  | .error halt => throw halt

def check (result : Except Misshapen Unit) : Emit Unit :=
  lift (Halt.ofMisshapen result)

def append (chunk : Chunk) : Emit Unit :=
  modify fun draft => { draft with chunks := draft.chunks ++ [chunk] }

def tell (event : Event) : Emit Unit :=
  modify fun draft => { draft with events := draft.events ++ [event] }

def report (severity : Severity) (site : Site) (message : String) : Emit Unit :=
  tell (.diagnosed (.about severity (some site) message))

def warn (site : Site) (message : String) : Emit Unit :=
  report .warning site message

/-- Record a symbol that the output defines. Its declaration has to have a qualified name. -/
def record (kind : SymbolKind) (name : Value) (site : Site) : Emit Unit := do
  check site.checkQualified
  modify fun draft =>
    { draft with
      symbols := draft.symbols ++ [⟨kind, name, site.qualifiedValue, site.decl.file, site.decl.line⟩] }

def chunkOf : Need → Chunk
  | .boolSupport => .boolSupport
  | .opaqueType name => .opaqueType name

/-- Declare what is needed, unless it is declared already. -/
def require (needs : List Need) : Emit Unit :=
  needs.forM fun need => do
    if !(← get).declared.contains need then
      modify fun draft => { draft with declared := draft.declared ++ [need] }
      append (chunkOf need)

def resolver (job : Job) : Emit Resolver := do
  return ⟨job.config, (← get).table⟩

/-- A rejection drops the declaration and is reported as an error of it; a fault goes on. -/
def guarded (site : Site) (work : Emit Unit) : Emit Unit :=
  tryCatch work fun
    | .rejected message found => report .error (found.getD site) message
    | .fault cause => throw (.fault cause)

def tellUnknownBases (cls : Site) : Emit Unit := do
  let table := (← get).table
  (Inheritance.unknownBases table cls).forM fun base => tell (.unknownBase base cls.decl.givenName)

/-- Run a query on inherited members, keep what it learned, and tell about the classes it opened. -/
def inherit {α : Type} (query : SymbolTable → Inheritance.Memo → α × Inheritance.Memo) : Emit α := do
  let draft ← get
  let (found, memo) := query draft.table draft.memo
  let (answer, memo) := memo.settle found
  set { draft with memo := memo }
  (memo.opened.drop draft.memo.opened.length).forM tellUnknownBases
  lift (Halt.ofMisshapen answer)

end Emit

end FlatAbi
