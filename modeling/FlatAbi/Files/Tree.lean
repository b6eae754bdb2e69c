import FlatAbi.Entries
import FlatAbi.Files.Path
import FlatAbi.Text.Layout
import FlatAbi.Text.Quoted

/-!
Files and directories, and work on them. `..` leads back only from a directory that exists.
-/

namespace FlatAbi

inductive Entry where
  | file (text : String)
  | directory
  deriving DecidableEq, Repr

structure FileTree where
  entries : List (Path × Entry) := []
  deriving DecidableEq, Repr

inductive FileFault where
  | missing
  | exists
  | notDirectory
  | isDirectory
  | nameTooLong
  | busy
  | embeddedNull
  | unencodable
  deriving DecidableEq, Repr

structure FileError where
  fault : FileFault
  path : Path
  deriving DecidableEq, Repr

namespace FileError

/-- The number and the words of a fault; what is no text of a path or of a file is refused before it gets a number. -/
def numbered? : FileFault → Option (Nat × String)
  | .missing => some (2, "No such file or directory")
  | .busy => some (16, "Device or resource busy")
  | .exists => some (17, "File exists")
  | .notDirectory => some (20, "Not a directory")
  | .isDirectory => some (21, "Is a directory")
  | .nameTooLong => some (36, "File name too long")
  | .embeddedNull | .unencodable => none

def message (e : FileError) : String :=
  match numbered? e.fault with
  | some (number, reason) => s!"[Errno {number}] {reason}: {Text.quoted e.path.text}"
  | none => if e.fault == .embeddedNull then "embedded null byte" else "surrogates not allowed"

def isOfFiles (e : FileError) : Bool :=
  (numbered? e.fault).isSome

end FileError

namespace FileTree

def find? (tree : FileTree) (path : Path) : Option Entry :=
  if path.normal = .root then some .directory else tree.entries.lookup path.normal

def put (tree : FileTree) (path : Path) (entry : Entry) : FileTree :=
  ⟨setEntry path.normal entry tree.entries⟩

def remove (tree : FileTree) (path : Path) : FileTree :=
  ⟨dropEntry path.normal tree.entries⟩

def nameLimit : Nat := 255

def pathLimit : Nat := 4095

def checkCharacters (route : Route) : Except FileFault Unit :=
  if !route.parts.all Text.Units.isEncodable then .error .unencodable
  else if route.parts.any fun part => part.toList.contains '\x00' then .error .embeddedNull
  else .ok ()

def checkText (route : Route) : Except FileFault Unit := do
  checkCharacters route
  if route.text.utf8ByteSize > pathLimit then .error .nameTooLong

def follow (tree : FileTree) (reached : Path) : List String → Except FileFault Path
  | [] => .ok reached
  | part :: rest =>
    if part == Path.back then tree.follow reached.parent rest
    else if part.utf8ByteSize > nameLimit then .error .nameTooLong
    else
      match tree.find? (reached.entry part) with
      | some .directory => tree.follow (reached.entry part) rest
      | some (.file _) => .error .notDirectory
      | none => .error .missing

/-- What a route leads to: a name in an existing directory, or a directory that is reached without a name. -/
inductive Target where
  | named (path : Path)
  | unnamed (directory : Path)
  deriving DecidableEq, Repr

def target (tree : FileTree) (route : Route) : Except FileFault Target := do
  checkText route
  match route.parts.getLast? with
  | none => return .unnamed route.start
  | some name =>
    if name == Path.back then
      return .unnamed (← tree.follow route.start route.parts)
    let directory ← tree.follow route.start route.parent.parts
    if name.utf8ByteSize > nameLimit then .error .nameTooLong
    else return .named (directory.entry name)

def entryAt (tree : FileTree) : Target → Option Entry
  | .named path => tree.find? path
  | .unnamed _ => some .directory

def isDirectory (tree : FileTree) (route : Route) : Bool :=
  match tree.target route with
  | .ok target => tree.entryAt target == some .directory
  | .error _ => false

def content (tree : FileTree) (route : Route) : Except FileFault String := do
  match tree.entryAt (← tree.target route) with
  | some (.file text) => return text
  | some .directory => .error .isDirectory
  | none => .error .missing

def read (tree : FileTree) (route : Route) : Except FileError String :=
  (tree.content route).mapError fun fault => ⟨fault, route.path⟩

def makeOne (tree : FileTree) (route : Route) : Except FileFault FileTree := do
  match ← tree.target route with
  | .unnamed _ => .error .exists
  | .named place => if (tree.find? place).isSome then .error .exists else return tree.put place .directory

def makeIfAbsent (tree : FileTree) (route : Route) : Except FileFault FileTree :=
  match tree.makeOne route with
  | .ok made => .ok made
  | .error fault => if fault != .missing && tree.isDirectory route then .ok tree else .error fault

def holds (tree : FileTree) (route : Route) (text : String) : Except FileFault Bool :=
  match tree.content route with
  | .ok old => .ok (Text.normalizeNewlines old == text)
  | .error .missing => .ok false
  | .error fault => .error fault

/-- Where a route leads, if a file can be there. A directory that is reached without a name gives the fault
`unnamed`. -/
def filePlace (tree : FileTree) (unnamed : FileFault) (route : Route) : Except FileFault Path := do
  match ← tree.target route with
  | .unnamed _ => .error unnamed
  | .named place => if tree.find? place = some .directory then .error .isDirectory else return place

def truncate (tree : FileTree) (route : Route) : Except FileError FileTree :=
  ((tree.filePlace .isDirectory route).map fun place => tree.put place (.file "")).mapError fun fault =>
    ⟨fault, route.path⟩

def draftName (name : String) (number : Nat) : String :=
  "." ++ name ++ "." ++ String.ofList (Text.Quoted.hex 8 number)

/-- The number of names that are tried for a draft. -/
def draftTries : Nat := 10000

def freePlace? (tree : FileTree) (directory : Path) (name : String) : Nat → Option Path
  | 0 => none
  | number + 1 =>
    let place := directory.entry (draftName name number)
    if (tree.find? place).isNone then some place else tree.freePlace? directory name number

/-- A place for the draft of a file: a free name in its directory, longer than that of the file. -/
def draftPlace (tree : FileTree) (route : Route) : Except FileFault Path := do
  checkText route
  let directory ← tree.follow .root route.parent.path.normal.components
  let name := route.parts.getLast?.getD ""
  if (draftName name 0).utf8ByteSize > nameLimit then .error .nameTooLong
  else match tree.freePlace? directory name draftTries with
    | some place => return place
    | none => .error .exists

def fill (tree : FileTree) (path : Path) (text : String) : Except FileFault FileTree :=
  if Text.Units.isEncodable text then .ok (tree.put path (.file text)) else .error .unencodable

/-- Move a file to where a route leads. A file that is there is replaced. -/
def rename (tree : FileTree) (path : Path) (route : Route) : Except FileFault FileTree := do
  let place ← tree.filePlace .busy route
  match tree.find? path with
  | some entry => return (tree.remove path).put place entry
  | none => .error .missing

def extend (tree : FileTree) (path : Path) (text : String) : FileTree :=
  match tree.find? path with
  | some (.file old) => if Text.Units.isEncodable text then tree.put path (.file (old ++ text)) else tree
  | _ => tree

end FileTree

/-- Work on files. What was done before a failure stays done. -/
abbrev FileWork := ExceptT FileError (StateM FileTree)

namespace FileWork

def ask {α : Type} (route : Route) (question : FileTree → Except FileFault α) : FileWork α := do
  match question (← get) with
  | .ok answer => return answer
  | .error fault => throw ⟨fault, route.path⟩

def change (route : Route) (step : FileTree → Except FileFault FileTree) : FileWork Unit := do
  set (← ask route step)

/-- Make the directory with these components, the last one first, after those above it if they are missing. -/
def ensureFrom (route : Route) : List String → FileWork Unit
  | [] => return
  | part :: above => do
    let here := { route with parts := (part :: above).reverse }
    match (← get).makeIfAbsent here with
    | .error .missing =>
      ensureFrom route above
      change route fun tree => tree.makeIfAbsent here
    | result => change route fun _ => result

def ensureDirectory (route : Route) : FileWork Unit :=
  ensureFrom route route.parts.reverse

/-- Work with a draft, a new file that is removed when the work fails. -/
def withDraft (draft : Path) (work : FileWork Unit) : FileWork Unit := do
  modify fun tree => tree.put draft (.file "")
  tryCatch work fun failure => do
    modify fun tree => tree.remove draft
    throw failure

/-- Replace the text of a file. The text is drafted in a file beside it, which is then moved to its place. -/
def replace (route : Route) (text : String) : FileWork Unit := do
  let draft ← ask route fun tree => tree.draftPlace route
  withDraft draft do
    change route fun tree => tree.fill draft text
    change route fun tree => tree.rename draft route

/-- Write a file with normal line ends. The answer tells whether anything was written: a file that holds the text
already can be left alone. -/
def write (route : Route) (content : String) (makeParents onlyIfChanged : Bool) : FileWork Bool := do
  let text := Text.normalizeNewlines content
  if makeParents then ensureDirectory route.parent
  let unchanged ← if onlyIfChanged then ask route fun tree => tree.holds route text else pure false
  if unchanged then return false
  replace route text
  return true

end FileWork

end FlatAbi
