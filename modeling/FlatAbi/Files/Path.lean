import FlatAbi.Text.Basic

/-!
Absolute paths as lists of components, and routes: components to follow from a directory.
-/

namespace FlatAbi

structure Path where
  components : List String
  deriving DecidableEq, Repr

namespace Path

def root : Path := ⟨[]⟩

def text (p : Path) : String :=
  "/" ++ Text.join "/" p.components

def split (written : String) : List String :=
  (Text.splitOn "/" written).filter fun part => part != "" && part != "."

/-- Continue a path as written. An absolute path starts again from the root. -/
def append (p : Path) (written : String) : Path :=
  if Text.startsWith "/" written then ⟨split written⟩ else ⟨p.components ++ split written⟩

def parent (p : Path) : Path :=
  ⟨p.components.dropLast⟩

def entry (p : Path) (name : String) : Path :=
  ⟨p.components ++ [name]⟩

def back : String := ".."

def step (reached : List String) (part : String) : List String :=
  if part == back then reached.dropLast else reached ++ [part]

def normal (p : Path) : Path :=
  ⟨p.components.foldl step []⟩

def resolve (directory : Path) (written : String) : Path :=
  (directory.append written).normal

end Path

/-- Components to follow from a directory. A path is followed from the root. -/
structure Route where
  start : Path := .root
  parts : List String
  deriving DecidableEq, Repr

namespace Route

def ofPath (p : Path) : Route :=
  { parts := p.components }

instance : Coe Path Route := ⟨ofPath⟩

def written (directory : Path) (text : String) : Route :=
  { start := if Text.startsWith "/" text then .root else directory
    parts := Path.split text }

def path (r : Route) : Path :=
  ⟨r.start.components ++ r.parts⟩

def parent (r : Route) : Route :=
  { r with parts := r.parts.dropLast }

def text (r : Route) : String :=
  (if r.start = .root then "/" else "") ++ Text.join "/" r.parts

end Route

end FlatAbi
