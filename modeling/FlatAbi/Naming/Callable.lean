import FlatAbi.Naming.Basic

/-!
Callables: what a wrapper is written for. `NameBook` remembers the symbol given to each callable.
-/

namespace FlatAbi

inductive Role where
  | function
  | method
  | staticMethod
  | constructor
  | copyConstructor
  | destructor
  | memberGet
  | memberSet
  | staticGet
  | staticSet
  | globalGet
  | globalSet
  deriving DecidableEq, Repr

namespace Role

def hasSelf : Role → Bool
  | .method | .destructor | .memberGet | .memberSet => true
  | _ => false

end Role

/-- One callable: the declaration it comes from, its role, the symbol its name is built from, and its signature
without the object. An inherited member has the class it comes from, and the member name to call when it was
renamed. -/
structure Callable where
  site : Site
  role : Role
  symbol : Value
  result : CxxType
  parameters : List Parameter := []
  owner : Option Site := none
  inheritedFrom : Option Site := none
  baseName : Option String := none
  overloaded : Bool := false
  constOverloaded : Bool := false

namespace Callable

def decl (c : Callable) : Declaration :=
  c.site.decl

def symName (c : Callable) : String :=
  c.symbol.display

def isConst (c : Callable) : Bool :=
  c.decl.isConst && c.role == .method

def callName (c : Callable) : String :=
  Text.orElse (c.baseName.getD "") c.decl.shortName

def checkCallName (c : Callable) : Except Misshapen Unit :=
  if c.baseName.getD "" == "" then c.decl.checkName else .ok ()

end Callable

namespace Naming

/-- What an overloaded callable adds to its name; copy constructors are never overloaded. -/
def suffixOf (c : Callable) (codes : List String) : String :=
  if c.overloaded && c.role != .copyConstructor then overloadSuffix codes c.constOverloaded else ""

def memberSymbol (proxy : String) (c : Callable) : String :=
  match c.role with
  | .constructor => proxy ++ "_new"
  | .copyConstructor => proxy ++ "_copy"
  | .destructor => proxy ++ "_delete"
  | .memberGet | .staticGet => proxy ++ "_" ++ c.symName ++ "_get"
  | .memberSet | .staticSet => proxy ++ "_" ++ c.symName ++ "_set"
  | _ => proxy ++ "_" ++ c.symName

def wrapperName (config : Config) (c : Callable) (codes : List String) : String :=
  match c.owner with
  | some owner => memberSymbol (proxyName config owner) c ++ suffixOf c codes
  | none =>
    let global := config.globalPart?.getD ""
    let accessed := if global != "" then global ++ "_" ++ c.symName else c.symName
    match c.role with
    | .globalGet => accessed ++ "_get"
    | .globalSet => accessed ++ "_set"
    | _ => freePart config c.site ++ "_" ++ c.symName ++ suffixOf c codes

def checkWrapperName (c : Callable) : Except Misshapen Unit := do
  c.symbol.checkKey
  match c.owner, c.role with
  | some owner, _ => checkProxy owner
  | none, .globalGet | none, .globalSet => return
  | none, _ => checkScopePart c.site

end Naming

structure NameKey where
  node : NodeId
  owner : Option NodeId
  role : Role
  symbol : Option Atom
  deriving DecidableEq, Repr

def Callable.key (c : Callable) : NameKey :=
  ⟨c.site.id, c.owner.map (·.id), c.role, c.symbol.atom?⟩

/-- The symbols given so far, the last one first. -/
abbrev NameBook := List (NameKey × String)

namespace NameBook

/-- Give the symbol on file for a key, else a new one. Whatever is given is put on file. -/
def give (book : NameBook) (key : NameKey) (fresh : String) : String × NameBook :=
  let name := (book.lookup key).getD fresh
  (name, (key, name) :: book)

def name (book : NameBook) (config : Config) (c : Callable) (codes : List String) : String × NameBook :=
  book.give c.key (Naming.wrapperName config c codes)

end NameBook

end FlatAbi
