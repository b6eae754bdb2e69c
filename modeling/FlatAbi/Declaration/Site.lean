import FlatAbi.Declaration.Basic

/-!
Places in a declaration tree. Scopes and qualified names are functions of the nodes around a node.
-/

namespace FlatAbi

/-- The identity of a node: its path of child indices in the document, its path in the runtime class, or the member
that a class gets implicitly. -/
inductive NodeId where
  | declared (path : List Nat)
  | runtime (path : List Nat)
  | implicit (owner : List Nat) (destructor : Bool)
  deriving DecidableEq, Repr

namespace NodeId

def child : NodeId → Nat → NodeId
  | .declared path, index => .declared (path ++ [index])
  | .runtime path, index => .runtime (path ++ [index])
  | .implicit owner destructor, _ => .implicit owner destructor

end NodeId

structure Site where
  id : NodeId
  node : Node
  above : List (NodeId × Node) := []

namespace Site

def decl (s : Site) : Declaration :=
  s.node.decl

def kind (s : Site) : Kind :=
  s.node.kind

def name (s : Site) : String :=
  s.decl.name

def root (n : Node) : Site :=
  ⟨.declared [], n, []⟩

def parent? (s : Site) : Option Site :=
  match s.above with
  | [] => none
  | (id, n) :: rest => some ⟨id, n, rest⟩

def inside (s : Site) : List (NodeId × Node) :=
  (s.id, s.node) :: s.above

def childrenFrom (s : Site) (index : Nat) : List Node → List Site
  | [] => []
  | n :: rest => ⟨s.id.child index, n, s.inside⟩ :: childrenFrom s (index + 1) rest

def children (s : Site) : List Site :=
  childrenFrom s 0 s.node.children

def child? (s : Site) (index : Nat) : Option Site :=
  s.node.children[index]?.map fun n => ⟨s.id.child index, n, s.inside⟩

def descend? (s : Site) : List Nat → Option Site
  | [] => some s
  | index :: rest => (s.child? index).bind (·.descend? rest)

mutual

def walkNode (id : NodeId) (above : List (NodeId × Node)) : Node → List Site
  | .mk d cs => ⟨id, .mk d cs, above⟩ :: walkNodes id ((id, .mk d cs) :: above) 0 cs

def walkNodes (parent : NodeId) (above : List (NodeId × Node)) (index : Nat) : List Node → List Site
  | [] => []
  | n :: rest => walkNode (parent.child index) above n ++ walkNodes parent above (index + 1) rest

end

def walk (s : Site) : List Site :=
  walkNode s.id s.above s.node

/-- A name as seen from outside its scope. A name that is already qualified stays as it is. -/
def qualify (scope : String) (name : Value) : String :=
  if name.holdsSeparator then name.display
  else if scope != "" && name.truthy then scope ++ "::" ++ name.display
  else name.display

/-- The qualified name of the closest namespace or class among the surrounding nodes, seen through includes and
imports; empty at global scope. -/
def scopeNameOf : List (NodeId × Node) → String
  | [] => ""
  | (_, n) :: rest =>
    match n.kind with
    | .includeDecl | .importDecl => scopeNameOf rest
    | .namespaceDecl | .classDecl => qualify (scopeNameOf rest) n.decl.givenName
    | _ => ""

def scopeName (s : Site) : String :=
  scopeNameOf s.above

def qualifiedName (s : Site) : String :=
  qualify s.scopeName s.decl.givenName

/-- The qualified name as a value: a name that is not text stays what it is where nothing is put before it. -/
def qualifiedValue (s : Site) : Value :=
  if s.decl.givenName.isText then .string s.qualifiedName
  else if s.decl.givenName.holdsSeparator || s.scopeName == "" then s.decl.givenName
  else .string s.qualifiedName

/-- The names around a site have to be searched for `::`, up to one that has it. -/
def checkScopeOf : List (NodeId × Node) → Except Misshapen Unit
  | [] => .ok ()
  | (_, n) :: rest =>
    match n.kind with
    | .includeDecl | .importDecl => checkScopeOf rest
    | .namespaceDecl | .classDecl => do
      n.decl.givenName.searchable
      if n.decl.givenName.holdsSeparator then return else checkScopeOf rest
    | _ => .ok ()

def checkScope (s : Site) : Except Misshapen Unit :=
  checkScopeOf s.above

def checkQualified (s : Site) : Except Misshapen Unit := do
  s.decl.givenName.searchable
  if s.decl.givenName.holdsSeparator then return else s.checkScope

def closest (through : Kind → Bool) : List (NodeId × Node) → Option Site
  | [] => none
  | (id, n) :: rest => if through n.kind then closest through rest else some ⟨id, n, rest⟩

def scope? (s : Site) : Option Site :=
  (closest (fun k => k == .includeDecl || k == .importDecl) s.above).filter fun p =>
    p.kind == .namespaceDecl || p.kind == .classDecl

def scopeValue (s : Site) : Value :=
  match s.scope? with
  | some scope => scope.qualifiedValue
  | none => .string ""

def enclosingClass? (s : Site) : Option Site :=
  (closest (· == .includeDecl) s.above).filter (·.kind == .classDecl)

def isMember (s : Site) : Bool :=
  s.enclosingClass?.isSome

def namedNamespaces (s : Site) : List Declaration :=
  ((s.above.map fun (_, n) => n.decl).filter fun d => d.kind == .namespaceDecl && d.hasName).reverse

def namespaceName (s : Site) : String :=
  Text.join "::" (s.namedNamespaces.map (·.name))

def checkNamespace (s : Site) : Except Misshapen Unit :=
  s.namedNamespaces.forM fun d => d.givenName.checkPart

def nextSibling? (s : Site) : Option Site :=
  s.parent?.bind fun p => ((p.children.dropWhile (·.id != s.id)).drop 1).head?

def usesNamespace (s : Site) : Bool :=
  s.inside.any fun (_, n) => (n.decl.feature "nspace").truthy

end Site

end FlatAbi
