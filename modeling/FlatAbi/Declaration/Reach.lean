import FlatAbi.Declaration.Site

/-!
Declarations that are reached through includes and namespaces, which only group others.
-/

namespace FlatAbi.Site

mutual

def reachNode (passes : Declaration → Bool) (id : NodeId) (above : List (NodeId × Node)) : Node → List Site
  | .mk d cs =>
    if passes d then reachNodes passes id ((id, .mk d cs) :: above) 0 cs else [⟨id, .mk d cs, above⟩]

def reachNodes (passes : Declaration → Bool) (parent : NodeId) (above : List (NodeId × Node)) (index : Nat) :
    List Node → List Site
  | [] => []
  | n :: rest =>
    reachNode passes (parent.child index) above n ++ reachNodes passes parent above (index + 1) rest

end

/-- The sites below this one that are reached through nodes that `passes` lets pass. -/
def reach (passes : Declaration → Bool) (s : Site) : List Site :=
  reachNodes passes s.id s.inside 0 s.node.children

def isGroup (d : Declaration) : Bool :=
  d.kind == .includeDecl || d.kind == .namespaceDecl

/-- The declarations to emit: nothing that is ignored, and nothing below an ignored group. -/
def emitted (s : Site) : List Site :=
  (s.reach fun d => isGroup d && !d.isIgnored).filter fun found => !found.decl.isIgnored

def freeFunctions (s : Site) : List Site :=
  (s.reach isGroup).filter fun found => found.kind == .functionDecl && !found.decl.isIgnored

def importedModule (d : Declaration) : Value :=
  let written := d.attr "module"
  if written.truthy then written else d.givenName

def namedImport? (s : Site) : Option Site :=
  (s.reach fun d => d.kind == .includeDecl).find? fun found =>
    found.kind == .importDecl && (importedModule found.decl).truthy

end FlatAbi.Site
