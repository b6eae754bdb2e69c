import FlatAbi.Emission.Enumeration
import FlatAbi.Emission.Variable

/-!
Plain C structs, whose members are declared as they are.
-/

namespace FlatAbi.Struct

/-- The declaration of a member. A member that is rejected is reported and left out. -/
def member? (job : Job) (site : Site) : Emit (Option String) :=
  tryCatch (Variable.declare? job site) fun
    | .rejected message found => do
      Emit.report .error (found.getD site) message
      return none
    | .fault cause => throw (.fault cause)

def spelled (d : Declaration) : String :=
  match d.type with
  | some t => t.declare d.name
  | none => d.name

/-- A name can be spelled in a declaration of a type: it is text, or nothing in front of which a qualifier stands. -/
def checkSpelled (t : CxxType) (name : Value) : Except Misshapen Unit :=
  let isLevel : Declarator → Bool
    | .other _ => false
    | _ => true
  match (t.writtenDeclarators.map Declarator.level).find? isLevel with
  | none => name.checkText
  | some (.qualifier _) => if name.truthy then name.checkPart else .ok ()
  | some _ => name.checkPart

/-- What one child contributes to the struct. Enums are written on their own. -/
def child (job : Job) (site : Site) : Emit (List String) :=
  if site.decl.isIgnored then return []
  else match site.kind with
    | .variableDecl => return (← member? job site).toList
    | .functionDecl => do
      Emit.check (site.decl.type.forM fun t => checkSpelled t site.decl.givenName)
      Emit.warn site
        ("Extending C struct with " ++ spelled site.decl ++ " is not currently supported, ignored.")
      return []
    | .enumDecl => do
      let _ ← Enumeration.write job site none
      return []
    | _ => return []

def members (job : Job) : List Site → Emit (List String)
  | [] => return []
  | site :: rest => do
    let first ← child job site
    let others ← members job rest
    return first ++ others

def write (job : Job) (cls : Site) : Emit Unit := do
  Emit.check (Naming.checkProxy cls)
  let members ← members job cls.children
  let written := cls.decl.attr "tdname"
  Emit.append (.plainStruct (Naming.proxyName job.config cls)
    (if written.truthy then some written.display else none) members)

end FlatAbi.Struct
