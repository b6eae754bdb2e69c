import FlatAbi.Wrapper.Direct

/-!
Facade classes. A class is opened, gets a member for each wrapper and is closed; a class with several usable bases
has no facade.
-/

namespace FlatAbi.Facade

/-- The class that carries C++ exceptions across the C boundary. -/
def exceptionClass : String := "SWIG_CException"

/-- A class under emission. One without a facade is not open. -/
structure OpenClass where
  site : Site
  base : Option Site := none
  isOpen : Bool := false
  hasCopyConstructor : Bool := false

namespace OpenClass

def className (c : OpenClass) : String :=
  c.site.decl.symbol

def ending (config : Config) (c : OpenClass) : FacadeEnd :=
  { className := c.className
    pointer := Naming.classPointer config c.site
    base := c.base.map fun b => (b.decl.symbol, Naming.classPointer config b)
    hasCopyConstructor := c.hasCopyConstructor }

end OpenClass

def openClass (job : Job) (cls : Site) : Emit OpenClass := do
  if !job.config.writesFacade then return { site := cls }
  Emit.tellUnknownBases cls
  Emit.check (Inheritance.checkBases cls)
  match Inheritance.usableBases (← get).table cls with
  | _ :: _ :: _ =>
    Emit.warn cls
      ("Multiple inheritance not supported yet, skipping C++ wrapper generation for " ++ cls.decl.symbol)
    return { site := cls }
  | bases =>
    Emit.append (.facadeForward cls.decl.symbol)
    Emit.append (.facadeOpen cls.decl.symbol (bases.head?.map (·.decl.symbol)))
    return { site := cls, base := bases.head?, isOpen := true }

def result (r : Resolver) (c : Callable) : Except Halt FacadeRendering :=
  if c.result.isVoid then .ok { type := "void" } else r.facadeResultAt c.result c.site.scopeValue

def parameters (r : Resolver) (c : Callable) : List Wrapper.TypedParameter → Emit (List FacadeParameter)
  | [] => return []
  | p :: rest => do
    let rendering ← Emit.lift (r.facadeParameterAt p.type c.site.scopeValue)
    Emit.require rendering.needs
    let others ← parameters r c rest
    return ⟨p.name.getD "", rendering⟩ :: others

def declaresResult : Role → Bool
  | .memberGet | .staticGet | .method | .staticMethod => true
  | _ => false

def checkDeclared (r : Resolver) (c : Callable) : Except Halt Unit :=
  if c.result.isVoid || !declaresResult c.role then .ok ()
  else do
    let category ← Wrapper.categoryOf r c c.result
    Halt.ofMisshapen ((r.classOf? c.result c.site.scopeName category).forM fun cls =>
      cls.decl.symbolValue.checkText)

/-- The call of a member is checked for a pending exception, unless it cannot throw. -/
def isChecked (draft : Draft) (cls : OpenClass) (c : Callable) : Bool :=
  draft.checked && !c.decl.cannotThrow && cls.site.name != exceptionClass

def member (job : Job) (cls : OpenClass) (w : Wrapper.Written) : Emit FacadeMember := do
  let r ← Emit.resolver job
  let c := w.callable
  Emit.check c.site.checkScope
  Emit.check c.decl.checkName
  let result ← Emit.lift (result r c)
  Emit.require result.needs
  let parameters ← parameters r c w.inputs
  Emit.lift (checkDeclared r c)
  return {
    role := c.role
    className := cls.className
    hasBase := cls.base.isSome
    name := c.decl.shortName
    isVirtual := c.decl.isVirtual
    isConst := c.isConst
    result := result
    parameters := parameters
    symbol := w.symbol
    checked := isChecked (← get) cls c }

def hasMember : Role → Bool
  | .function | .globalGet | .globalSet => false
  | _ => true

/-- Add a member to an open class. Inherited members come from the facade of the base, and friends are none. -/
def addMember (job : Job) (cls : OpenClass) (w : Wrapper.Written) : Emit OpenClass := do
  if !cls.isOpen || w.callable.inheritedFrom.isSome || w.callable.decl.isFriend then return cls
  let m ← member job cls w
  if !hasMember m.role then
    Emit.warn w.callable.site ("Not generating C++ wrappers for " ++ w.callable.symName)
    return cls
  Emit.append (.facadeMember m)
  if m.isDefinedOutside then Emit.append (.facadeDefinition m)
  return { cls with hasCopyConstructor := cls.hasCopyConstructor || m.role == .copyConstructor }

def closeClass (job : Job) (cls : OpenClass) : Emit OpenClass := do
  if !cls.isOpen then return cls
  Emit.check (Naming.checkProxy cls.site)
  Emit.check (cls.base.forM Naming.checkProxy)
  Emit.append (.facadeClose (cls.ending job.config))
  return { cls with isOpen := false }

/-- Prepare the checks for pending exceptions. An imported module has the functions for them already. -/
def prepareChecks (job : Job) (support : ExceptionSupport) : Emit Unit := do
  if job.config.writesFacade then
    if support == .enabled then Emit.append .checkSupport
    modify fun draft => { draft with checked := support != .disabled }

end FlatAbi.Facade
