import FlatAbi.Declaration.Reach
import FlatAbi.Emission.Constant
import FlatAbi.Emission.Members
import FlatAbi.Emission.Struct

/-!
The run over a module. Every declaration is emitted on its own, and one that is rejected is reported and dropped.
-/

namespace FlatAbi.Module

def runtimeMember (d : Declaration) : Node :=
  .mk { d with noexcept := true } []

def runtimeNode : Node :=
  let name := Facade.exceptionClass
  .mk { Declaration.named .classDecl name with file := .string "<runtime>" }
    [ runtimeMember
        { Declaration.named .constructorDecl name with
          parameters := [{ name := .string "ex", type := some ⟨name, [.lvalueReference, .qualifier "const"]⟩ }]
          attributes := [("copy_constructor", .bool true)] },
      runtimeMember (.named .destructorDecl ("~" ++ name)),
      runtimeMember
        { Declaration.named .variableDecl "code" with
          type := some ⟨"int", []⟩
          features := [("immutable", .bool true)] },
      runtimeMember
        { Declaration.named .variableDecl "msg" with
          type := some ⟨"char", [.pointer, .qualifier "const"]⟩
          features := [("immutable", .bool true)] },
      runtimeMember
        { Declaration.named .functionDecl "get_pending" with
          type := some (.pointerTo name)
          storage := some .static },
      runtimeMember
        { Declaration.named .functionDecl "reset_pending" with
          type := some .void
          storage := some .static } ]

def runtimeClass (root : Site) : Site :=
  ⟨.runtime [], runtimeNode, root.inside⟩

/-- How a module supports exceptions, and the start of the name of the function that raises them. The first import
of a named module provides the support. -/
def exceptionSupport (config : Config) (root : Site) : ExceptionSupport × String :=
  if !(config.exceptions && config.cplusplus) then (.disabled, "")
  else match root.namedImport? with
    | some found => (.imported, (Site.importedModule found.decl).display)
    | none => (.enabled, Text.orElse (config.globalPart?.getD "") config.moduleName)

def prepareExceptions (job : Job) : Emit Unit := do
  let (support, part) := exceptionSupport job.config job.root
  modify fun draft => { draft with exceptions := support }
  if support != .disabled then Emit.append (.raiseName part)
  if support == .imported then Emit.append .raiseImported
  Facade.prepareChecks job support
  if support == .enabled then
    modify fun draft =>
      { draft with
        runtimeClass := some (runtimeClass job.root)
        table := draft.table.register (runtimeClass job.root) }

/-- Write a wrapper and its facade member. A symbol that C cannot have is refused with a warning. -/
def wrap (job : Job) (cls : Option Facade.OpenClass) (c : Callable) : Emit (Option Facade.OpenClass) := do
  Emit.check c.symbol.checkPart
  if !Text.isSymbolName c.symName then
    let shown := Text.quoted c.symName
    Emit.warn c.site ("Invalid symbol name " ++ shown ++ ", " ++ c.decl.name ++ " not wrapped")
    return cls
  match ← Wrapper.write job c, cls with
  | some written, some cls => return some (← Facade.addMember job cls written)
  | _, cls => return cls

def overloadSymbol (d : Declaration) : Value :=
  if d.givenSymbol.truthy then d.givenSymbol else .string ""

def overloadKey (site : Site) : Option NodeId × Option Atom :=
  (site.scope?.map (·.id), (overloadSymbol site.decl).atom?)

def checkOverload (site : Site) : Except Misshapen Unit :=
  (overloadSymbol site.decl).checkKey

def freeFunction (job : Job) (site : Site) : Emit Unit := do
  if !site.decl.isFriend then
    Emit.check (checkOverload site)
    let draft ← get
    let _ ← wrap job none
      { site := site
        role := .function
        symbol := site.decl.symbolValue
        result := site.decl.type.getD .void
        parameters := site.decl.parameters
        overloaded := draft.freeFunctions.count (overloadKey site) > 1 }

/-- A variable that is not in any class: exported as it is, or through accessors. -/
def globalVariable (job : Job) (site : Site) : Emit Unit := do
  if !(← Variable.exportDirectly job site) then
    let r ← Emit.resolver job
    let callables ← Emit.lift (Members.accessors r
      { site := site, role := .globalGet, symbol := site.decl.symbolValue, result := .void } .globalSet)
    callables.forM fun c => do
      let _ ← wrap job none c

/-- Emit one member of a class. A callable that is rejected is reported and dropped. -/
def classMember (job : Job) (cls : Facade.OpenClass) : Members.Member → Emit Facade.OpenClass
  | .callable c =>
    tryCatch (do return (← wrap job (some cls) c).getD cls) fun
      | .rejected message found => do
        Emit.report .error (found.getD c.site) message
        return cls
      | .fault cause => throw (.fault cause)
  | .enumeration site => do
    Emit.guarded site (do let _ ← Enumeration.write job site (some cls))
    return cls
  | .constant site => do
    Emit.guarded site (Constant.write job site)
    return cls

def cxxClass (job : Job) (cls : Site) : Emit Unit := do
  Emit.check (Naming.checkProxy cls)
  Emit.append (.proxyType (Naming.proxyName job.config cls))
  Emit.record .type (Naming.proxyValue job.config cls) cls
  let opened ← Facade.openClass job cls
  let abstract ← Emit.inherit fun table memo => Inheritance.isAbstract table memo cls
  let r ← Emit.resolver job
  let own ← Emit.lift (Members.own r cls abstract)
  let shadows ← Emit.inherit fun table memo => Inheritance.flatten table memo cls
  let inherited ← Emit.lift (Members.inherited r cls shadows)
  cls.children.forM fun child => do
    Emit.check (Members.checkUnsupported child)
    match Members.unsupported? cls child with
    | some warning => Emit.warn child warning
    | none => pure ()
  Emit.check cls.decl.checkName
  let finished ← (Members.inOrder cls abstract own inherited).foldlM (classMember job) opened
  let _ ← Facade.closeClass job finished

/-- Emit a class. The exception class comes from the runtime or from an imported module. -/
def classDecl (job : Job) (cls : Site) : Emit Unit := do
  let draft ← get
  if cls.name == Facade.exceptionClass && draft.runtimeClass.map (·.id) != some cls.id then return
  if !job.config.cplusplus then Struct.write job cls
  else if cls.isMember then
    Emit.check cls.checkQualified
    Emit.warn cls ("Nested class " ++ cls.qualifiedName ++ " not supported, ignored")
  else cxxClass job cls

def importDecl (job : Job) (site : Site) : Emit Unit := do
  let imported := Site.importedModule site.decl
  if imported.truthy then
    match imported, job.config.importHeader? imported.display with
    | .string _, some header => Emit.append (.importHeader header)
    | _, _ => throw (.fault .importNotText)

def insertTarget (d : Declaration) : Value :=
  let written := d.attr "section"
  if written.truthy then written else .string Section.support.word

def endLine (code : String) : String :=
  if Text.endsWith "\n" code then code else code ++ "\n"

def insertedCode (d : Declaration) : Except Halt String :=
  let written := d.attr "code"
  if written.truthy then (Halt.ofMisshapen written.toText).map endLine else .ok "\n"

def insertDecl (site : Site) : Emit Unit := do
  match insertTarget site.decl with
  | .array _ | .object _ => throw (.fault .sectionNotName)
  | named =>
    match named.asString?.bind Section.ofWord? with
    | some target => Emit.append (.verbatim target (← Emit.lift (insertedCode site.decl)))
    | none => Emit.warn site ("Unknown section " ++ named.display ++ ", code ignored")

def declaration (job : Job) (site : Site) : Emit Unit :=
  match site.kind with
  | .importDecl => importDecl job site
  | .insertDecl => insertDecl site
  | .classDecl => Emit.guarded site (classDecl job site)
  | .functionDecl => Emit.guarded site (freeFunction job site)
  | .variableDecl => Emit.guarded site (globalVariable job site)
  | .enumDecl => Emit.guarded site (do let _ ← Enumeration.write job site none)
  | .constantDecl => Emit.guarded site (Constant.write job site)
  | .typedefDecl => pure ()
  | .includeDecl | .namespaceDecl | .moduleDecl | .constructorDecl | .destructorDecl | .enumValueDecl =>
    Emit.warn site ("Unsupported declaration " ++ site.kind.word ++ " ignored")

def children (job : Job) (site : Site) : Emit Unit :=
  site.emitted.forM (declaration job)

def emit (job : Job) : Emit Unit := do
  prepareExceptions job
  Emit.check (job.root.freeFunctions.forM checkOverload)
  modify fun draft => { draft with freeFunctions := job.root.freeFunctions.map overloadKey }
  match (← get).runtimeClass with
  | some cls => Emit.guarded cls (classDecl job cls)
  | none => pure ()
  children job job.root

/-- The outcome of a run: the finished draft, or the fault that ended it. -/
def run (job : Job) : Except Halt Draft := do
  match (emit job).run.run (← Draft.start job.root) with
  | (.ok (), draft) => return draft
  | (.error halt, _) => .error halt

end FlatAbi.Module
