import FlatAbi.Facade.Basic

/-!
Enums. Both declarations of an enum are made from one list of elements.
-/

namespace FlatAbi.Enumeration

def quoteChar (value : String) : String :=
  let cs := value.toList
  if cs.length ≥ 2 && cs.head? == some '\'' && cs.getLast? == some '\'' then value
  else
    let escaped := Text.replace "'" "\\'" (Text.replace "\\" "\\\\" value)
    "'" ++ Text.replace "\t" "\\t" (Text.replace "\n" "\\n" escaped) ++ "'"

def valueType (d : Declaration) : Option String :=
  match d.type with
  | some t => some t.base
  | none => (d.attr "valuetype").asString?

/-- The C spelling of an explicit value. Of boolean values only the two literals are accepted. -/
def value (item : Site) (written : String) : Except Halt String :=
  if valueType item.decl == some "bool" then
    if written == "true" then .ok "1"
    else if written == "false" then .ok "0"
    else .error (.rejected ("Unsupported boolean enum value \"" ++ written ++ "\".") (some item))
  else if valueType item.decl == some "char" then .ok (quoteChar written)
  else .ok written

/-- The elements that are written: those not ignored, and of a nested enum the public ones. -/
def survivors (enum : Site) : List Site :=
  enum.children.filter fun item =>
    item.kind == .enumValueDecl && !item.decl.isIgnored && (!enum.isMember || item.decl.isPublic)

def item (site : Site) : Except Halt EnumItem :=
  let written := site.decl.attr "enumvalue"
  if written.isNull then .ok ⟨site.decl.symbol, none⟩
  else do
    let value ← value site written.display
    return ⟨site.decl.symbol, some value⟩

/-- The start of the element names in C. A scoped enum contributes its own name. -/
def elementPart (config : Config) (enum : Site) : String :=
  match Naming.enumTag? config enum with
  | some tag => if (enum.decl.attr "scopedenum").truthy then tag else Naming.enumPart config enum
  | none => Naming.enumPart config enum

def typeName? (enum : Site) : Option String :=
  let written := enum.decl.attr "tdname"
  if written.truthy then some written.display else none

def bareName? (enum : Site) : Option String :=
  if Naming.isAnonymous enum.decl || enum.decl.shortName == "" then none else some enum.decl.shortName

def isHidden (enum : Site) : Bool :=
  (enum.decl.attr "forward").truthy || (enum.isMember && !enum.decl.isPublic)

def inFacade (config : Config) (enum : Site) (cls : Option Facade.OpenClass) : Bool :=
  config.writesFacade && (!enum.isMember || cls.any (·.isOpen))

def declaration (config : Config) (enum : Site) (items : List EnumItem) : Chunk :=
  .enumeration (elementPart config enum) (Naming.enumTag? config enum)
    ((typeName? enum).bind fun _ => Naming.enumType? config enum) items

def facadeDeclaration (enum : Site) (items : List EnumItem) : Chunk :=
  .facadeEnumeration enum.isMember (bareName? enum) (typeName? enum) items

def write (job : Job) (enum : Site) (cls : Option Facade.OpenClass) : Emit Bool := do
  if isHidden enum then return false
  Emit.check (Naming.checkEnumTag enum)
  Emit.check (Naming.checkEnumPart enum)
  let items ← Emit.lift ((survivors enum).mapM item)
  if items.isEmpty then
    Emit.check enum.checkQualified
    let name := enum.qualifiedValue
    Emit.tell (.enumWithoutElements (if name.truthy then name else .string "<anonymous>"))
    return false
  Emit.append (declaration job.config enum items)
  if inFacade job.config enum cls then Emit.append (facadeDeclaration enum items)
  return true

end FlatAbi.Enumeration
