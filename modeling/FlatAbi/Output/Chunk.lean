import FlatAbi.Output.Facade
import FlatAbi.Output.Section
import FlatAbi.Output.Wrapper

/-!
Output as a list of chunks. The sections of both files are read off one list.
-/

namespace FlatAbi

structure EnumItem where
  symbol : String
  value : Option String
  deriving DecidableEq, Repr

namespace EnumItem

def text (start : String) (item : EnumItem) : String :=
  start ++ item.symbol ++
    match item.value with
    | some value => " = " ++ value
    | none => ""

end EnumItem

/-- The text of an enum: `pad` stands before its lines, `start` before the names of its elements. -/
def enumText (pad start : String) (tag typeName : Option String) (items : List EnumItem) : String :=
  pad ++ (if typeName.isSome then "typedef " else "") ++ "enum" ++
    (match tag with
      | some tag => " " ++ tag
      | none => "") ++
    " \x7b\n" ++ Text.join ",\n" (items.map (EnumItem.text (pad ++ Text.indentation ++ start))) ++
    "\n" ++ pad ++ "\x7d" ++
    (match typeName with
      | some name => " " ++ name
      | none => "") ++
    ";\n\n"

inductive Chunk where
  | verbatim (target : Section) (text : String)
  | importHeader (header : String)
  | boolSupport
  | opaqueType (name : String)
  | proxyType (name : String)
  | enumeration (part : String) (tag typeName : Option String) (items : List EnumItem)
  /-- A struct of a plain C declaration, under its tag or its typedef. -/
  | plainStruct (tag : String) (typeName : Option String) (members : List String)
  | prototype (signature : Signature)
  | constant (name value : String)
  | variableDeclaration (declaration : String)
  /-- The name under which this module raises exceptions. -/
  | raiseName (part : String)
  /-- The exception class is defined by an imported module. -/
  | raiseImported
  | definition (definition : Definition)
  | facadeForward (className : String)
  | facadeEnumeration (nested : Bool) (tag typeName : Option String) (items : List EnumItem)
  | facadeOpen (className : String) (base : Option String)
  | facadeMember (member : FacadeMember)
  | facadeClose (fin : FacadeEnd)
  | facadeDefinition (member : FacadeMember)
  | checkSupport
  deriving DecidableEq, Repr

namespace Chunk

def home : Chunk → Section
  | .verbatim target _ => target
  | .importHeader _ => .cHeader
  | .boolSupport | .opaqueType _ | .proxyType _ | .enumeration .. | .plainStruct .. => .types
  | .prototype _ | .constant .. | .variableDeclaration _ => .declarations
  | .raiseName _ | .raiseImported => .runtime
  | .definition _ => .wrappers
  | .facadeForward _ => .facadeTypes
  | .facadeEnumeration nested .. => if nested then .facadeDeclarations else .facadeTypes
  | .facadeOpen .. | .facadeMember _ | .facadeClose _ => .facadeDeclarations
  | .facadeDefinition _ | .checkSupport => .facadeDefinitions

def text : Chunk → String
  | .verbatim _ text => text
  | .importHeader header => "#include \"" ++ header ++ "\"\n"
  | .boolSupport => "#include <stdbool.h>\n\n"
  | .opaqueType name => "typedef struct " ++ name ++ " " ++ name ++ ";\n\n"
  | .proxyType name => "typedef struct SwigObj_" ++ name ++ " " ++ name ++ ";\n\n"
  | .enumeration part tag typeName items => enumText "" (part ++ "_") tag typeName items
  | .plainStruct tag typeName members =>
    let body := Text.concat (members.map fun m => Text.indentation ++ m ++ ";\n")
    match typeName with
    | some name => "typedef struct \x7b\n" ++ body ++ "\x7d " ++ name ++ ";\n\n"
    | none => "struct " ++ tag ++ " \x7b\n" ++ body ++ "\x7d;\n\n"
  | .prototype signature => "SWIGIMPORT " ++ signature.text ++ ";\n\n"
  | .constant name value => "#define " ++ name ++ " " ++ value ++ "\n"
  | .variableDeclaration declaration => "SWIGIMPORT " ++ declaration ++ ";\n\n"
  | .raiseName part => "#define SWIG_CException_Raise " ++ part ++ "_SWIG_CException_Raise\n"
  | .raiseImported => "#define SWIG_CException_DEFINED 1\n"
  | .definition d => d.text
  | .facadeForward className => "class " ++ className ++ ";\n"
  | .facadeEnumeration nested tag typeName items =>
    enumText (if nested then Text.indentation else "") "" tag typeName items
  | .facadeOpen className base =>
    "class " ++ className ++
      (match base with
        | some name => " : public " ++ name
        | none => "") ++
      " \x7b\npublic:\n"
  | .facadeMember m => m.declaration
  | .facadeClose e => e.text
  | .facadeDefinition m => m.definition
  | .checkSupport => checkSupportText

end Chunk

def chunksOf (target : Section) (chunks : List Chunk) : List Chunk :=
  chunks.filter (·.home == target)

def sectionText (target : Section) (chunks : List Chunk) : String :=
  Text.concat ((chunksOf target chunks).map Chunk.text)

end FlatAbi
