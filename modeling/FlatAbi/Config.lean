import FlatAbi.Document.Value

/-!
The options of one generation.
-/

namespace FlatAbi

/-- `givenModule` is the name of the module as the document has it. `givenNamespace` is the C++ namespace of the facade,
if it is text; its flattened form also starts every C symbol. An empty `headerName` leaves the header its usual name.
`importHeaders` names the headers of imported modules, of which the last one given for a module counts. -/
structure Config where
  givenModule : Value
  givenNamespace : Value := .null
  facade : Bool := true
  exceptions : Bool := true
  cplusplus : Bool := true
  headerName : String := ""
  importHeaders : List (String × String) := []

namespace Config

def moduleName (c : Config) : String :=
  c.givenModule.display

def namespaceName (c : Config) : Option String :=
  c.givenNamespace.asString?

def globalPart? (c : Config) : Option String :=
  match c.namespaceName with
  | some name => if name == "" then none else some (Text.flattenName name)
  | none => none

def facadeNamespace (c : Config) : String :=
  Text.orElse (c.namespaceName.getD "") c.moduleName

def outputHeader (c : Config) : String :=
  Text.orElse c.headerName (c.moduleName ++ "_wrap.h")

def outputSource (c : Config) : String :=
  c.moduleName ++ "_wrap." ++ (if c.cplusplus then "cxx" else "c")

def guard (c : Config) : String :=
  "SWIG_" ++ c.moduleName ++ "_WRAP_H_"

def writesFacade (c : Config) : Bool :=
  c.facade && c.cplusplus

/-- The header of an imported module: the one given, else the header of this module with its name replaced. A module
name that is not text cannot be replaced. -/
def importHeader? (c : Config) (imported : String) : Option String :=
  match c.importHeaders.reverse.lookup imported, c.givenModule with
  | some header, _ => some header
  | none, .string name => some (Text.replaceFirst name imported c.outputHeader)
  | none, _ => none

end Config

end FlatAbi
