import FlatAbi.CxxType.Basic
import FlatAbi.Declaration.Kind
import FlatAbi.Document.Shape

/-!
Declarations and their tree, as the document has them.
-/

namespace FlatAbi

structure Parameter where
  name : Value := .null
  type : Option CxxType
  default : Value := .null

/-- One declaration. Names, files and bases stand as the document has them, which need not be text; a declaration
without a name has empty text for it. `givenSymbol` is the symbol chosen for it, normally its unqualified name;
`throws` is an exception specification, empty for one that admits nothing. -/
structure Declaration where
  kind : Kind
  givenName : Value := .string ""
  givenSymbol : Value := .null
  type : Option CxxType := none
  parameters : List Parameter := []
  bases : List Value := []
  access : Access := .publicAccess
  storage : Option Storage := none
  isConst : Bool := false
  noexcept : Bool := false
  throws : Option (List Value) := none
  features : Fields := []
  attributes : Fields := []
  file : Value := .string ""
  line : Int := 0

namespace Declaration

def name (d : Declaration) : String :=
  d.givenName.display

def hasName (d : Declaration) : Bool :=
  d.givenName.truthy

def shortName (d : Declaration) : String :=
  Text.lastComponent d.name

def checkName (d : Declaration) : Except Misshapen Unit :=
  d.givenName.checkText

def lacksSymbol (d : Declaration) : Bool :=
  d.givenSymbol.isNull && d.hasName

def withDefaultSymbol (d : Declaration) : Declaration :=
  if d.lacksSymbol then { d with givenSymbol := .string d.shortName } else d

/-- A declaration with nothing but a name. -/
def named (kind : Kind) (name : String) : Declaration :=
  withDefaultSymbol { kind, givenName := .string name }

def symbolValue (d : Declaration) : Value :=
  if d.givenSymbol.truthy then d.givenSymbol else d.givenName

def symbol (d : Declaration) : String :=
  d.symbolValue.display

/-- The names of the bases, up to the first that is not text. -/
def baseNames (d : Declaration) : List String :=
  (d.bases.takeWhile Value.isText).filterMap Value.asString?

def feature (d : Declaration) (key : String) : Value :=
  (Fields.get? d.features key).getD .null

def attr (d : Declaration) (key : String) : Value :=
  (Fields.get? d.attributes key).getD .null

def isStatic (d : Declaration) : Bool :=
  d.storage == some .static

def isFriend (d : Declaration) : Bool :=
  d.storage == some .friend

def isVirtual (d : Declaration) : Bool :=
  d.storage == some .virtual || (d.attr "pure_virtual").truthy

def isPureVirtual (d : Declaration) : Bool :=
  (d.attr "pure_virtual").truthy

def isPublic (d : Declaration) : Bool :=
  d.access == .publicAccess

def isIgnored (d : Declaration) : Bool :=
  (d.feature "ignore").truthy

def cannotThrow (d : Declaration) : Bool :=
  d.noexcept || d.throws.any List.isEmpty

end Declaration

inductive Node where
  | mk (decl : Declaration) (children : List Node)

namespace Node

def decl : Node → Declaration
  | .mk d _ => d

def children : Node → List Node
  | .mk _ cs => cs

def kind (n : Node) : Kind :=
  n.decl.kind

end Node

end FlatAbi
