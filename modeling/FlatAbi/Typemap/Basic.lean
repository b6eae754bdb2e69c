import FlatAbi.CxxType.Basic
import FlatAbi.Document.Value
import FlatAbi.Typemap.Category

/-!
Typemaps: code fragments that convert values between the C boundary and C++.
-/

namespace FlatAbi

/-- What a typemap is for: the C type of a value, the conversion of an argument, its check, the conversion of the
result, and the release of what an argument conversion allocated. -/
inductive Method where
  | ctype
  | input
  | check
  | output
  | freearg
  deriving DecidableEq, Repr

namespace Method

def all : List Method :=
  [.ctype, .input, .check, .output, .freearg]

def word : Method → String
  | .ctype => "ctype"
  | .input => "in"
  | .check => "check"
  | .output => "out"
  | .freearg => "freearg"

def ofWord? (s : String) : Option Method :=
  all.find? (·.word == s)

end Method

/-- `inputs` is the number of C parameters that stand for the value; none hides it from the signature. The code stands
as the document has it. -/
structure Typemap where
  method : Method
  code : Value
  inputs : Int := 1

def Typemap.text (t : Typemap) : String :=
  t.code.display

inductive Target where
  | type (t : CxxType)
  | category (c : Category)
  deriving DecidableEq, Repr

structure Rule where
  typemap : Typemap
  target : Target

inductive RuleError where
  | unknownMethod (method : Value)
  | noSingleTarget (method : Method)
  | unknownCategory (category : Value)

def RuleError.message : RuleError → String
  | .unknownMethod method => s!"Unknown typemap method {method.literal}"
  | .noSingleTarget method =>
    s!"Typemap rule for {Text.quoted method.word} needs either a type or a category"
  | .unknownCategory category => s!"Unknown typemap category {category.literal}"

/-- Make a rule. Exactly one of a type and a category has to be given, where `null` is no category. -/
def Rule.make (method code : Value) (type : Option CxxType) (category : Value) (inputs : Int) : Except RuleError Rule :=
  match method.asString?.bind Method.ofWord? with
  | none => .error (.unknownMethod method)
  | some m =>
    match type, category with
    | none, .null => .error (.noSingleTarget m)
    | some t, .null => .ok ⟨⟨m, code, inputs⟩, .type t⟩
    | some _, _ => .error (.noSingleTarget m)
    | none, category =>
      match category.asString?.bind Category.ofWord? with
      | none => .error (.unknownCategory category)
      | some c => .ok ⟨⟨m, code, inputs⟩, .category c⟩

structure TypemapTable where
  byType : List ((Method × CxxType) × Typemap) := []
  byCategory : List ((Method × Category) × Typemap) := []
  useDefaults : Bool := true

def defaultCode? : Method → Category → Option String
  | .input, .void => none
  | .input, .builtinConstRef | .input, .enumConstRef => some "$1 = ($1_ltype) &$input;"
  | .input, _ => some "$1 = ($1_ltype) $input;"
  | .output, .void => none
  | .output, .builtinConstRef | .output, .enumConstRef => some "$result = *$1;"
  | .output, _ => some "$result = $1;"
  | _, _ => none

namespace TypemapTable

def add (table : TypemapTable) (rule : Rule) : TypemapTable :=
  match rule.target with
  | .type t => { table with byType := setEntry (rule.typemap.method, t) rule.typemap table.byType }
  | .category c => { table with byCategory := setEntry (rule.typemap.method, c) rule.typemap table.byCategory }

def ofRules (rules : List Rule) (useDefaults : Bool) : TypemapTable :=
  rules.foldl add { useDefaults := useDefaults }

def size (table : TypemapTable) : Nat :=
  table.byType.length + table.byCategory.length

def forType? (table : TypemapTable) (method : Method) (t : CxxType) : Option Typemap :=
  table.byType.lookup (method, t)

def forCategory? (table : TypemapTable) (method : Method) (category : Option Category) : Option Typemap :=
  category.bind fun c => table.byCategory.lookup (method, c)

/-- The user's typemap: of the first type that has one, else of the category. -/
def userTypemap? (table : TypemapTable) (method : Method) (types : List CxxType) (category : Option Category) :
    Option Typemap :=
  (types.findSome? (table.forType? method)).or (table.forCategory? method category)

/-- Find the typemap of a value. `types` lists the types to try, the most specific first. -/
def lookup (table : TypemapTable) (method : Method) (types : List CxxType) (category : Option Category) :
    Option Typemap :=
  match table.userTypemap? method types category with
  | some typemap => some typemap
  | none =>
    if table.useDefaults then
      (category.bind (defaultCode? method)).map fun code => { method := method, code := .string code }
    else none

end TypemapTable

end FlatAbi
