import FlatAbi.Resolver.Rendering
import FlatAbi.Text.Layout

/-!
The C side of a wrapper: its signature, which the prototype and the definition share up to the types, and the body
of the definition.
-/

namespace FlatAbi

/-- A type in a C signature: a pointer to the struct of an object, a C type as text, or a type of a plain C
declaration as written. -/
inductive SignatureType where
  | handle (struct : String)
  | c (text : String)
  | written (type : CxxType)
  deriving DecidableEq, Repr

def SignatureType.declare : SignatureType → String → String
  | .handle struct, name => struct ++ " *" ++ name
  | .c text, name => declareC text name
  | .written type, name => type.declare name

structure SignatureParameter where
  name : String
  type : SignatureType
  deriving DecidableEq, Repr

structure Signature where
  symbol : String
  parameters : List SignatureParameter
  result : SignatureType
  deriving DecidableEq, Repr

namespace Signature

def call (s : Signature) : String :=
  let listed := Text.join ", " (s.parameters.map fun p => p.type.declare p.name)
  s.symbol ++ "(" ++ Text.orElse listed "void" ++ ")"

def text (s : Signature) : String :=
  match s.result with
  | .written ⟨base, []⟩ => (CxxType.mk base []).spelling ++ " " ++ s.call
  | type => type.declare s.call

def parameterNames (s : Signature) : List String :=
  s.parameters.map (·.name)

end Signature

inductive Guard where
  | bare
  | standard
  | custom (handler : String)
  deriving DecidableEq, Repr

namespace Guard

def standardHandler : String :=
  "try \x7b\n" ++
  "  $action\n" ++
  "\x7d catch (const std::exception& e) \x7b\n" ++
  "  SWIG_CException_Raise(SWIG_RuntimeError, e.what());\n" ++
  "  return $null;\n" ++
  "\x7d catch (...) \x7b\n" ++
  "  SWIG_CException_Raise(SWIG_UnknownError, \"unknown C++ exception thrown\");\n" ++
  "  return $null;\n" ++
  "\x7d"

def wrap : Guard → String → String
  | .bare, action => action
  | .standard, action => Text.replace "$action" action standardHandler
  | .custom handler, action => Text.replace "$action" action handler

end Guard

/-- What becomes of `$null` in a body: left alone, nothing in a function without a result, zero in any other. -/
inductive NullValue where
  | untouched
  | nothing
  | zero
  deriving DecidableEq, Repr

def NullValue.fill : NullValue → String → String
  | .untouched, text => text
  | .nothing, text => Text.replace "$null" "" (Text.replace "return $null;" "return;" text)
  | .zero, text => Text.replace "$null" "0" text

/-- The body of a definition: code before the wrapped call, the call, and code after it. -/
structure Body where
  opening : List String
  action : String
  guard : Guard
  closing : List String
  null : NullValue
  deriving DecidableEq, Repr

def Body.text (b : Body) : String :=
  b.null.fill (Text.join "\n" (b.opening ++ [b.guard.wrap b.action] ++ b.closing))

/-- A definition in the source; one of a C++ wrapper has C linkage. -/
structure Definition where
  signature : Signature
  body : Body
  exported : Bool
  deriving DecidableEq, Repr

def Definition.text (d : Definition) : String :=
  (if d.exported then "SWIGEXPORTC " else "") ++ d.signature.text ++ " \x7b\n" ++
    Text.indent 1 d.body.text ++ "\n\x7d\n\n"

end FlatAbi
