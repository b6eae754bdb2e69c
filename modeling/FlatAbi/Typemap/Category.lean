/-!
Categories: how a type crosses the C boundary.
-/

namespace FlatAbi

inductive Category where
  | void
  | builtin
  | builtinConstRef
  | builtinRef
  | builtinPointer
  | enumeration
  | enumConstRef
  | enumPointer
  | classPointer
  | classRef
  | classValue
  | unknownPointer
  | unknownRef
  | unknownValue
  | functionPointer
  deriving DecidableEq, Repr

namespace Category

def all : List Category :=
  [.void, .builtin, .builtinConstRef, .builtinRef, .builtinPointer, .enumeration, .enumConstRef, .enumPointer,
   .classPointer, .classRef, .classValue, .unknownPointer, .unknownRef, .unknownValue, .functionPointer]

def word : Category → String
  | .void => "void"
  | .builtin => "builtin"
  | .builtinConstRef => "builtin_cref"
  | .builtinRef => "builtin_ref"
  | .builtinPointer => "builtin_ptr"
  | .enumeration => "enum"
  | .enumConstRef => "enum_cref"
  | .enumPointer => "enum_ptr"
  | .classPointer => "class_ptr"
  | .classRef => "class_ref"
  | .classValue => "class_value"
  | .unknownPointer => "unknown_ptr"
  | .unknownRef => "unknown_ref"
  | .unknownValue => "unknown_value"
  | .functionPointer => "funcptr"

def ofWord? (s : String) : Option Category :=
  all.find? (·.word == s)

def isClass : Category → Bool
  | .classPointer | .classRef | .classValue => true
  | _ => false

/-- Objects passed by value: they go through a pointer local and are dereferenced in the call. -/
def isObjectByValue : Category → Bool
  | .classValue | .unknownValue => true
  | _ => false

end Category

end FlatAbi
