import FlatAbi.Naming.Callable
import FlatAbi.Resolver.Rendering
import FlatAbi.Text.Layout

/-!
The C++ side of a wrapper: members of facade classes that forward to the C functions.
-/

namespace FlatAbi

def declareFacade (type name : String) : String :=
  if Text.endsWith " *" type || Text.endsWith " &" type then type ++ name else type ++ " " ++ name

structure FacadeParameter where
  name : String
  rendering : FacadeRendering
  deriving DecidableEq, Repr

namespace FacadeParameter

def declaration (p : FacadeParameter) : String :=
  declareFacade p.rendering.type p.name

def argument (p : FacadeParameter) : String :=
  p.rendering.wrap p.name

end FacadeParameter

/-- A member of a facade class. `checked` puts a check for a pending exception around the call. -/
structure FacadeMember where
  role : Role
  className : String
  hasBase : Bool
  name : String
  isVirtual : Bool
  isConst : Bool
  result : FacadeRendering
  parameters : List FacadeParameter
  symbol : String
  checked : Bool
  deriving DecidableEq, Repr

namespace FacadeMember

def declared (m : FacadeMember) : String :=
  Text.join ", " (m.parameters.map (·.declaration))

def passed (m : FacadeMember) : String :=
  Text.join ", " (m.parameters.map (·.argument))

def arguments (m : FacadeMember) : List String :=
  (if m.role == .staticMethod then [] else ["swig_self()"]) ++ m.parameters.map (·.argument)

def checkStart (m : FacadeMember) : String :=
  if m.checked then "swig_check(" else ""

def checkEnd (m : FacadeMember) : String :=
  if m.checked then ")" else ""

def virtualWord (m : FacadeMember) : String :=
  if m.isVirtual then "virtual " else ""

def constWord (m : FacadeMember) : String :=
  if m.isConst then " const" else ""

/-- The destructor releases an object that is owned. With a base class the object belongs to the base. -/
def destructorText (m : FacadeMember) : String :=
  let i := Text.indentation
  let start := i ++ m.virtualWord ++ "~" ++ m.className ++ "() \x7b\n"
  if m.hasBase then
    start ++ i ++ i ++ "if (swig_owns_self_) \x7b\n" ++
      i ++ i ++ i ++ m.symbol ++ "(swig_self());\n" ++
      i ++ i ++ i ++ "swig_owns_self_ = false;\n" ++
      i ++ i ++ "\x7d\n" ++ i ++ "\x7d\n"
  else
    start ++ i ++ i ++ "if (swig_owns_self_)\n" ++
      i ++ i ++ i ++ m.symbol ++ "(swig_self_);\n" ++ i ++ "\x7d\n"

def declaration (m : FacadeMember) : String :=
  let i := Text.indentation
  match m.role with
  | .memberGet =>
    i ++ declareFacade m.result.type m.name ++ "() const \x7b return " ++
      m.result.wrap (m.symbol ++ "(swig_self())") ++ "; \x7d\n"
  | .memberSet =>
    i ++ "void " ++ m.name ++ "(" ++ m.declared ++ ") \x7b " ++ m.symbol ++ "(swig_self(), " ++ m.passed ++
      "); \x7d\n"
  | .staticGet =>
    i ++ "static " ++ declareFacade m.result.type m.name ++ "() \x7b return " ++
      m.result.wrap (m.symbol ++ "()") ++ "; \x7d\n"
  | .staticSet =>
    i ++ "static void " ++ m.name ++ "(" ++ m.declared ++ ") \x7b " ++ m.symbol ++ "(" ++ m.passed ++ "); \x7d\n"
  | .constructor | .copyConstructor => i ++ m.className ++ "(" ++ m.declared ++ ");\n"
  | .destructor => m.destructorText
  | _ =>
    i ++ (if m.role == .staticMethod then "static " else m.virtualWord) ++
      declareFacade m.result.type m.name ++ "(" ++ m.declared ++ ")" ++ m.constWord ++ ";\n"

def checkedCall (m : FacadeMember) (arguments : String) : String :=
  m.checkStart ++ m.symbol ++ "(" ++ arguments ++ ")" ++ m.checkEnd

/-- The statement of a method. Without a result the check follows the call. -/
def methodBody (m : FacadeMember) : String :=
  if m.result.isVoid then
    m.symbol ++ "(" ++ Text.join ", " m.arguments ++ ")" ++ (if m.checked then "; swig_check()" else "")
  else "return " ++ m.result.wrap (m.checkedCall (Text.join ", " m.arguments))

def isDefinedOutside (m : FacadeMember) : Bool :=
  m.role == .constructor || m.role == .copyConstructor || m.role == .method || m.role == .staticMethod

def definition (m : FacadeMember) : String :=
  match m.role with
  | .constructor | .copyConstructor =>
    "inline " ++ m.className ++ "::" ++ m.className ++ "(" ++ m.declared ++ ") : " ++ m.className ++ "\x7b" ++
      m.checkedCall m.passed ++ "\x7d \x7b\x7d\n"
  | _ =>
    "inline " ++ declareFacade m.result.type "" ++ m.className ++ "::" ++ m.name ++ "(" ++ m.declared ++ ")" ++
      m.constWord ++ " \x7b " ++ m.methodBody ++ "; \x7d\n"

end FacadeMember

/-- The end of a facade class: construction from the C pointer, copying and moving, and access to the pointer.
`base` has the name of the base class and its C pointer type. -/
structure FacadeEnd where
  className : String
  pointer : String
  base : Option (String × String)
  hasCopyConstructor : Bool
  deriving DecidableEq, Repr

namespace FacadeEnd

def construction (e : FacadeEnd) : String :=
  "\n" ++ Text.indentation ++ "explicit " ++ e.className ++ "(" ++ e.pointer ++
    " swig_self, bool swig_owns_self = true) noexcept : " ++
    (match e.base with
      | some (name, pointer) => name ++ "\x7b(" ++ pointer ++ ")swig_self, swig_owns_self\x7d"
      | none => "swig_self_\x7bswig_self\x7d, swig_owns_self_\x7bswig_owns_self\x7d") ++
    " \x7b\x7d\n"

def copying (e : FacadeEnd) : String :=
  let i := Text.indentation
  (if e.hasCopyConstructor then "" else i ++ e.className ++ "(" ++ e.className ++ " const&) = delete;\n") ++
    i ++ e.className ++ "& operator=(" ++ e.className ++ " const&) = delete;\n"

def moving (e : FacadeEnd) : String :=
  let i := Text.indentation
  match e.base with
  | some _ =>
    i ++ e.className ++ "(" ++ e.className ++ "&& obj) = default;\n" ++
      i ++ e.className ++ "& operator=(" ++ e.className ++ "&& obj) = default;\n"
  | none =>
    i ++ e.className ++ "(" ++ e.className ++
      "&& obj) noexcept : swig_self_\x7bobj.swig_self_\x7d, swig_owns_self_\x7bobj.swig_owns_self_\x7d " ++
      "\x7b obj.swig_owns_self_ = false; \x7d\n" ++
    i ++ e.className ++ "& operator=(" ++ e.className ++
      "&& obj) noexcept \x7b swig_self_ = obj.swig_self_; " ++
      "swig_owns_self_ = obj.swig_owns_self_; obj.swig_owns_self_ = false; return *this; \x7d\n"

def access (e : FacadeEnd) : String :=
  let i := Text.indentation
  i ++ e.pointer ++ " swig_self() const noexcept " ++
    match e.base with
    | some (name, _) => "\x7b return (" ++ e.pointer ++ ")" ++ name ++ "::swig_self(); \x7d\n"
    | none =>
      "\x7b return swig_self_; \x7d\n" ++ i ++ e.pointer ++ " swig_self_;\n" ++ i ++ "bool swig_owns_self_;\n"

def text (e : FacadeEnd) : String :=
  e.construction ++ e.copying ++ e.moving ++ e.access ++ "\x7d;\n\n"

end FacadeEnd

def checkSupportText : String :=
  let i := Text.indentation
  "inline void swig_check() \x7b\n" ++
    i ++ "if (SWIG_CException* swig_ex = SWIG_CException::get_pending()) \x7b\n" ++
    i ++ i ++ "SWIG_CException swig_ex_copy\x7b*swig_ex\x7d;\n" ++
    i ++ i ++ "SWIG_CException::reset_pending();\n" ++
    i ++ i ++ "throw swig_ex_copy;\n" ++
    i ++ "\x7d\n" ++
    "\x7d\n\n" ++
    "template <typename T> T swig_check(T x) \x7b\n" ++
    i ++ "swig_check();\n" ++
    i ++ "return x;\n" ++
    "\x7d\n\n"

end FlatAbi
