import FlatAbi.Text.Basic

/-!
The kinds of declaration, and the small vocabularies of access and storage.
-/

namespace FlatAbi

inductive Kind where
  | moduleDecl
  | includeDecl
  | importDecl
  | namespaceDecl
  | classDecl
  | functionDecl
  | constructorDecl
  | destructorDecl
  | variableDecl
  | enumDecl
  | enumValueDecl
  | constantDecl
  | typedefDecl
  | insertDecl
  deriving DecidableEq, Repr

namespace Kind

def all : List Kind :=
  [.moduleDecl, .includeDecl, .importDecl, .namespaceDecl, .classDecl, .functionDecl, .constructorDecl,
   .destructorDecl, .variableDecl, .enumDecl, .enumValueDecl, .constantDecl, .typedefDecl, .insertDecl]

def word : Kind → String
  | .moduleDecl => "module"
  | .includeDecl => "include"
  | .importDecl => "import"
  | .namespaceDecl => "namespace"
  | .classDecl => "class"
  | .functionDecl => "function"
  | .constructorDecl => "constructor"
  | .destructorDecl => "destructor"
  | .variableDecl => "variable"
  | .enumDecl => "enum"
  | .enumValueDecl => "enumvalue"
  | .constantDecl => "constant"
  | .typedefDecl => "typedef"
  | .insertDecl => "insert"

/-- The capital form of a character, where it consists of ASCII letters. Ligatures and the sharp s have capitals of
two or three letters. -/
def capital (c : Char) : List Char :=
  match c.toNat with
  | 0xDF => ['S', 'S']
  | 0x131 => ['I']
  | 0x17F => ['S']
  | 0xFB00 => ['F', 'F']
  | 0xFB01 => ['F', 'I']
  | 0xFB02 => ['F', 'L']
  | 0xFB03 => ['F', 'F', 'I']
  | 0xFB04 => ['F', 'F', 'L']
  | 0xFB05 => ['S', 'T']
  | 0xFB06 => ['S', 'T']
  | _ => [c.toUpper]

def capitals (kind : Kind) : List Char :=
  kind.word.toList.flatMap capital

def ofWord? (s : String) : Option Kind :=
  all.find? fun kind => kind.capitals == s.toList.flatMap capital

end Kind

inductive Access where
  | publicAccess
  | protectedAccess
  | privateAccess
  deriving DecidableEq, Repr

namespace Access

def word : Access → String
  | .publicAccess => "public"
  | .protectedAccess => "protected"
  | .privateAccess => "private"

def ofWord? (s : String) : Option Access :=
  [publicAccess, protectedAccess, privateAccess].find? (·.word == s)

end Access

inductive Storage where
  | static
  | virtual
  | friend
  deriving DecidableEq, Repr

namespace Storage

def word : Storage → String
  | .static => "static"
  | .virtual => "virtual"
  | .friend => "friend"

def ofWord? (s : String) : Option Storage :=
  [static, virtual, friend].find? (·.word == s)

end Storage

end FlatAbi
