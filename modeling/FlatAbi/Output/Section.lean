/-!
The sections that the header and the source are put together from.
-/

namespace FlatAbi

/-- The first six sections make up the header, the last three of them its facade; the others make up the source. -/
inductive Section where
  | cHeader
  | types
  | declarations
  | facadeTypes
  | facadeDeclarations
  | facadeDefinitions
  | preamble
  | runtime
  | support
  | wrappers
  | closing
  deriving DecidableEq, Repr

namespace Section

def all : List Section :=
  [.cHeader, .types, .declarations, .facadeTypes, .facadeDeclarations, .facadeDefinitions, .preamble, .runtime,
   .support, .wrappers, .closing]

def word : Section → String
  | .cHeader => "cheader"
  | .types => "types"
  | .declarations => "decls"
  | .facadeTypes => "cxx_types"
  | .facadeDeclarations => "cxx_decls"
  | .facadeDefinitions => "cxx_impls"
  | .preamble => "begin"
  | .runtime => "runtime"
  | .support => "header"
  | .wrappers => "wrapper"
  | .closing => "init"

def ofWord? (s : String) : Option Section :=
  all.find? (·.word == s)

end Section

end FlatAbi
