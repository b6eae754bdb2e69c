import FlatAbi.CxxType.Reader
import FlatAbi.Declaration.Site

/-!
What stops the emission of a declaration. A rejection drops one declaration and is reported as a diagnostic; a fault
ends the whole run.
-/

namespace FlatAbi

inductive Fault where
  | unreadableType (cause : TypeSyntaxError)
  | misshapen (cause : Misshapen)
  | parameterWithoutType
  | noOwner
  | noResult
  | noArgument
  | emptyCharacter
  | importNotText
  | sectionNotName
  deriving DecidableEq, Repr

def Fault.message : Fault → String
  | .unreadableType cause => cause.message
  | .misshapen cause => cause.message
  | .parameterWithoutType => "parameter without a type"
  | .noOwner => "member without a class"
  | .noResult => "construction without a result"
  | .noArgument => "setter without a parameter"
  | .emptyCharacter => "character constant without a character"
  | .importNotText => "name of an imported module is not text"
  | .sectionNotName => "section is not a name"

/-- Why emission stops. A rejection names the declaration when it is known where it arose. -/
inductive Halt where
  | rejected (message : String) (site : Option Site)
  | fault (cause : Fault)

namespace Halt

def ofUnreadable {α : Type} (result : Except TypeSyntaxError α) : Except Halt α :=
  result.mapError fun cause => .fault (.unreadableType cause)

def ofMisshapen {α : Type} (result : Except Misshapen α) : Except Halt α :=
  result.mapError fun cause => .fault (.misshapen cause)

end Halt

end FlatAbi
