import FlatAbi.Emission.Draft

/-!
Constants, which become macros.
-/

namespace FlatAbi.Constant

def hexText (n : Nat) : String :=
  let digits := String.ofList (Nat.toDigits 16 n)
  if digits.length < 2 then "0" ++ digits else digits

/-- A character literal: an alphanumeric character as it is, any other one by its code. -/
def characterLiteral (c : Char) : String :=
  if Text.isAlphanumeric c then "'" ++ String.singleton c ++ "'"
  else "'\\x" ++ hexText c.toNat ++ "'"

def firstCharacter? (text : String) : Option Char :=
  let isQuote := fun c => c == '\''
  ((text.toList.dropWhile isQuote).reverse.dropWhile isQuote).reverse.head?

def isCharacterMember (site : Site) : Bool :=
  site.isMember && (site.decl.attr "valuetype").asString? == some "char" && (site.decl.attr "value").truthy

/-- The value of a constant: its raw value, else its value, with a character made a literal. -/
def value (site : Site) : Except Halt String := do
  let raw := site.decl.attr "rawval"
  let written := site.decl.attr "value"
  if !raw.isNull then return raw.display
  else if isCharacterMember site then
    match firstCharacter? written.display with
    | some c => return characterLiteral c
    | none => .error (.fault .emptyCharacter)
  else if !written.isNull then return written.display
  else
    Halt.ofMisshapen site.checkQualified
    .error (.rejected ("Constant " ++ site.qualifiedName ++ " has no value") (some site))

def name (config : Config) (site : Site) : Value :=
  match site.enclosingClass? with
  | some owner => .string (Naming.proxyName config owner ++ "_" ++ site.decl.symbol)
  | none => site.decl.symbolValue

def write (job : Job) (site : Site) : Emit Unit := do
  let value ← Emit.lift (value site)
  Emit.check (site.enclosingClass?.forM Naming.checkProxy)
  Emit.append (.constant (name job.config site).display value)
  Emit.record .constant (name job.config site) site

end FlatAbi.Constant
