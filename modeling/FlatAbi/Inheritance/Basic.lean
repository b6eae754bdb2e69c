import FlatAbi.Resolver.Symbols

/-!
Inherited members. C has no inheritance, so a class offers the public members of its bases as its own.
-/

namespace FlatAbi

/-- An inherited member: its own site, the class it comes from, its symbol here, and the name to call when the
symbol was changed. -/
structure Shadow where
  member : Site
  origin : Site
  symbol : Value
  baseName : Option String := none

def Shadow.symName (m : Shadow) : String :=
  m.symbol.display

def Shadow.name (m : Shadow) : String :=
  m.member.decl.shortName

namespace Inheritance

def isAssignment (d : Declaration) : Bool :=
  Text.replace " " "" d.name == "operator="

def isOffered (d : Declaration) : Bool :=
  (d.kind == .functionDecl || d.kind == .variableDecl) && d.isPublic && !d.isStatic && !d.isFriend &&
    !d.isIgnored && d.givenSymbol.truthy

def isInheritable (d : Declaration) : Bool :=
  isOffered d && !isAssignment d

/-- The known bases of a class that are not ignored, in the order of declaration. -/
def usableBases (table : SymbolTable) (cls : Site) : List Site :=
  cls.decl.baseNames.filterMap fun base =>
    (table.class? base cls.scopeName).filter fun found => !found.decl.isIgnored && found.id != cls.id

def checkBases (cls : Site) : Except Misshapen Unit :=
  cls.decl.bases.forM fun base => do
    cls.checkScope
    base.checkText
    cls.scopeValue.checkText

def hasReadableScope (cls : Site) : Bool :=
  cls.checkScope.isOk && cls.scopeValue.isText

def unknownBases (table : SymbolTable) (cls : Site) : List String :=
  if hasReadableScope cls then cls.decl.baseNames.filter fun base => (table.class? base cls.scopeName).isNone
  else []

def handedDown (base : Site) : List Shadow :=
  (base.children.filter fun c => isInheritable c.decl).map fun c => ⟨c, base, c.decl.symbolValue, none⟩

def checkHandedDown (base : Site) : Except Misshapen Unit :=
  base.children.forM fun c => if isOffered c.decl then c.decl.checkName else .ok ()

def isHiding (c : Site) : Bool :=
  c.kind == .functionDecl || c.kind == .variableDecl

def ownSymbols (cls : Site) : List Atom :=
  cls.children.filterMap fun c => if isHiding c then c.decl.givenSymbol.atom? else none

def checkOwn (cls : Site) : Except Misshapen Unit :=
  cls.children.forM fun c => if isHiding c then c.decl.givenSymbol.checkKey else .ok ()

def checkSymbols (members : List Shadow) : Except Misshapen Unit :=
  members.forM fun m => m.symbol.checkKey

def isOwn (own : List Atom) (m : Shadow) : Bool :=
  m.symbol.atom?.any own.contains

def take (own : List Atom) (taken : List Shadow) (m : Shadow) : List Shadow :=
  if isOwn own m || taken.any (·.member.id == m.member.id) then taken else taken ++ [m]

def collides (members : List Shadow) (m : Shadow) : Bool :=
  members.any fun other => other.symbol.atom? == m.symbol.atom? && other.origin.id != m.origin.id

def rename (m : Shadow) : Shadow :=
  { m with
    symbol := .string (m.origin.decl.symbol ++ "_" ++ m.symName)
    baseName := some (Text.orElse (m.baseName.getD "") m.name) }

def disambiguate (members : List Shadow) : List Shadow :=
  members.map fun m => if collides members m then rename m else m

structure Break where
  cause : Misshapen
  entries : List (NodeId × List Shadow)
  opened : List Site

/-- The classes flattened so far. A class has an empty entry while it is being worked on, which ends the recursion
on a cycle of bases; `opened` lists the classes whose bases were looked at, in order. The first class that cannot be
read breaks the work off, so nothing learned after it counts. -/
structure Memo where
  entries : List (NodeId × List Shadow) := []
  opened : List Site := []
  broken : Option Break := none

namespace Memo

def note (memo : Memo) (check : Except Misshapen Unit) : Memo :=
  match memo.broken, check with
  | none, .error cause => { memo with broken := some ⟨cause, memo.entries, memo.opened⟩ }
  | _, _ => memo

def start (memo : Memo) (cls : Site) : Memo :=
  let begun := { memo with entries := (cls.id, []) :: memo.entries }.note (checkOwn cls)
  { begun with opened := begun.opened ++ [cls] }.note (checkBases cls)

def finish (memo : Memo) (cls : Site) (result : List Shadow) : Memo :=
  { memo with entries := (cls.id, result) :: memo.entries }

def settle {α : Type} (memo : Memo) (answer : α) : Except Misshapen α × Memo :=
  match memo.broken with
  | none => (.ok answer, memo)
  | some b => (.error b.cause, { entries := b.entries, opened := b.opened })

end Memo

/-- The inherited members of a class, with at most `depth` classes under work at a time. -/
def flattenWithin (table : SymbolTable) : Nat → Memo → Site → List Shadow × Memo
  | 0, memo, _ => ([], memo)
  | depth + 1, memo, cls =>
    match memo.entries.lookup cls.id with
    | some found => (found, memo)
    | none =>
      let (taken, memo) := (usableBases table cls).foldl
        (fun (state : List Shadow × Memo) base =>
          let (inherited, memo) := flattenWithin table depth (state.2.note (checkHandedDown base)) base
          let offered := handedDown base ++ inherited
          (offered.foldl (take (ownSymbols cls)) state.1, memo.note (checkSymbols offered)))
        (([] : List Shadow), memo.start cls)
      let result := disambiguate taken
      (result, memo.finish cls result)

/-- The inherited members of a class. Only known classes and the class itself can be under work. -/
def flatten (table : SymbolTable) (memo : Memo) (cls : Site) : List Shadow × Memo :=
  flattenWithin table (table.classes.length + 2) memo cls

def isDeclaredAbstract (cls : Site) : Bool :=
  (cls.decl.attr "abstract").truthy ||
    cls.children.any fun c => c.kind == .functionDecl && c.decl.isPureVirtual

/-- A class declares, or inherits without overriding, a pure virtual function. -/
def isAbstract (table : SymbolTable) (memo : Memo) (cls : Site) : Bool × Memo :=
  if isDeclaredAbstract cls then (true, memo)
  else
    let (members, memo) := flatten table memo cls
    (members.any (·.member.decl.isPureVirtual), memo)

end Inheritance

end FlatAbi
