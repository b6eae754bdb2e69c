import FlatAbi.Naming.Callable

/-!
Names that are derived once and remembered under the identity of what they belong to.
-/

namespace FlatAbi

structure NameCache where
  proxies : List (NodeId × Value) := []
  enums : List (NodeId × Option String) := []
  wrappers : NameBook := []

/-- Work that derives names. What was remembered before a failure stays. -/
abbrev NameWork := ExceptT Misshapen (StateM NameCache)

namespace NameWork

def check (result : Except Misshapen Unit) : NameWork Unit :=
  match result with
  | .ok () => return
  | .error cause => throw cause

def remember {α : Type} (store : α → NameCache → NameCache) (derive : NameWork α) : NameWork α := do
  let name ← derive
  modify (store name)
  return name

def deriveProxy (config : Config) (s : Site) : NameWork Value := do
  check (Naming.checkProxy s)
  return Naming.proxyValue config s

/-- The name of a class in C. One that is nothing is derived again. -/
def proxy (config : Config) (s : Site) : NameWork Value := do
  match (← get).proxies.lookup s.id with
  | none | some .null =>
    remember (fun value cache => { cache with proxies := (s.id, value) :: cache.proxies }) (deriveProxy config s)
  | some value => return value

def classPointer (config : Config) (s : Site) : NameWork String := do
  return "SwigObj_" ++ (← proxy config s).display ++ "*"

def enumPart (config : Config) (s : Site) : NameWork Value :=
  match s.enclosingClass? with
  | some owner => proxy config owner
  | none => do
    check (Naming.checkScopePart s)
    return Naming.freeValue config s

def enumTag (config : Config) (s : Site) : NameWork (Option String) := do
  if Naming.isAnonymous s.decl then return none
  let part ← enumPart config s
  check s.decl.checkName
  return some (part.display ++ "_" ++ s.decl.shortName)

def deriveEnumType (config : Config) (s : Site) : NameWork (Option String) := do
  let written := s.decl.attr "tdname"
  if written.truthy then return some ((← enumPart config s).display ++ "_" ++ written.display)
  return (← enumTag config s).map fun tag => "enum " ++ tag

/-- How C refers to the type of an enum. That it has no name is remembered, too. -/
def enumType (config : Config) (s : Site) : NameWork (Option String) := do
  match (← get).enums.lookup s.id with
  | some name => return name
  | none =>
    remember (fun name cache => { cache with enums := (s.id, name) :: cache.enums }) (deriveEnumType config s)

def deriveWrapper (config : Config) (c : Callable) (codes : List String) : NameWork String :=
  match c.owner with
  | some owner => do return Naming.memberSymbol (← proxy config owner).display c ++ Naming.suffixOf c codes
  | none => do
    check (Naming.checkWrapperName c)
    return Naming.wrapperName config c codes

def findWrapper (config : Config) (c : Callable) (codes : List String) : NameWork String := do
  match (← get).wrappers.lookup c.key with
  | some name => return name
  | none => deriveWrapper config c codes

def giveWrapper (key : NameKey) (fresh : String) : NameWork String :=
  modifyGet fun cache =>
    let (name, wrappers) := cache.wrappers.give key fresh
    (name, { cache with wrappers := wrappers })

def wrapper (config : Config) (c : Callable) (codes : List String) : NameWork String := do
  check c.symbol.checkKey
  giveWrapper c.key (← findWrapper config c codes)

end NameWork

/-- What names can be asked for, and that all are forgotten. -/
inductive NameRequest where
  | proxy (s : Site)
  | classPointer (s : Site)
  | enumPart (s : Site)
  | enumTag (s : Site)
  | enumType (s : Site)
  | wrapper (c : Callable) (codes : List String)
  | clear

namespace NameRequest

def ofName (name : Option String) : Value :=
  (name.map Value.string).getD .null

def work (config : Config) : NameRequest → NameWork Value
  | .proxy s => NameWork.proxy config s
  | .classPointer s => return .string (← NameWork.classPointer config s)
  | .enumPart s => NameWork.enumPart config s
  | .enumTag s => return ofName (← NameWork.enumTag config s)
  | .enumType s => return ofName (← NameWork.enumType config s)
  | .wrapper c codes => return .string (← NameWork.wrapper config c codes)
  | .clear => do
    set ({} : NameCache)
    return .null

def answer (config : Config) (cache : NameCache) (r : NameRequest) : Except Misshapen Value × NameCache :=
  (r.work config).run.run cache

end NameRequest

def NameCache.after (config : Config) (requests : List NameRequest) : NameCache :=
  requests.foldl (fun cache r => (r.answer config cache).2) {}

end FlatAbi
