import FlatAbi.Declaration.Site

/-!
Names of classes, enums and typedefs, with the nodes that introduce them. The first entry of a name counts.
-/

namespace FlatAbi

structure SymbolTable where
  classes : List (String × Site) := []
  enums : List (String × Site) := []
  typedefs : List (String × Site) := []

namespace SymbolTable

def aliasNames (s : Site) : List String :=
  let written := s.decl.attr "tdname"
  if !written.truthy then []
  else if s.scopeName != "" then [s.scopeName ++ "::" ++ written.display]
  else written.asString?.toList

def classNames (s : Site) : List String :=
  if s.kind == .classDecl && s.decl.hasName then s.qualifiedName :: aliasNames s else []

def enumNames (s : Site) : List String :=
  if s.kind == .enumDecl then
    (if s.decl.hasName && !(s.decl.attr "unnamed").truthy then [s.qualifiedName] else []) ++ aliasNames s
  else []

def typedefNames (s : Site) : List String :=
  if s.kind == .typedefDecl && s.decl.hasName && s.decl.type.isSome then [s.qualifiedName] else []

def checkOwnName (s : Site) : Except Misshapen Unit := do
  s.checkQualified
  s.qualifiedValue.checkKey

def checkAlias (s : Site) : Except Misshapen Unit := do
  let written := s.decl.attr "tdname"
  if written.truthy then
    s.checkScope
    if s.scopeName == "" then written.checkKey

def checkNames (s : Site) : Except Misshapen Unit := do
  match s.kind with
  | .classDecl =>
    if s.decl.hasName then
      checkOwnName s
      checkAlias s
  | .enumDecl =>
    if s.decl.hasName && !(s.decl.attr "unnamed").truthy then checkOwnName s
    checkAlias s
  | .typedefDecl => if s.decl.hasName && s.decl.type.isSome then checkOwnName s
  | _ => return

def checkTree (root : Site) : Except Misshapen Unit :=
  root.walk.forM checkNames

def register (table : SymbolTable) (s : Site) : SymbolTable :=
  { classes := table.classes ++ (classNames s).map (·, s)
    enums := table.enums ++ (enumNames s).map (·, s)
    typedefs := table.typedefs ++ (typedefNames s).map (·, s) }

def ofSites (sites : List Site) : SymbolTable :=
  sites.foldl register {}

theorem ofSites_eq (sites : List Site) : ofSites sites =
    { classes := sites.flatMap fun s => (classNames s).map (·, s)
      enums := sites.flatMap fun s => (enumNames s).map (·, s)
      typedefs := sites.flatMap fun s => (typedefNames s).map (·, s) } := by
  have from_table (table : SymbolTable) : sites.foldl register table =
      { classes := table.classes ++ sites.flatMap fun s => (classNames s).map (·, s)
        enums := table.enums ++ sites.flatMap fun s => (enumNames s).map (·, s)
        typedefs := table.typedefs ++ sites.flatMap fun s => (typedefNames s).map (·, s) } := by
    induction sites generalizing table with
    | nil => simp
    | cons s rest ih => simp [ih, register]
  exact from_table {}

def ofTree (root : Site) : SymbolTable :=
  ofSites root.walk

theorem mem_of_entry {names : Site → List String} {sites : List Site} {entry : String × Site}
    (listed : entry ∈ sites.flatMap fun s => (names s).map (·, s)) : entry.2 ∈ sites ∧ entry.1 ∈ names entry.2 := by
  obtain ⟨s, member, listed⟩ := List.mem_flatMap.mp listed
  obtain ⟨name, named, rfl⟩ := List.mem_map.mp listed
  exact ⟨member, named⟩

theorem mem_classes_ofTree {root : Site} {entry : String × Site} (listed : entry ∈ (ofTree root).classes) :
    entry.2 ∈ root.walk ∧ entry.1 ∈ classNames entry.2 := by
  rw [ofTree, ofSites_eq] at listed
  exact mem_of_entry listed

theorem mem_typedefs_ofTree {root : Site} {entry : String × Site} (listed : entry ∈ (ofTree root).typedefs) :
    entry.2 ∈ root.walk ∧ entry.1 ∈ typedefNames entry.2 := by
  rw [ofTree, ofSites_eq] at listed
  exact mem_of_entry listed

def dropKeyword (name keyword : String) : String :=
  if Text.startsWith keyword name then Text.trim (Text.dropStart keyword.length name) else name

/-- A name without the keyword of its sort and without a leading `::`. -/
def normalizeName (name : String) : String :=
  let bare := ["enum ", "struct ", "class ", "union "].foldl dropKeyword (Text.trim name)
  if Text.startsWith "::" bare then Text.dropStart 2 bare else bare

/-- Qualify a name with ever shorter parts of a scope, whose components are given innermost first. -/
def candidatesFrom (name : String) : List String → List String
  | [] => [name]
  | part :: rest => Text.join "::" ((part :: rest).reverse ++ [name]) :: candidatesFrom name rest

/-- What a name may mean in a scope: `N` seen from `a::b` may be `a::b::N`, `a::N` or `N`. -/
def candidates (name scope : String) : List String :=
  candidatesFrom name ((Text.splitOn "::" scope).filter (· != "")).reverse

def find? (entries : List (String × Site)) (name scope : String) : Option Site :=
  (candidates (normalizeName name) scope).findSome? fun candidate => entries.lookup candidate

def class? (table : SymbolTable) (name scope : String) : Option Site :=
  find? table.classes name scope

def enum? (table : SymbolTable) (name scope : String) : Option Site :=
  find? table.enums name scope

def typedef? (table : SymbolTable) (name scope : String) : Option Site :=
  find? table.typedefs name scope

end SymbolTable

end FlatAbi
