import FlatAbi.CxxType.Reader
import FlatAbi.Declaration.Site
import FlatAbi.Typemap.Basic

/-!
Loading a document: the module tree under `module` and the typemap rules under `typemaps`.
-/

namespace FlatAbi

/-- A place in the document: the path of a node, with its kind and shown name once these are known. -/
structure Place where
  path : List Nat
  label : Option (Kind × String) := none

def Place.text (place : Place) : String :=
  let position := Text.join "/" ("module" :: place.path.map toString)
  match place.label with
  | some (kind, name) =>
    let shown := Text.orElse name "<anonymous>"
    s!"{position}({kind.word} {shown})"
  | none => position

inductive TypeFieldError where
  | notText (type : Value)
  | unreadable (cause : TypeSyntaxError)

def TypeFieldError.message : TypeFieldError → String
  | .notText type => s!"type must be a string, got {type.literal}"
  | .unreadable cause => cause.message

inductive RuleFault where
  | noObject
  | noMethod
  | badType (cause : TypeFieldError)
  | badNumber (cause : Misshapen)
  | refused (cause : RuleError)

inductive LoadError where
  | noModule
  | noObject (place : Place) (sort : String)
  | unknownKind (place : Place) (kind : Value)
  | unknownAccess (place : Place) (access : Value)
  | unknownStorage (place : Place) (storage : Value)
  | badType (place : Place) (cause : TypeFieldError)
  | noParameterList (place : Place)
  | noParameterType (place : Place) (position : Nat)
  | rootKind (kind : Kind)
  | noModuleName
  | badRule (index : Nat) (cause : RuleFault)
  | misshapen (cause : Misshapen)

def RuleFault.message (index : Nat) : RuleFault → String
  | .noObject => s!"typemaps[{index}]: expected an object"
  | .noMethod => s!"typemaps[{index}]: missing 'method'"
  | .badType cause => s!"typemaps[{index}]: typemaps[{index}]: {cause.message}"
  | .badNumber cause => s!"typemaps[{index}]: {cause.message}"
  | .refused cause => s!"typemaps[{index}]: {cause.message}"

def LoadError.message : LoadError → String
  | .noModule => "Input must be an object with a \"module\" key"
  | .noObject place sort => s!"{place.text}: expected an object, got {Text.quoted sort}"
  | .unknownKind place kind => s!"{place.text}: unknown node kind {kind.literal}"
  | .unknownAccess place access => s!"{place.text}: unknown access {access.literal}"
  | .unknownStorage place storage => s!"{place.text}: unknown storage {storage.literal}"
  | .badType place cause => s!"{place.text}: {cause.message}"
  | .noParameterList place => s!"{place.text}: parms must be a list"
  | .noParameterType place position => s!"{place.text}: parameter {position} needs a type"
  | .rootKind kind => s!"Root node must be a module, got {kind.word}"
  | .noModuleName => "Module has no name"
  | .badRule index cause => cause.message index
  | .misshapen cause => cause.message

structure Loaded where
  tree : Node
  typemaps : TypemapTable
  ruleCount : Nat

namespace Load

def nodeKeys : List String :=
  ["kind", "name", "sym_name", "type", "parms", "bases", "access", "storage", "const", "noexcept", "throws",
   "features", "attrs", "children", "file", "line"]

def shaped {α : Type} (result : Except Misshapen α) : Except LoadError α :=
  result.mapError .misshapen

def typeField : Value → Except TypeFieldError (Option CxxType)
  | .null => .ok none
  | .string spelling => ((CxxType.read spelling).map some).mapError .unreadable
  | value => .error (.notText value)

def typeAt (place : Place) (value : Value) : Except LoadError (Option CxxType) :=
  (typeField value).mapError (.badType place)

def parameter (place : Place) (position : Nat) : Value → Except LoadError Parameter
  | .string spelling => do
    return { type := ← typeAt place (.string spelling) }
  | .object fields =>
    match Fields.get? fields "type" with
    | none => .error (.noParameterType place position)
    | some type => do
      let type ← typeAt place type
      return {
        name := (Fields.get? fields "name").getD .null
        type := type
        default := (Fields.get? fields "default").getD .null }
  | _ => .error (.noParameterType place position)

def parametersFrom (place : Place) (position : Nat) : List Value → Except LoadError (List Parameter)
  | [] => .ok []
  | value :: rest => do
    let first ← parameter place position value
    return first :: (← parametersFrom place (position + 1) rest)

def parameters (place : Place) : Value → Except LoadError (List Parameter)
  | .array values => parametersFrom place 1 values
  | _ => .error (.noParameterList place)

/-- The attributes: those given as such, overridden by every field that is no part of a declaration. -/
def attributes (fields : Fields) : Except LoadError Fields := do
  let given ← shaped ((Fields.get? fields "attrs").getD .null).toFields
  return (fields.filter fun f => !nodeKeys.contains f.1).foldl (fun all f => all.set f.1 f.2) given

def accessField (place : Place) : Option Value → Except LoadError Access
  | none => .ok .publicAccess
  | some value =>
    match value.asString?.bind Access.ofWord? with
    | some access => .ok access
    | none => .error (.unknownAccess place value)

def storageField (place : Place) : Value → Except LoadError (Option Storage)
  | .null => .ok none
  | value =>
    match value.asString?.bind Storage.ofWord? with
    | some storage => .ok (some storage)
    | none => .error (.unknownStorage place value)

def orElse (value fallback : Value) : Value :=
  if value.truthy then value else fallback

def withSymbol (d : Declaration) : Except LoadError Declaration := do
  if d.lacksSymbol then shaped d.checkName
  return d.withDefaultSymbol

/-- The declaration of a node without its children. `file` is the file of the surrounding declaration. -/
def declaration (fields : Fields) (file : Value) (path : List Nat) : Except LoadError Declaration := do
  let get := fun key => (Fields.get? fields key).getD .null
  let some kind := (get "kind").asString?.bind Kind.ofWord?
    | .error (.unknownKind ⟨path, none⟩ (get "kind"))
  let name := orElse (get "name") (.string "")
  let place : Place := ⟨path, some (kind, name.display)⟩
  let access ← accessField place (Fields.get? fields "access")
  let storage ← storageField place (get "storage")
  let attributes ← attributes fields
  let type ← typeAt place (get "type")
  let parameters ← parameters place ((Fields.get? fields "parms").getD (.array []))
  let bases ← shaped ((Fields.get? fields "bases").getD (.array [])).items
  let throws ← match get "throws" with
    | .null => .ok none
    | value => (shaped value.items).map some
  let features ← shaped (get "features").toFields
  let line ← shaped ((Fields.get? fields "line").getD (.int 0)).toInteger
  withSymbol
    { kind := kind, givenName := name, givenSymbol := get "sym_name", type := type, parameters := parameters,
      bases := bases, access := access, storage := storage, isConst := (get "const").truthy,
      noexcept := (get "noexcept").truthy, throws := throws, features := features, attributes := attributes,
      file := orElse (get "file") file, line := line }

abbrev ChildReader := Value → List Nat → Except LoadError Node

def runReaders (file : Value) (path : List Nat) (index : Nat) : List ChildReader → Except LoadError (List Node)
  | [] => .ok []
  | reader :: rest => do
    let first ← reader file (path ++ [index])
    return first :: (← runReaders file path (index + 1) rest)

mutual

def node : Value → ChildReader
  | .object fields => fun file path => do
    let decl ← declaration fields file path
    let readers ← childReaders fields
    return .mk decl (← runReaders decl.file path 0 readers)
  | value => fun _ path => .error (.noObject ⟨path, none⟩ value.sortName)

def childReaders : List (String × Value) → Except LoadError (List ChildReader)
  | [] => .ok []
  | (key, value) :: rest => if key == "children" then itemReaders value else childReaders rest

def itemReaders : Value → Except LoadError (List ChildReader)
  | .array items => .ok (nodeReaders items)
  | value => do
    let items ← shaped value.items
    return items.map fun item _ path => .error (.noObject ⟨path, none⟩ item.sortName)

def nodeReaders : List Value → List ChildReader
  | [] => []
  | item :: rest => node item :: nodeReaders rest

end

def rule (index : Nat) : Value → Except LoadError Rule
  | .object fields => do
    let some method := Fields.get? fields "method"
      | .error (.badRule index .noMethod)
    let code := (Fields.get? fields "code").getD (.string "")
    let type ← (typeField ((Fields.get? fields "type").getD .null)).mapError fun e => .badRule index (.badType e)
    let inputs ← ((Fields.get? fields "numinputs").getD (.int 1)).toInteger.mapError fun e =>
      if e.isContent then .badRule index (.badNumber e) else .misshapen e
    (Rule.make method code type ((Fields.get? fields "category").getD .null) inputs).mapError fun e =>
      .badRule index (.refused e)
  | _ => .error (.badRule index .noObject)

def rulesFrom (index : Nat) : List Value → Except LoadError (List Rule)
  | [] => .ok []
  | value :: rest => do
    let first ← rule index value
    return first :: (← rulesFrom (index + 1) rest)

def document (useDefaults : Bool) : Value → Except LoadError Loaded
  | .object fields =>
    match Fields.get? fields "module" with
    | none => .error .noModule
    | some value => do
      let tree ← node value (.string "") []
      if tree.kind != .moduleDecl then .error (.rootKind tree.kind)
      else if !tree.decl.hasName then .error .noModuleName
      else
        let values ← shaped ((Fields.get? fields "typemaps").getD (.array [])).items
        let rules ← rulesFrom 0 values
        return ⟨tree, TypemapTable.ofRules rules useDefaults, rules.length⟩
  | _ => .error .noModule

end Load

end FlatAbi
