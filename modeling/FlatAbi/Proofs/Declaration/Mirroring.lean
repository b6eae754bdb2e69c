import FlatAbi.Declaration.Load
import FlatAbi.Proofs.Declaration.Walk
import FlatAbi.Proofs.Results
import Mathlib.Data.List.Infix

/-!
A loaded tree mirrors its document. Nodes are found under the same paths on both sides, and what is refused is the
first node in pre-order that is malformed.
-/

namespace FlatAbi

open List Value LoadError Declaration Option

/-! ### Nodes of a document -/

variable {e : LoadError} {values : List Value} {d : Declaration} {useDefaults : Bool}

namespace Value

def field? : Value → String → Option Value
  | .object fields, key => Fields.get? fields key
  | _, _ => none

def get (v : Value) (key : String) (missing : Value := .null) : Value :=
  (v.field? key).getD missing

/-- The values that stand in the place of children. -/
def childValues (v : Value) : List Value :=
  (v.get "children" (.array [])).items.toOption.getD []

/-- The value at a path of child indices. -/
def descend? : Value → List Nat → Option Value
  | v, [] => some v
  | v, index :: rest => v.childValues[index]?.bind (·.descend? rest)

def ownFile? (v : Value) : Option Value :=
  (v.field? "file").filter truthy

/-- The file of the closest value on the way up from a path that has one; else the file around all of them. -/
def fileAt (v : Value) (outer : Value) (path : List Nat) : Value :=
  (path.inits.reverse.findSome? fun upper => (v.descend? upper).bind ownFile?).getD outer

/-- An attribute is what the last field of its name says, unless that is a field of a node; else what is given under
`attrs`. -/
def attribute? (v : Value) (key : String) : Option Value :=
  match v with
  | .object fields =>
    (if Load.nodeKeys.contains key then none else Fields.get? fields.reverse key).or
      (Fields.get? ((v.get "attrs").toFields.toOption.getD []) key)
  | _ => none

/-- Nothing, or text that reads as a type. -/
def IsType (v : Value) : Prop :=
  v = .null ∨ ∃ spelling t, v = .string spelling ∧ CxxType.read spelling = .ok t

def IsParameter (v : Value) : Prop :=
  (∃ spelling t, v = .string spelling ∧ CxxType.read spelling = .ok t) ∨
    ∃ type, v.field? "type" = some type ∧ type.IsType

/-- The fields of a declaration are of the right shape. -/
structure IsDeclaration (v : Value) : Prop where
  kind : ((v.get "kind").asString?.bind Kind.ofWord?).isSome
  access : ∀ access ∈ v.field? "access", (access.asString?.bind Access.ofWord?).isSome
  storage : (v.get "storage").isNull ∨ ((v.get "storage").asString?.bind Storage.ofWord?).isSome
  attributes : ∃ fields, (v.get "attrs").toFields = .ok fields
  type : (v.get "type").IsType
  parameters : ∃ values, v.get "parms" (.array []) = .array values ∧ ∀ value ∈ values, value.IsParameter
  bases : ∃ items, (v.get "bases" (.array [])).items = .ok items
  throws : (v.get "throws").isNull ∨ ∃ items, (v.get "throws").items = .ok items
  features : ∃ fields, (v.get "features").toFields = .ok fields
  line : ∃ n, (v.get "line" (.int 0)).toInteger = .ok n
  name : (v.get "sym_name").isNull → (v.get "name").truthy → (v.get "name").isText

/-- A value that is no malformed node, whatever its children are. -/
def IsNode (v : Value) : Prop :=
  v.IsDeclaration ∧ ∃ items, (v.get "children" (.array [])).items = .ok items

/-- The path leads to the first value in pre-order that is a malformed node. -/
def FirstMalformed (v : Value) (path : List Nat) : Prop :=
  ∃ bad, v.descend? path = some bad ∧ ¬ bad.IsNode ∧
    ∀ earlier < path, ∀ value, v.descend? earlier = some value → value.IsNode

variable {v child outer : Value} {index : Nat} {path : List Nat} {fields : Fields}

theorem sizeOf_childValues (listed : .object fields ∈ v.childValues) : sizeOf (Value.object fields) < sizeOf v := by
  cases v with
  | object whole =>
    cases found : Fields.get? whole "children" with
    | none => simp [childValues, get, field?, found, items, Except.toOption] at listed
    | some value =>
      simp only [childValues, get, field?, found] at listed
      obtain ⟨front, back, same, _⟩ := lookup_eq_some_iff.mp found
      cases value with
      | array values =>
        have inner := sizeOf_lt_of_mem listed
        have outer := sizeOf_lt_of_mem (show ("children", .array values) ∈ whole by simp [same])
        simp [Except.toOption, items] at inner outer ⊢
        omega
      | _ => simp [items, Except.toOption] at listed
  | _ => simp [childValues, get, field?, items, Except.toOption] at listed

theorem childValues_induction {motive : Value → Prop}
    (step : ∀ v, (∀ child ∈ v.childValues, motive child) → motive v) (v : Value) : motive v := by
  refine step v fun child listed => ?_
  cases child with
  | object fields => exact childValues_induction step (.object fields)
  | _ => exact step _ (by simp [childValues, get, field?, items, Except.toOption])
termination_by sizeOf v
decreasing_by exact sizeOf_childValues listed

theorem fileAt_nil : v.fileAt outer [] = Load.orElse (v.get "file") outer := by
  cases found : v.field? "file" with
  | none => simp [fileAt, descend?, ownFile?, get, found, Load.orElse, truthy]
  | some file =>
    cases full : file.truthy <;> simp [fileAt, descend?, ownFile?, get, found, Load.orElse, full, Option.filter]

theorem fileAt_cons (listed : v.childValues[index]? = some child) :
    v.fileAt outer (index :: path) = child.fileAt (Load.orElse (v.get "file") outer) path := by
  rw [← fileAt_nil]
  simp [fileAt, findSome?_append, ← map_reverse, findSome?_map, Function.comp_def, descend?, listed]

end Value

namespace Fields

variable {fields news : Fields} {key other : String} {value : Value}

theorem get?_set : (fields.set other value).get? key = (get? [(other, value)] key).or (fields.get? key) := by
  simp only [get?, set, lookup_setEntry, lookup_cons, lookup_nil]
  cases key == other <;> rfl

theorem get?_foldl_set :
    (news.foldl (fun all f => all.set f.1 f.2) fields).get? key = (get? news.reverse key).or (fields.get? key) := by
  induction news generalizing fields with
  | nil => rfl
  | cons field rest ih =>
    rw [foldl_cons, ih, get?_set, reverse_cons, ← Option.or_assoc]
    simp only [get?, lookup_append]

theorem get?_filter (keep : String → Bool) :
    get? (fields.filter fun f => keep f.1) key = if keep key then fields.get? key else none := by
  induction fields with
  | nil => cases keep key <;> rfl
  | cons field rest ih =>
    obtain ⟨name, value⟩ := field
    simp only [get?, filter_cons, lookup_cons] at ih ⊢
    by_cases here : key = name
    · subst here
      cases kept : keep key <;> simp only [kept] at ih <;> simp [ih]
    · cases keep name <;> simp [lookup_cons, beq_eq_false_iff_ne.mpr here, ih]

end Fields

/-- The place that a refusal is for. -/
def LoadError.place? : LoadError → Option Place
  | .noObject place _ | .unknownKind place _ | .unknownAccess place _ | .unknownStorage place _ | .badType place _
  | .noParameterList place | .noParameterType place _ => some place
  | _ => none

theorem LoadError.message_eq {place : Place} (blamed : place ∈ e.place?) :
    ∃ reason, e.message = place.text ++ (": " ++ reason) := by
  cases e <;> cases blamed <;> unfold message <;> simp only [toString, String.append_assoc]
  · exact ⟨"expected an object, got " ++ _, rfl⟩
  · exact ⟨"unknown node kind " ++ _, rfl⟩
  · exact ⟨"unknown access " ++ _, rfl⟩
  · exact ⟨"unknown storage " ++ _, rfl⟩
  · exact ⟨_, rfl⟩
  · exact ⟨"parms must be a list", rfl⟩
  · exact ⟨"parameter " ++ _, rfl⟩

theorem Place.text_eq (place : Place) : place.text = (Place.mk place.path none).text ∨
    ∃ label, place.text = (Place.mk place.path none).text ++ ("(" ++ label) := by
  obtain ⟨path, _ | ⟨kind, name⟩⟩ := place
  · exact .inl rfl
  · unfold Place.text
    simp only [toString, String.append_assoc]
    exact .inr ⟨_, rfl⟩

namespace Load

variable {fields : Fields} {file value : Value} {path : List Nat} {place : Place} {v : Value}

/-- Reading ends well just where the value is good, and what is refused for a place is refused for the path. -/
def Judges {α : Type} (path : List Nat) (good : Prop) : Except LoadError α → Prop
  | .ok _ => good
  | .error e => ¬ good ∧ ∀ place ∈ e.place?, place.path = path

/-! ### Fields -/

section

variable {α β : Type} {good other : Prop} {first : Except LoadError α}

theorem Judges.of_iff (judged : Judges path good first) (same : good ↔ other) : Judges path other first := by
  rwa [← propext same]

theorem Judges.bind {next : α → Except LoadError β} (judged : Judges path good first)
    (each : ∀ a, Judges path other (next a)) : Judges path (good ∧ other) (first >>= next) := by
  cases first with
  | error e => exact ⟨fun both => judged.1 both.1, judged.2⟩
  | ok a => exact (each a).of_iff (and_iff_right judged).symm

theorem Judges.map {f : α → β} (judged : Judges path good first) : Judges path good (first.map f) := by
  cases first <;> exact judged

theorem Judges.bind_pure {f : α → β} (judged : Judges path good first) :
    Judges path good (first >>= fun a => pure (f a)) := by
  cases first <;> exact judged

theorem judges_shaped {result : Except Misshapen α} : Judges path (∃ a, result = .ok a) (shaped result) := by
  cases result <;> simp [Judges, shaped, Except.mapError, place?]

end

theorem judges_accessField {given : Option Value} :
    Judges place.path (∀ access ∈ given, (access.asString?.bind Access.ofWord?).isSome) (accessField place given) := by
  cases given with
  | none => simp [Judges, accessField]
  | some value =>
    cases found : value.asString?.bind Access.ofWord? <;> simp [Judges, accessField, found, place?]

theorem judges_storageField :
    Judges place.path (value.isNull ∨ (value.asString?.bind Storage.ofWord?).isSome) (storageField place value) := by
  cases value with
  | string word =>
    cases found : Storage.ofWord? word <;>
      simp [Judges, storageField, isNull, asString?, found, place?]
  | _ => simp [Judges, storageField, isNull, asString?, place?]

theorem judges_typeAt : Judges place.path value.IsType (typeAt place value) := by
  cases value with
  | string spelling =>
    cases read : CxxType.read spelling <;>
      simp [Judges, typeAt, typeField, IsType, read, Except.map, Except.mapError, place?]
  | _ => simp [Judges, typeAt, typeField, IsType, Except.mapError, place?]

theorem judges_parameter {position : Nat} : Judges place.path value.IsParameter (parameter place position value) := by
  cases value with
  | string spelling =>
    exact judges_typeAt.bind_pure.of_iff (by simp [IsType, IsParameter, Value.field?])
  | object fields =>
    cases found : Fields.get? fields "type" with
    | none => simp [Judges, parameter, found, IsParameter, Value.field?, place?]
    | some type =>
      simp only [parameter, found]
      exact judges_typeAt.bind_pure.of_iff (by simp [IsParameter, Value.field?, found])
  | _ => simp [Judges, parameter, IsParameter, Value.field?, place?]

theorem judges_parametersFrom {position : Nat} :
    Judges place.path (∀ value ∈ values, value.IsParameter) (parametersFrom place position values) := by
  induction values generalizing position with
  | nil => exact forall_mem_nil _
  | cons value rest ih => exact (judges_parameter.bind fun _ => ih.bind_pure).of_iff forall_mem_cons.symm

theorem judges_parameters : Judges place.path
    (∃ values, value = .array values ∧ ∀ value ∈ values, value.IsParameter) (parameters place value) := by
  cases value with
  | array values => exact judges_parametersFrom.of_iff (by simp)
  | _ => simp [Judges, parameters, place?]

theorem judges_withSymbol {symbol name : Value} (symbolic : d.givenSymbol = symbol)
    (named : d.givenName = orElse name (.string "")) :
    Judges path (symbol.isNull → name.truthy → name.isText) (withSymbol d) := by
  have judged : Judges path (d.lacksSymbol → d.givenName.isText) (withSymbol d) := by
    unfold withSymbol checkName checkText
    cases d.lacksSymbol <;> cases d.givenName.isText <;>
      simp [Judges, shaped, Except.mapError, bind, Except.bind, pure, Except.pure, place?]
  refine judged.of_iff ?_
  rw [lacksSymbol, hasName, symbolic, named, orElse]
  split <;> simp_all [Value.truthy]

theorem judges_declaration : Judges path (Value.object fields).IsDeclaration (declaration fields file path) := by
  unfold declaration
  dsimp only
  split
  next kind known =>
    let v := Value.object fields
    refine Judges.of_iff (judges_accessField.bind fun _ => judges_storageField.bind fun _ =>
      judges_shaped.bind_pure.bind fun _ => judges_typeAt.bind fun _ => judges_parameters.bind fun _ =>
      judges_shaped.bind fun _ => (?_ : Judges path
        (((v.get "throws").isNull ∨ ∃ items, (v.get "throws").items = .ok items) ∧
          (∃ found, (v.get "features").toFields = .ok found) ∧ (∃ n, (v.get "line" (.int 0)).toInteger = .ok n) ∧
          ((v.get "sym_name").isNull → (v.get "name").truthy → (v.get "name").isText)) _)) ?_
    · split <;> refine Judges.bind ?_ fun _ => judges_shaped.bind fun _ => judges_shaped.bind fun _ =>
        judges_withSymbol rfl rfl
      next null => exact .inl (congrArg isNull null)
      next other =>
        refine judges_shaped.map.of_iff (or_iff_right fun null => ?_).symm
        cases whole : v.get "throws" with
        | null => exact other whole
        | _ => simp [whole, isNull] at null
    · constructor
      · rintro ⟨access, storage, attributes, type, parameters, bases, throws, features, line, name⟩
        exact ⟨isSome_of_eq_some known, access, storage, attributes, type, parameters, bases, throws, features, line,
          name⟩
      · intro d
        exact ⟨d.access, d.storage, d.attributes, d.type, d.parameters, d.bases, d.throws, d.features, d.line, d.name⟩
  next unknown =>
    refine ⟨fun d => ?_, by rintro _ ⟨⟩; rfl⟩
    obtain ⟨kind, known⟩ := isSome_iff_exists.mp d.kind
    exact unknown kind known

theorem withSymbol_eq_ok {named : Declaration} (loaded : withSymbol d = .ok named) :
    ∃ symbol, named = { d with givenSymbol := symbol } := by
  have same : named = d.withDefaultSymbol := by
    unfold withSymbol at loaded
    split at loaded
    · obtain ⟨_, _, loaded⟩ := bind_eq_ok loaded
      cases loaded
      rfl
    · cases loaded
      rfl
  rw [same, withDefaultSymbol]
  split <;> exact ⟨_, rfl⟩

theorem get?_attributes {found : Fields} (loaded : attributes fields = .ok found) (key : String) :
    Fields.get? found key = (Value.object fields).attribute? key := by
  obtain ⟨given, shapes, loaded⟩ := bind_eq_ok loaded
  cases loaded
  have plain : Fields.get? (fields.filter fun f => !nodeKeys.contains f.1).reverse key =
      if nodeKeys.contains key then none else Fields.get? fields.reverse key := by
    rw [← filter_reverse, Fields.get?_filter fun key => !nodeKeys.contains key]
    cases nodeKeys.contains key <;> rfl
  rw [Fields.get?_foldl_set, plain, Value.attribute?]
  simp [Value.get, Value.field?, mapError_eq_ok_iff.mp shapes, Except.toOption]

/-- What the declaration of a node says. `outer` is the file around the node. -/
structure ReadsTo (v outer : Value) (d : Declaration) : Prop where
  node : v.IsNode
  kind : (v.get "kind").asString?.bind Kind.ofWord? = some d.kind
  name : d.givenName = orElse (v.get "name") (.string "")
  attributes : ∀ key, Fields.get? d.attributes key = v.attribute? key
  file : d.file = orElse (v.get "file") outer
  type : ∃ place, typeAt place (v.get "type") = .ok d.type
  parameters : ∃ place, parameters place (v.get "parms" (.array [])) = .ok d.parameters

theorem readsTo_of_declaration {items : List Value}
    (children : ((Value.object fields).get "children" (.array [])).items = .ok items)
    (declared : declaration fields file path = .ok d) : ReadsTo (.object fields) file d := by
  have judged := @judges_declaration fields file path
  rw [declared] at judged
  unfold declaration at declared
  dsimp only at declared
  split at declared
  next kind known =>
    obtain ⟨access, readsAccess, declared⟩ := bind_eq_ok declared
    obtain ⟨storage, readsStorage, declared⟩ := bind_eq_ok declared
    obtain ⟨attributes, readsAttributes, declared⟩ := bind_eq_ok declared
    obtain ⟨type, readsType, declared⟩ := bind_eq_ok declared
    obtain ⟨parameters, readsParameters, declared⟩ := bind_eq_ok declared
    obtain ⟨bases, readsBases, declared⟩ := bind_eq_ok declared
    split at declared <;> (
      obtain ⟨throws, readsThrows, declared⟩ := bind_eq_ok declared
      obtain ⟨features, readsFeatures, declared⟩ := bind_eq_ok declared
      obtain ⟨line, readsLine, declared⟩ := bind_eq_ok declared
      obtain ⟨symbol, rfl⟩ := withSymbol_eq_ok declared
      exact ⟨⟨judged, items, children⟩, known, rfl, get?_attributes readsAttributes, rfl, ⟨_, readsType⟩,
        ⟨_, readsParameters⟩⟩)
  · cases declared

/-! ### Nodes -/

theorem nodeReaders_eq (values : List Value) : nodeReaders values = values.map node := by
  induction values with
  | nil => rw [nodeReaders, map_nil]
  | cons value rest ih => rw [nodeReaders, ih, map_cons]

theorem itemReaders_eq (value : Value) : itemReaders value = (shaped value.items).map (·.map node) := by
  cases value with
  | array values => rw [itemReaders, nodeReaders_eq]; rfl
  | _ => simp [itemReaders, Value.items, shaped, Except.map, Except.mapError, bind, Except.bind, pure, Except.pure,
      node]

theorem childReaders_eq (fields : Fields) :
    childReaders fields = (shaped ((Value.object fields).get "children" (.array [])).items).map (·.map node) := by
  rw [← itemReaders_eq, Value.get, Value.field?]
  induction fields with
  | nil => simp [childReaders, itemReaders, Fields.get?, nodeReaders]
  | cons field rest ih =>
    obtain ⟨key, value⟩ := field
    rw [childReaders]
    by_cases here : key = "children"
    · simp [here, Fields.get?]
    · simpa [here, Fields.get?, lookup_cons, beq_eq_false_iff_ne.mpr (Ne.symm here)] using ih

theorem childReaders_eq_ok {readers : List ChildReader} (found : childReaders fields = .ok readers) :
    ∃ items, ((Value.object fields).get "children" (.array [])).items = .ok items ∧
      readers = (Value.object fields).childValues.map node := by
  rw [childReaders_eq] at found
  rw [Value.childValues]
  cases values : ((Value.object fields).get "children" (.array [])).items <;> rw [values] at found <;> cases found
  exact ⟨_, rfl, rfl⟩

theorem runReaders_eq_ok {start : Nat} {nodes : List Node}
    (loaded : runReaders file path start (values.map node) = .ok nodes) (index : Nat) :
    Option.Rel (fun value n => node value file (path ++ [start + index]) = .ok n) values[index]? nodes[index]? := by
  induction values generalizing start nodes index with
  | nil =>
    cases loaded
    exact .none
  | cons value rest ih =>
    obtain ⟨first, head, loaded⟩ := bind_eq_ok loaded
    obtain ⟨others, tail, loaded⟩ := bind_eq_ok loaded
    cases loaded
    cases index with
    | zero => exact .some head
    | succ index => simpa [Nat.add_right_comm, Nat.add_assoc] using ih tail index

theorem runReaders_eq_error {start : Nat} (refused : runReaders file path start (values.map node) = .error e) :
    ∃ index value, values[index]? = some value ∧ node value file (path ++ [start + index]) = .error e ∧
      ∀ before < index, ∀ value, values[before]? = some value →
        ∃ n, node value file (path ++ [start + before]) = .ok n := by
  induction values generalizing start with
  | nil => cases refused
  | cons value rest ih =>
    rcases bind_eq_error refused with head | ⟨first, head, refused⟩
    · exact ⟨0, value, rfl, head, by simp⟩
    · obtain ⟨index, other, listed, fails, before⟩ := ih ((bind_eq_error refused).resolve_right nofun)
      refine ⟨index + 1, other, listed, by rwa [Nat.add_comm index, ← Nat.add_assoc], fun i earlier => ?_⟩
      cases i with
      | zero => simpa using ⟨first, head⟩
      | succ i => simpa [Nat.add_right_comm, Nat.add_assoc] using before i (by omega)

/-- A node is loaded from a node, and its children are loaded from the children at the same positions. -/
theorem node_eq_ok {n : Node} (loaded : node v file path = .ok n) :
    ReadsTo v file n.decl ∧ ∀ index,
      Option.Rel (fun value child => node value n.decl.file (path ++ [index]) = .ok child) v.childValues[index]?
        n.children[index]? := by
  cases v with
  | object fields =>
    rw [node] at loaded
    obtain ⟨d, declared, loaded⟩ := bind_eq_ok loaded
    obtain ⟨readers, found, loaded⟩ := bind_eq_ok loaded
    obtain ⟨children, below, loaded⟩ := bind_eq_ok loaded
    cases loaded
    obtain ⟨items, values, rfl⟩ := childReaders_eq_ok found
    refine ⟨readsTo_of_declaration values declared, fun index => ?_⟩
    have child := runReaders_eq_ok below index
    rwa [Nat.zero_add] at child
  | _ => simp [node] at loaded

/-- The nodes of a loaded tree are read from the values at the same paths. -/
theorem node_descend {site : Site} (loaded : node v file path = .ok site.node) (rest : List Nat) :
    Option.Rel (fun value found => ∃ outer, ReadsTo value outer found.decl ∧ found.decl.file = v.fileAt file rest)
      (v.descend? rest) (site.descend? rest) := by
  induction rest generalizing v file path site with
  | nil =>
    obtain ⟨reads, _⟩ := node_eq_ok loaded
    exact .some ⟨file, reads, reads.file.trans fileAt_nil.symm⟩
  | cons index rest ih =>
    obtain ⟨reads, children⟩ := node_eq_ok loaded
    have child := children index
    rw [Value.descend?, Site.descend?, Site.child?]
    generalize listed : v.childValues[index]? = value at child
    generalize site.node.children[index]? = n at child
    cases child with
    | none => exact .none
    | some loaded =>
      rw [fileAt_cons listed, ← reads.file]
      exact @ih _ _ _ ⟨site.id.child index, _, site.inside⟩ loaded

theorem isNode_of_descend {value : Value} {n : Node} (loaded : node v file path = .ok n) {rest : List Nat}
    (found : v.descend? rest = some value) : value.IsNode := by
  have related := @node_descend _ _ _ (.root n) loaded rest
  rw [found] at related
  generalize (Site.root n).descend? rest = site at related
  cases related with
  | some reads => exact reads.choose_spec.1.node

/-! ### Refusals -/

/-- A node is refused for the first malformed value in it. -/
theorem node_eq_error (refused : node v file path = .error e) (blamed : place ∈ e.place?) :
    ∃ rest, place.path = path ++ rest ∧ v.FirstMalformed rest := by
  induction v using childValues_induction generalizing file path with
  | step v ih =>
    have here (fails : ¬ v.IsNode) (same : place.path = path) :
        ∃ rest, place.path = path ++ rest ∧ v.FirstMalformed rest :=
      ⟨[], by simpa using same, v, rfl, fails, fun earlier before => absurd before (not_lt_nil earlier)⟩
    cases v with
    | object fields =>
      rw [node] at refused
      rcases bind_eq_error refused with refused | ⟨d, declared, refused⟩
      · have judged := @judges_declaration fields file path
        rw [refused] at judged
        exact here (fun isNode => judged.1 isNode.1) (judged.2 _ blamed)
      rcases bind_eq_error refused with refused | ⟨readers, found, refused⟩
      · have judged := @judges_shaped path _ ((Value.object fields).get "children" (.array [])).items
        rw [childReaders_eq] at refused
        cases found : shaped ((Value.object fields).get "children" (.array [])).items <;>
          rw [found] at refused judged <;>
          cases refused
        exact here (fun isNode => judged.1 isNode.2) (judged.2 _ blamed)
      obtain ⟨items, values, rfl⟩ := childReaders_eq_ok found
      obtain ⟨index, child, listed, fails, before⟩ := runReaders_eq_error ((bind_eq_error refused).resolve_right nofun)
      obtain ⟨rest, same, bad, reached, malformed, earlier⟩ := ih child (mem_of_getElem? listed) fails
      refine ⟨index :: rest, by simpa using same, bad, by rw [Value.descend?, listed]; exact reached, malformed, ?_⟩
      intro other sooner value found
      cases other with
      | nil =>
        cases found
        exact (readsTo_of_declaration values declared).node
      | cons i other =>
        obtain ⟨between, entered, found⟩ := bind_eq_some_iff.mp found
        rcases cons_lt_cons_iff.mp sooner with sooner | ⟨rfl, inside⟩
        · obtain ⟨n, loaded⟩ := before i sooner between entered
          exact isNode_of_descend loaded found
        · rw [listed] at entered
          cases entered
          exact earlier other inside value found
    | _ =>
      simp only [node, Except.error.injEq] at refused
      subst refused
      cases blamed
      exact here (fun isNode => by simpa [Value.get, Value.field?, asString?] using isNode.1.kind) rfl

/-! ### Documents -/

theorem mapError_placeless {ε α : Type} {result : Except ε α} {f : ε → LoadError}
    (placeless : ∀ cause, (f cause).place? = none) (refused : result.mapError f = .error e) : e.place? = none := by
  cases result <;> cases refused
  exact placeless _

theorem rule_placeless {index : Nat} (refused : rule index value = .error e) : e.place? = none := by
  unfold rule at refused
  split at refused
  · split at refused
    · rcases bind_eq_error refused with refused | ⟨_, _, refused⟩
      · exact mapError_placeless (fun _ => rfl) refused
      rcases bind_eq_error refused with refused | ⟨_, _, refused⟩
      · refine mapError_placeless (fun cause => ?_) refused
        split <;> rfl
      · exact mapError_placeless (fun _ => rfl) refused
    · cases refused
      rfl
  · cases refused
    rfl

theorem rulesFrom_placeless {index : Nat} (refused : rulesFrom index values = .error e) : e.place? = none := by
  induction values generalizing index with
  | nil => cases refused
  | cons value rest ih =>
    rcases bind_eq_error refused with refused | ⟨_, _, refused⟩
    · exact rule_placeless refused
    · exact ih ((bind_eq_error refused).resolve_right nofun)

theorem document_eq_ok {loaded : Loaded} (accepted : document useDefaults value = .ok loaded) :
    ∃ module, value.field? "module" = some module ∧ node module (.string "") [] = .ok loaded.tree := by
  unfold document at accepted
  split at accepted
  · split at accepted
    · cases accepted
    next module found =>
      obtain ⟨tree, read, accepted⟩ := bind_eq_ok accepted
      split at accepted
      · cases accepted
      · split at accepted
        · cases accepted
        · obtain ⟨values, _, accepted⟩ := bind_eq_ok accepted
          obtain ⟨rules, _, accepted⟩ := bind_eq_ok accepted
          cases accepted
          exact ⟨module, found, read⟩
  · cases accepted

theorem document_eq_error (refused : document useDefaults value = .error e) (blamed : place ∈ e.place?) :
    ∃ module, value.field? "module" = some module ∧ node module (.string "") [] = .error e := by
  unfold document at refused
  split at refused
  · split at refused
    · cases refused
      cases blamed
    next module found =>
      rcases bind_eq_error refused with refused | ⟨tree, _, refused⟩
      · exact ⟨module, found, refused⟩
      · split at refused
        · cases refused
          cases blamed
        · split at refused
          · cases refused
            cases blamed
          · have placeless : e.place? = none := by
              rcases bind_eq_error refused with refused | ⟨_, _, refused⟩
              · exact mapError_placeless (fun _ => rfl) refused
              · exact rulesFrom_placeless ((bind_eq_error refused).resolve_right nofun)
            rw [placeless] at blamed
            cases blamed
  · cases refused
    cases blamed

/-- The nodes of a tree, in the order of their paths, are what a value and those below it say at the same paths. -/
structure Mirrors (module : Value) (tree : Node) : Prop where
  ordered : (Site.root tree).walk.Pairwise Site.Before
  found : ∀ path, (∃ site ∈ (Site.root tree).walk, site.id = .declared path) ↔
    ∃ value, module.descend? path = some value
  said : ∀ site ∈ (Site.root tree).walk, ∃ path value, site.id = .declared path ∧ module.descend? path = some value ∧
    value.IsNode ∧ (value.get "kind").asString?.bind Kind.ofWord? = some site.decl.kind ∧
    site.decl.givenName = orElse (value.get "name") (.string "") ∧
    site.decl.file = module.fileAt (.string "") path ∧
    ∀ key, Fields.get? site.decl.attributes key = value.attribute? key

theorem site_read {tree : Node} (loaded : node v file [] = .ok tree) {site : Site}
    (member : site ∈ (Site.root tree).walk) : ∃ rest value outer, site.id = .declared rest ∧
      v.descend? rest = some value ∧ ReadsTo value outer site.decl ∧ site.decl.file = v.fileAt file rest := by
  obtain ⟨rest, found⟩ := Site.mem_walk_iff.mp member
  have related := @node_descend _ _ _ (.root tree) loaded rest
  rw [found] at related
  generalize reached : v.descend? rest = value at related
  cases related with
  | some reads =>
    obtain ⟨outer, reads, file⟩ := reads
    exact ⟨rest, _, outer, @Site.id_of_descend _ _ [] rfl _ found, reached, reads, file⟩

theorem mirrors_of_node {tree : Node} (loaded : node v (.string "") [] = .ok tree) : Mirrors v tree where
  ordered := Site.walk_ordered rfl
  found path := by
    constructor
    · rintro ⟨site, member, id⟩
      obtain ⟨rest, value, _, same, found, _⟩ := site_read loaded member
      rw [id] at same
      cases same
      exact ⟨value, found⟩
    · rintro ⟨value, found⟩
      have related := @node_descend _ _ _ (.root tree) loaded path
      rw [found] at related
      generalize reached : (Site.root tree).descend? path = site at related
      cases related
      exact ⟨_, Site.mem_walk_iff.mpr ⟨path, reached⟩, @Site.id_of_descend _ _ [] rfl _ reached⟩
  said site member := by
    obtain ⟨rest, value, outer, id, found, reads, file⟩ := site_read loaded member
    exact ⟨rest, value, id, found, reads.node, reads.kind, reads.name, file, reads.attributes⟩

/-- A loaded tree mirrors the document, and a document is refused for a node where that is its first malformed one; the
message begins with the path of it. -/
theorem document_mirrored (useDefaults : Bool) (document : Value) :
    (∀ loaded, Load.document useDefaults document = .ok loaded →
      ∃ module, document.field? "module" = some module ∧ Mirrors module loaded.tree) ∧
    ∀ e, Load.document useDefaults document = .error e → ∀ place ∈ e.place?,
      (∃ module, document.field? "module" = some module ∧ module.FirstMalformed place.path) ∧
      ∃ rest, e.message = (Place.mk place.path none).text ++ rest ∧
        ((∃ label, rest = "(" ++ label) ∨ ∃ reason, rest = ": " ++ reason) := by
  refine ⟨fun loaded accepted => ?_, fun e refused place blamed => ⟨?_, ?_⟩⟩
  · obtain ⟨module, found, read⟩ := document_eq_ok accepted
    exact ⟨module, found, mirrors_of_node read⟩
  · obtain ⟨module, found, refused⟩ := document_eq_error refused blamed
    obtain ⟨rest, same, first⟩ := node_eq_error refused blamed
    exact ⟨module, found, by rwa [same]⟩
  · obtain ⟨reason, message⟩ := message_eq blamed
    rw [message]
    rcases place.text_eq with plain | ⟨label, labelled⟩
    · exact ⟨_, by rw [plain], .inr ⟨reason, rfl⟩⟩
    · exact ⟨_, by rw [labelled, String.append_assoc, String.append_assoc], .inl ⟨_, rfl⟩⟩

end Load

end FlatAbi
