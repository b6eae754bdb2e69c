import FlatAbi.Typemap.Basic
import Mathlib.Data.Finset.Card
import Mathlib.Data.List.Induction

/-!
A table of typemaps answers as its rules do when they are read as a list.
-/

namespace FlatAbi

open List Value

theorem find?_word_eq_some_iff {α : Type} {word : α → String} {all : List α} (complete : ∀ a, a ∈ all)
    (apart : (all.map word).Nodup) {s : String} {a : α} : all.find? (word · == s) = some a ↔ s = word a := by
  constructor
  · intro found
    have same : word a = s := by simpa using find?_some found
    exact same.symm
  · rintro rfl
    obtain ⟨other, found⟩ : ∃ other, all.find? (word · == word a) = some other :=
      Option.isSome_iff_exists.mp (find?_isSome.mpr ⟨a, complete a, beq_self_eq_true _⟩)
    have same : word other = word a := by simpa using find?_some found
    rw [found, inj_on_of_nodup_map apart (complete other) (complete a) same]

theorem Method.ofWord?_eq_some_iff {s : String} {method : Method} : ofWord? s = some method ↔ s = method.word :=
  find?_word_eq_some_iff (fun a => by cases a <;> decide) (by decide)

theorem Category.ofWord?_eq_some_iff {s : String} {category : Category} :
    ofWord? s = some category ↔ s = category.word :=
  find?_word_eq_some_iff (fun a => by cases a <;> decide) (by decide)

/-- What a rule is made of. -/
structure RuleRequest where
  method : Value
  code : Value
  type : Option CxxType := none
  category : Value := .null
  inputs : Int := 1

namespace RuleRequest

def make (request : RuleRequest) : Except RuleError Rule :=
  Rule.make request.method request.code request.type request.category request.inputs

/-- A request asks for a rule: it names the method, and either the type or the category and not both. -/
def Asks (request : RuleRequest) (rule : Rule) : Prop :=
  request.method = .string rule.typemap.method.word ∧ request.code = rule.typemap.code ∧
    request.inputs = rule.typemap.inputs ∧
    match rule.target with
    | .type t => request.type = some t ∧ request.category = .null
    | .category c => request.type = none ∧ request.category = .string c.word

theorem make_eq_ok_iff {request : RuleRequest} {rule : Rule} : request.make = .ok rule ↔ request.Asks rule := by
  obtain ⟨method, code, type, category, inputs⟩ := request
  unfold make Rule.make Asks
  dsimp only
  constructor
  · intro made
    split at made
    · cases made
    next m found =>
      obtain ⟨word, isWord, known⟩ := Option.bind_eq_some_iff.mp found
      have named : method = .string m.word := by
        rw [← Method.ofWord?_eq_some_iff.mp known]
        exact eq_string isWord
      split at made
      · cases made
      · cases made
        exact ⟨named, rfl, rfl, rfl, rfl⟩
      · cases made
      · split at made
        · cases made
        next c found =>
          obtain ⟨word, isWord, known⟩ := Option.bind_eq_some_iff.mp found
          cases made
          refine ⟨named, rfl, rfl, rfl, ?_⟩
          rw [← Category.ofWord?_eq_some_iff.mp known]
          exact eq_string isWord
  · obtain ⟨⟨m, given, count⟩, target⟩ := rule
    dsimp only
    rintro ⟨rfl, rfl, rfl, aims⟩
    have known : Method.ofWord? m.word = some m := Method.ofWord?_eq_some_iff.mpr rfl
    cases target with
    | type t =>
      obtain ⟨rfl, rfl⟩ := aims
      simp [asString?, known]
    | category c =>
      obtain ⟨rfl, rfl⟩ := aims
      have knownToo : Category.ofWord? c.word = some c := Category.ofWord?_eq_some_iff.mpr rfl
      simp [asString?, known, knownToo]

end RuleRequest

/-- What a rule is filed under. -/
def Rule.key (rule : Rule) : Method × Target :=
  (rule.typemap.method, rule.target)

/-- The last of some rules with a key. -/
def last? (rules : List Rule) (key : Method × Target) : Option Rule :=
  rules.reverse.find? (·.key == key)

theorem last?_append (rules : List Rule) (rule : Rule) (key : Method × Target) :
    last? (rules ++ [rule]) key = if key = rule.key then some rule else last? rules key := by
  rw [last?, reverse_append, reverse_singleton, singleton_append, find?_cons]
  by_cases same : key = rule.key
  · simp [same]
  · simp [last?, same, beq_eq_false_iff_ne.mpr (Ne.symm same)]

theorem last?_isSome_iff {rules : List Rule} {key : Method × Target} :
    (last? rules key).isSome ↔ key ∈ rules.map Rule.key := by
  simp [last?, find?_isSome]

namespace TypemapTable

/-- The typemap that is filed under a key. -/
def filed? (table : TypemapTable) (key : Method × Target) : Option Typemap :=
  match key.2 with
  | .type t => table.forType? key.1 t
  | .category c => table.forCategory? key.1 (some c)

theorem filed?_add (table : TypemapTable) (rule : Rule) (key : Method × Target) :
    (table.add rule).filed? key = if key = rule.key then some rule.typemap else table.filed? key := by
  obtain ⟨method, target⟩ := key
  obtain ⟨typemap, aim⟩ := rule
  cases aim <;> cases target <;> simp [filed?, add, Rule.key, forType?, forCategory?, lookup_setEntry]

theorem size_add (table : TypemapTable) (rule : Rule) :
    (table.add rule).size = table.size + if (table.filed? rule.key).isSome then 0 else 1 := by
  obtain ⟨typemap, aim⟩ := rule
  cases aim with
  | type t =>
    simp only [size, add, length_setEntry]
    exact Nat.add_right_comm _ _ _
  | category c =>
    simp only [size, add, length_setEntry]
    exact (Nat.add_assoc _ _ _).symm

variable {rules : List Rule} {useDefaults : Bool} {key : Method × Target}

theorem ofRules_append (rules : List Rule) (rule : Rule) (useDefaults : Bool) :
    ofRules (rules ++ [rule]) useDefaults = (ofRules rules useDefaults).add rule := by
  simp [ofRules]

theorem filed?_ofRules (rules : List Rule) (useDefaults : Bool) (key : Method × Target) :
    (ofRules rules useDefaults).filed? key = (last? rules key).map (·.typemap) := by
  induction rules using reverseRecOn with
  | nil => obtain ⟨method, target⟩ := key; cases target <;> rfl
  | append_singleton rules rule ih =>
    rw [ofRules_append, filed?_add, last?_append, ih]
    split <;> rfl

theorem size_ofRules (rules : List Rule) (useDefaults : Bool) :
    (ofRules rules useDefaults).size = (rules.map Rule.key).toFinset.card := by
  induction rules using reverseRecOn with
  | nil => rfl
  | append_singleton rules rule ih =>
    rw [ofRules_append, size_add, ih, filed?_ofRules, Option.isSome_map, map_append, toFinset_append]
    have joined : (rules.map Rule.key).toFinset ∪ ([rule].map Rule.key).toFinset =
        insert rule.key (rules.map Rule.key).toFinset := by
      rw [Finset.insert_eq, Finset.union_comm]
      rfl
    rw [joined]
    by_cases known : rule.key ∈ rules.map Rule.key
    · rw [if_pos (last?_isSome_iff.mpr known), Finset.insert_eq_of_mem (mem_toFinset.mpr known),
        Nat.add_zero]
    · rw [if_neg (known ∘ last?_isSome_iff.mp), Finset.card_insert_of_notMem (known ∘ mem_toFinset.mp)]

theorem useDefaults_ofRules (rules : List Rule) (useDefaults : Bool) :
    (ofRules rules useDefaults).useDefaults = useDefaults := by
  induction rules using reverseRecOn with
  | nil => rfl
  | append_singleton rules rule ih =>
    rw [ofRules_append]
    unfold add
    split <;> exact ih

/-- The typemap that rules select for a value: by the last rule of the first type with a rule, else by the last rule of
the category, else by default. -/
inductive Selects (rules : List Rule) (useDefaults : Bool) (method : Method) (types : List CxxType)
    (category : Option Category) : Typemap → Prop
  | byType {before after : List CxxType} {t : CxxType} {rule : Rule} (tried : types = before ++ t :: after)
      (unruled : ∀ other ∈ before, last? rules (method, .type other) = none)
      (last : last? rules (method, .type t) = some rule) : Selects rules useDefaults method types category rule.typemap
  | byCategory {c : Category} {rule : Rule} (given : category = some c)
      (unruled : ∀ t ∈ types, last? rules (method, .type t) = none)
      (last : last? rules (method, .category c) = some rule) :
      Selects rules useDefaults method types category rule.typemap
  | byDefault {c : Category} {code : String} (given : category = some c)
      (unruled : ∀ t ∈ types, last? rules (method, .type t) = none)
      (uncategorized : last? rules (method, .category c) = none) (allowed : useDefaults)
      (coded : defaultCode? method c = some code) :
      Selects rules useDefaults method types category { method := method, code := .string code }

variable {method : Method} {types : List CxxType} {category : Option Category}

theorem userTypemap?_ofRules :
    (ofRules rules useDefaults).userTypemap? method types category =
      ((types.findSome? fun t => last? rules (method, .type t)).or
        (category.bind fun c => last? rules (method, .category c))).map (·.typemap) := by
  have typed (t : CxxType) := filed?_ofRules rules useDefaults (method, .type t)
  have categorized (c : Category) := filed?_ofRules rules useDefaults (method, .category c)
  have found : (ofRules rules useDefaults).forType? method = fun t => (last? rules (method, .type t)).map (·.typemap) :=
    funext typed
  rw [userTypemap?, found, Option.map_or, map_findSome?]
  cases category with
  | none => rfl
  | some c => exact congrArg _ (categorized c)

theorem userTypemap?_isSome_iff :
    ((ofRules rules useDefaults).userTypemap? method types category).isSome ↔
      (∃ t ∈ types, (method, Target.type t) ∈ rules.map Rule.key) ∨
        ∃ c, category = some c ∧ (method, Target.category c) ∈ rules.map Rule.key := by
  simp only [userTypemap?_ofRules, Option.isSome_map, Option.isSome_or, Bool.or_eq_true, findSome?_isSome_iff,
    last?_isSome_iff]
  cases category <;> simp [last?_isSome_iff]

theorem lookup_eq_some_iff {typemap : Typemap} :
    (ofRules rules useDefaults).lookup method types category = some typemap ↔
      Selects rules useDefaults method types category typemap := by
  rw [lookup, userTypemap?_ofRules, useDefaults_ofRules]
  constructor
  · intro found
    cases typed : types.findSome? fun t => last? rules (method, .type t) with
    | some rule =>
      obtain ⟨before, t, after, tried, last, unruled⟩ := findSome?_eq_some_iff.mp typed
      rw [typed] at found
      cases found
      exact .byType tried unruled last
    | none =>
      have unruled := findSome?_eq_none_iff.mp typed
      cases category with
      | none => simp [typed] at found
      | some c =>
        cases last : last? rules (method, .category c) with
        | some rule =>
          obtain rfl : rule.typemap = typemap := by simpa [typed, last] using found
          exact .byCategory rfl unruled last
        | none =>
          obtain ⟨allowed, code, coded, rfl⟩ : useDefaults ∧ ∃ code, defaultCode? method c = some code ∧
              { method := method, code := .string code } = typemap := by simpa [typed, last] using found
          exact .byDefault rfl unruled last allowed coded
  · intro selects
    cases selects with
    | byType tried unruled last => simp [findSome?_eq_some_iff.mpr ⟨_, _, _, tried, last, unruled⟩]
    | byCategory given unruled last => simp [given, findSome?_eq_none_iff.mpr unruled, last]
    | byDefault given unruled absent allowed coded =>
      simp [given, findSome?_eq_none_iff.mpr unruled, absent, allowed, coded]

/-- The rules that requests were accepted for. -/
def accepted (requests : List RuleRequest) : List Rule :=
  requests.filterMap (·.make.toOption)

/-- The table after all requests were tried. What is refused leaves it as it is. -/
def tried (requests : List RuleRequest) (useDefaults : Bool) : TypemapTable :=
  requests.foldl (fun table request => (request.make.toOption.map table.add).getD table) { useDefaults := useDefaults }

theorem tried_eq (requests : List RuleRequest) (useDefaults : Bool) :
    tried requests useDefaults = ofRules (accepted requests) useDefaults := by
  rw [tried, ofRules, accepted, foldl_filterMap]
  congr
  funext table request
  cases request.make.toOption <;> rfl

/-- A table reads its rules. A request is accepted exactly if it asks for a rule, and what is refused changes nothing;
what is looked up is what the accepted rules select, and the size is the number of their keys. -/
theorem tried_reads_rules (requests : List RuleRequest) (useDefaults : Bool) :
    (∀ request : RuleRequest, (∀ rule, request.make = .ok rule ↔ request.Asks rule) ∧
      (request.make.toOption = none → tried (requests ++ [request]) useDefaults = tried requests useDefaults)) ∧
    (∀ method types category,
      (∀ typemap, (tried requests useDefaults).lookup method types category = some typemap ↔
        Selects (accepted requests) useDefaults method types category typemap) ∧
      (((tried requests useDefaults).userTypemap? method types category).isSome = true ↔
        (∃ t ∈ types, (method, Target.type t) ∈ (accepted requests).map Rule.key) ∨
          ∃ c, category = some c ∧ (method, Target.category c) ∈ (accepted requests).map Rule.key)) ∧
    (tried requests useDefaults).size = ((accepted requests).map Rule.key).toFinset.card := by
  refine ⟨fun request => ⟨fun rule => RuleRequest.make_eq_ok_iff, fun refused => ?_⟩, fun method types category => ?_,
    ?_⟩
  · simp [tried, refused]
  · rw [tried_eq]
    exact ⟨fun typemap => lookup_eq_some_iff, userTypemap?_isSome_iff⟩
  · rw [tried_eq]
    exact size_ofRules _ _

end TypemapTable

end FlatAbi
