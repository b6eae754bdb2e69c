import FlatAbi.Proofs.Emission.Failures
import FlatAbi.Proofs.Emission.Symbols
import FlatAbi.Proofs.Facade.Needs
import FlatAbi.Proofs.Wrapper.Alignment

/-!
Support for `bool` in the header. It is declared at most once, and not for every `bool` in a prototype.
-/

namespace FlatAbi

open Emit Wrapper List Resolver Text

variable {job : Job} {r : Resolver} {c : Callable} {t : CxxType} {category : Category} {draft before after : Draft}
  {parameters : List TypedParameter} {written : Written}

/-- A type that stands for a builtin name with the word `bool` in it, under any declarators but those of a pointer to
a function. -/
def SymbolTable.isBoolBased (table : SymbolTable) (t : CxxType) (scope : String) : Bool :=
  let resolved := table.resolve t scope
  resolved.isBuiltin && (words resolved.base).contains "bool" && !resolved.isFunctionPointer

theorem isVoid_base (isVoid : t.isVoid) : t.base = "void" := by
  simp only [CxxType.isVoid, Bool.and_eq_true, beq_iff_eq] at isVoid
  exact isVoid.1

theorem words_void : (words "void").contains "bool" = false := by decide

theorem cTypeOf_boolSupport {scope : String} :
    Need.boolSupport ∈ (r.cTypeOf t scope .header category).needs ↔
      category.isBuiltin ∧ (words (r.table.resolve t scope).base).contains "bool" := by
  cases category with
  | builtin | builtinConstRef | builtinRef | builtinPointer =>
    simp [Resolver.cTypeOf, boolNeeds, Category.isBuiltin]
  | classPointer | classRef | classValue =>
    simp only [Resolver.cTypeOf, Category.isBuiltin]
    split
    · simp
    · split <;> simp [opaquePointer]
  | _ => simp [Resolver.cTypeOf, opaquePointer, Category.isBuiltin]

theorem cTypeOf_boolSupport_iff {scope : String} (known : r.table.category t scope = .ok category) :
    Need.boolSupport ∈ (r.cTypeOf t scope .header category).needs ↔ r.table.isBoolBased t scope := by
  have builtin := (SymbolTable.classified known).isBuiltin_eq
  rw [cTypeOf_boolSupport, builtin]
  unfold SymbolTable.isBoolBased
  dsimp only
  cases isVoid : (r.table.resolve t scope).isVoid with
  | true =>
    rw [isVoid_base isVoid, words_void]
    simp
  | false => simp only [Bool.not_false, Bool.and_true, Bool.and_eq_true, and_right_comm]

/-- A `bool` that counts in the prototype of a callable: in C++ the result or a parameter that takes an input is based
on it; in plain C the result or a parameter is written with it, and there are parameters. -/
def Wrapper.usesBool (job : Job) (r : Resolver) (c : Callable) : Bool :=
  match typedParameters c with
  | .error _ => false
  | .ok parameters =>
    if job.config.cplusplus then
      r.table.isBoolBased c.result c.site.scopeName ||
        parameters.any fun p => takesInput job r c p && r.table.isBoolBased p.type c.site.scopeName
    else !parameters.isEmpty && (c.result.base == "bool" || parameters.any (·.type.base == "bool"))

namespace Wrapper

theorem arguments_visible_types {args : List Argument} (found : arguments job r c parameters = .ok args) :
    (args.filter (·.isVisible)).map (·.type) = (parameters.filter (takesInput job r c)).map (·.type) := by
  have types := map_eq_of_forall₂ (arguments_visible found) fun _ _ ⟨_, same⟩ => (argument_eq_ok same).2.1.symm
  have enough : parameters.length ≤ (parameterNames (firstPosition c) (parameters.map (·.name))).length := by
    simp [parameterNames, parameterNamesFrom_length]
  have first := map_fst_zip enough
  rw [← types]
  nth_rewrite 3 [← first]
  rw [filter_map, map_map]
  rfl

theorem isBoolBased_of_isVoid (isVoid : t.isVoid) (scope : String) : r.table.isBoolBased t scope = false := by
  have base := isVoid_base isVoid
  have builtin : t.isBuiltin := by
    rw [CxxType.isBuiltin, base]
    decide
  have resolved : r.table.resolve t scope = t := by
    unfold SymbolTable.resolve SymbolTable.resolveFrom
    simp [builtin]
  unfold SymbolTable.isBoolBased
  dsimp only
  rw [resolved, base, words_void, Bool.and_false, Bool.false_and]

theorem boolSupport_mem_headerNeeds_iff {p : Plan} (free : job.typemaps.HasNoCType)
    (planned : plan job r c parameters = .ok p) :
    Need.boolSupport ∈ p.headerNeeds job r ↔
      r.table.isBoolBased c.result c.site.scopeName ∨
        ∃ q ∈ parameters, takesInput job r c q ∧ r.table.isBoolBased q.type c.site.scopeName := by
  have categories := plan_category planned
  obtain ⟨rfl, found, converted⟩ := plan_eq_ok planned
  have asks {t : CxxType} {category : Category} (known : categoryOf r p.callable t = .ok category) :
      Need.boolSupport ∈ (cTypeOf job r t p.scope category .header).needs ↔
        r.table.isBoolBased t p.callable.site.scopeName := by
    have category := category_of_categoryAt known
    rw [Site.display_scopeValue] at category
    rw [cTypeOf_eq free]
    exact cTypeOf_boolSupport_iff category
  have result : (∃ result ∈ p.result.toList,
      Need.boolSupport ∈ (cTypeOf job r result.type p.scope result.category .header).needs) ↔
        r.table.isBoolBased p.callable.result p.callable.site.scopeName := by
    cases returned : p.result with
    | none => simp [isBoolBased_of_isVoid (convertedResult_isVoid (returned ▸ converted))]
    | some result =>
      obtain ⟨type, category⟩ := convertedResult_category (returned ▸ converted)
      simp [type, asks category]
  have visible : (∃ a ∈ p.visible, Need.boolSupport ∈ (cTypeOf job r a.type p.scope a.category .header).needs) ↔
      ∃ t ∈ p.visible.map (·.type), r.table.isBoolBased t p.callable.site.scopeName := by
    simp only [mem_map]
    constructor
    · rintro ⟨a, shown, needed⟩
      exact ⟨a.type, ⟨a, shown, rfl⟩, (asks (categories a (mem_filter.mp shown).1)).mp needed⟩
    · rintro ⟨_, ⟨a, shown, rfl⟩, based⟩
      exact ⟨a, shown, (asks (categories a (mem_filter.mp shown).1)).mpr based⟩
  have types : p.visible.map (·.type) = (parameters.filter (takesInput job r p.callable)).map (·.type) :=
    arguments_visible_types found
  rw [types] at visible
  rw [← result]
  simp only [Plan.headerNeeds, Plan.prototypeTypes, flatMap_append, mem_append, mem_flatMap,
    mem_map, exists_exists_and_eq_and, mem_filter] at visible ⊢
  rw [visible, or_comm]
  grind

theorem Renders.boolSupport_iff {support : ExceptionSupport} {symbol : String} {rendering : Rendering}
    (free : job.typemaps.HasNoCType) (renders : Renders job r support c symbol rendering) :
    Need.boolSupport ∈ rendering.needs ↔ usesBool job r c := by
  unfold usesBool
  cases renders with
  | converted cxx typed planned implemented declared bodied =>
    simp only [typed, cxx, if_true, boolSupport_mem_headerNeeds_iff free planned]
    simp
  | @direct parameters body plain typed bodied =>
    simp only [typed, plain, directNeeds]
    cases parameters with
    | nil => simp
    | cons first rest => grind

end Wrapper

/-! ### What shows in a prototype -/

def Signature.types (s : Signature) : List SignatureType :=
  s.result :: s.parameters.map (·.type)

/-- A type of a signature that is spelled with a base that has the word `bool`. -/
def SignatureType.NamesBool (type : SignatureType) : Prop :=
  ∃ t : CxxType, (words t.base).contains "bool" ∧ (type = .written t ∨ type = .c t.spelling)

/-- A `bool` that counts shows in the prototype. In C++ those count that are builtin types in C, however they are
reached; in plain C those that are written with the very word, in a prototype with parameters. -/
structure Wrapper.ShowsBool (job : Job) (r : Resolver) (c : Callable) (s : Signature) : Prop where
  named : usesBool job r c → ∃ type ∈ s.types, type.NamesBool
  converted : job.config.cplusplus → ∃ p : Plan, p.signature job r s.symbol .header = .ok s ∧
    (usesBool job r c ↔ ∃ t category, (t, category) ∈ p.prototypeTypes ∧ category.isBuiltin ∧
      (words (r.table.resolve t p.scope).base).contains "bool")
  direct : job.config.cplusplus = false →
    (usesBool job r c ↔ s.parameters ≠ [] ∧ ∃ t, .written t ∈ s.types ∧ t.base = "bool")

theorem exists_spelling_of_builtin {scope : String} {side : Side} (builtin : category.isBuiltin) :
    ∃ s : CxxType, s.base = (r.table.resolve t scope).base ∧ (r.cTypeOf t scope side category).text = s.spelling := by
  unfold Resolver.cTypeOf
  generalize r.table.resolve t scope = resolved
  cases category with
  | builtin | builtinConstRef => exact ⟨⟨resolved.base, []⟩, rfl, (CxxType.spelling_of_bare _).symm⟩
  | builtinRef =>
    dsimp only
    exact ⟨resolved.assignable, rfl, rfl⟩
  | builtinPointer =>
    dsimp only
    split
    · exact ⟨resolved.withOutermost .pointer, rfl, rfl⟩
    · exact ⟨resolved, rfl, rfl⟩
  | _ => cases builtin

namespace Wrapper

theorem boolSupport_mem_headerNeeds (free : job.typemaps.HasNoCType) (p : Plan) :
    Need.boolSupport ∈ p.headerNeeds job r ↔ ∃ t category, (t, category) ∈ p.prototypeTypes ∧
      category.isBuiltin ∧ (words (r.table.resolve t p.scope).base).contains "bool" := by
  simp only [Plan.headerNeeds, mem_flatMap, cTypeOf_eq free, cTypeOf_boolSupport, Prod.exists]

theorem mem_types_of_signature {p : Plan} {symbol : String} {s : Signature}
    (signed : p.signature job r symbol .header = .ok s) (listed : (t, category) ∈ p.prototypeTypes) :
    .c (cTypeOf job r t p.scope category .header).text ∈ s.types := by
  obtain ⟨self, _, signed⟩ := bind_eq_ok signed
  cases signed
  rcases mem_append.mp listed with visible | returned
  · obtain ⟨a, shown, same⟩ := mem_map.mp visible
    cases same
    refine mem_cons_of_mem _ (mem_map.mpr ⟨⟨a.cName, _⟩, mem_append_right _ (mem_map_of_mem shown), rfl⟩)
  · obtain ⟨result, found, same⟩ := mem_map.mp returned
    cases same
    refine mem_cons.mpr (.inl ?_)
    rw [Plan.resultType, Option.mem_toList.mp found]

theorem Renders.showsBool {support : ExceptionSupport} {symbol : String} {rendering : Rendering}
    (free : job.typemaps.HasNoCType) (renders : Renders job r support c symbol rendering) :
    ShowsBool job r c rendering.prototype := by
  have uses := (renders.boolSupport_iff free).symm
  cases renders with
  | @converted parameters p implementation header body cxx typed planned implemented declared bodied =>
    rw [boolSupport_mem_headerNeeds free] at uses
    refine ⟨fun used => ?_, fun _ => ⟨p, ?_, uses⟩, fun plain => absurd (cxx.symm.trans plain) Bool.noConfusion⟩
    · obtain ⟨t, category, listed, builtin, word⟩ := uses.mp used
      obtain ⟨s, base, text⟩ := exists_spelling_of_builtin (r := r) (t := t) builtin
      refine ⟨_, mem_types_of_signature declared listed, s, base ▸ word, .inr ?_⟩
      rw [cTypeOf_eq free, text]
    · rw [signature_symbol declared]
      exact declared
  | @direct parameters body plain typed bodied =>
    have shown : usesBool job r c ↔ (directSignature c parameters symbol).parameters ≠ [] ∧
        ∃ t, .written t ∈ (directSignature c parameters symbol).types ∧ t.base = "bool" := by
      have types : (directSignature c parameters symbol).types =
          (c.result :: parameters.map (·.type)).map .written := by
        have named := map_fst_zip (Nat.le_of_eq (directNames_length parameters).symm)
        nth_rewrite 2 [← named]
        simp [directSignature, Signature.types]
      have filled : (directSignature c parameters symbol).parameters = [] ↔ parameters = [] := by
        simp [directSignature, directNames_length, ← length_eq_zero_iff]
      rw [types, Ne, filled]
      simp [usesBool, typed, plain]
    refine ⟨fun used => ?_, fun cxx => absurd (cxx.symm.trans plain) Bool.noConfusion, fun _ => shown⟩
    obtain ⟨_, t, listed, word⟩ := shown.mp used
    exact ⟨_, listed, t, by rw [word]; decide, .inl rfl⟩

end Wrapper

theorem Draft.DeclaresOnce.count_le_one (known : draft.DeclaresOnce) (need : Need) :
    draft.chunks.count (chunkOf need) ≤ 1 := by
  have counted : draft.declared.count need = draft.chunks.count (chunkOf need) := by
    rw [← known.mirrored, count, countP_filterMap, count]
    refine countP_congr fun chunk _ => ?_
    rw [beq_iff_eq, ← Chunk.need?_eq_some_iff]
    cases chunk.need? <;> simp
  rw [← counted]
  exact nodup_iff_count_le_one.mp known.once need

theorem table_of_write (ends : Ends (write job c) before (.ok (some written)) after) : before.table = after.table := by
  cases writeEnd_of_ends ends survives_ok with
  | published => rfl

theorem boolSupport_mem_of_write (free : job.typemaps.HasNoCType) (known : before.DeclaresOnce)
    (ends : Ends (write job c) before (.ok (some written)) after) :
    .boolSupport ∈ after.chunks ↔
      .boolSupport ∈ before.chunks ∨ usesBool job ⟨job.config, before.table⟩ c := by
  cases writeEnd_of_ends ends survives_ok with
  | @published symbol rendering renders named fresh =>
    rw [← renders.boolSupport_iff free]
    have published := (known.published rendering c symbol : (rendering.publishedIn job c symbol before).DeclaresOnce)
    refine (published.mem_iff .boolSupport).trans (.trans ?_ (or_congr_left (known.mem_iff .boolSupport).symm))
    constructor
    · intro listed
      exact (mem_append.mp listed).imp_right fun added => missing_subset _ _ added
    · rintro (earlier | listed)
      · exact mem_append_left _ earlier
      · exact subset_missing _ _ listed

theorem showsBool_of_write {supplied : List Chunk} {definition : Definition} {prototype : Signature}
    (free : job.typemaps.HasNoCType) (ends : Ends (write job c) before (.ok (some written)) after)
    (chunks : after.chunks = before.chunks ++ supplied ++ [.definition definition, .prototype prototype]) :
    ShowsBool job ⟨job.config, before.table⟩ c prototype := by
  cases writeEnd_of_ends ends survives_ok with
  | @published symbol rendering renders named fresh =>
    have last : rendering.prototype = prototype := by
      simpa [Rendering.publishedIn] using congrArg getLast? chunks
    exact last ▸ renders.showsBool free

/-- A header has the support at most once. The wrappers of a run account for its prototypes; each of them brought the
support exactly if a `bool` counts in its prototype and the support was missing, so one such wrapper is enough.
`ShowsBool` says which types of the prototype these are. -/
theorem Module.bool_support_of_run (free : job.typemaps.HasNoCType) (ran : run job = .ok draft) :
    (chunksOf .types draft.chunks).count .boolSupport ≤ 1 ∧
      ∃ entries, Aligned job draft entries ∧ ∀ entry ∈ entries,
        (∃ before after, Ends (write job entry.written.callable) before (.ok (some entry.written)) after ∧
          after.ExtendedBy draft ∧
          (.boolSupport ∈ after.chunks ↔
            .boolSupport ∈ before.chunks ∨ usesBool job (resolver job) entry.written.callable = true)) ∧
        ShowsBool job (resolver job) entry.written.callable entry.prototype ∧
        (usesBool job (resolver job) entry.written.callable →
          (chunksOf .types draft.chunks).count .boolSupport = 1) := by
  have goes := goes_of_run ran
  have inTypes : (chunksOf .types draft.chunks).count .boolSupport = draft.chunks.count .boolSupport :=
    count_filter rfl
  have once : draft.chunks.count .boolSupport ≤ 1 := ((prepared_declaresOnce job).goes goes).count_le_one .boolSupport
  obtain ⟨entries, aligned⟩ := goes.preserves (fun reached => ∃ entries, Aligned job reached entries)
    (fun permitted moves ⟨entries, kept⟩ => (kept.step permitted moves).elim fun _ more => ⟨_, more⟩)
    ⟨[], prepared_aligned job⟩
  rw [inTypes]
  refine ⟨once, entries, aligned, fun entry listed => ?_⟩
  obtain ⟨before, after, supplied, known, ends, chunks, symbols, held⟩ := (aligned.inDraft entry listed).called
  have table : (⟨job.config, before.table⟩ : Resolver) = resolver job := by
    rw [table_of_write ends, held.table, ← goes.extended.table]
    rfl
  have brought := boolSupport_mem_of_write free known ends
  rw [table] at brought
  refine ⟨⟨before, after, ends, held, brought⟩, table ▸ showsBool_of_write free ends chunks, fun counts => ?_⟩
  have present : .boolSupport ∈ draft.chunks := held.chunks.subset (brought.mpr (.inr counts))
  exact Nat.le_antisymm once (count_pos_iff.mpr present)

/-- A module with a typedef of `bool`, a function that takes it by reference, and one that returns a `bool` and takes
nothing. -/
def flagModule (cplusplus : Bool) : Job where
  config := { givenModule := .string "m", exceptions := false, cplusplus := cplusplus }
  root := .root <| .mk (.named .moduleDecl "m")
    [ .mk { Declaration.named .typedefDecl "Flag" with type := some ⟨"bool", []⟩ } [],
      .mk
        { Declaration.named .functionDecl "clear" with
          parameters := [{ name := .string "flag", type := some ⟨"Flag", [.lvalueReference]⟩ }] } [],
      .mk
        { Declaration.named .functionDecl "ready" with
          type := some ⟨"bool", []⟩ } [] ]
  typemaps := {}

theorem Module.bool_support_of_flagModule :
    ∃ draft, Module.run (flagModule true) = .ok draft ∧
      draft.prototypes.map (·.text) = ["void m_clear(bool *flag)", "bool m_ready(void)"] ∧
      ((flagModule true).root.children.drop 1).map (fun site =>
        usesBool (flagModule true) (resolver (flagModule true)) (Module.freeCallable (flagModule true) site)) =
          [true, true] ∧
      (chunksOf .types draft.chunks).count .boolSupport = 1 ∧
      ∃ entries, Aligned (flagModule true) draft entries ∧ entries.length = 2 ∧ ∀ entry ∈ entries,
        ShowsBool (flagModule true) (resolver (flagModule true)) entry.written.callable entry.prototype ∧
        ∃ before after, Ends (write (flagModule true) entry.written.callable) before (.ok (some entry.written)) after ∧
          (.boolSupport ∈ after.chunks ↔ .boolSupport ∈ before.chunks ∨
            usesBool (flagModule true) (resolver (flagModule true)) entry.written.callable = true) := by
  refine exists_ok (by decide +kernel) fun draft ran declared => ?_
  obtain ⟨-, entries, aligned, brings⟩ := bool_support_of_run (by decide) ran
  have count : entries.length = 2 := by
    have lengths := congrArg length declared
    rw [aligned.prototypes] at lengths
    simpa using lengths
  refine ⟨by decide +kernel, of_ok ran (by decide +kernel), entries, aligned, count, ?_⟩
  intro entry listed
  obtain ⟨⟨before, after, ends, -, brought⟩, shows, -⟩ := brings entry listed
  exact ⟨shows, before, after, ends, brought⟩

/-- In plain C a function without parameters does not count, so that its prototype is left without the support. -/
theorem Module.flagModule_unsupported :
    (Module.run (flagModule false)).toOption.map (fun draft =>
      (draft.prototypes.map (·.text), chunksOf .types draft.chunks)) =
        some (["void m_clear(Flag &flag)", "bool m_ready(void)"], []) := by
  decide +kernel

end FlatAbi
