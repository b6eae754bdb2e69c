import FlatAbi.Proofs.Emission.Visits
import Mathlib.Logic.Basic

/-!
A wrapper is written as a whole or not at all, and never silently.
-/

namespace FlatAbi

open Emit Wrapper FlatAbi.Module Site List Facade

variable {job : Job} {c : Callable} {before after : Draft} {site : Site} {outcome : Except Halt (Option Written)}

namespace Wrapper

/-- What writing a wrapper does. -/
inductive Effect where
  | published
  | skipped
  | refused
  deriving DecidableEq, Repr

/-- One definition and one prototype came, with one symbol of a function, and nothing was diagnosed. Beside them only
types were declared. -/
structure Published (before after : Draft) : Prop where
  definition : ∃ d, chunksOf .wrappers after.chunks = chunksOf .wrappers before.chunks ++ [.definition d]
  prototype : ∃ s, chunksOf .declarations after.chunks = chunksOf .declarations before.chunks ++ [.prototype s]
  others : ∀ target, target ≠ .wrappers → target ≠ .declarations → target ≠ .types →
    chunksOf target after.chunks = chunksOf target before.chunks
  symbol : ∃ s, s.kind = .function ∧ after.symbols = before.symbols ++ [s]
  diagnostics : after.diagnostics = before.diagnostics

/-- One warning came, and nothing else. -/
structure Skipped (before after : Draft) : Prop where
  chunks : after.chunks = before.chunks
  symbols : after.symbols = before.symbols
  warning : ∃ d, d.severity = .warning ∧ after.diagnostics = before.diagnostics ++ [d]

/-- Output, symbols and diagnostics stayed as they were. -/
structure Untouched (before after : Draft) : Prop where
  chunks : after.chunks = before.chunks
  symbols : after.symbols = before.symbols
  diagnostics : after.diagnostics = before.diagnostics

/-- A wrapper that is written is returned, a skipped one returns none, and a refused one is rejected. -/
def Effect.Holds (effect : Effect) (outcome : Except Halt (Option Written)) (before after : Draft) : Prop :=
  match effect with
  | .published => (∃ written, outcome = .ok (some written)) ∧ Published before after
  | .skipped => outcome = .ok none ∧ Skipped before after
  | .refused => (∃ message site, outcome = .error (.rejected message site)) ∧ Untouched before after

theorem chunksOf_append (target : Section) (first rest : List Chunk) :
    chunksOf target (first ++ rest) = chunksOf target first ++ chunksOf target rest :=
  filter_append first rest

theorem chunksOf_supply {target : Section} (other : target ≠ .types) (declared needs : List Need) :
    chunksOf target (supply declared needs) = [] := by
  refine filter_eq_nil_iff.mpr fun chunk member => ?_
  obtain ⟨need, _, rfl⟩ := exists_need_of_mem_supply member
  cases need <;> simpa [chunkOf, Chunk.home] using other.symm

theorem published_publishedIn (rendering : Rendering) (symbol : String) :
    Published before (rendering.publishedIn job c symbol before) := by
  have parts (target : Section) (other : target ≠ .types) :
      chunksOf target (rendering.publishedIn job c symbol before).chunks = chunksOf target before.chunks ++
        chunksOf target [.definition rendering.definition, .prototype rendering.prototype] := by
    simp [Rendering.publishedIn, chunksOf_append, chunksOf_supply other]
  refine ⟨⟨_, parts .wrappers (by decide)⟩, ⟨_, parts .declarations (by decide)⟩, ?_, ⟨_, rfl, rfl⟩, ?_⟩
  · intro target notWrappers notDeclarations notTypes
    rw [parts target notTypes]
    simp [chunksOf, Chunk.home, notWrappers.symm, notDeclarations.symm]
  · cases cxx : job.config.cplusplus <;> simp [Rendering.publishedIn, Draft.diagnostics, cxx]

theorem skipped_warnedIn (site : Site) (warning : String) (names : NameBook) :
    Skipped before (warnedIn site warning { before with names := names }) :=
  ⟨rfl, rfl, ⟨.about .warning (some site) warning, rfl, by simp [warnedIn, Draft.diagnostics]⟩⟩

theorem exists_effect (ends : Ends (write job c) before outcome after) (survives : Survives outcome) :
    ∃ effect : Effect, effect.Holds outcome before after := by
  cases writeEnd_of_ends ends survives with
  | published renders named fresh => exact ⟨.published, ⟨_, rfl⟩, published_publishedIn _ _⟩
  | unconverted cxx typed planned => exact ⟨.skipped, rfl, skipped_warnedIn _ _ before.names⟩
  | taken defined => exact ⟨.skipped, rfl, skipped_warnedIn _ _ _⟩
  | rejected typed => exact ⟨.refused, ⟨_, _, rfl⟩, rfl, rfl, rfl⟩

/-- The effect can be told from the outcome. -/
def Effect.ofOutcome : Except Halt (Option Written) → Effect
  | .ok (some _) => .published
  | .ok none => .skipped
  | .error _ => .refused

theorem Effect.Holds.eq_ofOutcome {effect : Effect} (holds : effect.Holds outcome before after) :
    effect = .ofOutcome outcome := by
  cases effect with
  | published =>
    obtain ⟨⟨written, rfl⟩, _⟩ := holds
    rfl
  | skipped =>
    obtain ⟨rfl, _⟩ := holds
    rfl
  | refused =>
    obtain ⟨⟨message, site, rfl⟩, _⟩ := holds
    rfl

end Wrapper

/-- The visit recorded one symbol of a function for its site and diagnosed nothing. -/
structure Visit.Symbolizes (visit : Visit) : Prop where
  symbol : ∃ name, visit.after.symbols = visit.before.symbols ++ [symbolOf .function (.string name) visit.site]
  diagnostics : visit.after.diagnostics = visit.before.diagnostics

/-- The visit diagnosed its site once and recorded no symbol. -/
structure Visit.Diagnoses (visit : Visit) : Prop where
  symbols : visit.after.symbols = visit.before.symbols
  diagnostic : ∃ severity message,
    visit.after.diagnostics = visit.before.diagnostics ++ [.about severity (some visit.site) message]

theorem Visit.Symbolizes.not_diagnoses {visit : Visit} (symbolizes : visit.Symbolizes) : ¬ visit.Diagnoses := by
  intro diagnoses
  obtain ⟨name, recorded⟩ := symbolizes.symbol
  have same := diagnoses.symbols
  rw [recorded] at same
  simp at same

/-- The ways in which a callable outside classes is wrapped, faults apart. -/
inductive WrapEnd (site : Site) (before : Draft) {α : Type} (value : α) : Except Halt α → Draft → Prop where
  | symbolized {after : Draft} (symbolizes : Visit.Symbolizes ⟨site, before, after⟩) :
      WrapEnd site before value (.ok value) after
  | diagnosed {after : Draft} (diagnoses : Visit.Diagnoses ⟨site, before, after⟩) :
      WrapEnd site before value (.ok value) after
  | rejected (message : String) : WrapEnd site before value (.error (.rejected message (some site))) before

theorem diagnoses_of_told {severity : Severity} {message : String} (symbols : after.symbols = before.symbols)
    (told : after.events = before.events ++ [.diagnosed (.about severity (some site) message)]) :
    Visit.Diagnoses ⟨site, before, after⟩ :=
  ⟨symbols, severity, message, by simp [Draft.diagnostics, told]⟩

theorem wrapEnd_of_write {next : Option Written → Emit (Option OpenClass)}
    {outcome : Except Halt (Option OpenClass)} (returns : ∀ written, next written = pure none)
    (ends : Ends (Wrapper.write job c >>= next) before outcome after) (survives : Survives outcome) :
    WrapEnd c.site before none outcome after := by
  rcases ends.bind_survived survives with ⟨written, middle, wrote, ends⟩ | ⟨message, site, wrote, rfl⟩
  · rw [returns] at ends
    obtain ⟨rfl, rfl⟩ := ends.of_pure
    cases writeEnd_of_ends wrote survives_ok with
    | published renders named fresh =>
      exact .symbolized ⟨⟨_, rfl⟩, (published_publishedIn _ _).diagnostics⟩
    | unconverted cxx typed planned => exact .diagnosed (diagnoses_of_told rfl rfl)
    | taken defined => exact .diagnosed (diagnoses_of_told rfl rfl)
  · cases writeEnd_of_ends wrote survives_rejected with
    | rejected typed => exact .rejected message

theorem wrapEnd_of_wrap {outcome : Except Halt (Option OpenClass)}
    (ends : Ends (wrap job none c) before outcome after) (survives : Survives outcome) :
    WrapEnd c.site before none outcome after := by
  unfold wrap at ends
  obtain ⟨_, ends⟩ := ends.check_bind survives
  split at ends
  · rw [ends_warn_bind] at ends
    obtain ⟨rfl, rfl⟩ := ends.of_pure
    exact .diagnosed (diagnoses_of_told rfl rfl)
  · exact wrapEnd_of_write (fun written => by cases written <;> rfl) ends survives

theorem wrapEnd_of_freeFunction {outcome : Except Halt Unit} (free : site.decl.isFriend = false)
    (ends : Ends (freeFunction job site) before outcome after) (survives : Survives outcome) :
    WrapEnd site before () outcome after := by
  unfold freeFunction at ends
  simp only [free, Bool.not_false, if_true] at ends
  obtain ⟨_, ends⟩ := ends.check_bind survives
  rw [ends_get_bind] at ends
  rcases ends.bind_survived survives with ⟨_, middle, wrapped, ends⟩ | ⟨message, found, wrapped, rfl⟩
  · obtain ⟨rfl, rfl⟩ := ends.of_pure
    cases wrapEnd_of_wrap wrapped survives_ok with
    | symbolized symbolizes => exact .symbolized symbolizes
    | diagnosed diagnoses => exact .diagnosed diagnoses
  · cases wrapEnd_of_wrap wrapped survives_rejected with
    | rejected message => exact .rejected message

theorem visit_function (function : site.kind = .functionDecl) (free : site.decl.isFriend = false)
    (visit : Ends (declaration job site) before (.ok ()) after) :
    Xor (Visit.Symbolizes ⟨site, before, after⟩) (Visit.Diagnoses ⟨site, before, after⟩) := by
  unfold declaration at visit
  rw [function] at visit
  have found : Visit.Symbolizes ⟨site, before, after⟩ ∨ Visit.Diagnoses ⟨site, before, after⟩ := by
    rcases visit.guarded_cases survives_ok with ended | ⟨message, place, middle, began, rfl⟩
    · cases wrapEnd_of_freeFunction free ended survives_ok with
      | symbolized symbolizes => exact .inl symbolizes
      | diagnosed diagnoses => exact .inr diagnoses
    · cases wrapEnd_of_freeFunction free began survives_rejected with
      | rejected message => exact .inr (diagnoses_of_told rfl rfl)
  rcases found with symbolizes | diagnoses
  · exact .inl ⟨symbolizes, symbolizes.not_diagnoses⟩
  · exact .inr ⟨diagnoses, fun symbolizes => symbolizes.not_diagnoses diagnoses⟩

theorem Visits.ends_of_mem {visits : List Visit} {visit : Visit} (chain : Visits job visits before after)
    (listed : visit ∈ visits) : Ends (declaration job visit.site) visit.before (.ok ()) visit.after := by
  induction chain with
  | nil => cases listed
  | cons first _ ih =>
    rcases mem_cons.mp listed with rfl | later
    · exact first
    · exact ih later

/-- Writing a wrapper publishes it as a whole, skips it with one warning or refuses it without a trace. In a run that
completes, every function that is reached through groups that are not ignored, and is itself neither ignored nor a
friend, is visited once, and the visit leaves one symbol of a function or one diagnostic. -/
theorem wrappers_all_or_nothing :
    (∀ (job : Job) (c : Callable) (before after : Draft) (outcome : Except Halt (Option Written)),
      Ends (Wrapper.write job c) before outcome after → Survives outcome →
        ∃! effect : Effect, effect.Holds outcome before after) ∧
    ∀ (job : Job) (tree : Node) (draft : Draft), job.root = .root tree → run job = .ok draft →
      ∃ visits, Visits job visits (prepared job) draft ∧ visits.map (·.site) = visited job ∧
        ∀ site, Reached isOpenGroup job.root site → site.kind = .functionDecl →
          site.decl.isIgnored = false → site.decl.isFriend = false →
            ∃ visit ∈ visits, visit.site = site ∧ (∀ other ∈ visits, other.site = site → other = visit) ∧
              Xor visit.Symbolizes visit.Diagnoses := by
  refine ⟨fun job c before after outcome ends survives => ?_, fun job tree draft rooted ran => ?_⟩
  · obtain ⟨effect, holds⟩ := exists_effect ends survives
    exact ⟨effect, holds, fun other again => again.eq_ofOutcome.trans holds.eq_ofOutcome.symm⟩
  · obtain ⟨visits, chain, sites⟩ := exists_visits ran
    refine ⟨visits, chain, sites, fun site reached function shown free => ?_⟩
    have stops : isOpenGroup site.decl = false := by
      have kind : site.decl.kind = .functionDecl := function
      simp [isOpenGroup, isGroup, kind]
    have listed : site ∈ visits.map (·.site) := by
      rw [sites, visited]
      exact mem_append_right _ (mem_emitted_iff.mpr ⟨reached, stops, shown⟩)
    obtain ⟨visit, member, rfl⟩ := mem_map.mp listed
    have once : (visits.map (·.site.id)).Nodup := by
      have ids := visited_ids_nodup rooted
      rw [← sites, map_map] at ids
      exact ids
    refine ⟨visit, member, rfl, fun other also same => ?_, visit_function function free (chain.ends_of_mem member)⟩
    exact inj_on_of_nodup_map once also member (congrArg Site.id same)

/-- A function with an ellipsis, which cannot be wrapped. -/
def printNode : Node :=
  .mk { Declaration.named .functionDecl "print" with parameters := [{ type := some ⟨"...", []⟩ }] } []

/-- A namespace with a function that can be wrapped and one that cannot. -/
def greetingGroup : Node :=
  .mk (.named .namespaceDecl "greeting")
    [.mk (.named .functionDecl "hello") [], printNode]

def greetingModule : Job :=
  .ofNodes [greetingGroup]

def printSite : Site :=
  ⟨.declared [0, 1], printNode, (.declared [0], greetingGroup) :: greetingModule.root.inside⟩

def printCallable : Callable :=
  { site := printSite, role := .function, symbol := .string "print", result := .void,
    parameters := printNode.decl.parameters }

theorem wrappers_all_or_nothing_greetingModule :
    (∃ outcome after, Ends (Wrapper.write greetingModule printCallable) (prepared greetingModule) outcome after ∧
      ∃! effect : Effect, effect.Holds outcome (prepared greetingModule) after) ∧
    ∃ draft visits, run greetingModule = .ok draft ∧
      Visits greetingModule visits (prepared greetingModule) draft ∧
      ∃ visit ∈ visits, visit.site = printSite ∧ Xor visit.Symbolizes visit.Diagnoses := by
  refine ⟨⟨_, _, ends_self _ _, wrappers_all_or_nothing.1 _ _ _ _ _ (ends_self _ _) trivial⟩, ?_⟩
  have completes : (run greetingModule).isOk = true := by decide +kernel
  have last {item : Site} {first : Site} : item ∈ [first, item] := by simp
  obtain ⟨draft, ran⟩ := ok_of_isOk completes
  obtain ⟨visits, chain, _, each⟩ := wrappers_all_or_nothing.2 greetingModule _ draft rfl ran
  have reached : Reached isOpenGroup greetingModule.root printSite :=
    .through (.child (mem_singleton_self _)) (by decide +kernel) last
  obtain ⟨visit, listed, same, _, accounted⟩ := each printSite reached rfl rfl rfl
  exact ⟨draft, visits, ran, chain, visit, listed, same, accounted⟩

end FlatAbi
