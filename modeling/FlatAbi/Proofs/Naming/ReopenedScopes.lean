import FlatAbi.Proofs.Naming.Overloads
import Mathlib.Data.List.Pairwise

/-!
A namespace that is opened several times. Overloads are counted in each opening, and names do not show openings.
-/

namespace FlatAbi

open Emit Naming List Text Wrapper Site

variable {job : Job} {draft : Draft}

theorem Naming.overloadSuffix_cons (code : String) (codes : List String) :
    overloadSuffix (code :: codes) false = "_" ++ join "_" (code :: codes) := by
  induction codes generalizing code with
  | nil => simp [overloadSuffix, Text.concat, join]
  | cons next rest ih =>
    have tail := ih next
    simp only [overloadSuffix, Text.concat, map_cons, foldr_cons, Bool.false_eq_true, if_false,
      String.empty_append, join, String.append_assoc] at tail ⊢
    rw [tail]

namespace Module

variable {symbol : String} {f g : Site}

/-- The name of a function has codes: another function of its scope has the same symbol, and it has parameters. -/
def IsCoded (job : Job) (f : Site) : Prop :=
  (∃ other ∈ job.root.freeFunctions, other ≠ f ∧ overloadKey other = overloadKey f) ∧ overloadCodes job f ≠ []

variable {tree : Node}

theorem freeFunctions_nodup (rooted : job.root = .root tree) : job.root.freeFunctions.Nodup := by
  have declared : job.root.id = .declared [] := by rw [rooted]; rfl
  exact (Nodup.of_map _ (reach_ids_nodup declared)).filter _

section

variable (rooted : job.root = .root tree) (listed : f ∈ job.root.freeFunctions)

include rooted listed

theorem overloaded_iff :
    (freeCallable job f).overloaded ↔
      ∃ other ∈ job.root.freeFunctions, other ≠ f ∧ overloadKey other = overloadKey f := by
  have grouped : (prepared job).freeFunctions.count (overloadKey f) =
      job.root.freeFunctions.countP (overloadKey · == overloadKey f) := countP_map
  have counted : (freeCallable job f).overloaded ↔ 1 < (prepared job).freeFunctions.count (overloadKey f) :=
    decide_eq_true_iff
  have distinct := freeFunctions_nodup rooted
  obtain ⟨front, back, split⟩ := append_of_mem listed
  rw [split, nodup_middle, nodup_cons] at distinct
  have others : 1 < job.root.freeFunctions.countP (overloadKey · == overloadKey f) ↔
      0 < (front ++ back).countP (overloadKey · == overloadKey f) := by
    rw [split, countP_append, countP_append, countP_cons_of_pos (by simp)]
    omega
  rw [counted, grouped, others, countP_pos_iff, split]
  constructor
  · rintro ⟨other, member, same⟩
    refine ⟨other, ?_, fun equal => distinct.1 (equal ▸ member), beq_iff_eq.mp same⟩
    grind
  · rintro ⟨other, member, apart, same⟩
    exact ⟨other, by grind, beq_iff_eq.mpr same⟩

theorem suffix_of_isCoded (coded : IsCoded job f) : suffixOf (freeCallable job f) (overloadCodes job f) =
      "_" ++ join "_" (overloadCodes job f) := by
  obtain ⟨code, codes, shape⟩ := exists_cons_of_ne_nil coded.2
  rw [suffixOf, (overloaded_iff rooted listed).mpr coded.1, shape, ← overloadSuffix_cons]
  rfl

theorem suffix_of_not_isCoded (bare : ¬ IsCoded job f) : suffixOf (freeCallable job f) (overloadCodes job f) = "" := by
  unfold suffixOf
  split
  next overloaded =>
    rw [Bool.and_eq_true, overloaded_iff rooted listed] at overloaded
    have empty : overloadCodes job f = [] := by
      by_contra filled
      exact bare ⟨overloaded.1, filled⟩
    rw [empty]
    rfl
  · rfl

end

theorem suffixes_ne_iff (rooted : job.root = .root tree) (first : f ∈ job.root.freeFunctions)
    (second : g ∈ job.root.freeFunctions)
    (differ : join "_" (overloadCodes job f) ≠ join "_" (overloadCodes job g)) :
    suffixOf (freeCallable job f) (overloadCodes job f) ≠
        suffixOf (freeCallable job g) (overloadCodes job g) ↔
      IsCoded job f ∨ IsCoded job g := by
  by_cases one : IsCoded job f <;> by_cases two : IsCoded job g
  · rw [suffix_of_isCoded rooted first one, suffix_of_isCoded rooted second two, ne_eq, String.append_right_inj]
    exact iff_of_true differ (.inl one)
  · rw [suffix_of_isCoded rooted first one, suffix_of_not_isCoded rooted second two]
    exact iff_of_true (by simp) (.inl one)
  · rw [suffix_of_not_isCoded rooted first one, suffix_of_isCoded rooted second two]
    exact iff_of_true (by simp) (.inr two)
  · rw [suffix_of_not_isCoded rooted first one, suffix_of_not_isCoded rooted second two]
    exact iff_of_false (fun apart => apart rfl) (not_or.mpr ⟨one, two⟩)

/-- What the start of a name is built from: kind and qualified name of the scope, and whether names begin with it. All
openings of a namespace share it, if they share the setting. -/
def scopeTraits (f : Site) : Option (Kind × String × Bool) :=
  f.scope?.map fun scope => (scope.kind, scope.qualifiedName, scope.usesNamespace)

theorem freePart_of_scopeTraits (reopened : scopeTraits f = scopeTraits g) (config : Config) :
    freePart config f = freePart config g := by
  have built (site : Site) : scopePart? site = (scopeTraits site).bind fun (kind, name, uses) =>
      if kind == .namespaceDecl && uses then some (flattenName name) else none := by
    unfold scopePart? scopeTraits
    cases site.scope? <;> rfl
  rw [freePart, freePart, built f, built g, reopened]

theorem isCoded_of_scope (valid : isSymbolName symbol) (first : IsFreeFunction job symbol f)
    (second : IsFreeFunction job symbol g) (apart : f ≠ g)
    (differ : join "_" (overloadCodes job f) ≠ join "_" (overloadCodes job g)) (scope : f.scope? = g.scope?) :
    IsCoded job f ∨ IsCoded job g := by
  have keys : overloadKey f = overloadKey g := by rw [first.overloadKey valid, second.overloadKey valid, scope]
  by_cases empty : overloadCodes job f = []
  · refine .inr ⟨⟨f, first.mem_freeFunctions, apart, keys⟩, fun alsoEmpty => ?_⟩
    rw [empty, alsoEmpty] at differ
    exact differ rfl
  · exact .inl ⟨⟨g, second.mem_freeFunctions, apart.symm, keys.symm⟩, empty⟩

/-- A visit of the function records one symbol, which has its name. -/
def IsRecorded (job : Job) (visits : List Visit) (f : Site) : Prop :=
  ∃ visit ∈ visits, visit.site = f ∧ visit.recorded = [symbolOf .function (.string (overloadName job f)) f]

/-- No function has one name in both visits. -/
def FunctionsApart (one two : Visit) : Prop :=
  ∀ s ∈ one.recorded, ∀ s' ∈ two.recorded, s.kind = .function → s'.kind = .function → s.name ≠ s'.name

instance : Std.Symm FunctionsApart :=
  ⟨fun _ _ apart s held s' held' function function' same => apart s' held' s held function' function same.symm⟩

theorem functionsApart_of_run {visits : List Visit} (ran : run job = .ok draft)
    (chain : Visits job visits (prepared job) draft) : visits.Pairwise FunctionsApart := by
  have fresh : FreshSymbols draft.symbols := (goes_of_run ran).preserves
    (fun reached => FreshSymbols reached.symbols) (fun permitted moves kept => kept.step permitted moves)
    Pairwise.nil
  have recorded : draft.symbols = visits.flatMap (·.recorded) := chain.symbols_eq
  rw [recorded, FreshSymbols, pairwise_flatMap] at fresh
  exact fresh.2.imp fun apart s held s' held' _ function => apart s held s' held' function

theorem overloadName_ne_of_isRecorded {visits : List Visit} (ran : run job = .ok draft)
    (chain : Visits job visits (prepared job) draft) (apart : f ≠ g) (first : IsRecorded job visits f)
    (second : IsRecorded job visits g) : overloadName job f ≠ overloadName job g := by
  obtain ⟨one, listed, rfl, symbols⟩ := first
  obtain ⟨two, listed', rfl, symbols'⟩ := second
  have differ : FunctionsApart one two :=
    (functionsApart_of_run ran chain).forall listed listed' fun same => apart (congrArg Visit.site same)
  rw [FunctionsApart, symbols, symbols'] at differ
  intro same
  exact differ _ (mem_singleton_self _) _ (mem_singleton_self _) rfl rfl (congrArg Value.string same)

section Run

variable {visits : List Visit} (cxx : job.config.cplusplus) (defaults : job.typemaps.useDefaults)
  (valid : isSymbolName symbol) (chain : Visits job visits (prepared job) draft)
  (once : (visits.map (·.site.id)).Nodup)

include cxx defaults valid chain once

theorem isConvertible_of_isRecorded (isFree : IsFreeFunction job symbol f) (recorded : IsRecorded job visits f) :
    isConvertible job (resolver job) (freeCallable job f) := by
  obtain ⟨visit, listed, rfl, symbols⟩ := recorded
  rcases recorded_of_function cxx defaults valid chain once listed isFree with ⟨kept, _⟩ | ⟨empty, _⟩
  · exact kept
  · rw [empty] at symbols
    cases symbols

theorem isRecorded_of_isConvertible (sites : visits.map (·.site) = visited job) (isFree : IsFreeFunction job symbol f)
    (uncontested : ∀ visit ∈ visits, visit.site ≠ f → ∀ s ∈ visit.recorded, s.name ≠ .string (overloadName job f))
    (kept : isConvertible job (resolver job) (freeCallable job f)) : IsRecorded job visits f := by
  have visits : f ∈ visits.map (·.site) := sites ▸ isFree.mem_visited
  obtain ⟨visit, listed, rfl⟩ := mem_map.mp visits
  rcases recorded_of_function cxx defaults valid chain once listed isFree with ⟨_, symbols⟩ | ⟨_, lost | taken⟩
  · exact ⟨visit, listed, rfl, symbols⟩
  · rw [kept] at lost
    cases lost
  · obtain ⟨other, also, elsewhere, s, held, named⟩ := taken
    exact absurd named (uncontested other also elsewhere s held)

theorem name_of_recorded {visit : Visit} {s : Symbol} (listed : visit ∈ visits)
    (isFree : IsFreeFunction job symbol visit.site) (held : s ∈ visit.recorded) :
    s.name = .string (overloadName job visit.site) := by
  rcases recorded_of_function cxx defaults valid chain once listed isFree with ⟨_, symbols⟩ | ⟨empty, _⟩
  · rw [symbols, mem_singleton] at held
    rw [held]
    rfl
  · rw [empty] at held
    cases held

theorem isRecorded_beside (sites : visits.map (·.site) = visited job) (isFree : IsFreeFunction job symbol f)
    (beside : IsFreeFunction job symbol g) (names : overloadName job g ≠ overloadName job f)
    (uncontested : ∀ visit ∈ visits, visit.site ≠ f → visit.site ≠ g → ∀ s ∈ visit.recorded,
      s.name ≠ .string (overloadName job f))
    (kept : isConvertible job (resolver job) (freeCallable job f)) : IsRecorded job visits f := by
  refine isRecorded_of_isConvertible cxx defaults valid chain once sites isFree ?_ kept
  intro visit listed elsewhere s held
  by_cases here : visit.site = g
  · rw [name_of_recorded cxx defaults valid chain once listed (here ▸ beside) held, here]
    exact fun same => names (Value.string.inj same)
  · exact uncontested visit listed elsewhere here s held

end Run

/-- Two functions of one symbol whose joined codes differ, and whose names nobody else records, are both recorded
exactly if both are converted and their names differ. In openings of one namespace the names differ exactly if one of
the two has parameters and shares its opening with another function of the symbol; this is so if they share the
opening. -/
theorem reopened_overloads_recorded_iff {tree : Node} (rooted : job.root = .root tree)
    (cxx : job.config.cplusplus = true) (defaults : job.typemaps.useDefaults = true) (ran : run job = .ok draft)
    (valid : isSymbolName symbol = true) (first : IsFreeFunction job symbol f)
    (second : IsFreeFunction job symbol g) (apart : f ≠ g)
    (differ : join "_" (overloadCodes job f) ≠ join "_" (overloadCodes job g)) :
    ∃ visits, Visits job visits (prepared job) draft ∧ visits.map (·.site) = visited job ∧
      ((∀ visit ∈ visits, visit.site ≠ f → visit.site ≠ g → ∀ s ∈ visit.recorded,
          s.name ≠ .string (overloadName job f) ∧ s.name ≠ .string (overloadName job g)) →
        (IsRecorded job visits f ∧ IsRecorded job visits g ↔
          isConvertible job (resolver job) (freeCallable job f) = true ∧
            isConvertible job (resolver job) (freeCallable job g) = true ∧
            overloadName job f ≠ overloadName job g)) ∧
      (scopeTraits f = scopeTraits g → (overloadName job f ≠ overloadName job g ↔ IsCoded job f ∨ IsCoded job g)) ∧
      (f.scope? = g.scope? → overloadName job f ≠ overloadName job g) := by
  obtain ⟨visits, chain, sites⟩ := exists_visits ran
  have once : (visits.map (·.site.id)).Nodup := by
    have ids := visited_ids_nodup rooted
    rwa [← sites, map_map] at ids
  have told (reopened : scopeTraits f = scopeTraits g) :
      overloadName job f ≠ overloadName job g ↔ IsCoded job f ∨ IsCoded job g := by
    rw [first.overloadName_eq valid, second.overloadName_eq valid, freePart_of_scopeTraits reopened, ne_eq,
      String.append_right_inj]
    exact suffixes_ne_iff rooted first.mem_freeFunctions second.mem_freeFunctions differ
  refine ⟨visits, chain, sites, fun uncontested => ⟨?_, ?_⟩, told, fun scope => ?_⟩
  · rintro ⟨one, two⟩
    exact ⟨isConvertible_of_isRecorded cxx defaults valid chain once first one,
      isConvertible_of_isRecorded cxx defaults valid chain once second two,
      overloadName_ne_of_isRecorded ran chain apart one two⟩
  · rintro ⟨one, two, names⟩
    constructor
    · refine isRecorded_beside cxx defaults valid chain once sites first second names.symm ?_ one
      exact fun visit listed notFirst notSecond s held => (uncontested visit listed notFirst notSecond s held).1
    · refine isRecorded_beside cxx defaults valid chain once sites second first names ?_ two
      exact fun visit listed notSecond notFirst s held => (uncontested visit listed notFirst notSecond s held).2
  · exact (told (by rw [scopeTraits, scopeTraits, scope])).mpr (isCoded_of_scope valid first second apart differ scope)

end Module

namespace Reopening

/-- A function `f` with one parameter. -/
def taking (type : String) : Node :=
  .mk
    { Declaration.named .functionDecl "f" with
      parameters := [{ name := .string "x", type := some ⟨type, []⟩ }] } []

def opening (children : List Node) : Node :=
  .mk (.named .namespaceDecl "a") children

/-- One opening of a namespace, with a part that is included. -/
def openedOnce : Job :=
  .ofNodes [opening [taking "int", .mk { kind := .includeDecl } [taking "double"]]]

def openedTwice : Job :=
  .ofNodes [opening [taking "int"], opening [taking "double"]]

def site (path : List Nat) : Site :=
  (openedOnce.root.descend? path).getD openedOnce.root

theorem opening_reached : Reached isOpenGroup openedOnce.root (site [0]) :=
  .child (.head _)

theorem isFreeFunction_int : Module.IsFreeFunction openedOnce "f" (site [0, 0]) :=
  ⟨.through opening_reached rfl (.head _), rfl, rfl, rfl, rfl, by decide⟩

theorem isFreeFunction_double : Module.IsFreeFunction openedOnce "f" (site [0, 1, 0]) := by
  have included : Reached isOpenGroup openedOnce.root (site [0, 1]) :=
    .through opening_reached rfl (.tail _ (.head _))
  exact ⟨.through included rfl (.head _), rfl, rfl, rfl, rfl, by decide⟩

end Reopening

open Reopening

theorem Module.reopened_overloads_recorded_once :
    ∃ draft visits, Module.run openedOnce = .ok draft ∧ Visits openedOnce visits (prepared openedOnce) draft ∧
      (site [0, 0]).scope? = (site [0, 1, 0]).scope? ∧
      [site [0, 0], site [0, 1, 0]].map (overloadName openedOnce) = ["m_f_i", "m_f_d"] ∧
      IsRecorded openedOnce visits (site [0, 0]) ∧ IsRecorded openedOnce visits (site [0, 1, 0]) := by
  have completes : (Module.run openedOnce).isOk := by decide +kernel
  obtain ⟨draft, ran⟩ := ok_of_isOk completes
  have apart : site [0, 0] ≠ site [0, 1, 0] := fun same => absurd (congrArg Site.id same) (by decide)
  have converted : [site [0, 0], site [0, 1, 0]].all (fun f =>
      isConvertible openedOnce (resolver openedOnce) (freeCallable openedOnce f)) = true := by
    decide +kernel
  have names : [site [0, 0], site [0, 1, 0]].map (overloadName openedOnce) = ["m_f_i", "m_f_d"] := by
    decide +kernel
  obtain ⟨visits, chain, sites, recorded, _, told⟩ := reopened_overloads_recorded_iff rfl rfl rfl ran
    (show isSymbolName "f" = true by decide) isFreeFunction_int isFreeFunction_double apart (by decide +kernel)
  have alone : ∀ visit ∈ visits, visit.site = site [0, 0] ∨ visit.site = site [0, 1, 0] := by
    intro visit listed
    have member : visit.site ∈ visits.map (·.site) := mem_map_of_mem listed
    rw [sites] at member
    exact (mem_cons.mp member).imp_right mem_singleton.mp
  refine ⟨draft, visits, ran, chain, rfl, names, (recorded ?_).mpr ⟨?_, ?_, told rfl⟩⟩
  · intro visit listed elsewhere elsewhere'
    exact ((alone visit listed).elim elsewhere elsewhere').elim
  · exact all_eq_true.mp converted _ (.head _)
  · exact all_eq_true.mp converted _ (.tail _ (.head _))

/-- Of two overloads in two openings of a namespace one is lost. -/
theorem Module.openedTwice_loses :
    (Module.run openedTwice).toOption.map (fun draft =>
      (openedTwice.root.freeFunctions.map (fun f => (f.qualifiedName, overloadCodes openedTwice f)),
        draft.symbols.map (·.name.display), draft.diagnostics.map (·.message))) =
      some ([("a::f", ["i"]), ("a::f", ["d"])], ["m_f"], ["Wrapper m_f already defined, a::f skipped"]) := by
  decide +kernel

end FlatAbi
