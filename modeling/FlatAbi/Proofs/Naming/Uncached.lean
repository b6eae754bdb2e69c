import FlatAbi.Proofs.Naming.Cache
import FlatAbi.Proofs.Naming.Calls

/-!
Names do not show that they come from a cache: in a run no two calls share a key.
-/

namespace FlatAbi

open Emit List NameBook NameRequest FlatAbi.Module Naming

variable {job : Job} {before after : Draft} {site : Site} {path : List Nat} {calls : List NameCall}

namespace Module

/-- Where a callable is asked for: the class that it is a member of, or else its own declaration. -/
theorem Offers.place {owner : Option Site} {c : Callable} (offers : Offers job site owner c) :
    c.key.owner.getD c.key.node = site.id := by
  rcases offers.owner_cases with ⟨free, rfl⟩ | owned
  · simp [Callable.key, free]
  · simp [Callable.key, owned]

/-- Calls for callables that some declarations offer, each under a key of its own. -/
structure AreFair (job : Job) (sites : List Site) (calls : List NameCall) : Prop where
  distinct : (calls.map (·.callable.key)).Nodup
  valid : ∀ call ∈ calls, call.IsValid job
  offered : ∀ call ∈ calls, ∃ site ∈ sites, ∃ owner, Offers job site owner call.callable

theorem IsFairAt.areFair (fair : IsFairAt job site calls) : AreFair job [site] calls := by
  obtain ⟨offered, ⟨among, valid⟩, apart, offers⟩ := fair
  refine ⟨?_, valid, fun call asked => ?_⟩
  · have asked : calls.Pairwise fun one two => one.callable.Apart two.callable := pairwise_map.mp (apart.sublist among)
    refine pairwise_map.mpr (asked.imp_of_mem fun {one two} listed _ apart same => ?_)
    have filed := (valid one listed).filed
    rw [apart same] at filed
    cases filed
  · obtain ⟨owner, offers⟩ := offers call.callable (among.subset (mem_map_of_mem asked))
    exact ⟨site, by simp, owner, offers⟩

theorem AreFair.append {one two : List Site} {first rest : List NameCall}
    (apart : ∀ site ∈ one, ∀ other ∈ two, site.id ≠ other.id) (began : AreFair job one first)
    (ended : AreFair job two rest) : AreFair job (one ++ two) (first ++ rest) := by
  refine ⟨?_, forall_mem_append.mpr ⟨began.valid, ended.valid⟩, forall_mem_append.mpr ⟨?_, ?_⟩⟩
  · rw [map_append, nodup_append]
    refine ⟨began.distinct, ended.distinct, fun key early other late same => ?_⟩
    obtain ⟨call, asked, rfl⟩ := mem_map.mp early
    obtain ⟨later, askedToo, rfl⟩ := mem_map.mp late
    obtain ⟨site, listed, _, offers⟩ := began.offered call asked
    obtain ⟨other, listedToo, _, offersToo⟩ := ended.offered later askedToo
    apply apart site listed other listedToo
    rw [← offers.place, ← offersToo.place, same]
  · intro call asked
    obtain ⟨site, listed, offers⟩ := began.offered call asked
    exact ⟨site, mem_append_left _ listed, offers⟩
  · intro call asked
    obtain ⟨site, listed, offers⟩ := ended.offered call asked
    exact ⟨site, mem_append_right _ listed, offers⟩

theorem visits_ask (declared : job.root.id = .declared path) {sites : List Site} (distinct : (sites.map (·.id)).Nodup)
    (known : ∀ site ∈ sites, Knows job site) : Asks job (AreFair job sites) (sites.forM (declaration job)) := by
  induction sites with
  | nil => exact .quiet ⟨nodup_nil, forall_mem_nil _, forall_mem_nil _⟩ .pure
  | cons site rest ih =>
    rw [map_cons, nodup_cons] at distinct
    have first := (declaration_asks declared (known site (by simp))).mono fun _ => IsFairAt.areFair
    have later := ih distinct.2 fun other listed => known other (by simp [listed])
    refine Asks.bind first (fun _ _ => later) ⟨nodup_nil, forall_mem_nil _, forall_mem_nil _⟩ ?_
    refine AreFair.append fun here listed other listedToo same => ?_
    obtain rfl := mem_singleton.mp listed
    exact distinct.1 (mem_map.mpr ⟨other, listedToo, same.symm⟩)

end Module

/-- What a call puts on file where nothing is on file for its key. -/
def NameCall.entry (config : Config) (call : NameCall) : NameKey × String :=
  (call.callable.key, wrapperName config call.callable call.codes)

theorem NameBook.foldl_file {config : Config} {book : NameBook} (distinct : (calls.map (·.callable.key)).Nodup)
    (fresh : ∀ call ∈ calls, ∀ entry ∈ book, entry.1 ≠ call.callable.key) :
    calls.foldl (file config) book = (calls.map (NameCall.entry config)).reverse ++ book := by
  induction calls generalizing book with
  | nil => rfl
  | cons call rest ih =>
    have missed : book.lookup call.callable.key = none := by
      rw [lookup_eq_none_iff]
      exact fun entry listed => by simpa using (fresh call (by simp) entry listed).symm
    have filed : file config book call = call.entry config :: book := by
      simp [file, NameBook.name, give, missed, NameCall.entry]
    rw [map_cons, nodup_cons] at distinct
    rw [foldl_cons, filed, ih distinct.2 ?_]
    · simp
    · intro later asked entry listed
      rcases mem_cons.mp listed with rfl | listed
      · intro same
        exact distinct.1 (mem_map.mpr ⟨later, asked, same.symm⟩)
      · exact fresh later (by simp [asked]) entry listed

/-- What a run asks for: every call has a key of its own, gets the name that its callable has without a cache, and goes
on file; and every function has the name of one of the calls. -/
structure Module.AsksOnce (job : Job) (draft : Draft) (calls : List NameCall) : Prop extends
    AreFair job (visited job) calls where
  names : draft.names = (calls.map (NameCall.entry job.config)).reverse
  functions : ∀ s ∈ draft.symbols, s.kind = .function → ∃ call ∈ calls,
    s = symbolOf .function (.string (wrapperName job.config call.callable call.codes)) call.callable.site

theorem Asked.asksOnce (fair : AreFair job (Module.visited job) calls) (unnamed : before.names = [])
    (bare : before.symbols = []) (asked : Asked job before calls after) :
    AsksOnce job after calls := by
  have names : after.names = (calls.map (NameCall.entry job.config)).reverse := by
    rw [asked.names, unnamed, foldl_file fair.distinct fun _ _ => forall_mem_nil _, append_nil]
  refine ⟨fair, names, fun s listed function => ?_⟩
  rcases asked.functions s listed function with earlier | ⟨call, requested, name, given, rfl⟩
  · rw [bare] at earlier
    cases earlier
  · rw [names, mem_reverse] at given
    obtain ⟨other, otherListed, same⟩ := mem_map.mp given
    obtain rfl := inj_on_of_nodup_map fair.distinct otherListed requested (congrArg Prod.fst same)
    have name : wrapperName job.config other.callable other.codes = _ := congrArg Prod.snd same
    exact ⟨other, otherListed, by rw [name]⟩

theorem Module.emit_asksOnce {tree : Node} {outcome : Except Halt Unit} (rooted : job.root = .root tree)
    (ends : Ends (emit job) (Draft.ofTree job.root) outcome after) : ∃ calls, AsksOnce job after calls := by
  have declared : job.root.id = .declared [] := by
    rw [rooted]
    rfl
  have fit : (prepared job).IsFit job := ⟨⟨rfl, rfl, rfl⟩, fun _ listed => by cases listed⟩
  rw [Ends, run_emit] at ends
  split at ends
  · have asks := visits_ask declared (visited_ids_nodup rooted) fun _ => knows_of_visited
    obtain ⟨calls, fair, asked, _⟩ := asks _ _ _ fit ends
    exact ⟨calls, asked.asksOnce fair rfl rfl⟩
  · cases ends
    refine ⟨[], ⟨⟨nodup_nil, forall_mem_nil _, forall_mem_nil _⟩, rfl, fun s listed => ?_⟩⟩
    cases listed

/-- Caches do not show. A request for the name of a class or an enum is answered as if there were no cache, and one for
a symbol like the first one with its key since all names were forgotten; and in a run, however it ends, all calls for a
symbol have different keys, and every function has the symbol that its callable has without a cache. -/
theorem names_as_without_cache :
    (∀ (config : Config) (earlier : List NameRequest) (r : NameRequest),
      Identifies (fun s => s ∈ (earlier ++ [r]).flatMap NameRequest.sites) →
        (r.answer config (NameCache.after config earlier)).1 =
          (r.origin (sinceClear earlier)).plain config) ∧
    ∀ (job : Job) (tree : Node) (start draft : Draft) (outcome : Except Halt Unit),
      job.root = .root tree → Draft.start job.root = .ok start → Ends (Module.emit job) start outcome draft →
        ∃ calls : List NameCall,
          draft.names = (calls.map (NameCall.entry job.config)).reverse ∧
          (calls.map (·.callable.key)).Nodup ∧
          (∀ call ∈ calls, Wrapper.codes? job (Module.resolver job) call.callable = some call.codes ∧
            ∃ site ∈ Module.visited job, ∃ owner, Offers job site owner call.callable) ∧
          ∀ s ∈ draft.symbols, s.kind = .function → ∃ call ∈ calls,
            s = symbolOf .function (.string (wrapperName job.config call.callable call.codes))
              call.callable.site := by
  constructor
  · intro config earlier r identifies
    apply answer_eq identifies
    · intro q asked s listed
      exact mem_flatMap.mpr ⟨q, mem_append_left _ asked, listed⟩
    · intro s listed
      exact mem_flatMap.mpr ⟨r, mem_append_right _ mem_cons_self, listed⟩
  · intro job tree start draft outcome rooted starts ends
    obtain ⟨_, _, same⟩ := bind_eq_ok starts
    cases same
    obtain ⟨calls, once⟩ := emit_asksOnce rooted ends
    exact ⟨calls, once.names, once.distinct, fun call asked => ⟨(once.valid call asked).coded, once.offered call asked⟩,
      once.functions⟩

namespace Clockwork

def turn (parameters : List Parameter) : Node :=
  .mk { Declaration.named .functionDecl "turn" with parameters } []

def teeth : Node :=
  .mk { Declaration.named .variableDecl "teeth" with type := some ⟨"int", []⟩ } []

def wind : Node :=
  .mk (.named .functionDecl "wind") []

def tree : Node :=
  .mk (.named .moduleDecl "m")
    [ .mk { Declaration.named .classDecl "Wheel" with bases := [.string "Gear"] } [turn []],
      .mk { Declaration.named .classDecl "Gear" with bases := [.string "Wheel"] }
        [turn [{ name := .string "angle", type := some ⟨"int", []⟩ }], teeth],
      wind ]

def task : Job where
  config := { givenModule := .string "m", facade := false, exceptions := false }
  root := .root tree
  typemaps := {}

/-- The function, taken as one of several overloads, so that its symbol depends on the codes of its parameters. -/
def winding : Callable where
  site := ⟨.declared [2], wind, (Site.root tree).inside⟩
  role := .function
  symbol := .string "wind"
  result := ⟨"void", []⟩
  overloaded := true

end Clockwork

open Clockwork

/-- The second answer for a key is the first one, though the codes differ. The classes inherit from each other, and all
their functions have names of their own. -/
theorem names_as_without_cache_clockwork :
    ((wrapper winding ["i"]).answer task.config
      (NameCache.after task.config
        [.wrapper winding ["i"], .clear, .proxy task.root, .wrapper winding ["d"]])).1 =
          .ok (.string "m_wind_d") ∧
    ∃ outcome draft, Ends (Module.emit task) (Draft.ofTree task.root) outcome draft ∧
      draft.names.map (·.2) = ["m_wind", "Gear_delete", "Gear_new", "Gear_teeth_set", "Gear_teeth_get", "Gear_turn",
        "Wheel_delete", "Wheel_new", "Wheel_teeth_set", "Wheel_teeth_get", "Wheel_turn"] ∧
      (draft.names.map (·.1)).Nodup := by
  obtain ⟨cached, runs⟩ := names_as_without_cache
  constructor
  · rw [cached]
    · rfl
    · have two : ∀ s ∈ [winding.site, task.root, winding.site, winding.site],
          s = winding.site ∨ s = task.root := by
        simp
      intro s other known knownToo same
      rcases two s known with rfl | rfl <;> rcases two other knownToo with rfl | rfl
      · rfl
      · cases same
      · cases same
      · rfl
  · have starts : Draft.start task.root = .ok (.ofTree task.root) := rfl
    cases ends : (Module.emit task).run.run (Draft.ofTree task.root) with
    | mk outcome draft =>
      obtain ⟨calls, listed, distinct, _⟩ := runs task tree _ draft outcome rfl starts ends
      refine ⟨outcome, draft, ends, ?_, ?_⟩
      · rw [← show _ = draft from congrArg Prod.snd ends]
        decide +kernel
      · rw [listed, map_reverse, nodup_reverse, map_map]
        exact distinct

end FlatAbi
