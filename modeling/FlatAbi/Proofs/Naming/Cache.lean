import FlatAbi.Naming.Cache
import FlatAbi.Proofs.Emission.Ends
import Mathlib.Data.List.Induction

/-!
Names from a cache. A callable gets the symbol that was derived for the first callable with its key.
-/

namespace FlatAbi

open Naming NameWork Value NameBook

/-! ### Names without a cache -/

variable {after : NameCache} {other : NameKey} {requests : List NameRequest}

namespace Naming

variable (config : Config) (s : Site)

theorem proxyValue_display : (proxyValue config s).display = proxyName config s := by
  unfold proxyValue proxyName
  split <;> rfl

theorem freeValue_display : (freeValue config s).display = freePart config s := by
  unfold freeValue
  split
  next empty =>
    rw [Bool.and_eq_true, beq_iff_eq, beq_iff_eq] at empty
    simp [freePart, empty.1, empty.2, Text.orElse, Config.moduleName]
  · rfl

theorem enumPartValue_display : (enumPartValue config s).display = enumPart config s := by
  unfold enumPartValue enumPart
  split
  · exact proxyValue_display config _
  · exact freeValue_display config s

end Naming

namespace NameRequest

/-- The sites whose names a request can bring to the cache. -/
def sites : NameRequest → List Site
  | .proxy s | .classPointer s | .enumPart s | .enumTag s | .enumType s => s :: s.enclosingClass?.toList
  | .wrapper c _ => c.site :: c.owner.toList
  | .clear => []

/-- The answer without a cache. -/
def plain (config : Config) : NameRequest → Except Misshapen Value
  | .proxy s => (Naming.checkProxy s).map fun _ => Naming.proxyValue config s
  | .classPointer s => (Naming.checkProxy s).map fun _ => .string (Naming.classPointer config s)
  | .enumPart s => (checkEnumPart s).map fun _ => Naming.enumPartValue config s
  | .enumTag s => (checkEnumTag s).map fun _ => ofName (Naming.enumTag? config s)
  | .enumType s => (Naming.checkEnumType s).map fun _ => ofName (Naming.enumType? config s)
  | .wrapper c codes => (checkWrapperName c).map fun _ => .string (wrapperName config c codes)
  | .clear => .ok .null

end NameRequest

/-! ### Sound caches -/

/-- What a cache has for the sites that are known is what would be derived. -/
structure NameCache.Sound (config : Config) (known : Site → Prop) (cache : NameCache) : Prop where
  proxies : ∀ s value, known s → cache.proxies.lookup s.id = some value →
    Naming.checkProxy s = .ok () ∧ value = Naming.proxyValue config s
  enums : ∀ s name, known s → cache.enums.lookup s.id = some name →
    Naming.checkEnumType s = .ok () ∧ name = Naming.enumType? config s

/-- An identity belongs to one of the known sites only. -/
def Identifies (known : Site → Prop) : Prop :=
  ∀ s other, known s → known other → s.id = other.id → s = other

theorem Identifies.lookup_cons {α : Type} {known : Site → Prop} {s : Site} {value : α} {entries : List (NodeId × α)}
    {Right : Site → α → Prop} (identifies : Identifies known) (isKnown : known s) (right : Right s value)
    (sound : ∀ other found, known other → entries.lookup other.id = some found → Right other found) :
    ∀ other found, known other → ((s.id, value) :: entries).lookup other.id = some found → Right other found := by
  intro other found otherKnown looked
  by_cases same : other.id = s.id
  · rw [same, List.lookup_cons_self, Option.some.injEq] at looked
    rwa [identifies _ _ otherKnown isKnown same, ← looked]
  · rw [List.lookup_cons, beq_eq_false_iff_ne.mpr same] at looked
    exact sound other found otherKnown looked

/-- Work that gives an answer from a cache, keeps it sound, and leaves the symbols of callables alone. -/
def AnswersFrom {α : Type} (config : Config) (known : Site → Prop) (cache : NameCache) (work : NameWork α)
    (answer : Except Misshapen α) : Prop :=
  ∃ after, work.run.run cache = (answer, after) ∧ after.Sound config known ∧ after.wrappers = cache.wrappers

variable {cache : NameCache}

theorem AnswersFrom.get_bind {α : Type} {config : Config} {known : Site → Prop} {next : NameCache → NameWork α}
    {answer : Except Misshapen α} (rest : AnswersFrom config known cache (next cache) answer) :
    AnswersFrom config known cache (get >>= next) answer :=
  rest

/-- Work that gives an answer from every sound cache. -/
def Answers {α : Type} (config : Config) (known : Site → Prop) (work : NameWork α) (answer : Except Misshapen α) :
    Prop :=
  ∀ cache : NameCache, cache.Sound config known → AnswersFrom config known cache work answer

namespace Answers

variable {α β : Type} {config : Config} {known : Site → Prop} {work : NameWork α} {next : α → NameWork β}
  {answer : Except Misshapen α} {follow : α → Except Misshapen β} {s : Site}

theorem pure (value : α) : Answers config known (pure value) (.ok value) :=
  fun cache sound => ⟨cache, rfl, sound, rfl⟩

theorem check (result : Except Misshapen Unit) : Answers config known (NameWork.check result) result := by
  intro cache sound
  cases result <;> exact ⟨cache, rfl, sound, rfl⟩

theorem get_bind {next : NameCache → NameWork β} {answer : Except Misshapen β}
    (rest : ∀ cache : NameCache, cache.Sound config known → AnswersFrom config known cache (next cache) answer) :
    Answers config known (get >>= next) answer :=
  fun cache sound => .get_bind (rest cache sound)

theorem bind (first : Answers config known work answer)
    (rest : ∀ value, answer = .ok value → Answers config known (next value) (follow value)) :
    Answers config known (work >>= next) (answer >>= follow) := by
  intro cache sound
  obtain ⟨middle, began, sound, same⟩ := first cache sound
  unfold AnswersFrom
  simp only [ExceptT.run_bind, StateT.run_bind, began]
  cases answer with
  | error cause => exact ⟨middle, rfl, sound, same⟩
  | ok value =>
    obtain ⟨after, ended, sound, sameToo⟩ := rest value rfl middle sound
    exact ⟨after, ended, sound, sameToo.trans same⟩

theorem map (f : α → β) (first : Answers config known work answer) :
    Answers config known (do return f (← work)) (answer.map f) := by
  have both := first.bind fun value _ => Answers.pure (f value)
  cases answer <;> exact both

theorem remember {store : α → NameCache → NameCache} (first : Answers config known work answer)
    (stores : ∀ {value cache}, answer = .ok value → NameCache.Sound config known cache →
      (store value cache).Sound config known ∧ (store value cache).wrappers = cache.wrappers) :
    Answers config known (NameWork.remember store work) answer := by
  have both := first.bind fun value found => (fun cache sound => ⟨store value cache, rfl, stores found sound⟩ :
    Answers config known (do modify (store value); return value) (.ok value))
  cases answer <;> exact both

theorem congr {other : Except Misshapen α} (answers : Answers config known work answer) (same : answer = other) :
    Answers config known work other :=
  same ▸ answers

end Answers

theorem eq_of_map_ok {α : Type} {result : Except Misshapen Unit} {value found : α}
    (mapped : result.map (fun _ => value) = .ok found) : result = .ok () ∧ found = value := by
  cases result with
  | error cause => cases mapped
  | ok => exact ⟨rfl, (Except.ok.inj mapped).symm⟩

namespace NameWork

variable {config : Config} {known : Site → Prop} {s : Site}

section

variable (identifies : Identifies known)

include identifies

theorem proxy_answers (isKnown : known s) :
    Answers config known (proxy config s) ((checkProxy s).map fun _ => proxyValue config s) := by
  have derived : Answers config known
      (remember (fun value cache => { cache with proxies := (s.id, value) :: cache.proxies }) (deriveProxy config s))
      ((checkProxy s).map fun _ => proxyValue config s) := by
    refine ((Answers.check _).map _).remember fun derived sound => ⟨⟨?_, sound.enums⟩, rfl⟩
    exact identifies.lookup_cons isKnown (eq_of_map_ok derived) sound.proxies
  refine .get_bind fun cache sound => ?_
  split
  · exact derived cache sound
  · exact derived cache sound
  next value _ found =>
    obtain ⟨checked, rfl⟩ := sound.proxies s value isKnown found
    rw [checked]
    exact Answers.pure _ cache sound

theorem classPointer_answers (isKnown : known s) :
    Answers config known (classPointer config s) ((checkProxy s).map fun _ => Naming.classPointer config s) := by
  refine ((proxy_answers identifies isKnown).map _).congr ?_
  cases checkProxy s <;> simp [Except.map, proxyValue_display, Naming.classPointer]

theorem enumPart_answers (owned : ∀ owner ∈ s.enclosingClass?, known owner) :
    Answers config known (enumPart config s) ((checkEnumPart s).map fun _ => enumPartValue config s) := by
  unfold enumPart checkEnumPart enumPartValue
  cases found : s.enclosingClass? with
  | some owner => exact proxy_answers identifies (owned owner found)
  | none => exact (Answers.check _).map _

theorem enumTag_answers (owned : ∀ owner ∈ s.enclosingClass?, known owner) :
    Answers config known (enumTag config s) ((checkEnumTag s).map fun _ => enumTag? config s) := by
  unfold enumTag checkEnumTag enumTag?
  split
  · exact .pure none
  · refine ((enumPart_answers identifies owned).bind fun part _ => (Answers.check _).map _).congr ?_
    cases checkEnumPart s with
    | error cause => rfl
    | ok => cases s.decl.checkName <;> simp [bind, Except.bind, Except.map, enumPartValue_display]

theorem deriveEnumType_answers (owned : ∀ owner ∈ s.enclosingClass?, known owner) :
    Answers config known (deriveEnumType config s) ((checkEnumType s).map fun _ => enumType? config s) := by
  unfold deriveEnumType checkEnumType enumType?
  dsimp only
  split
  · refine ((enumPart_answers identifies owned).map _).congr ?_
    cases checkEnumPart s <;> simp [Except.map, enumPartValue_display]
  · refine ((enumTag_answers identifies owned).map _).congr ?_
    cases checkEnumTag s <;> rfl

theorem enumType_answers (isKnown : known s) (owned : ∀ owner ∈ s.enclosingClass?, known owner) :
    Answers config known (enumType config s) ((checkEnumType s).map fun _ => enumType? config s) := by
  have derived : Answers config known
      (remember (fun name cache => { cache with enums := (s.id, name) :: cache.enums }) (deriveEnumType config s))
      ((checkEnumType s).map fun _ => enumType? config s) := by
    refine (deriveEnumType_answers identifies owned).remember fun derived sound => ⟨⟨sound.proxies, ?_⟩, rfl⟩
    exact identifies.lookup_cons isKnown (eq_of_map_ok derived) sound.enums
  refine .get_bind fun cache sound => ?_
  split
  next name found =>
    obtain ⟨checked, rfl⟩ := sound.enums s name isKnown found
    rw [checked]
    exact Answers.pure _ cache sound
  · exact derived cache sound

theorem deriveWrapper_answers {c : Callable} (owned : ∀ owner ∈ c.owner, known owner)
    (filed : c.symbol.checkKey = .ok ()) (codes : List String) :
    Answers config known (deriveWrapper config c codes)
      ((checkWrapperName c).map fun _ => wrapperName config c codes) := by
  unfold deriveWrapper
  cases found : c.owner with
  | some owner =>
    have checked : checkWrapperName c = checkProxy owner := by
      simp [checkWrapperName, filed, found, bind, Except.bind]
    refine ((proxy_answers identifies (owned owner found)).map _).congr ?_
    rw [checked]
    cases checkProxy owner <;> simp [Except.map, proxyValue_display, wrapperName, found]
  | none => exact (Answers.check _).map _

end

section Wrapper

variable {c : Callable} {codes : List String} {cache : NameCache} {name : String} {cause : Misshapen}

theorem wrapper_unfiled (unfiled : c.symbol.checkKey = .error cause) :
    (wrapper config c codes).run.run cache = (.error cause, cache) := by
  unfold wrapper
  rw [unfiled]
  rfl

theorem findWrapper_again (sound : cache.Sound config known) (again : cache.wrappers.lookup c.key = some name) :
    AnswersFrom config known cache (findWrapper config c codes) (.ok name) := by
  refine .get_bind ?_
  rw [again]
  exact Answers.pure name cache sound

theorem findWrapper_first {answer : Except Misshapen String} (first : cache.wrappers.lookup c.key = none)
    (derives : AnswersFrom config known cache (deriveWrapper config c codes) answer) :
    AnswersFrom config known cache (findWrapper config c codes) answer := by
  refine .get_bind ?_
  rw [first]
  exact derives

theorem wrapper_given (filed : c.symbol.checkKey = .ok ())
    (found : (findWrapper config c codes).run.run cache = (.ok name, after)) :
    (wrapper config c codes).run.run cache =
      (.ok (after.wrappers.give c.key name).1, { after with wrappers := (after.wrappers.give c.key name).2 }) := by
  unfold wrapper
  rw [filed]
  simp only [NameWork.check, pure_bind, ExceptT.run_bind, StateT.run_bind, found]
  rfl

theorem wrapper_failed (filed : c.symbol.checkKey = .ok ())
    (failed : (findWrapper config c codes).run.run cache = (.error cause, after)) :
    (wrapper config c codes).run.run cache = (.error cause, after) := by
  unfold wrapper
  rw [filed]
  simp only [NameWork.check, pure_bind, ExceptT.run_bind, StateT.run_bind, failed]
  rfl

end Wrapper

end NameWork

theorem NameBook.lookup_give {book : NameBook} {key : NameKey} {fresh : String} (differs : other ≠ key) :
    (book.give key fresh).2.lookup other = book.lookup other := by
  rw [give, List.lookup_cons, beq_eq_false_iff_ne.mpr differs]

/-! ### Requests -/

namespace NameRequest

variable {config : Config} {known : Site → Prop} {r : NameRequest} {since : List NameRequest}

/-- What the symbol that a request asks for is filed under, if it can be filed. -/
def key? : NameRequest → Option NameKey
  | .wrapper c _ => if c.symbol.atom?.isSome then some c.key else none
  | _ => none

/-- The first of some requests that asks for a symbol with the same key, else the request itself. -/
def origin (earlier : List NameRequest) (r : NameRequest) : NameRequest :=
  match r.key? with
  | some key => (earlier.find? (·.key? == some key)).getD r
  | none => r

/-- One more request after those since all names were forgotten. -/
def follow (since : List NameRequest) : NameRequest → List NameRequest
  | .clear => []
  | r => since ++ [r]

/-- The requests since all names were forgotten. -/
def sinceClear (requests : List NameRequest) : List NameRequest :=
  requests.foldl follow []

/-- A request for the name of a class or an enum. -/
def isOfSite : NameRequest → Bool
  | .wrapper .. | .clear => false
  | _ => true

theorem answers_of_isOfSite (identifies : Identifies known) (ofSite : r.isOfSite) (isKnown : ∀ s ∈ r.sites, known s) :
    Answers config known (r.work config) (r.plain config) := by
  cases r with
  | proxy s => exact proxy_answers identifies (isKnown s (by simp [sites]))
  | classPointer s =>
    refine ((classPointer_answers identifies (isKnown s (by simp [sites]))).map string).congr ?_
    cases checked : checkProxy s <;> simp [plain, checked, Except.map]
  | enumPart s =>
    exact enumPart_answers identifies fun owner found => isKnown owner (by simp_all [sites])
  | enumTag s =>
    have owned : ∀ owner ∈ s.enclosingClass?, known owner := fun owner found => isKnown owner (by simp_all [sites])
    refine ((enumTag_answers identifies owned).map ofName).congr ?_
    cases checked : checkEnumTag s <;> simp [plain, checked, Except.map]
  | enumType s =>
    have owned : ∀ owner ∈ s.enclosingClass?, known owner := fun owner found => isKnown owner (by simp_all [sites])
    refine ((enumType_answers identifies (isKnown s (by simp [sites])) owned).map ofName).congr ?_
    cases checked : checkEnumType s <;> simp [plain, checked, Except.map]
  | wrapper | clear => cases ofSite

/-- The symbol that a request puts on file, unless it fails. -/
def symbol? (config : Config) : NameRequest → Option String
  | .wrapper c codes => ((checkWrapperName c).map fun _ => wrapperName config c codes).toOption
  | _ => none

/-- A cache after some requests. -/
structure Leads (config : Config) (known : Site → Prop) (since : List NameRequest) (cache : NameCache) : Prop
    extends cache.Sound config known where
  wrappers : ∀ key, cache.wrappers.lookup key = (since.find? (·.key? == some key)).bind (symbol? config)

theorem Leads.start : Leads config known [] {} where
  proxies _ _ _ found := nomatch found
  enums _ _ _ found := nomatch found
  wrappers _ := rfl

theorem find_append_unkeyed (unkeyed : r.key? = none) (key : NameKey) :
    (since ++ [r]).find? (·.key? == some key) = since.find? (·.key? == some key) := by
  simp [List.find?_append, unkeyed]

/-- A request is answered like the first one with its key, and the cache is then one after it. -/
def Steps (config : Config) (known : Site → Prop) (since : List NameRequest) (cache : NameCache) (r : NameRequest) :
    Prop :=
  (r.answer config cache).1 = (r.origin since).plain config ∧
    Leads config known (follow since r) (r.answer config cache).2

theorem step_isOfSite (identifies : Identifies known) (ofSite : r.isOfSite) (isKnown : ∀ s ∈ r.sites, known s)
    (leads : Leads config known since cache) : Steps config known since cache r := by
  have unkeyed : r.key? = none := by cases r <;> first | rfl | cases ofSite
  have follows : follow since r = since ++ [r] := by cases r <;> first | rfl | cases ofSite
  obtain ⟨after, ends, sound, same⟩ := answers_of_isOfSite identifies ofSite isKnown cache leads.toSound
  rw [Steps, answer, ends, origin, unkeyed, follows]
  refine ⟨rfl, sound, fun key => ?_⟩
  rw [same, find_append_unkeyed unkeyed]
  exact leads.wrappers key

theorem checkWrapperName_congr {c other : Callable} (identifies : Identifies known)
    (isKnown : ∀ s ∈ c.site :: c.owner.toList, known s) (otherKnown : ∀ s ∈ other.site :: other.owner.toList, known s)
    (filed : c.symbol.checkKey = .ok ()) (otherFiled : other.symbol.checkKey = .ok ()) (same : c.key = other.key) :
    checkWrapperName c = checkWrapperName other := by
  have sameSite : c.site = other.site :=
    identifies _ _ (isKnown _ (by simp)) (otherKnown _ (by simp)) (congrArg NameKey.node same)
  have sameRole : c.role = other.role := congrArg NameKey.role same
  have sameOwner : c.owner = other.owner := by
    have sameId : c.owner.map (·.id) = other.owner.map (·.id) := congrArg NameKey.owner same
    cases owned : c.owner <;> cases otherOwned : other.owner <;> simp only [owned, otherOwned] at sameId
    · rfl
    · cases sameId
    · cases sameId
    · rw [identifies _ _ (isKnown _ (by simp [owned])) (otherKnown _ (by simp [otherOwned])) (Option.some.inj sameId)]
  unfold checkWrapperName
  rw [filed, otherFiled, sameSite, sameRole, sameOwner]

theorem key?_wrapper {c : Callable} {codes : List String} (filed : c.symbol.checkKey = .ok ()) :
    (NameRequest.wrapper c codes).key? = some c.key := by
  unfold checkKey at filed
  split at filed
  next keyed => exact if_pos keyed
  · cases filed

variable {key : NameKey}

theorem eq_wrapper_of_key? (keyed : r.key? = some key) :
    ∃ c codes, r = .wrapper c codes ∧ c.symbol.checkKey = .ok () ∧ c.key = key := by
  cases r with
  | wrapper c codes =>
    by_cases filed : c.symbol.atom?.isSome
    · rw [show (NameRequest.wrapper c codes).key? = some c.key from if_pos filed] at keyed
      exact ⟨c, codes, rfl, if_pos filed, Option.some.inj keyed⟩
    · rw [show (NameRequest.wrapper c codes).key? = none from if_neg filed] at keyed
      cases keyed
  | proxy | classPointer | enumPart | enumTag | enumType | clear => cases keyed

theorem origin_cases (since : List NameRequest) (keyed : r.key? = some key) :
    since.find? (·.key? == some key) = some (r.origin since) ∨
      since.find? (·.key? == some key) = none ∧ r.origin since = r := by
  have same : r.origin since = (since.find? (·.key? == some key)).getD r := by rw [origin, keyed]
  rw [same]
  cases since.find? (·.key? == some key) with
  | none => exact .inr ⟨rfl, rfl⟩
  | some q => exact .inl rfl

theorem find_append_keyed (keyed : r.key? = some key) :
    (since ++ [r]).find? (·.key? == some key) = some (r.origin since) := by
  rw [List.find?_append]
  rcases origin_cases since keyed with found | ⟨first, same⟩
  · rw [found, Option.some_or]
  · rw [first, same]
    simp [keyed]

theorem find_append_other {key : NameKey} (keyed : r.key? = some key) (differs : other ≠ key) :
    (since ++ [r]).find? (·.key? == some other) = since.find? (·.key? == some other) := by
  simp [List.find?_append, keyed, differs.symm]

theorem Leads.onFile (leads : Leads config known since cache) (keyed : r.key? = some key) :
    cache.wrappers.lookup key = (r.origin since).symbol? config ∨
      cache.wrappers.lookup key = none ∧ r.origin since = r := by
  rw [leads.wrappers key]
  rcases origin_cases since keyed with found | ⟨unasked, same⟩
  · rw [found]
    exact .inl rfl
  · rw [unasked]
    exact .inr ⟨rfl, same⟩

theorem Leads.ask {cache : NameCache} (leads : Leads config known since cache) (keyed : r.key? = some key)
    (sound : after.Sound config known) (given : after.wrappers.lookup key = (r.origin since).symbol? config)
    (others : ∀ other, other ≠ key → after.wrappers.lookup other = cache.wrappers.lookup other) :
    Leads config known (since ++ [r]) after := by
  refine ⟨sound, fun other => ?_⟩
  by_cases same : other = key
  · rw [same, find_append_keyed keyed]
    exact given
  · rw [others other same, find_append_other keyed same]
    exact leads.wrappers other

section Wrapper

variable {c : Callable} {codes : List String} {cache : NameCache}

theorem symbol?_wrapper : (NameRequest.wrapper c codes).symbol? config =
    ((checkWrapperName c).map fun _ => wrapperName config c codes).toOption :=
  rfl

theorem plain_wrapper : (NameRequest.wrapper c codes).plain config =
    ((checkWrapperName c).map fun _ => wrapperName config c codes).map string := by
  simp only [plain]
  cases checkWrapperName c <;> rfl

theorem answer_wrapper {result : Except Misshapen String}
    (gives : (NameWork.wrapper config c codes).run.run cache = (result, after)) :
    (NameRequest.wrapper c codes).answer config cache = (result.map string, after) := by
  simp only [answer, work, ExceptT.run_bind, StateT.run_bind, gives]
  cases result <;> rfl

theorem origin_wrapper (codes : List String) (identifies : Identifies known)
    (isKnown : ∀ s ∈ c.site :: c.owner.toList, known s)
    (before : ∀ q ∈ since, ∀ s ∈ q.sites, known s) (filed : c.symbol.checkKey = .ok ()) :
    ∃ first firstCodes, (NameRequest.wrapper c codes).origin since = .wrapper first firstCodes ∧
      checkWrapperName first = checkWrapperName c := by
  rcases origin_cases since (key?_wrapper filed) with found | ⟨_, same⟩
  · obtain ⟨first, firstCodes, eq, firstFiled, sameKey⟩ := eq_wrapper_of_key? (by simpa using List.find?_some found)
    rw [eq] at found
    have firstKnown := before _ (List.mem_of_find?_eq_some found)
    exact ⟨first, firstCodes, eq, checkWrapperName_congr identifies firstKnown isKnown firstFiled filed sameKey⟩
  · exact ⟨c, codes, same, rfl⟩

theorem findWrapper_origin {first : Callable} {firstCodes : List String} (identifies : Identifies known)
    (isKnown : ∀ s ∈ c.site :: c.owner.toList, known s) (leads : Leads config known since cache)
    (filed : c.symbol.checkKey = .ok ())
    (isFirst : (NameRequest.wrapper c codes).origin since = .wrapper first firstCodes)
    (alike : checkWrapperName first = checkWrapperName c) :
    AnswersFrom config known cache (NameWork.findWrapper config c codes)
      ((checkWrapperName c).map fun _ => wrapperName config first firstCodes) := by
  have derives := deriveWrapper_answers identifies (fun owner owned => isKnown owner (by simp_all)) filed codes
    cache leads.toSound
  rcases leads.onFile (key?_wrapper filed) with found | ⟨unasked, same⟩
  · rw [isFirst, symbol?_wrapper, alike] at found
    cases checked : checkWrapperName c with
    | ok =>
      rw [checked] at found
      exact findWrapper_again leads.toSound found
    | error cause =>
      rw [checked] at found derives
      exact findWrapper_first found derives
  · rw [isFirst] at same
    cases same
    exact findWrapper_first unasked derives

theorem step_unfiled {cause : Misshapen} (filed : c.symbol.checkKey = .error cause)
    (leads : Leads config known since cache) : Steps config known since cache (.wrapper c codes) := by
  have unkeyed : (NameRequest.wrapper c codes).key? = none := by
    unfold checkKey at filed
    split at filed
    · cases filed
    next keyless => exact if_neg keyless
  rw [Steps, answer_wrapper (wrapper_unfiled filed), origin, unkeyed]
  refine ⟨?_, leads.toSound, fun key => ?_⟩
  · have fails : checkWrapperName c = .error cause := by simp [checkWrapperName, filed, bind, Except.bind]
    rw [plain_wrapper, fails]
    rfl
  · simp only [follow, find_append_unkeyed unkeyed, leads.wrappers key]

theorem step_filed (identifies : Identifies known) (isKnown : ∀ s ∈ c.site :: c.owner.toList, known s)
    (before : ∀ q ∈ since, ∀ s ∈ q.sites, known s) (filed : c.symbol.checkKey = .ok ())
    (leads : Leads config known since cache) : Steps config known since cache (.wrapper c codes) := by
  have keyed : (NameRequest.wrapper c codes).key? = some c.key := key?_wrapper filed
  obtain ⟨first, firstCodes, isFirst, alike⟩ := origin_wrapper codes identifies isKnown before filed
  obtain ⟨after, finds, sound, same⟩ := findWrapper_origin identifies isKnown leads filed isFirst alike
  have onFile := leads.onFile keyed
  rw [isFirst, symbol?_wrapper, alike] at onFile
  cases checked : checkWrapperName c with
  | error cause =>
    rw [checked] at finds onFile
    rw [Steps, answer_wrapper (wrapper_failed filed finds), isFirst, plain_wrapper, alike, checked]
    refine ⟨rfl, leads.ask keyed sound ?_ fun other _ => by rw [same]⟩
    rw [isFirst, symbol?_wrapper, alike, checked, same]
    exact onFile.elim id And.left
  | ok =>
    rw [checked] at finds onFile
    have given : (after.wrappers.give c.key (wrapperName config first firstCodes)).1 =
        wrapperName config first firstCodes := by
      rw [give, same]
      rcases onFile with found | ⟨unasked, _⟩
      · rw [found]
        rfl
      · rw [unasked]
        rfl
    rw [Steps, answer_wrapper (wrapper_given filed finds), given, isFirst, plain_wrapper, alike, checked]
    refine ⟨rfl, leads.ask keyed ⟨sound.proxies, sound.enums⟩ ?_ fun other differs => ?_⟩
    · rw [isFirst, symbol?_wrapper, alike, checked]
      exact List.lookup_cons_self.trans (congrArg some given)
    · exact (lookup_give differs).trans (by rw [same])

end Wrapper

theorem sinceClear_append (requests : List NameRequest) (r : NameRequest) :
    sinceClear (requests ++ [r]) = follow (sinceClear requests) r := by
  simp [sinceClear]

theorem mem_of_mem_sinceClear : ∀ q ∈ sinceClear requests, q ∈ requests := by
  induction requests using List.reverseRecOn with
  | nil => intro q listed; cases listed
  | append_singleton earlier r ih =>
    intro q listed
    rw [sinceClear_append] at listed
    cases r with
    | clear => cases listed
    | _ =>
      rcases List.mem_append.mp listed with before | last
      · exact List.mem_append_left _ (ih q before)
      · exact List.mem_append_right _ last

theorem step (identifies : Identifies known) (isKnown : ∀ s ∈ r.sites, known s)
    (before : ∀ q ∈ since, ∀ s ∈ q.sites, known s) (leads : Leads config known since cache) :
    Steps config known since cache r := by
  cases r with
  | wrapper c codes =>
    cases filed : c.symbol.checkKey with
    | error cause => exact step_unfiled filed leads
    | ok => exact step_filed identifies isKnown before filed leads
  | clear => exact ⟨rfl, .start⟩
  | proxy | classPointer | enumPart | enumTag | enumType => exact step_isOfSite identifies rfl isKnown leads

theorem leads_after (identifies : Identifies known) (isKnown : ∀ q ∈ requests, ∀ s ∈ q.sites, known s) :
    Leads config known (sinceClear requests) (NameCache.after config requests) := by
  induction requests using List.reverseRecOn with
  | nil => exact .start
  | append_singleton earlier r ih =>
    have before : ∀ q ∈ earlier, ∀ s ∈ q.sites, known s := fun q listed => isKnown q (List.mem_append_left _ listed)
    have here : ∀ s ∈ r.sites, known s := isKnown r (List.mem_append_right _ List.mem_cons_self)
    have stepped := step identifies here (fun q listed => before q (mem_of_mem_sinceClear q listed)) (ih before)
    rw [sinceClear_append, NameCache.after, List.foldl_append]
    exact stepped.2

/-- Every request is answered like the first one with its key since all names were forgotten, without a cache. -/
theorem answer_eq (identifies : Identifies known) {earlier : List NameRequest}
    (before : ∀ q ∈ earlier, ∀ s ∈ q.sites, known s) (here : ∀ s ∈ r.sites, known s) :
    (r.answer config (NameCache.after config earlier)).1 = (r.origin (sinceClear earlier)).plain config :=
  (step identifies here (fun q listed => before q (mem_of_mem_sinceClear q listed)) (leads_after identifies before)).1

end NameRequest

end FlatAbi
