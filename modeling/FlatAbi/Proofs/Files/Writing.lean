import FlatAbi.Proofs.Files.Drafts

/-!
Making directories and writing files. Work that is done again finds what it needs and changes nothing.
-/

namespace FlatAbi

open List Text

variable {onlyIfChanged makeParents : Bool} {step : FileTree → Except FileFault FileTree}

namespace Text

theorem carriageReturn_not_mem (cs : List Char) : '\r' ∉ unixLines cs := by
  fun_induction unixLines cs with
  | case1 => simp
  | case2 cs ih => simpa using ih
  | case3 c cs _ ih =>
    simp only [mem_cons, ih, or_false]
    split
    · decide
    next other =>
      rintro rfl
      exact other rfl

theorem unixLines_of_not_mem {cs : List Char} (plain : '\r' ∉ cs) : unixLines cs = cs := by
  fun_induction unixLines cs with
  | case1 => rfl
  | case2 cs ih => simp at plain
  | case3 c cs _ ih =>
    simp only [mem_cons, not_or] at plain
    have other : (c == '\r') = false := by simpa using Ne.symm plain.1
    simp [other, ih plain.2]

@[simp] theorem normalizeNewlines_normalizeNewlines (s : String) :
    normalizeNewlines (normalizeNewlines s) = normalizeNewlines s := by
  simp [normalizeNewlines, unixLines_of_not_mem (carriageReturn_not_mem s.toList)]

end Text

namespace FileTree

variable {tree before middle after : FileTree} {route : Route} {parts : List String} {places : List Path}
  {text : String}

/-! ### Directories -/

theorem makeOne_of_isDirectory (found : tree.isDirectory route) : tree.makeOne route = .error .exists := by
  obtain ⟨goal, led, entry⟩ := isDirectory_iff.mp found
  unfold makeOne
  rw [led]
  cases goal with
  | unnamed => rfl
  | named place =>
    change (if (tree.find? place).isSome then _ else _) = _
    rw [show tree.find? place = _ from entry]
    rfl

theorem makeIfAbsent_of_isDirectory (found : tree.isDirectory route) : tree.makeIfAbsent route = .ok tree := by
  simp [makeIfAbsent, makeOne_of_isDirectory found, found]

/-- A directory on the way of a route is new. -/
def NewOn (route : Route) (before after : FileTree) (path : Path) : Prop :=
  before.find? path = none ∧ after.find? path = some .directory ∧
    ∃ front, front <+: route.parts ∧ path.normal = ({ route with parts := front } : Route).place.normal

/-- Directories on the way of a route are new, and all else is as it was. -/
def Paves (route : Route) (before after : FileTree) : Prop :=
  ∀ path, after.find? path = before.find? path ∨ NewOn route before after path

namespace Paves

theorem refl (route : Route) (tree : FileTree) : Paves route tree tree :=
  fun _ => .inl rfl

theorem trans (first : Paves route before middle) (second : Paves route middle after) : Paves route before after := by
  intro path
  rcases first path with same | ⟨absent, made, on⟩
  · simpa only [NewOn, same] using second path
  · rcases second path with same | ⟨impossible, _⟩
    · exact .inr ⟨absent, same.trans made, on⟩
    · rw [made] at impossible
      cases impossible

theorem mono (front : parts <+: route.parts) (paves : Paves { route with parts } before after) :
    Paves route before after := by
  intro path
  rcases paves path with same | ⟨absent, made, first, short, place⟩
  · exact .inl same
  · exact .inr ⟨absent, made, first, short.trans front, place⟩

theorem grows (paves : Paves route before after) : Grows [] before after where
  directories path found := by
    rcases paves path with same | ⟨absent, _⟩
    · rw [same, found]
    · rw [found] at absent
      cases absent
  others path _ := (paves path).imp_right fun new => ⟨new.1, new.2.1⟩

end Paves

theorem makeOne_ok (made : tree.makeOne route = .ok after) : Paves route tree after ∧ after.isDirectory route := by
  unfold makeOne at made
  obtain ⟨goal, led, made⟩ := bind_eq_ok made
  cases goal with
  | unnamed => cases made
  | named place =>
    obtain ⟨rfl, inside⟩ := target_named led
    simp only at made
    split at made
    · cases made
    next absent =>
      cases made
      have paves : Paves route tree (tree.put route.place .directory) := by
        intro path
        rw [NewOn, find?_put inside]
        split
        next same =>
          refine .inr ⟨?_, rfl, route.parts, prefix_rfl, same⟩
          rw [← find?_normal, same, find?_normal]
          simpa using absent
        · exact .inl rfl
      exact ⟨paves, by simp [isDirectory, paves.grows.target led, entryAt, find?_put inside]⟩

theorem makeIfAbsent_ok (made : tree.makeIfAbsent route = .ok after) :
    Paves route tree after ∧ after.isDirectory route := by
  unfold makeIfAbsent at made
  split at made
  next new =>
    cases made
    exact makeOne_ok new
  · split at made
    next there =>
      cases made
      rw [Bool.and_eq_true] at there
      exact ⟨.refl route tree, there.2⟩
    · cases made

theorem isDirectory_start (tree : FileTree) (start : Path) : tree.isDirectory { start, parts := [] } := by
  by_cases root : start = .root
  · rw [root]
    rfl
  · simp [isDirectory, target, checkText, checkCharacters, Route.text, root]
    rfl

theorem checkCharacters_eq_ok_iff : checkCharacters route = .ok () ↔
    ∀ part ∈ route.parts, Units.isEncodable part ∧ '\x00' ∉ part.toList := by
  unfold checkCharacters
  grind

theorem utf8ByteSize_join_le (separator : String) (pieces : List String) (last : String) :
    (join separator pieces).utf8ByteSize ≤ (join separator (pieces ++ [last])).utf8ByteSize := by
  induction pieces with
  | nil => simp [join]
  | cons piece rest ih =>
    cases rest with
    | nil =>
      simp only [join, cons_append, nil_append, String.utf8ByteSize_append]
      omega
    | cons next rest =>
      simp only [join, cons_append, String.utf8ByteSize_append] at ih ⊢
      omega

theorem checkText_parent {name : String} (whole : route.parts = route.parent.parts ++ [name])
    (checked : checkText route = .ok ()) : checkText route.parent = .ok () := by
  unfold checkText at checked ⊢
  obtain ⟨_, characters, limit⟩ := bind_eq_ok checked
  have above : checkCharacters route.parent = .ok () :=
    checkCharacters_eq_ok_iff.mpr fun part listed =>
      checkCharacters_eq_ok_iff.mp characters part (dropLast_subset _ listed)
  have shorter := utf8ByteSize_join_le "/" route.parent.parts name
  rw [← whole] at shorter
  split at limit
  · cases limit
  next fits =>
    rw [above]
    refine if_neg fun long => fits (Nat.lt_of_lt_of_le long ?_)
    simp only [Route.text, String.utf8ByteSize_append]
    exact Nat.add_le_add_left shorter _

theorem isDirectory_of_follow {found : Path} (checked : checkText route = .ok ())
    (followed : tree.follow route.start route.parts = .ok found) : tree.isDirectory route := by
  rcases eq_nil_or_concat route.parts with start | ⟨front, name, whole⟩
  · rw [show route = { start := route.start, parts := [] } by rw [← start]]
    exact isDirectory_start tree route.start
  · rw [concat_eq_append] at whole
    rw [whole] at followed
    obtain ⟨above, reached, last⟩ := follow_append_eq_ok_iff.mp followed
    obtain ⟨rfl, _⟩ | ⟨forward, fits, entry, _⟩ := follow_cons_eq_ok_iff.mp last
    · simp only [isDirectory, target, checked, whole, getLast?_concat, beq_self_eq_true, if_true, followed, bind,
        Except.bind]
      rfl
    · have led : tree.target route = .ok (.named (above.entry name)) :=
        target_eq_named_iff.mpr ⟨above, name, checked, by simp [Route.parent, whole], forward,
          by simpa [Route.parent, whole] using reached, fits, rfl⟩
      simp [isDirectory, led, entryAt, entry]

theorem isDirectory_parent {place : Path} (found : tree.target route = .ok (.named place)) :
    tree.isDirectory route.parent := by
  obtain ⟨_, _, checked, whole, _, followed, _⟩ := target_eq_named_iff.mp found
  exact isDirectory_of_follow (checkText_parent whole checked) followed

/-! ### Texts of files -/

theorem content_eq_ok_iff : tree.content route = .ok text ↔
    ∃ goal, tree.target route = .ok goal ∧ tree.entryAt goal = some (.file text) := by
  unfold content
  constructor
  · intro ok
    obtain ⟨goal, led, ok⟩ := bind_eq_ok ok
    refine ⟨goal, led, ?_⟩
    split at ok
    next found =>
      cases ok
      exact found
    · cases ok
    · cases ok
  · rintro ⟨goal, led, found⟩
    simp only [led, bind, Except.bind, found]
    rfl

theorem Grows.content (grows : Grows places before after) (apart : route.place.normal ∉ places)
    (held : before.content route = .ok text) : after.content route = .ok text := by
  obtain ⟨goal, led, found⟩ := content_eq_ok_iff.mp held
  refine content_eq_ok_iff.mpr ⟨goal, grows.target led, ?_⟩
  cases goal with
  | unnamed => cases found
  | named place =>
    obtain ⟨rfl, _⟩ := target_named led
    exact grows.file apart found

theorem holds_eq_true_iff : tree.holds route text = .ok true ↔
    ∃ old, tree.content route = .ok old ∧ Text.normalizeNewlines old = text := by
  unfold holds
  cases tree.content route with
  | ok old => simp
  | error fault => cases fault <;> simp

theorem Grows.holds (grows : Grows places before after) (apart : route.place.normal ∉ places)
    (held : before.holds route text = .ok true) : after.holds route text = .ok true := by
  obtain ⟨old, found, same⟩ := holds_eq_true_iff.mp held
  exact holds_eq_true_iff.mpr ⟨old, grows.content apart found, same⟩

theorem Replaces.grows (replaces : Replaces route text tree after) :
    Grows [route.place.normal] tree after ∧ after.content route = .ok text := by
  obtain ⟨_, ⟨led, file⟩, rfl⟩ := replaces
  obtain ⟨_, inside⟩ := target_named led
  have grows : Grows [route.place.normal] tree (tree.put route.place (.file text)) := .put inside (.file text) file
  refine ⟨grows, content_eq_ok_iff.mpr ⟨_, grows.target led, ?_⟩⟩
  simp [entryAt, find?_put inside]

end FileTree

namespace FileWork

open FileTree

variable {tree after : FileTree} {route : Route} {path : Path} {text : String}

/-! ### Work on files -/

variable {parts : List String}

theorem isDirectory_of_ensureFrom (completes : Completes (ensureFrom route parts) tree () after) :
    after.isDirectory { route with parts := parts.reverse } := by
  cases parts with
  | nil => exact isDirectory_start after route.start
  | cons part above =>
    unfold ensureFrom at completes
    rw [completes_get_bind_iff] at completes
    split at completes
    · obtain ⟨_, _, _, completes⟩ := completes_bind_iff.mp completes
      exact (makeIfAbsent_ok (completes_change_iff.mp completes)).2
    · exact (makeIfAbsent_ok (completes_change_iff.mp completes)).2

theorem paves_change (front : parts <+: route.parts) (cause : Route)
    (steps : ∀ {after}, step tree = .ok after → Paves { route with parts } tree after) :
    Paves route tree ((change cause step).run.run tree).2 := by
  rw [run_change]
  cases stepped : step tree with
  | ok after => exact (steps stepped).mono front
  | error fault => exact .refl route tree

theorem paves_ensureFrom (front : parts.reverse <+: route.parts) (tree : FileTree) :
    Paves route tree ((ensureFrom route parts).run.run tree).2 := by
  induction parts with
  | nil => exact .refl route tree
  | cons part above ih =>
    have first : above.reverse <+: route.parts := by
      rw [reverse_cons] at front
      exact (prefix_append _ _).trans front
    unfold ensureFrom
    rw [run_get_bind]
    split
    · have paved := ih first
      rw [run_bind]
      split
      next middle ensured =>
        rw [ensured] at paved
        exact paved.trans (paves_change front route fun made => (makeIfAbsent_ok made).1)
      next ensured =>
        rw [ensured] at paved
        exact paved
    · exact paves_change front route fun made => (makeIfAbsent_ok made).1

theorem paves_ensureDirectory (route : Route) (tree : FileTree) :
    Paves route tree ((ensureDirectory route).run.run tree).2 :=
  paves_ensureFrom (by simp) tree

theorem grows_of_ensureDirectory (completes : Completes (ensureDirectory route) tree () after) :
    Grows [] tree after ∧ after.isDirectory route := by
  have made := isDirectory_of_ensureFrom completes
  rw [reverse_reverse] at made
  have paves := paves_ensureDirectory route tree
  rw [completes] at paves
  exact ⟨paves.grows, made⟩

theorem ensureDirectory_idle (found : tree.isDirectory route) : Completes (ensureDirectory route) tree () tree := by
  unfold ensureDirectory
  cases parts : route.parts.reverse with
  | nil => rfl
  | cons part above =>
    unfold ensureFrom
    rw [completes_get_bind_iff]
    have here : { route with parts := (part :: above).reverse } = route := by
      rw [← parts, reverse_reverse]
    rw [here, makeIfAbsent_of_isDirectory found]
    exact completes_change_iff.mpr rfl

/-- Directories on the way to a file are made if they are wanted and missing. -/
structure Prepares (route : Route) (makeParents : Bool) (before after : FileTree) : Prop where
  paves : Paves route.parent before after
  idle : makeParents = false ∨ before.isDirectory route.parent → after = before

/-- How a write ends once the directories are there: with a failure, with the file left as it is, or with a new text. -/
inductive Settles (route : Route) (text : String) (onlyIfChanged : Bool) (made : FileTree) :
    Except FileError Bool → FileTree → Prop
  | failed (cause : FileError) : Settles route text onlyIfChanged made (.error cause) made
  | kept (asked : onlyIfChanged) (held : made.holds route text = .ok true) :
      Settles route text onlyIfChanged made (.ok false) made
  | written {after : FileTree} (other : onlyIfChanged → made.holds route text = .ok false)
      (replaced : Replaces route text made after) : Settles route text onlyIfChanged made (.ok true) after

/-- The end of a write, when the directories are there. -/
def settle (route : Route) (text : String) (onlyIfChanged : Bool) : FileWork Bool := do
  let unchanged ← if onlyIfChanged then ask route fun tree => tree.holds route text else pure false
  if unchanged then return false
  replace route text
  return true

variable {outcome : Except FileError Bool}

theorem replace_settles (other : onlyIfChanged → tree.holds route text = .ok false)
    (ran : (settle route text false).run.run tree = (outcome, after)) :
    Settles route text onlyIfChanged tree outcome after := by
  change (replace route text >>= fun _ => pure true).run.run tree = _ at ran
  rw [run_bind] at ran
  rcases replaced : (replace route text).run.run tree with ⟨result, middle⟩
  rw [replaced] at ran
  rcases replace_cases replaced with ⟨⟨cause, rfl⟩, rfl⟩ | ⟨rfl, replaces⟩
  · cases ran
    exact .failed cause
  · cases ran
    exact .written other replaces

theorem settle_cases (ran : (settle route text onlyIfChanged).run.run tree = (outcome, after)) :
    Settles route text onlyIfChanged tree outcome after := by
  cases onlyIfChanged with
  | false => exact replace_settles nofun ran
  | true =>
    cases held : tree.holds route text with
    | error fault =>
      simp only [settle, if_true, run_bind, run_ask, held] at ran
      cases ran
      exact .failed _
    | ok unchanged =>
      simp only [settle, if_true, run_bind, run_ask, held, Except.mapError] at ran
      cases unchanged with
      | true =>
        cases ran
        exact .kept rfl held
      | false => exact replace_settles (fun _ => held) ran

variable {content : String}

theorem write_settles (ran : (write route content makeParents onlyIfChanged).run.run tree = (outcome, after)) :
    ∃ made, Prepares route makeParents tree made ∧
      Settles route (Text.normalizeNewlines content) onlyIfChanged made outcome after := by
  cases makeParents with
  | false => exact ⟨tree, ⟨.refl _ tree, fun _ => rfl⟩, settle_cases ran⟩
  | true =>
    have paves := paves_ensureDirectory route.parent tree
    change (ensureDirectory route.parent >>= fun _ => settle route (Text.normalizeNewlines content)
      onlyIfChanged).run.run tree = _ at ran
    rw [run_bind] at ran
    cases ensured : (ensureDirectory route.parent).run.run tree with
    | mk outcome made =>
      rw [ensured] at ran paves
      have prepares : Prepares route true tree made := by
        refine ⟨paves, ?_⟩
        rintro (impossible | found)
        · cases impossible
        · have idle := ensureDirectory_idle found
          rw [Completes, ensured] at idle
          exact congrArg Prod.snd idle
      refine ⟨made, prepares, ?_⟩
      cases outcome with
      | error cause =>
        cases ran
        exact .failed cause
      | ok => exact settle_cases ran

theorem Settles.holds {written : Bool}
    (settles : Settles route (Text.normalizeNewlines content) onlyIfChanged tree (.ok written) after) :
    after.holds route (Text.normalizeNewlines content) = .ok true := by
  cases settles with
  | kept asked held => exact held
  | written other replaced =>
    exact holds_eq_true_iff.mpr ⟨_, replaced.grows.2, normalizeNewlines_normalizeNewlines content⟩

theorem grows_of_write {written : Bool}
    (completes : Completes (write route content makeParents onlyIfChanged) tree written after) :
    Grows [route.place.normal] tree after ∧ after.holds route (Text.normalizeNewlines content) = .ok true := by
  obtain ⟨made, prepares, settles⟩ := write_settles completes
  refine ⟨?_, settles.holds⟩
  cases settles with
  | kept => exact prepares.paves.grows.mono (by simp)
  | written other replaced => exact prepares.paves.grows.trans replaced.grows.1

theorem isDirectory_parent_of_holds (held : tree.holds route text = .ok true) : tree.isDirectory route.parent := by
  obtain ⟨old, found, _⟩ := holds_eq_true_iff.mp held
  obtain ⟨goal, led, entry⟩ := content_eq_ok_iff.mp found
  cases goal with
  | unnamed => cases entry
  | named place => exact isDirectory_parent led

theorem write_idle (makeParents : Bool) (held : tree.holds route (Text.normalizeNewlines content) = .ok true) :
    Completes (write route content makeParents true) tree false tree := by
  have settled : Completes (settle route (Text.normalizeNewlines content) true) tree false tree :=
    completes_bind_iff.mpr ⟨true, tree, completes_ask_iff.mpr ⟨held, rfl⟩, completes_pure_iff.mpr ⟨rfl, rfl⟩⟩
  cases makeParents with
  | false => exact settled
  | true => exact completes_bind_iff.mpr ⟨(), tree, ensureDirectory_idle (isDirectory_parent_of_holds held), settled⟩

/-! ### Several files -/

/-- Files are written one after the other. -/
inductive WritesAll : List (Path × String) → FileTree → FileTree → Prop
  | nil {tree : FileTree} : WritesAll [] tree tree
  | cons {path : Path} {text : String} {rest : List (Path × String)} {before middle after : FileTree} (written : Bool)
      (first : Completes (write (Route.ofPath path) text true true) before written middle)
      (more : WritesAll rest middle after) : WritesAll ((path, text) :: rest) before after

/-- The file is there with its directory and its text. -/
def InPlace (tree : FileTree) (output : Path × String) : Prop :=
  tree.isDirectory (Route.ofPath output.1.parent) ∧
    tree.holds (Route.ofPath output.1) (Text.normalizeNewlines output.2) = .ok true

variable {outputs : List (Path × String)}

theorem WritesAll.grows (writes : WritesAll outputs tree after) : Grows (outputs.map (·.1.normal)) tree after := by
  induction writes with
  | nil => exact .refl [] _
  | cons written first more ih => exact .trans (by simpa using (grows_of_write first).1) ih

theorem WritesAll.inPlace (writes : WritesAll outputs tree after) (apart : (outputs.map (·.1.normal)).Nodup) :
    ∀ output ∈ outputs, InPlace after output := by
  induction writes with
  | nil => simp
  | cons written first more ih =>
    rw [map_cons, nodup_cons] at apart
    intro output listed
    rcases mem_cons.mp listed with rfl | later
    · have held := more.grows.holds (by simpa using apart.1) (grows_of_write first).2
      exact ⟨isDirectory_parent_of_holds held, held⟩
    · exact ih apart.2 output later

theorem writesAll_idle (placed : ∀ output ∈ outputs, InPlace tree output) : WritesAll outputs tree tree := by
  induction outputs with
  | nil => exact .nil
  | cons output rest ih =>
    obtain ⟨_, held⟩ := placed output (by simp)
    exact .cons false (write_idle true held) (ih fun other later => placed other (by simp [later]))

end FileWork

end FlatAbi
