import FlatAbi.Proofs.Files.Writing

/-!
Writes that are whole or not at all, with no draft left of them. Directories that were made on the way to the file stay
in any case.
-/

namespace FlatAbi.FileWork

open FileTree FlatAbi.Path List Text

variable {tree made after : FileTree} {route : Route} {text : String} {makeParents onlyIfChanged : Bool}

/-- The file that a route names holds the text, with any line ends. -/
def HasText (tree : FileTree) (route : Route) (text : String) : Prop :=
  ∃ old, tree.find? route.place = some (.file old) ∧ normalizeNewlines old = text

theorem holds_iff_hasText (led : tree.target route = .ok (.named route.place)) :
    tree.holds route text = .ok true ↔ HasText tree route text := by
  simp only [holds_eq_true_iff, content_eq_ok_iff, led, HasText, Except.ok.injEq, exists_eq_left', entryAt]

theorem hasText_of_holds (held : tree.holds route text = .ok true) :
    tree.target route = .ok (.named route.place) ∧ HasText tree route text := by
  obtain ⟨old, content, _⟩ := holds_eq_true_iff.mp held
  obtain ⟨goal, led, found⟩ := content_eq_ok_iff.mp content
  cases goal with
  | unnamed => cases found
  | named place =>
    obtain ⟨rfl, _⟩ := target_named led
    exact ⟨led, (holds_iff_hasText led).mp held⟩

theorem Prepares.hasText_iff (prepares : Prepares route makeParents tree made) :
    HasText made route text ↔ HasText tree route text := by
  have grows := prepares.paves.grows
  constructor
  · rintro ⟨old, found, same⟩
    exact ⟨old, grows.file_before not_mem_nil found, same⟩
  · rintro ⟨old, found, same⟩
    exact ⟨old, grows.file not_mem_nil found, same⟩

/-- A path without `..` leads to the file that is there through directories that are there. -/
theorem Prepares.unchanged (prepares : Prepares route makeParents tree made) (rooted : tree.Rooted)
    (forward : back ∉ route.path.components) (held : made.holds route text = .ok true) : made = tree := by
  obtain ⟨led, present⟩ := hasText_of_holds held
  obtain ⟨old, found, _⟩ := prepares.hasText_iff.mp present
  obtain ⟨directory, name, checked, whole, _, followed, _, place⟩ := target_eq_named_iff.mp led
  rw [Route.path, whole, ← append_assoc] at forward
  have above : back ∉ route.start.components ++ route.parent.parts :=
    fun listed => forward (mem_append_left _ listed)
  have reached : directory = ⟨route.start.components ++ route.parent.parts⟩ := by
    have same := follow_eq followed
    rw [foldl_step_of_forward _ fun listed => above (mem_append_right _ listed)] at same
    cases directory
    exact congrArg Path.mk same
  subst reached
  rw [place] at found
  have parent := rooted.parent (normal_of_forward forward) found
  simp only [Path.parent, dropLast_concat] at parent
  have before : tree.follow route.start route.parent.parts = .ok ⟨route.start.components ++ route.parent.parts⟩ :=
    rooted.follow [] (by simpa using above) (by simpa using parent) followed
  exact prepares.idle (.inr (isDirectory_of_follow (checkText_parent whole checked) before))

/-- The name of a draft of the file that a route names. -/
def draftOf (route : Route) (number : Nat) : String :=
  draftName (route.parts.getLast?.getD "") number

/-- The route leads from a directory that is there, without `..`, to a place for a file. There is room for a draft, with
a name that is not too long, and the text can be encoded. -/
structure Ready (tree : FileTree) (route : Route) (text : String) : Prop where
  started : tree.follow .root route.start.components = .ok route.start
  forward : back ∉ route.path.components
  takes : tree.TakesFile route
  fits : (draftOf route 0).utf8ByteSize ≤ nameLimit
  room : ∃ number < draftTries, tree.find? (route.place.parent.entry (draftOf route number)) = none
  encodable : Units.isEncodable text

namespace Ready

theorem holds (ready : Ready tree route text) : ∃ held, tree.holds route text = .ok held := by
  unfold FileTree.holds FileTree.content
  simp only [ready.takes.1, bind, Except.bind, entryAt]
  cases entry : tree.find? route.place with
  | none => exact ⟨false, rfl⟩
  | some kind =>
    cases kind with
    | file old => exact ⟨_, rfl⟩
    | directory => exact absurd entry ready.takes.2

theorem exists_draftPlace (ready : Ready tree route text) : ∃ draft, tree.draftPlace route = .ok draft := by
  obtain ⟨directory, name, checked, whole, _, followed, _, place⟩ := target_eq_named_iff.mp ready.takes.1
  have above : back ∉ route.parent.path.components := by
    have forward := ready.forward
    rw [Route.path, whole, ← append_assoc] at forward
    exact fun listed => forward (mem_append_left _ listed)
  have parent : tree.follow .root route.parent.path.normal.components = .ok directory := by
    rw [normal_of_forward above]
    exact follow_append_eq_ok_iff.mpr ⟨route.start, ready.started, followed⟩
  obtain ⟨number, tried, free⟩ := ready.room
  rw [show route.place.parent = directory by simp [place, Path.parent, Path.entry]] at free
  obtain ⟨draft, found⟩ := exists_freePlace tried free
  refine ⟨draft, ?_⟩
  simp only [draftPlace, checked, bind, Except.bind, parent]
  refine (if_neg (Nat.not_lt.mpr ready.fits)).trans ?_
  rw [found]
  rfl

theorem settle_completes (ready : Ready tree route text) (onlyIfChanged : Bool) :
    ∃ written after, Completes (settle route text onlyIfChanged) tree written after := by
  have draft : Completes (settle route text false) tree true (tree.put route.place (.file text)) := by
    refine completes_bind_iff.mpr ⟨false, tree, completes_pure_iff.mpr ⟨rfl, rfl⟩, ?_⟩
    obtain ⟨draft, placed⟩ := ready.exists_draftPlace
    exact completes_bind_iff.mpr ⟨(), _, replace_completes placed ready.encodable ready.takes,
      completes_pure_iff.mpr ⟨rfl, rfl⟩⟩
  cases onlyIfChanged with
  | false => exact ⟨_, _, draft⟩
  | true =>
    obtain ⟨held, asked⟩ := ready.holds
    cases held with
    | true =>
      exact ⟨_, _, completes_bind_iff.mpr ⟨true, tree, completes_ask_iff.mpr ⟨asked, rfl⟩, rfl⟩⟩
    | false => exact ⟨_, _, completes_bind_iff.mpr ⟨false, tree, completes_ask_iff.mpr ⟨asked, rfl⟩, draft⟩⟩

theorem write_completes {content : String} (ready : Ready tree route (normalizeNewlines content))
    (makeParents onlyIfChanged : Bool) :
    ∃ written after, Completes (write route content makeParents onlyIfChanged) tree written after := by
  obtain ⟨written, after, settles⟩ := ready.settle_completes onlyIfChanged
  cases makeParents with
  | false => exact ⟨written, after, settles⟩
  | true =>
    have idle := ensureDirectory_idle (isDirectory_parent ready.takes.1)
    exact ⟨written, after, completes_bind_iff.mpr ⟨(), tree, idle, settles⟩⟩

/-- A new file in the root directory. -/
example : Ready ⟨[]⟩ { parts := ["f"] } "x" :=
  ⟨rfl, by decide, ⟨rfl, by decide⟩, by decide, ⟨0, by decide, rfl⟩, by decide⟩

end Ready

end FlatAbi.FileWork
