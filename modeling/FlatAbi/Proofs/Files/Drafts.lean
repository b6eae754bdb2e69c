import FlatAbi.Proofs.Files.Growth

/-!
Drafts of files. Whatever fails while a file is replaced, its draft is gone afterwards and nothing else was touched.
-/

namespace FlatAbi

variable {tree middle after : FileTree} {route : Route} {path draft place : Path} {text : String}

namespace FileTree

theorem remove_put (tree : FileTree) (path : Path) (entry : Entry) :
    (tree.put path entry).remove path = tree.remove path :=
  congrArg FileTree.mk (dropEntry_setEntry _ _ _)

theorem remove_of_find? (absent : tree.find? path = none) : tree.remove path = tree := by
  unfold find? at absent
  split at absent
  · cases absent
  · exact congrArg FileTree.mk (dropEntry_of_lookup absent)

/-- The draft is a file where nothing was, and all else is as it was. -/
structure Drafted (draft : Path) (before middle : FileTree) : Prop where
  removed : middle.remove draft = before
  others : ∀ path, path.normal ≠ draft.normal → middle.find? path = before.find? path
  file : ∃ text, middle.find? draft = some (.file text)
  absent : before.find? draft = none

theorem inside_of_find? (absent : tree.find? path = none) : path.normal ≠ .root := by
  intro root
  simp [find?, root] at absent

namespace Drafted

theorem put (absent : tree.find? draft = none) (text : String) : Drafted draft tree (tree.put draft (.file text)) where
  removed := by rw [remove_put, remove_of_find? absent]
  others path other := by rw [find?_put (inside_of_find? absent), if_neg other]
  file := ⟨text, by simp [find?_put (inside_of_find? absent)]⟩
  absent := absent

theorem put_again (drafted : Drafted draft tree middle) (text : String) :
    Drafted draft tree (middle.put draft (.file text)) where
  removed := by rw [remove_put, drafted.removed]
  others path other := by rw [find?_put (inside_of_find? drafted.absent), if_neg other, drafted.others path other]
  file := ⟨text, by simp [find?_put (inside_of_find? drafted.absent)]⟩
  absent := drafted.absent

/-- A draft is no directory, so it leads nowhere and hides nothing. -/
theorem directory_iff (drafted : Drafted draft tree middle) (path : Path) :
    middle.find? path = some .directory ↔ tree.find? path = some .directory := by
  by_cases same : path.normal = draft.normal
  · obtain ⟨text, file⟩ := drafted.file
    rw [← find?_normal, same, find?_normal, file, ← find?_normal tree path, same, find?_normal, drafted.absent]
    simp
  · rw [drafted.others path same]

theorem target_iff (drafted : Drafted draft tree middle) {goal : Target} :
    middle.target route = .ok goal ↔ tree.target route = .ok goal :=
  ⟨target_mono fun path => (drafted.directory_iff path).mp, target_mono fun path => (drafted.directory_iff path).mpr⟩

end Drafted

theorem filePlace_eq_ok_iff {unnamed : FileFault} : tree.filePlace unnamed route = .ok place ↔
    tree.target route = .ok (.named place) ∧ tree.find? place ≠ some .directory := by
  unfold filePlace
  constructor
  · intro found
    obtain ⟨goal, led, found⟩ := bind_eq_ok found
    cases goal with
    | unnamed => cases found
    | named other =>
      simp only at found
      split at found
      · cases found
      next file =>
        cases found
        exact ⟨led, file⟩
  · rintro ⟨led, file⟩
    simp only [led, bind, Except.bind, if_neg file]
    rfl

theorem find?_freePlace {directory : Path} {name : String} {tries : Nat}
    (free : tree.freePlace? directory name tries = some place) : tree.find? place = none := by
  induction tries with
  | zero => cases free
  | succ number ih =>
    simp only [freePlace?] at free
    split at free
    next absent =>
      cases free
      simpa using absent
    · exact ih free

theorem exists_freePlace {directory : Path} {name : String} {number tries : Nat} (tried : number < tries)
    (free : tree.find? (directory.entry (draftName name number)) = none) :
    ∃ place, tree.freePlace? directory name tries = some place := by
  induction tries with
  | zero => cases tried
  | succ last ih =>
    simp only [freePlace?]
    split
    · exact ⟨_, rfl⟩
    next taken =>
      rcases Nat.lt_succ_iff_lt_or_eq.mp tried with earlier | rfl
      · exact ih earlier
      · simp [free] at taken

theorem find?_draftPlace (found : tree.draftPlace route = .ok draft) : tree.find? draft = none := by
  obtain ⟨_, _, found⟩ := bind_eq_ok found
  obtain ⟨directory, _, found⟩ := bind_eq_ok found
  simp only at found
  split at found
  · cases found
  · split at found
    next free =>
      cases found
      exact find?_freePlace free
    · cases found

/-- A route names a place where a file is or can be. -/
def TakesFile (tree : FileTree) (route : Route) : Prop :=
  tree.target route = .ok (.named route.place) ∧ tree.find? route.place ≠ some .directory

/-- The file that a route names has got a text, and all else is as it was. -/
def Replaces (route : Route) (text : String) (before after : FileTree) : Prop :=
  Text.Units.isEncodable text ∧ before.TakesFile route ∧ after = before.put route.place (.file text)

theorem Drafted.rename_eq_ok_iff (drafted : Drafted draft tree middle) (file : middle.find? draft = some (.file text)) :
    middle.rename draft route = .ok after ↔ tree.TakesFile route ∧ after = tree.put route.place (.file text) := by
  have moved (place : Path) : middle.filePlace .busy route = .ok place ↔
      tree.target route = .ok (.named place) ∧ tree.find? place ≠ some .directory :=
    filePlace_eq_ok_iff.trans (and_congr drafted.target_iff (not_congr (drafted.directory_iff place)))
  unfold rename
  constructor
  · intro renamed
    obtain ⟨place, found, renamed⟩ := bind_eq_ok renamed
    obtain ⟨led, free⟩ := (moved place).mp found
    obtain ⟨rfl, _⟩ := target_named led
    rw [file, drafted.removed] at renamed
    cases renamed
    exact ⟨⟨led, free⟩, rfl⟩
  · rintro ⟨takes, rfl⟩
    simp only [(moved route.place).mpr takes, bind, Except.bind, file, drafted.removed]
    rfl

end FileTree

namespace FileWork

open FileTree

variable {step : FileTree → Except FileFault FileTree}

theorem run_ask {α : Type} (question : FileTree → Except FileFault α) :
    (ask route question).run.run tree = ((question tree).mapError fun fault => ⟨fault, route.path⟩, tree) := by
  rw [ask, run_get_bind]
  cases question tree <;> rfl

theorem run_change (step : FileTree → Except FileFault FileTree) :
    (change route step).run.run tree = match step tree with
      | .ok after => (.ok (), after)
      | .error fault => (.error ⟨fault, route.path⟩, tree) := by
  rw [change, run_bind, run_ask]
  cases step tree <;> rfl

theorem completes_ask_iff {α : Type} {question : FileTree → Except FileFault α} {answer : α} :
    Completes (ask route question) tree answer after ↔ question tree = .ok answer ∧ after = tree := by
  rw [Completes, run_ask]
  cases question tree <;> grind [Except.mapError]

theorem completes_change_iff : Completes (change route step) tree () after ↔ step tree = .ok after := by
  rw [Completes, run_change]
  cases step tree <;> grind

theorem run_withDraft (work : FileWork Unit) : (withDraft draft work).run.run tree =
    match work.run.run (tree.put draft (.file "")) with
    | (.ok (), middle) => (.ok (), middle)
    | (.error cause, middle) => (.error cause, middle.remove draft) := by
  rw [withDraft, run_bind]
  refine run_tryCatch.trans ?_
  rcases work.run.run (tree.put draft (.file "")) with ⟨_ | _, _⟩ <;> rfl

/-- Work that fails with only its draft to show for it leaves nothing, wherever it fails. -/
theorem withDraft_cases {work : FileWork Unit} {outcome : Except FileError Unit}
    (fails : ∀ {cause middle}, work.run.run (tree.put draft (.file "")) = (.error cause, middle) →
      Drafted draft tree middle)
    (ran : (withDraft draft work).run.run tree = (outcome, after)) :
    (∃ cause, outcome = .error cause) ∧ after = tree ∨
      outcome = .ok () ∧ work.run.run (tree.put draft (.file "")) = (.ok (), after) := by
  rw [run_withDraft] at ran
  rcases worked : work.run.run (tree.put draft (.file "")) with ⟨result, middle⟩
  rw [worked] at ran
  cases result with
  | ok =>
    cases ran
    exact .inr ⟨rfl, rfl⟩
  | error cause =>
    cases ran
    exact .inl ⟨⟨cause, rfl⟩, (fails worked).removed⟩

theorem file_filled (absent : tree.find? draft = none) (text : String) :
    ((tree.put draft (.file "")).put draft (.file text)).find? draft = some (.file text) := by
  simp [find?_put (inside_of_find? absent)]

/-- The draft gets its text and is moved to the place of the file, or it stays a draft. -/
theorem moved_cases (absent : tree.find? draft = none) {outcome : Except FileError Unit}
    (ran : (change route (·.fill draft text) >>= fun _ => change route (·.rename draft route)).run.run
      (tree.put draft (.file "")) = (outcome, after)) :
    (∃ cause, outcome = .error cause) ∧ Drafted draft tree after ∨
      outcome = .ok () ∧ Replaces route text tree after := by
  have drafted := Drafted.put absent ""
  simp only [run_bind, run_change, fill] at ran
  by_cases encodable : Text.Units.isEncodable text
  · simp only [if_pos encodable] at ran
    have filled := drafted.put_again text
    cases renamed : ((tree.put draft (.file "")).put draft (.file text)).rename draft route with
    | error fault =>
      rw [renamed] at ran
      cases ran
      exact .inl ⟨⟨_, rfl⟩, filled⟩
    | ok moved =>
      rw [renamed] at ran
      cases ran
      exact .inr ⟨rfl, encodable, (filled.rename_eq_ok_iff (file_filled absent text)).mp renamed⟩
  · simp only [if_neg encodable] at ran
    cases ran
    exact .inl ⟨⟨_, rfl⟩, drafted⟩

theorem replace_cases {outcome : Except FileError Unit}
    (ran : (replace route text).run.run tree = (outcome, after)) :
    (∃ cause, outcome = .error cause) ∧ after = tree ∨ outcome = .ok () ∧ Replaces route text tree after := by
  unfold replace at ran
  rw [run_bind, run_ask] at ran
  cases placed : tree.draftPlace route with
  | error fault =>
    rw [placed] at ran
    cases ran
    exact .inl ⟨⟨_, rfl⟩, rfl⟩
  | ok draft =>
    rw [placed] at ran
    have absent := find?_draftPlace placed
    have fails {cause middle} (failed : _ = (Except.error cause, middle)) : Drafted draft tree middle :=
      (@moved_cases _ _ route _ text absent _ failed).elim (·.2) fun impossible => by cases impossible.1
    rcases withDraft_cases fails ran with failed | ⟨rfl, worked⟩
    · exact .inl failed
    · exact (moved_cases absent worked).imp_left fun impossible => by cases impossible.1.choose_spec

theorem replace_completes (placed : tree.draftPlace route = .ok draft) (encodable : Text.Units.isEncodable text)
    (takes : tree.TakesFile route) : Completes (replace route text) tree () (tree.put route.place (.file text)) := by
  have absent := find?_draftPlace placed
  have filled := (Drafted.put absent "").put_again text
  have renamed := (filled.rename_eq_ok_iff (file_filled absent text)).mpr ⟨takes, rfl⟩
  refine completes_bind_iff.mpr ⟨draft, tree, completes_ask_iff.mpr ⟨placed, rfl⟩, ?_⟩
  have worked : Completes (change route (·.fill draft text) >>= fun _ => change route (·.rename draft route))
      (tree.put draft (.file "")) () (tree.put route.place (.file text)) :=
    completes_bind_iff.mpr ⟨(), _, completes_change_iff.mpr (if_pos encodable), completes_change_iff.mpr renamed⟩
  rw [Completes, run_withDraft, worked]

end FileWork

end FlatAbi
