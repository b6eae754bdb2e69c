import Mathlib.Data.List.Forall2

/-!
Results of steps that may fail, of such steps over a list, and of work on a state.
-/

namespace FlatAbi

open List

section

variable {ε α β : Type} {f : α → Except ε β} {items : List α} {values : List β} {first : Except ε α}
  {next : α → Except ε β} {result : Except ε α} {value : α}

theorem map_eq_ok_iff {f : α → β} : (∃ value, result.map f = .ok value) ↔ ∃ value, result = .ok value := by
  cases result <;> simp [Except.map]

theorem mapError_eq_ok_iff {ε η α : Type} {f : ε → η} {result : Except ε α} {value : α} :
    result.mapError f = .ok value ↔ result = .ok value := by
  cases result with
  | error cause => constructor <;> intro impossible <;> cases impossible
  | ok other => constructor <;> intro same <;> cases same <;> rfl

theorem eq_ok_of_toOption (found : result.toOption = some value) : result = .ok value := by
  cases result with
  | error cause => cases found
  | ok other => exact congrArg Except.ok (Option.some.inj found)

theorem ok_of_toOption_map {f : α → β} {answer : β} (found : result.toOption.map f = some answer) :
    ∃ value, result = .ok value ∧ f value = answer := by
  obtain ⟨value, same, rfl⟩ := Option.map_eq_some_iff.mp found
  exact ⟨value, eq_ok_of_toOption same, rfl⟩

@[elab_as_elim] theorem of_ok {motive : α → Prop} [DecidablePred motive] (ok : result = .ok value)
    (holds : result.toOption.all fun value => motive value) : motive value := by
  subst ok
  exact of_decide_eq_true holds

theorem exists_ok {P Q : α → Prop} [DecidablePred P] (holds : result.toOption.any fun value => P value)
    (rest : ∀ value, result = .ok value → P value → Q value) : ∃ value, result = .ok value ∧ P value ∧ Q value := by
  obtain ⟨value, found, holds⟩ := (Option.any_eq_true _ _).mp holds
  have ok := eq_ok_of_toOption found
  exact ⟨value, ok, of_decide_eq_true holds, rest value ok (of_decide_eq_true holds)⟩

theorem ok_of_isOk (completes : result.isOk) : ∃ value, result = .ok value := by
  cases result with
  | error cause => cases completes
  | ok value => exact ⟨value, rfl⟩

theorem map_eq_ok {f : α → β} {answer : β} (ok : result.map f = .ok answer) :
    ∃ value, result = .ok value ∧ f value = answer := by
  cases result with
  | error cause => cases ok
  | ok value => exact ⟨value, rfl, Except.ok.inj ok⟩

theorem bind_eq_ok {result : β} (ok : first >>= next = .ok result) :
    ∃ value, first = .ok value ∧ next value = .ok result := by
  cases first with
  | error cause => cases ok
  | ok value => exact ⟨value, rfl, ok⟩

theorem bind_eq_error {cause : ε} (failed : first >>= next = .error cause) :
    first = .error cause ∨ ∃ value, first = .ok value ∧ next value = .error cause := by
  cases first with
  | error found =>
    cases failed
    exact .inl rfl
  | ok value => exact .inr ⟨value, rfl, failed⟩

theorem mapM_congr {f g : α → Except ε β} (same : ∀ item ∈ items, f item = g item) : items.mapM f = items.mapM g := by
  induction items with
  | nil => rfl
  | cons item rest ih =>
    rw [mapM_cons, mapM_cons, same item (by simp), ih fun other member => same other (by simp [member])]

theorem exists_of_mapM_error {cause : ε} (failed : items.mapM f = .error cause) :
    ∃ item ∈ items, f item = .error cause := by
  induction items with
  | nil => cases failed
  | cons item rest ih =>
    rw [mapM_cons] at failed
    rcases bind_eq_error failed with here | ⟨_, _, failed⟩
    · exact ⟨item, by simp, here⟩
    · rcases bind_eq_error failed with later | ⟨_, _, impossible⟩
      · obtain ⟨other, listed, same⟩ := ih later
        exact ⟨other, by simp [listed], same⟩
      · cases impossible

theorem forM_eq_ok_iff {check : α → Except ε Unit} :
    items.forM check = .ok () ↔ ∀ item ∈ items, check item = .ok () := by
  induction items with
  | nil => simp [pure, Except.pure]
  | cons item rest ih =>
    change (check item >>= fun _ => rest.forM check) = .ok () ↔ _
    rw [forall_mem_cons, ← ih]
    cases check item with
    | error cause => simp [bind, Except.bind]
    | ok _ => simp [bind, Except.bind]

theorem forall₂_of_mapM_ok (ok : items.mapM f = .ok values) :
    Forall₂ (fun item value => f item = .ok value) items values := by
  induction items generalizing values with
  | nil =>
    cases ok
    exact .nil
  | cons item rest ih =>
    rw [mapM_cons] at ok
    obtain ⟨first, found, ok⟩ := bind_eq_ok ok
    obtain ⟨others, later, ok⟩ := bind_eq_ok ok
    cases ok
    exact .cons found (ih later)

theorem forall_of_mapM_ok (ok : items.mapM f = .ok values) : ∀ item ∈ items, ∃ value, f item = .ok value := by
  have matched := forall₂_of_mapM_ok ok
  clear ok
  induction matched with
  | nil => simp
  | cons found _ ih => exact forall_mem_cons.mpr ⟨⟨_, found⟩, ih⟩

theorem exists_of_mem_mapM_ok (ok : items.mapM f = .ok values) :
    ∀ value ∈ values, ∃ item ∈ items, f item = .ok value := by
  have matched := forall₂_of_mapM_ok ok
  clear ok
  induction matched with
  | nil => simp
  | cons found _ ih =>
    refine forall_mem_cons.mpr ⟨⟨_, mem_cons_self, found⟩, fun value listed => ?_⟩
    obtain ⟨item, later, same⟩ := ih value listed
    exact ⟨item, mem_cons_of_mem _ later, same⟩

theorem filterMap_of_mapM_ok {γ : Type} {g : β → γ} {h : α → Option γ}
    (each : ∀ item value, f item = .ok value → h item = some (g value)) (ok : items.mapM f = .ok values) :
    items.filterMap h = values.map g := by
  have matched := forall₂_of_mapM_ok ok
  clear ok
  induction matched with
  | nil => rfl
  | cons found _ ih => rw [filterMap_cons_some (each _ _ found), ih, map_cons]

theorem map_of_mapM_ok {g : β → α} (inverse : ∀ item value, f item = .ok value → g value = item)
    (ok : items.mapM f = .ok values) : values.map g = items := by
  rw [← filterMap_of_mapM_ok (fun item value found => congrArg some (inverse item value found).symm) ok,
    filterMap_some]

end

/-! ### Work with a value -/

section

variable {ε σ α β : Type} {work : ExceptT ε (StateM σ) α} {next : α → ExceptT ε (StateM σ) β} {before after : σ}

/-- Work that begins in one state ends with a value in another. -/
def Completes (work : ExceptT ε (StateM σ) α) (before : σ) (value : α) (after : σ) : Prop :=
  work.run.run before = (.ok value, after)

theorem completes_pure_iff {value other : α} :
    Completes (pure value : ExceptT ε (StateM σ) α) before other after ↔ other = value ∧ after = before := by
  change ((Except.ok value : Except ε α), before) = (.ok other, after) ↔ _
  simp [eq_comm]

theorem run_bind : (work >>= next).run.run before =
    match work.run.run before with
    | (.ok value, middle) => (next value).run.run middle
    | (.error cause, middle) => (.error cause, middle) := by
  simp only [ExceptT.run_bind, StateT.run_bind]
  rcases work.run.run before with ⟨_ | _, _⟩ <;> rfl

theorem completes_bind_iff {result : β} : Completes (work >>= next) before result after ↔
    ∃ value middle, Completes work before value middle ∧ Completes (next value) middle result after := by
  simp only [Completes, run_bind]
  rcases work.run.run before with ⟨_ | _, _⟩ <;> grind

theorem run_tryCatch {handler : ε → ExceptT ε (StateM σ) α} : (tryCatch work handler).run.run before =
    match work.run.run before with
    | (.ok value, middle) => (.ok value, middle)
    | (.error cause, middle) => (handler cause).run.run middle := by
  change StateT.run (ExceptT.tryCatch work handler) before = _
  simp only [ExceptT.tryCatch, ExceptT.mk]
  rcases ran : work.run.run before with ⟨result, middle⟩
  have first : StateT.run work before = (result, middle) := ran
  rw [StateT.run_bind, first]
  cases result <;> rfl

theorem run_get_bind {next : σ → ExceptT ε (StateM σ) β} :
    (get >>= next).run.run before = (next before).run.run before := rfl

theorem completes_get_bind_iff {next : σ → ExceptT ε (StateM σ) β} {result : β} :
    Completes (get >>= next) before result after ↔ Completes (next before) before result after := Iff.rfl

end

end FlatAbi
