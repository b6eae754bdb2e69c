import FlatAbi.Proofs.CommandLine.Regeneration
import FlatAbi.Proofs.CommandLine.Words

/-!
Dry runs. They end like the run that writes, and leave the files alone.
-/

namespace FlatAbi

/-- Where the engine has texts at one moment, it has texts at another. -/
def Artifact.Engine.LastsOn (engine : Engine) (offer : Offer) (moment later : Nat) : Prop :=
  ∀ name ∈ templateNames, ∀ content text, engine.render moment offer name content = .ok text →
    ∃ text, engine.render later offer name content = .ok text

namespace CommandLine

open Artifact Run

theorem Templating.texts_later {t : Templating} {files : FileTree} {moment later : Nat} {content : Content}
    {generated : Generated}
    (lasts : ∀ directory ∈ t.directory, t.engine.LastsOn (offerOf files directory) moment later)
    (texts : t.texts moment files content = .ok generated) :
    ∃ generated, t.texts later files content = .ok generated := by
  have each {name text : String} (template : name ∈ templateNames) {layout : Content → String}
      (made : t.text moment files name layout content = .ok text) :
      ∃ text, t.text later files name layout content = .ok text := by
    unfold Templating.text at made ⊢
    split
    next directory offered =>
      rw [offered] at made
      exact lasts directory (Option.filter_eq_some_iff.mp offered).1 name template content text made
    · exact ⟨_, rfl⟩
  obtain ⟨header, made, texts⟩ := bind_eq_ok texts
  obtain ⟨source, madeToo, _⟩ := bind_eq_ok texts
  obtain ⟨header, made⟩ := each (by simp [templateNames]) made
  obtain ⟨source, madeToo⟩ := each (by simp [templateNames]) madeToo
  exact ⟨⟨header, source⟩, by simp [Templating.texts, made, madeToo, bind, Except.bind, pure, Except.pure]⟩

/-- A run ends with a code, at its end or before. -/
def Run.EndsWith (step : Run Nat) (p : Progress) (code : Nat) : Prop :=
  (step.run.run p).1 = .ok code ∨ (step.run.run p).1 = .error (.exit code)

theorem finish_endsWith {s : Setting} {o : Options} {g : Gathered} {p : Progress} {code : Nat}
    (unlogged : p.logFile = none) (other : code ∉ writeFailures) (ends : (finish s o g).EndsWith p code) :
    code = exitCode g.draft ∧
      ∃ generated, g.templating.texts s.moment p.files (.ofDraft g.config g.draft) = .ok generated := by
  cases dry : o.dryRun with
  | true =>
    have reads := finish_reads s g dry
    rcases ends with ends | ends
    · exact (reads.value_iff unlogged).mp ends
    · exact absurd (reads.exits p code ends) other
  | false =>
    have has := finish_has s g dry
    rcases ends with ends | ends
    · obtain ⟨⟨same, generated, _, texts, _⟩, _⟩ := has.sound unlogged (Prod.ext ends rfl)
      exact ⟨same, generated, texts⟩
    · exact absurd (has.exits p code ends) other

/-- A dry run keeps the files, and ends like the run that writes unless that fails to write. -/
theorem work_dried (s : Setting) (words : List String) (moment : Nat) (o : Options) {p : Progress}
    (unlogged : p.logFile = none) :
    ((work { s with words } o.dried).run.run p).2.files = p.files ∧
      ((∀ engine ∈ s.engine, ∀ directory ∈ templatesDirectory? s o,
          engine.LastsOn (offerOf p.files directory) moment s.moment) →
        ∀ code, code ∉ writeFailures → (work { s with moment } o).EndsWith p code →
          (work { s with words } o.dried).EndsWith p code) := by
  have gathers := gather_reads s o
  have finishes (g : Gathered) := finish_reads { s with words } g (show o.dried.dryRun from rfl)
  obtain ⟨kept, unloggedToo⟩ := gathers.keeps unlogged
  have dried : gather { s with words } o.dried = gather s o := rfl
  have moved : gather { s with moment } o = gather s o := rfl
  simp only [EndsWith, work, run_bind, dried, moved]
  rcases gathered : (gather s o).run.run p with ⟨stop | g, middle⟩ <;> rw [gathered] at kept unloggedToo
  · exact ⟨kept, fun _ _ _ ends => ends⟩
  · refine ⟨((finishes g).keeps unloggedToo).1.trans kept, fun lasts code other ends => ?_⟩
    obtain ⟨same, generated, texts⟩ := finish_endsWith unloggedToo other ends
    have equipped : s.Equips o g.templating := by
      cases (gathers.value_iff unlogged).mp (congrArg Prod.fst gathered) with
      | intro equipped => exact equipped
    refine .inl (((finishes g).value_iff unloggedToo).mpr ⟨same, ?_⟩)
    rw [show middle.files = p.files from kept] at texts ⊢
    exact Templating.texts_later (fun directory listed => lasts _ equipped.1 directory (equipped.directory ▸ listed))
      texts

/-- The exit code of an ending, if it has one. -/
def Ending.code? : Ending → Option Nat
  | .exit code => some code
  | .usage => some 2
  | .help => some 0
  | .breakdown _ => none

theorem runWith_unlogged (s : Setting) {o : Options} (files : FileTree) {format : Log.Format}
    (read : Log.Format.read o.logFormat = .ok format) (unlogged : o.logFile = "") :
    (runWith s o files).files = ((work s o).run.run { files := files, recorder := ⟨format, o.threshold⟩ }).2.files ∧
      ∀ code, (runWith s o files).ending.code? = some code ↔
        (work s o).EndsWith { files := files, recorder := ⟨format, o.threshold⟩ } code := by
  simp only [runWith, read, openLog, unlogged, beq_self_eq_true, if_true, Run.EndsWith]
  rcases (work s o).run.run { files := files, recorder := ⟨format, o.threshold⟩, logFile := none } with ⟨outcome, q⟩
  refine ⟨rfl, fun code => ?_⟩
  cases outcome with
  | ok value => simp [Ending.code?]
  | error stop => cases stop <;> simp [Ending.code?]

theorem runWith_dried (s : Setting) (words : List String) (moment : Nat) {o : Options} (files : FileTree)
    (unlogged : o.logFile = "") :
    (runWith { s with words } o.dried files).files = files ∧
      ((∀ engine ∈ s.engine, ∀ directory ∈ templatesDirectory? s o,
          engine.LastsOn (offerOf files directory) moment s.moment) →
        ∀ code, code ∉ writeFailures → (runWith { s with moment } o files).ending.code? = some code →
          (runWith { s with words } o.dried files).ending.code? = some code) := by
  cases read : Log.Format.read o.logFormat with
  | error e =>
    have readToo : Log.Format.read o.dried.logFormat = .error e := read
    simp [runWith, read, readToo, Ending.code?]
  | ok format =>
    obtain ⟨_, writes⟩ := runWith_unlogged { s with moment } files read unlogged
    obtain ⟨kept, spares⟩ := runWith_unlogged { s with words } (o := o.dried) files read unlogged
    obtain ⟨same, ends⟩ := work_dried s words moment o (p := { files := files, recorder := ⟨format, o.threshold⟩ }) rfl
    refine ⟨kept.trans same, fun lasts code other => ?_⟩
    rw [writes code, spares code]
    exact ends lasts code other

/-- A command line with the word for a dry run leaves every file and every directory as it is, however it ends. Without
that word it ends with the same code, at a moment at which the engine has no texts that it lacks in the dry run, unless
files cannot be written then. -/
theorem dryRun_observes (s : Setting) (front back : List String) (moment : Nat) (files : FileTree)
    (unlogged : ∀ o, request (front ++ dryRunWord :: back) = .run o → o.logFile = "") :
    (run { s with words := front ++ dryRunWord :: back } files).files = files ∧
      (Settled front →
        (∀ o, request (front ++ back) = .run o → ∀ engine ∈ s.engine, ∀ directory ∈ templatesDirectory? s o,
          engine.LastsOn (offerOf files directory) moment s.moment) →
        ∀ code, code ≠ 4 → code ≠ 5 →
          (run { s with words := front ++ back, moment } files).ending.code? = some code →
          (run { s with words := front ++ dryRunWord :: back } files).ending.code? = some code) := by
  constructor
  · cases asked : request (front ++ dryRunWord :: back) with
    | run o =>
      have kept := (runWith_dried s (front ++ dryRunWord :: back) moment files (unlogged o asked)).1
      rw [dried_of_request asked] at kept
      simpa only [run, asked] using kept
    | help | misuse => simp only [run, asked]
  · intro settled lasts code notFour notFive ends
    have dry := request_dryRunWord settled back
    cases asked : request (front ++ back) with
    | run o =>
      rw [asked] at dry
      have spares := (runWith_dried { s with words := front ++ back } (front ++ dryRunWord :: back) moment files
        (o := o) (unlogged o.dried dry)).2 (lasts o asked) code (by simp [writeFailures, notFour, notFive])
      simp only [run, asked] at ends
      simpa only [run, dry, Request.dried] using spares ends
    | help | misuse =>
      rw [asked] at dry
      simp only [run, asked] at ends
      simpa only [run, dry, Request.dried] using ends

theorem dryRun_observes_templated :
    (run { templatedSetting with words := ["--input", "m.json"] ++ dryRunWord :: templatedWords } templated).files =
        templated ∧
      (run { templatedSetting with words := ["--input", "m.json"] ++ dryRunWord :: templatedWords }
        templated).ending.code? = some 0 := by
  have settled : Settled ["--input", "m.json"] :=
    show (Word.classifyAll? ["--input", "m.json"]).all Word.settled by decide +kernel
  have asked := (request_dryRunWord settled templatedWords).trans (congrArg Request.dried request_templated)
  obtain ⟨kept, ends⟩ :=
    dryRun_observes templatedSetting ["--input", "m.json"] templatedWords 0 templated fun o same => by
    cases asked.symm.trans same
    rfl
  exact ⟨kept, ends settled (fun _ _ _ _ _ _ _ _ _ text made => ⟨text, made⟩) 0 (by decide) (by decide)
    (congrArg Ending.code? run_templated)⟩

end CommandLine

end FlatAbi
