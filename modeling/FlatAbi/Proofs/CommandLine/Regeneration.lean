import FlatAbi.Proofs.CommandLine.Manifests

/-!
Running again. What a run generates is in place after it, and is not written again.
-/

namespace FlatAbi

open FlatAbi.Path List

variable {before after : FileTree} {path directory : Path} {name text : String} {places : List Path}
  {includes : List String}

/-- What the engine makes of the templates on offer is the same at any moment, as long as these templates and those that
they include stay as they are. -/
structure Artifact.Engine.SteadyOn (engine : Engine) (offer : Offer) (includes : List String) : Prop where
  anytime : ∀ moment later, ∀ name ∈ templateNames, ∀ content,
    engine.render later offer name content = engine.render moment offer name content
  only : ∀ other : Offer, (∀ source ∈ templateNames ++ includes, other source = offer source) →
    ∀ moment, ∀ name ∈ templateNames, ∀ content,
      engine.render moment other name content = engine.render moment offer name content

theorem Artifact.Engine.simple_steadyOn (offer : Offer) : Engine.simple.SteadyOn offer [] where
  anytime _ _ _ _ _ := rfl
  only other same _ name template content := by simp only [simple, same name (by simpa using template)]

namespace CommandLine

open Artifact FileWork

variable {s : Setting} {o : Options} {code : Nat}

def inputPath (s : Setting) (o : Options) : Path :=
  s.directory.resolve (o.input.getD .nothing).orEmpty

/-- The places of the templates, and of those that they include. -/
def templatePlaces (s : Setting) (o : Options) (includes : List String) : List Path :=
  (templatesDirectory? s o).toList.flatMap fun directory =>
    (templateNames ++ includes).map fun name => (templatePlace directory name).normal

/-- The places that a run writes to, which are known once the input is. -/
def outputPlaces (s : Setting) (o : Options) (files : FileTree) : List Path :=
  match loaded? files (inputPath s o) with
  | some loaded =>
    let config := configOf o loaded []
    ([config.outputHeader, config.outputSource] ++ if o.noManifest then [] else [manifestName]).map fun name =>
      ((s.directory.resolve o.outputDir.orEmpty).append name).normal
  | none => []

theorem loaded?_of_grows {loaded : Loaded} (grows : before.Grows places after) (apart : path.normal ∉ places)
    (loads : loaded? before path = some loaded) : loaded? after path = some loaded := by
  unfold loaded? at loads ⊢
  cases content : before.content path with
  | error fault => simp [FileTree.read, content, Except.mapError, Except.toOption] at loads
  | ok text =>
    have kept : after.content path = .ok text := grows.content (by simpa using apart) content
    simp only [FileTree.read, content, kept] at loads ⊢
    exact loads

/-! ### Templates -/

theorem offerOf_eq_some_iff : offerOf before directory name = some text ↔
    before.isDirectory directory ∧ back ∉ Path.split name ∧
      before.find? (templatePlace directory name) = some (.file text) := by
  unfold offerOf
  cases before.isDirectory directory with
  | false => simp
  | true =>
    by_cases forward : back ∈ Path.split name
    · simp [forward]
    · cases before.find? (templatePlace directory name) with
      | none => simp [forward]
      | some entry => cases entry <;> simp [forward]

section

variable (rooted : before.Rooted) (grows : before.Grows places after) (normal : directory.normal = directory)
  (apart : (templatePlace directory name).normal ∉ places)

include rooted grows normal apart

/-- A template lies in its directory, which was there already if the template was. -/
theorem isDirectory_of_template
    (forward : back ∉ Path.split name) (found : before.find? (templatePlace directory name) = some (.file text))
    (later : after.isDirectory directory) : before.isDirectory directory := by
  have front := back_not_mem_normal directory
  rw [normal] at front
  have kept := grows.file apart found
  unfold templatePlace at found kept
  rcases eq_nil_or_concat (Path.split name) with empty | ⟨above, last, whole⟩
  · rw [empty, append_nil, FileTree.find?_of_isDirectory normal later] at kept
    cases kept
  · rw [concat_eq_append] at whole
    rw [whole, ← append_assoc] at found
    rw [whole] at forward
    have inner : back ∉ directory.components ++ above := by
      rw [mem_append, not_or] at forward ⊢
      exact ⟨front, forward.1⟩
    have parent := rooted.parent (normal_of_forward (by
      rw [mem_append, not_or] at forward ⊢
      exact ⟨inner, forward.2⟩)) found
    rw [Path.parent, dropLast_concat] at parent
    exact rooted.isDirectory normal (rooted.directory inner parent) later

theorem offerOf_again : offerOf after directory name = offerOf before directory name := by
  refine Option.ext fun text => ?_
  rw [offerOf_eq_some_iff, offerOf_eq_some_iff]
  constructor
  · rintro ⟨later, forward, found⟩
    have earlier := grows.file_before apart found
    exact ⟨isDirectory_of_template rooted grows normal apart forward earlier later, forward, earlier⟩
  · rintro ⟨present, forward, found⟩
    exact ⟨grows.isDirectory present, forward, grows.file apart found⟩

end

theorem Templating.texts_again {t : Templating}
    (steady : ∀ directory ∈ t.directory, t.engine.SteadyOn (offerOf before directory) includes)
    (same : ∀ directory ∈ t.directory, ∀ name ∈ templateNames ++ includes,
      offerOf after directory name = offerOf before directory name)
    (moment later : Nat) (content : Content) : t.texts later after content = t.texts moment before content := by
  have each {name : String} (template : name ∈ templateNames) (layout : Content → String) :
      t.text later after name layout content = t.text moment before name layout content := by
    obtain ⟨engine, directory⟩ := t
    cases directory with
    | none => rfl
    | some directory =>
      have offers := same directory rfl
      simp only [text, Option.filter_some, offers name (mem_append_left includes template)]
      cases (offerOf before directory name).isSome with
      | false => rfl
      | true =>
        exact ((steady directory rfl).only _ offers later name template content).trans
          ((steady directory rfl).anytime moment later name template content)
  unfold texts
  rw [each (by simp [templateNames]), each (by simp [templateNames])]

/-! ### Runs -/

theorem outputs_places {files : FileTree} {g : Gathered} (gathers : Gathers s o files g) (generated : Generated) :
    (outputs s o g generated).map (·.1.normal) = outputPlaces s o files := by
  cases gathers with
  | intro _ given loads _ placed _ =>
    unfold outputPlaces inputPath
    rw [← given.eq, ← placed.eq, loads]
    unfold outputs manifestOutput
    cases o.noManifest <;> rfl

theorem Works.again (works : Works s o before code after) (rooted : before.Rooted)
    (apart : (outputPlaces s o before).Nodup) (input : (inputPath s o).normal ∉ outputPlaces s o before)
    (templates : ∀ place ∈ templatePlaces s o includes, place ∉ outputPlaces s o before)
    (steady : ∀ engine ∈ s.engine, ∀ directory ∈ templatesDirectory? s o,
      engine.SteadyOn (offerOf before directory) includes) (later : Nat) :
    Works { s with moment := later } o after code after := by
  cases works with
  | @intro _ _ g generated gathers texts makes writes =>
    obtain ⟨made, directory⟩ := grows_of_ensureDirectory makes
    rw [← outputs_places gathers generated] at apart input templates
    have grows := made.trans writes.grows
    cases gathers with
    | intro equipped given loads imports placed emits =>
      rw [inputPath, ← given.eq] at input
      refine .intro (.intro equipped given (loaded?_of_grows grows input loads) imports placed emits) (texts ▸ ?_)
        (ensureDirectory_idle (writes.grows.isDirectory directory)) (writesAll_idle (writes.inPlace apart))
      have chosen := equipped.directory
      refine Templating.texts_again (fun directory listed => steady _ equipped.1 directory (chosen ▸ listed))
        (fun directory listed name source => ?_) s.moment later _
      rw [chosen] at listed
      have normal : directory.normal = directory := by
        unfold templatesDirectory? at listed
        split at listed
        · cases listed
        · cases listed
          exact normal_normal _
      refine offerOf_again rooted grows normal (templates _ (mem_flatMap.mpr ⟨directory, ?_, ?_⟩))
      · simpa using listed
      · exact mem_map_of_mem source

theorem runWith_done_iff (unlogged : o.logFile = "") (writes : o.dryRun = false) (done : code = 0 ∨ code = 3) :
    (runWith s o before).ending = .exit code ∧ (runWith s o before).files = after ↔
      (∃ format, Log.Format.read o.logFormat = .ok format) ∧ Works s o before code after := by
  have has := work_has s writes
  unfold runWith
  cases Log.Format.read o.logFormat with
  | error e => simp
  | ok format =>
    simp only [openLog, unlogged, beq_self_eq_true, if_true, Except.ok.injEq, exists_eq', true_and]
    rcases ends : (work s o).run.run { files := before, recorder := ⟨format, o.threshold⟩, logFile := none } with
      ⟨result, progress⟩
    constructor
    · rintro ⟨ending, rfl⟩
      cases result with
      | ok value =>
        obtain rfl : value = code := by simpa using ending
        exact (has.sound rfl ends).1
      | error stop =>
        cases stop with
        | exit failure =>
          obtain rfl : failure = code := by simpa using ending
          have listed := has.exits _ _ (congrArg Prod.fst ends)
          rcases done with rfl | rfl <;> exact absurd listed (by decide)
        | breakdown => simp at ending
    · intro works
      obtain ⟨last, completes, rfl, _⟩ := has.complete
        (p := { files := before, recorder := ⟨format, o.threshold⟩, logFile := none }) rfl works
      rw [Completes, ends] at completes
      cases completes
      exact ⟨rfl, rfl⟩

/-- A run that is done leaves nothing to do for the same run, at any later moment. It ends in the same way again, and
every file and every directory stays as it is. The outputs have different places, none of them that of the input or of a
template, and what the engine makes of the templates does not depend on the moment. -/
theorem run_again (s : Setting) (o : Options) (files : FileTree) (code later : Nat) (includes : List String)
    (rooted : files.Rooted) (asked : request s.words = .run o) (unlogged : o.logFile = "") (writes : o.dryRun = false)
    (ends : (run s files).ending = .exit code) (done : code = 0 ∨ code = 3) (apart : (outputPlaces s o files).Nodup)
    (input : (inputPath s o).normal ∉ outputPlaces s o files)
    (templates : ∀ place ∈ templatePlaces s o includes, place ∉ outputPlaces s o files)
    (steady : ∀ engine ∈ s.engine, ∀ directory ∈ templatesDirectory? s o,
      engine.SteadyOn (offerOf files directory) includes) :
    (run { s with moment := later } (run s files).files).ending = .exit code ∧
      (run { s with moment := later } (run s files).files).files = (run s files).files := by
  simp only [run, asked] at ends ⊢
  obtain ⟨format, works⟩ := (runWith_done_iff unlogged writes done).mp ⟨ends, rfl⟩
  exact (runWith_done_iff unlogged writes done).mpr ⟨format, works.again rooted apart input templates steady later⟩

/-- A module with a function beside templates for both files. The one for the header asks for the declarations. -/
def templated : FileTree :=
  ⟨[(⟨["m.json"]⟩, .file ("\x7b\"module\":\x7b\"kind\":\"module\",\"name\":\"m\"," ++
      "\"children\":[\x7b\"kind\":\"function\",\"name\":\"f\"\x7d]\x7d\x7d")),
    (⟨["t"]⟩, .directory), (⟨["t", headerTemplate]⟩, .file "\x7b\x7b sections.decls \x7d\x7d\r\n"),
    (⟨["t", sourceTemplate]⟩, .file "// \x7b\x7b module \x7d\x7d\r\n")]⟩

def templatedWords : List String :=
  ["--output-dir", "t", "--templates-dir", "t", "--noexcept"]

/-- A command line that writes the files, and a manifest with them, beside the templates. -/
def templatedSetting : Setting where
  host := ⟨"3", "os"⟩
  directory := .root
  words := ["--input", "m.json"] ++ templatedWords
  engine := some .simple

def templatedOptions : Options where
  input := some (.text "m.json")
  outputDir := .text "t"
  templatesDir := "t"
  noExceptions := true

/-- The files without the manifest. -/
def templatedResult : FileTree :=
  ⟨templated.entries ++ [(⟨["t", "m_wrap.h"]⟩, .file "SWIGIMPORT void m_f(void);\n\n\n"),
    (⟨["t", "m_wrap.cxx"]⟩, .file "// m\n")]⟩

instance (ending : Ending) (code : Nat) : Decidable (ending = .exit code) :=
  match ending with
  | .exit other => decidable_of_iff (other = code) (by simp)
  | .usage | .help | .breakdown _ => isFalse (by simp)

theorem request_templated : request templatedSetting.words = .run templatedOptions := by decide +kernel

theorem works_templated : ∃ last, Works templatedSetting templatedOptions templated 0 last := by
  have ends : (runWith templatedSetting { templatedOptions with noManifest := true } templated).ending = .exit 0 := by
    decide +kernel
  have files : (runWith templatedSetting { templatedOptions with noManifest := true } templated).files =
      templatedResult := by
    decide +kernel
  have works := ((runWith_done_iff rfl rfl (.inl rfl)).mp ⟨ends, files⟩).2
  exact works.with_manifest fun _ encodable =>
    ⟨rfl, by decide, ⟨rfl, by decide⟩, by decide, ⟨0, by decide, rfl⟩, encodable⟩

theorem run_templated : (run templatedSetting templated).ending = .exit 0 := by
  obtain ⟨last, works⟩ := works_templated
  have done := (runWith_done_iff rfl rfl (.inl rfl)).mpr ⟨⟨.standard, rfl⟩, works⟩
  simp only [run, request_templated]
  exact done.1

theorem outputPlaces_templated : outputPlaces templatedSetting templatedOptions templated =
    [⟨["t", "m_wrap.h"]⟩, ⟨["t", "m_wrap.cxx"]⟩, ⟨["t", manifestName]⟩] := by
  decide +kernel

theorem run_again_templated :
    (run { templatedSetting with moment := 1 } (run templatedSetting templated).files).ending = .exit 0 ∧
      (run { templatedSetting with moment := 1 } (run templatedSetting templated).files).files =
        (run templatedSetting templated).files := by
  have places := outputPlaces_templated
  exact run_again templatedSetting templatedOptions templated 0 1 [] (by decide) request_templated rfl rfl run_templated
    (.inl rfl) (by rw [places]; decide) (by rw [places]; decide) (by rw [places]; decide)
    (fun _ same _ _ => Option.some.inj same ▸ Engine.simple_steadyOn _)

end CommandLine

end FlatAbi
