import FlatAbi.CommandLine.Session
import FlatAbi.Proofs.Files.Writing

/-!
What the steps of a run do to the files, as long as the log goes to no file.
-/

namespace FlatAbi.CommandLine

open Artifact FileWork ImportHeader

variable {α β : Type} {codes : List Nat}

/-- The step can end the run with these codes only. -/
def Run.Exits (step : Run α) (codes : List Nat) : Prop :=
  ∀ p code, (step.run.run p).1 = .error (.exit code) → code ∈ codes

theorem Run.Exits.bind {step : Run α} {next : α → Run β} (first : step.Exits codes)
    (second : ∀ value, (next value).Exits codes) : (step >>= next).Exits codes := by
  intro p code ended
  rw [run_bind] at ended
  rcases ends : step.run.run p with ⟨stop | value, middle⟩ <;> simp only [ends] at ended
  · cases ended
    exact first p code (congrArg Prod.fst ends)
  · exact second value middle code ended

/-- A step leaves the files as they are and opens no log file, however it ends. It has the values that the files
allow. -/
structure Run.Reads (step : Run α) (codes : List Nat) (Fact : FileTree → α → Prop) : Prop where
  keeps : ∀ {p}, p.logFile = none → (step.run.run p).2.files = p.files ∧ (step.run.run p).2.logFile = none
  value_iff : ∀ {p value}, p.logFile = none → ((step.run.run p).1 = .ok value ↔ Fact p.files value)
  exits : step.Exits codes

namespace Run.Reads

variable {step : Run α} {next : α → Run β} {Fact : FileTree → α → Prop} {Next : α → FileTree → β → Prop}

theorem congr {Other : FileTree → α → Prop} (reads : step.Reads codes Fact)
    (same : ∀ files value, Fact files value ↔ Other files value) : step.Reads codes Other where
  keeps := reads.keeps
  value_iff unlogged := (reads.value_iff unlogged).trans (same _ _)
  exits := reads.exits

theorem pure (value : α) : (Pure.pure value : Run α).Reads codes fun _ found => found = value where
  keeps unlogged := ⟨rfl, unlogged⟩
  value_iff _ := ⟨fun same => (Except.ok.inj same).symm, fun same => congrArg Except.ok same.symm⟩
  exits _ _ impossible := by cases impossible

theorem throw {stop : Stop} (listed : ∀ code, stop = .exit code → code ∈ codes) :
    (throw stop : Run α).Reads codes fun _ _ => False where
  keeps unlogged := ⟨rfl, unlogged⟩
  value_iff _ := iff_of_false (fun impossible => by cases impossible) id
  exits _ code ended := listed code (Except.error.inj ended)

theorem modify {f : Progress → Progress} (kept : ∀ p, p.logFile = none → (f p).files = p.files ∧ (f p).logFile = none) :
    (modify f : Run Unit).Reads codes fun _ _ => True where
  keeps := kept _
  value_iff _ := ⟨fun _ => trivial, fun _ => rfl⟩
  exits _ _ impossible := by cases impossible

theorem tell (notice : Notice) : (Run.tell notice).Reads codes fun _ _ => True :=
  modify fun p unlogged => ⟨by simp [Progress.note, unlogged], unlogged⟩

theorem bind (first : step.Reads codes Fact) (second : ∀ value, (next value).Reads codes (Next value)) :
    (step >>= next).Reads codes fun files result => ∃ value, Fact files value ∧ Next value files result where
  keeps {p} unlogged := by
    obtain ⟨kept, unlogged⟩ := first.keeps unlogged
    rw [run_bind]
    rcases ends : step.run.run p with ⟨_ | value, middle⟩ <;> rw [ends] at kept unlogged
    · exact ⟨kept, unlogged⟩
    · exact ((second value).keeps unlogged).imp_left fun same => same.trans kept
  value_iff {p result} unlogged := by
    have fact_iff (value : α) : (step.run.run p).1 = .ok value ↔ Fact p.files value := first.value_iff unlogged
    obtain ⟨kept, unlogged⟩ := first.keeps unlogged
    rw [run_bind]
    simp only [← fact_iff]
    rcases ends : step.run.run p with ⟨_ | value, middle⟩ <;> simp only [ends] at kept unlogged
    · simp
    · simp only [Except.ok.injEq, exists_eq_left', (second value).value_iff unlogged, kept]
  exits := first.exits.bind fun value => (second value).exits

theorem get_bind {next : Progress → Run α} (reads : ∀ p, (next p).Reads codes fun _ => Fact p.files) :
    ((get : Run Progress) >>= next).Reads codes Fact where
  keeps {p} := (reads p).keeps
  value_iff {p _} := (reads p).value_iff
  exits p := (reads p).exits p

theorem tell_bind {notice : Notice} (reads : step.Reads codes Fact) :
    (Run.tell notice >>= fun _ => step).Reads codes Fact :=
  ((tell notice).bind fun _ => reads).congr fun _ _ => by simp

theorem breakdown (cause : Breakdown) :
    (MonadExcept.throw (Stop.breakdown cause) : Run α).Reads codes fun _ _ => False :=
  throw fun _ impossible => by cases impossible

theorem fail {code : Nat} (listed : code ∈ codes) (notice : Notice) :
    (Run.fail code notice : Run α).Reads codes fun _ _ => False :=
  tell_bind (throw fun _ same => Stop.exit.inj same ▸ listed)

theorem mapM {f : α → Run β} {Fact : α → β → Prop} (reads : ∀ item, (f item).Reads codes fun _ => Fact item)
    (items : List α) : (items.mapM f).Reads codes fun _ => List.Forall₂ Fact items := by
  induction items with
  | nil => exact (pure []).congr fun _ _ => by simp
  | cons item items ih =>
    rw [List.mapM_cons]
    refine ((reads item).bind fun _ => ih.bind fun _ => pure _).congr fun _ results => ⟨?_, ?_⟩
    · rintro ⟨value, fact, values, facts, rfl⟩
      exact .cons fact facts
    · intro facts
      cases facts with
      | cons fact facts => exact ⟨_, fact, _, facts, rfl⟩

theorem forM_tell {items : List α} (notice : α → Notice) :
    (items.forM fun item => Run.tell (notice item)).Reads codes fun _ _ => True := by
  induction items with
  | nil => exact (pure ()).congr fun _ _ => by simp
  | cons item items ih => exact tell_bind ih

end Run.Reads

/-! ### What is read -/

open Run

/-- A path that is given and that a file can have. -/
def Setting.Places (s : Setting) (given : Given) (path : Path) : Prop :=
  ∃ written, given = .text written ∧ path = s.directory.resolve written ∧
    FileTree.checkCharacters (s.directory.append written) = .ok ()

theorem Setting.Places.eq {s : Setting} {given : Given} {path : Path} (places : s.Places given path) :
    path = s.directory.resolve given.orEmpty := by
  obtain ⟨written, rfl, same, _⟩ := places
  exact same

theorem place_reads (s : Setting) (given : Given) : (place s given).Reads codes fun _ => s.Places given := by
  cases given with
  | nothing => exact (Reads.breakdown .noPath).congr fun _ _ => by simp [Setting.Places]
  | text written =>
    cases checked : FileTree.checkCharacters (s.directory.append written) with
    | ok =>
      simp only [place, checked]
      exact (Reads.pure _).congr fun _ _ => by simp [Setting.Places, checked]
    | error fault =>
      simp only [place, checked]
      exact (Reads.breakdown _).congr fun _ _ => by simp [Setting.Places, checked]

/-- The codes of a run that cannot read what it is given. -/
def readFailures : List Nat := [1, 2]

theorem loadInput_reads (path : Path) :
    (loadInput path).Reads readFailures fun files loaded => loaded? files path = some loaded := by
  refine Reads.get_bind fun p => ?_
  cases content : p.files.read path with
  | error e => exact (Reads.fail (by decide) _).congr fun _ _ => by simp [loaded?, content, Except.toOption]
  | ok text =>
    cases parsed : Json.parse (Text.normalizeNewlines text) with
    | error refusal =>
      have unloaded {loaded : Loaded} : loaded? p.files path ≠ some loaded := by
        simp [loaded?, content, parsed, Except.toOption]
      cases refusal <;> simp only [parsed] <;>
        exact (Reads.fail (by decide) _).congr fun _ _ => ⟨False.elim, unloaded⟩
    | ok value =>
      cases document : Load.document true value with
      | ok loaded =>
        have found : loaded? p.files path = some loaded := by
          simp [loaded?, content, parsed, document, Except.toOption]
        simp only [parsed, document]
        exact (Reads.tell_bind (Reads.pure loaded)).congr fun _ _ => by simp [found, eq_comm]
      | error e =>
        have unloaded {loaded : Loaded} : loaded? p.files path ≠ some loaded := by
          simp [loaded?, content, parsed, document, Except.toOption]
        simp only [parsed, document]
        split
        · exact (Reads.fail (by decide) _).congr fun _ _ => ⟨False.elim, unloaded⟩
        · exact (Reads.breakdown _).congr fun _ _ => ⟨False.elim, unloaded⟩

/-- The headers of imported modules, when all can be read. -/
def Options.ImportHeaders (o : Options) (headers : List (String × String)) : Prop :=
  ∃ entries,
    List.Forall₂ (fun given entry => ∃ written, given = .text written ∧ read written = .ok entry)
      o.importHeaders entries ∧
    headers = sorted entries

theorem readImportHeaders_reads (o : Options) : (readImportHeaders o).Reads readFailures fun _ => o.ImportHeaders := by
  have each (given : Given) : (readImportHeader given).Reads readFailures fun _ entry =>
      ∃ written, given = .text written ∧ read written = .ok entry := by
    cases given with
    | nothing => exact (Reads.breakdown .noImportHeader).congr fun _ _ => by simp
    | text written =>
      cases found : read written with
      | ok entry =>
        simp only [readImportHeader, found]
        exact (Reads.pure entry).congr fun _ _ => by simp [found, eq_comm]
      | error e =>
        simp only [readImportHeader, found]
        exact (Reads.fail (by decide) _).congr fun _ _ => by simp [found]
  exact (Reads.mapM each o.importHeaders).bind fun _ => Reads.pure _

/-- The engine of a setting, and the directory of templates if one is given. -/
def Setting.Equips (s : Setting) (o : Options) (t : Templating) : Prop :=
  s.engine = some t.engine ∧
    if o.templatesDir == "" then t.directory = none
    else ∃ path, s.Places (.text o.templatesDir) path ∧ t.directory = some path

theorem engineOf_reads (s : Setting) : (engineOf s).Reads readFailures fun _ engine => s.engine = some engine := by
  unfold engineOf
  cases s.engine with
  | some engine => exact (Reads.pure engine).congr fun _ _ => by simp [eq_comm]
  | none => exact (Reads.fail (by decide) _).congr fun _ _ => by simp

theorem templating_reads (s : Setting) (o : Options) : (templating s o).Reads readFailures fun _ => s.Equips o := by
  unfold templating Setting.Equips
  split
  · refine ((engineOf_reads s).bind fun engine => Reads.pure _).congr fun _ t => ⟨?_, ?_⟩
    · rintro ⟨engine, found, rfl⟩
      exact ⟨found, rfl⟩
    · rintro ⟨found, same⟩
      exact ⟨t.engine, found, same ▸ rfl⟩
  · have warned (path : Path) (t : Templating) : Reads (do
        if !(← get).files.isDirectory path then Run.tell (.noTemplates path)
        return t) readFailures fun _ found => found = t := by
      refine Reads.get_bind fun p => ?_
      split
      · exact Reads.tell_bind (Reads.pure t)
      · exact Reads.pure t
    refine ((place_reads s _).bind fun path => (engineOf_reads s).bind fun engine =>
      warned path ⟨engine, some path⟩).congr
      fun _ t => ⟨?_, ?_⟩
    · rintro ⟨path, placed, engine, found, rfl⟩
      exact ⟨found, path, placed, rfl⟩
    · rintro ⟨found, path, placed, same⟩
      exact ⟨path, placed, t.engine, found, same ▸ rfl⟩

theorem emitted_reads (result : Except Halt α) : (emitted result).Reads codes fun _ value => result = .ok value := by
  cases result with
  | ok value => exact (Reads.pure value).congr fun _ _ => by simp [eq_comm]
  | error halt => exact (Reads.breakdown _).congr fun _ _ => by simp

theorem emitDraft_reads (job : Job) : (emitDraft job).Reads codes fun _ draft =>
    Module.run job = .ok draft ∧ Halt.ofMisshapen (checkNamespaces job.config) = .ok () := by
  refine ((emitted_reads (Draft.start job.root)).bind fun start =>
    (?_ : Reads _ _ fun _ draft => (Module.emit job).run.run start = (.ok (), draft) ∧
      Halt.ofMisshapen (checkNamespaces job.config) = .ok ())).congr fun _ draft => ?_
  · rcases (Module.emit job).run.run start with ⟨outcome, draft⟩
    refine ((Reads.forM_tell Notice.event).bind fun _ => (emitted_reads outcome).bind fun _ =>
      (emitted_reads _).bind fun _ => Reads.pure draft).congr fun _ found => ?_
    constructor
    · rintro ⟨_, _, _, rfl, _, named, rfl⟩
      exact ⟨rfl, named⟩
    · rintro ⟨same, named⟩
      cases same
      exact ⟨(), trivial, (), rfl, (), named, rfl⟩
  · unfold Module.run
    constructor
    · rintro ⟨start, started, emits, named⟩
      simp only [started, bind, Except.bind, emits]
      exact ⟨rfl, named⟩
    · rintro ⟨ran, named⟩
      obtain ⟨start, started, ran⟩ := bind_eq_ok ran
      refine ⟨start, started, ?_, named⟩
      split at ran
      next emits =>
        cases ran
        exact emits
      · cases ran

/-- The directory of templates that is given, if one is. -/
def templatesDirectory? (s : Setting) (o : Options) : Option Path :=
  if o.templatesDir == "" then none else some (s.directory.resolve o.templatesDir)

theorem Setting.Equips.directory {s : Setting} {o : Options} {t : Templating} (equips : s.Equips o t) :
    t.directory = templatesDirectory? s o := by
  obtain ⟨_, chosen⟩ := equips
  unfold templatesDirectory?
  split at chosen
  next absent => rw [chosen, if_pos absent]
  next given =>
    obtain ⟨path, placed, chosen⟩ := chosen
    rw [chosen, if_neg given, placed.eq]
    rfl

/-- What a run gathers from the files. -/
inductive Gathers (s : Setting) (o : Options) (files : FileTree) : Gathered → Prop
  | intro {templating : Templating} {input directory : Path} {loaded : Loaded} {headers : List (String × String)}
      {draft : Draft} (equipped : s.Equips o templating) (given : s.Places (o.input.getD .nothing) input)
      (loads : loaded? files input = some loaded) (imports : o.ImportHeaders headers)
      (placed : s.Places o.outputDir directory)
      (emits : Module.run ⟨configOf o loaded headers, .root loaded.tree, loaded.typemaps⟩ = .ok draft ∧
        Halt.ofMisshapen (checkNamespaces (configOf o loaded headers)) = .ok ()) :
      Gathers s o files { templating, input, directory, config := configOf o loaded headers, draft }

theorem gather_reads (s : Setting) (o : Options) : (gather s o).Reads readFailures (Gathers s o) := by
  refine ((templating_reads s o).bind fun _ => (place_reads s _).bind fun input => (loadInput_reads input).bind fun _ =>
    (readImportHeaders_reads o).bind fun _ => (place_reads s _).bind fun _ => (emitDraft_reads _).bind fun _ =>
      Reads.pure _).congr fun _ g => ⟨?_, ?_⟩
  · rintro ⟨_, equipped, _, given, _, loads, _, imports, _, placed, _, emits, rfl⟩
    exact .intro equipped given loads imports placed emits
  · rintro ⟨equipped, given, loads, imports, placed, emits⟩
    exact ⟨_, equipped, _, given, _, loads, _, imports, _, placed, _, emits, rfl⟩

/-- The codes of a run that cannot write its files. -/
def writeFailures : List Nat := [4, 5]

theorem layOut_reads (moment : Nat) (g : Gathered) : (layOut moment g).Reads writeFailures fun files generated =>
    g.templating.texts moment files (.ofDraft g.config g.draft) = .ok generated := by
  refine Reads.get_bind fun p => ?_
  cases g.templating.texts moment p.files (.ofDraft g.config g.draft) with
  | ok generated => exact (Reads.tell_bind (Reads.pure generated)).congr fun _ _ => by simp [eq_comm]
  | error cause =>
    refine Reads.tell_bind ?_
    split
    · exact (Reads.fail (by decide) _).congr fun _ _ => by simp
    · exact (Reads.breakdown _).congr fun _ _ => by simp

def exitCode (draft : Draft) : Nat :=
  if errorCount draft > 0 then 3 else 0

theorem conclude_reads (config : Config) (draft : Draft) :
    (conclude config draft).Reads codes fun _ code => code = exitCode draft := by
  unfold conclude exitCode
  dsimp only
  split
  · exact Reads.tell_bind (Reads.pure 3)
  · exact Reads.pure 0

/-! ### What is written -/

/-- A step completes with the values that its effect allows, and opens no log file. -/
structure Run.Has (step : Run α) (codes : List Nat) (effect : FileTree → α → FileTree → Prop) : Prop where
  sound : ∀ {p value q}, p.logFile = none → Completes step p value q → effect p.files value q.files ∧ q.logFile = none
  complete : ∀ {p value after}, p.logFile = none → effect p.files value after →
    ∃ q, Completes step p value q ∧ q.files = after ∧ q.logFile = none
  exits : step.Exits codes

namespace Run.Has

variable {step : Run α} {next : α → Run β} {effect : FileTree → α → FileTree → Prop}
  {rest : α → FileTree → β → FileTree → Prop}

theorem congr {other : FileTree → α → FileTree → Prop} (has : step.Has codes effect)
    (same : ∀ before value after, effect before value after ↔ other before value after) : step.Has codes other where
  sound unlogged completes := (has.sound unlogged completes).imp_left (same _ _ _).mp
  complete unlogged allowed := has.complete unlogged ((same _ _ _).mpr allowed)
  exits := has.exits

theorem bind (first : step.Has codes effect) (second : ∀ value, (next value).Has codes (rest value)) :
    (step >>= next).Has codes fun before result after =>
      ∃ value middle, effect before value middle ∧ rest value middle result after where
  sound unlogged completes := by
    obtain ⟨value, middle, completed, completes⟩ := completes_bind_iff.mp completes
    obtain ⟨allowed, unlogged⟩ := first.sound unlogged completed
    obtain ⟨followed, unlogged⟩ := (second value).sound unlogged completes
    exact ⟨⟨value, middle.files, allowed, followed⟩, unlogged⟩
  complete unlogged allowed := by
    obtain ⟨value, _, allowed, followed⟩ := allowed
    obtain ⟨middle, completed, rfl, unlogged⟩ := first.complete unlogged allowed
    obtain ⟨last, completes, same, unlogged⟩ := (second value).complete unlogged followed
    exact ⟨last, completes_bind_iff.mpr ⟨value, middle, completed, completes⟩, same, unlogged⟩
  exits := first.exits.bind fun value => (second value).exits

theorem mono {more : List Nat} (has : step.Has codes effect) (within : codes ⊆ more) : step.Has more effect :=
  { has with exits := fun p code ended => within (has.exits p code ended) }

theorem of_reads {Fact : FileTree → α → Prop} (reads : step.Reads codes Fact) :
    step.Has codes fun before value after => Fact before value ∧ after = before where
  sound {p value q} unlogged completes := by
    have kept := reads.keeps unlogged
    rw [completes] at kept
    exact ⟨⟨(reads.value_iff unlogged).mp (congrArg Prod.fst completes), kept.1⟩, kept.2⟩
  complete {p value after} unlogged allowed := by
    obtain ⟨kept, open_⟩ := reads.keeps unlogged
    exact ⟨_, Prod.ext ((reads.value_iff unlogged).mpr allowed.1) rfl, kept.trans allowed.2.symm, open_⟩
  exits := reads.exits

theorem onFiles_bind {work : FileWork α} {next : Except FileError α → Run β} {Good : Except FileError α → β → Prop}
    (settles : ∀ result, (next result).Reads codes fun _ => Good result) :
    (onFiles work >>= next).Has codes fun before value after =>
      ∃ result, work.run.run before = (result, after) ∧ Good result value := by
  have worked : (onFiles work).Has codes fun before result after => work.run.run before = (result, after) :=
    { sound := fun {p result q} unlogged completes => by
        have ends : ((Except.ok (work.run.run p.files).1 : Except Stop _),
            { p with files := (work.run.run p.files).2 }) = (.ok result, q) := completes
        cases ends
        exact ⟨rfl, unlogged⟩
      complete := fun {p result after} unlogged allowed => by
        refine ⟨{ p with files := after }, ?_, rfl, unlogged⟩
        change ((Except.ok (work.run.run p.files).1 : Except Stop _), { p with files := (work.run.run p.files).2 }) = _
        rw [allowed]
      exits := fun _ _ impossible => by cases impossible }
  refine (worked.bind fun result => of_reads (settles result)).congr fun before value after => ⟨?_, ?_⟩
  · rintro ⟨result, _, ends, good, rfl⟩
    exact ⟨result, ends, good⟩
  · rintro ⟨result, ends, good⟩
    exact ⟨result, after, ends, good, rfl⟩

end Run.Has

section

variable {o : Options} (directory : Path)

theorem writeFile_has (path : Path) (text : String) : (writeFile false path text).Has codes fun before result after =>
    ∃ outcome, (write path text true true).run.run before = (outcome, after) ∧
      result = outcome.map fun _ => () := by
  refine Has.onFiles_bind fun outcome => ?_
  cases outcome with
  | error e => exact Reads.pure _
  | ok written =>
    cases written with
    | false => exact Reads.tell_bind (Reads.pure _)
    | true =>
      have released : (modify fun p => p.replaced path : Run Unit).Reads codes fun _ _ => True := by
        refine Reads.modify fun p unlogged => ?_
        unfold Progress.replaced
        split
        · exact ⟨rfl, rfl⟩
        · exact ⟨rfl, unlogged⟩
      exact (released.bind fun _ => Reads.tell_bind (Reads.pure _)).congr fun _ _ => by simp [Except.map]

theorem written_has (writes : o.dryRun = false) {path : Path} {text : String}
    {settle : Except FileError Unit → Run Unit}
    (settles : ∀ result, (settle result).Reads codes fun _ _ => result = .ok ()) :
    (writeFile o.dryRun path text >>= settle).Has codes fun before _ after =>
      ∃ written, Completes (write path text true true) before written after := by
  rw [writes]
  refine ((writeFile_has path text).bind fun result => Has.of_reads (settles result)).congr fun before _ after => ?_
  constructor
  · rintro ⟨_, _, ⟨outcome, ends, rfl⟩, ok, rfl⟩
    obtain ⟨written, rfl⟩ := map_eq_ok_iff.mp ⟨_, ok⟩
    exact ⟨written, ends⟩
  · rintro ⟨written, ends⟩
    exact ⟨.ok (), after, ⟨.ok written, ends, rfl⟩, rfl, rfl⟩

theorem writeGenerated_has (writes : o.dryRun = false) (name text : String) :
    (writeGenerated o directory name text).Has writeFailures fun before _ after =>
      ∃ written, Completes (write (directory.append name) text true true) before written after := by
  refine written_has writes fun result => ?_
  cases result with
  | ok => exact (Reads.pure ()).congr fun _ _ => by simp
  | error e =>
    refine Reads.tell_bind ?_
    split
    · exact (Reads.fail (by decide) _).congr fun _ _ => by simp
    · exact (Reads.breakdown _).congr fun _ _ => by simp

theorem writeManifest_has (writes : o.dryRun = false) (text : String) :
    (writeManifest o directory text).Has writeFailures fun before _ after =>
      ∃ written, Completes (write (directory.append manifestName) text true true) before written after := by
  refine written_has writes fun result => ?_
  cases result with
  | ok => exact (Reads.pure ()).congr fun _ _ => by simp
  | error e => exact (Reads.fail (by decide) _).congr fun _ _ => by simp

theorem makeOutputDirectory_has (writes : o.dryRun = false) :
    (makeOutputDirectory o directory).Has writeFailures fun before _ after =>
      Completes (ensureDirectory directory) before () after := by
  unfold makeOutputDirectory
  rw [writes]
  refine (Has.onFiles_bind fun outcome => (?_ : Reads _ _ fun _ _ => outcome = .ok ())).congr fun before _ after => ?_
  · cases outcome with
    | ok => exact (Reads.pure ()).congr fun _ _ => by simp
    | error e => exact (Reads.fail (by decide) _).congr fun _ _ => by simp
  · constructor
    · rintro ⟨_, ends, rfl⟩
      exact ends
    · intro ends
      exact ⟨.ok (), ends, rfl⟩

end

variable (s : Setting) (o : Options) (g : Gathered) (generated : Generated)

def manifestOutput : List (Path × String) :=
  if o.noManifest then []
  else [(g.directory.append manifestName, Manifest.text s.host s.words g.input g.directory g.config g.draft)]

/-- What a run writes, and where. -/
def outputs : List (Path × String) :=
  (g.directory.append g.config.outputHeader, generated.header) ::
    (g.directory.append g.config.outputSource, generated.source) :: manifestOutput s o g

/-- The effect of writing files one after the other. -/
abbrev Writes (files : List (Path × String)) (before : FileTree) (_ : Unit) (after : FileTree) : Prop :=
  WritesAll files before after

theorem Run.Has.writes_bind {step next : Run Unit} {path : Path} {text : String} {more : List (Path × String)}
    (first : step.Has codes fun before _ after =>
      ∃ written, Completes (write path text true true) before written after)
    (second : next.Has codes (Writes more)) : (step >>= fun _ => next).Has codes (Writes ((path, text) :: more)) := by
  refine (first.bind fun _ => second).congr fun before _ after => ⟨?_, ?_⟩
  · rintro ⟨_, middle, ⟨written, writes⟩, rest⟩
    exact .cons written writes rest
  · intro writes
    cases writes with
    | cons written first rest => exact ⟨(), _, ⟨written, first⟩, rest⟩

theorem writesNothing_has : (pure () : Run Unit).Has codes (Writes []) := by
  refine (Has.of_reads (Reads.pure ())).congr fun before _ after => ⟨?_, ?_⟩
  · rintro ⟨_, rfl⟩
    exact .nil
  · intro nothing
    cases nothing
    exact ⟨rfl, rfl⟩

variable {o}

theorem deliver_has (writes : o.dryRun = false) : (deliver s o g generated).Has writeFailures fun before _ after =>
    ∃ made, Completes (ensureDirectory g.directory) before () made ∧
      WritesAll (outputs s o g generated) made after := by
  refine ((makeOutputDirectory_has g.directory writes).bind fun _ =>
    (writeGenerated_has g.directory writes _ _).writes_bind
    ((writeGenerated_has g.directory writes _ _).writes_bind (?_ : Has _ _ (Writes (manifestOutput s o g))))).congr
      fun before _ after => ?_
  · unfold manifestOutput
    simp only [writes]
    cases o.noManifest with
    | true => exact writesNothing_has
    | false =>
      have last := (writeManifest_has g.directory writes
        (Manifest.text s.host s.words g.input g.directory g.config g.draft)).writes_bind writesNothing_has
      rw [bind_pure_unit] at last
      exact last
  · constructor
    · rintro ⟨_, made, makes, written⟩
      exact ⟨made, makes, written⟩
    · rintro ⟨made, makes, written⟩
      exact ⟨(), made, makes, written⟩

theorem deliver_reads (dry : o.dryRun) : (deliver s o g generated).Reads codes fun _ _ => True := by
  have done : (pure () : Run Unit).Reads codes fun _ _ => True := (Reads.pure ()).congr fun _ _ => by simp
  simp only [deliver, makeOutputDirectory, writeGenerated, writeManifest, writeFile, dry, Bool.not_true,
    Bool.false_eq_true, if_true, if_false, pure_bind, bind_assoc]
  refine Reads.tell_bind (Reads.tell_bind (Reads.tell_bind ?_))
  split
  · exact Reads.tell_bind done
  · exact done

/-! ### The whole run -/

/-- A run that is done, by what it has gathered and generated. -/
inductive Works (s : Setting) (o : Options) : FileTree → Nat → FileTree → Prop
  | intro {before made after : FileTree} {g : Gathered} {generated : Generated} (gathers : Gathers s o before g)
      (texts : g.templating.texts s.moment before (.ofDraft g.config g.draft) = .ok generated)
      (makes : Completes (ensureDirectory g.directory) before () made)
      (writes : WritesAll (outputs s o g generated) made after) : Works s o before (exitCode g.draft) after

theorem finish_has (writes : o.dryRun = false) : (finish s o g).Has writeFailures fun before code after =>
    code = exitCode g.draft ∧ ∃ generated made,
      g.templating.texts s.moment before (.ofDraft g.config g.draft) = .ok generated ∧
      Completes (ensureDirectory g.directory) before () made ∧
      WritesAll (outputs s o g generated) made after := by
  refine ((Has.of_reads (layOut_reads s.moment g)).bind fun generated => (deliver_has s g generated writes).bind
    fun _ => Has.of_reads (conclude_reads g.config g.draft)).congr fun before code after => ⟨?_, ?_⟩
  · rintro ⟨generated, _, ⟨texts, rfl⟩, _, _, ⟨made, makes, written⟩, rfl, rfl⟩
    exact ⟨rfl, generated, made, texts, makes, written⟩
  · rintro ⟨rfl, generated, made, texts, makes, written⟩
    exact ⟨generated, before, ⟨texts, rfl⟩, (), after, ⟨made, makes, written⟩, rfl, rfl⟩

theorem finish_reads (dry : o.dryRun) : (finish s o g).Reads writeFailures fun files code =>
    code = exitCode g.draft ∧ ∃ generated,
      g.templating.texts s.moment files (.ofDraft g.config g.draft) = .ok generated :=
  ((layOut_reads s.moment g).bind fun generated => (deliver_reads s g generated dry).bind fun _ =>
    conclude_reads g.config g.draft).congr fun _ _ => by simp [and_comm]

theorem work_has (writes : o.dryRun = false) : (work s o).Has (readFailures ++ writeFailures) (Works s o) := by
  refine (((Has.of_reads (gather_reads s o)).mono (by simp)).bind fun g => (finish_has s g writes).mono (by simp)).congr
    fun before code after => ⟨?_, ?_⟩
  · rintro ⟨g, _, ⟨gathers, rfl⟩, rfl, generated, made, texts, makes, written⟩
    exact .intro gathers texts makes written
  · rintro ⟨gathers, texts, makes, written⟩
    exact ⟨_, before, ⟨gathers, rfl⟩, rfl, _, _, texts, makes, written⟩

end FlatAbi.CommandLine
