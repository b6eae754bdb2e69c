import FlatAbi.CommandLine.Options

/-!
The words of a command line. The word that asks for a dry run may stand anywhere among them.
-/

namespace FlatAbi.CommandLine

open Word List

variable {word : Word} {words : List Word} {front : List String}

/-- The same options for a dry run. -/
def Options.dried (o : Options) : Options :=
  { o with dryRun := true }

/-- What is asked for, as a dry run. -/
def Request.dried : Request → Request
  | .run o => .run o.dried
  | .help => .help
  | .misuse => .misuse

theorem flag_dried (o : Options) (switch : Switch) : o.dried.flag switch = (o.flag switch).dried := by
  cases switch <;> rfl

theorem foldl_flag_dried (flags : List Switch) (o : Options) :
    flags.foldl Options.flag o.dried = (flags.foldl Options.flag o).dried := by
  induction flags generalizing o with
  | nil => rfl
  | cons switch flags ih => rw [foldl_cons, flag_dried, ih, foldl_cons]

theorem value?_dried (o : Options) (given : Given) (switch : Switch) :
    o.dried.value? given switch = (o.value? given switch).map Options.dried := by
  cases switch with
  | logLevel => cases given <;> simp [Options.value?, Options.dried, Function.comp_def]
  | _ => rfl

section

variable {o : Options} {surplus : Bool} {switch : Switch} {spelling : String} {rest : List Word}

theorem requestFrom_attached {text : String} (takes : switch.takesValue) :
    requestFrom o surplus (.option switch spelling (some text) :: rest) =
      (o.value? (.ofAttached text) switch).elim .misuse fun next => requestFrom next surplus rest := by
  rw [requestFrom.eq_def]
  simp only [takes, if_true]
  cases o.value? (.ofAttached text) switch <;> rfl

theorem requestFrom_value {text : String} (takes : switch.takesValue) :
    requestFrom o surplus (.option switch spelling none :: .value text :: rest) =
      (o.value? (.text text) switch).elim .misuse fun next => requestFrom next surplus rest := by
  rw [requestFrom.eq_def]
  simp only [takes, if_true]
  cases o.value? (.text text) switch <;> rfl

theorem requestFrom_bare (takes : switch.takesValue) (bare : ∀ text others, rest ≠ .value text :: others) :
    requestFrom o surplus (.option switch spelling none :: rest) = .misuse := by
  rw [requestFrom.eq_def]
  simp only [takes, if_true]

theorem requestFrom_flag {attached : Option String} (flag : ¬ switch.takesValue) :
    requestFrom o surplus (.option switch spelling attached :: rest) =
      (flags? switch spelling attached).elim .misuse fun flags =>
        if flags.contains .help then .help else requestFrom (flags.foldl Options.flag o) surplus rest := by
  rw [requestFrom.eq_def]
  simp only [flag]
  cases flags? switch spelling attached <;> rfl

theorem requestFrom_surplus (other : ∀ switch spelling attached, word ≠ .option switch spelling attached) :
    requestFrom o surplus (word :: rest) = requestFrom o true rest := by
  cases word with
  | option => exact (other _ _ _ rfl).elim
  | _ => rfl

end

theorem requestFrom_dried (o : Options) (surplus : Bool) (words : List Word) :
    requestFrom o.dried surplus words = (requestFrom o surplus words).dried := by
  fun_induction requestFrom o surplus words with
  | case1 o surplus unusable => exact if_pos unusable
  | case2 o surplus usable => exact if_neg usable
  | case3 o surplus switch spelling takes text rest next given ih =>
    rw [requestFrom_attached takes, value?_dried, given]
    exact ih
  | case4 o surplus switch spelling takes text rest refused =>
    rw [requestFrom_attached takes, value?_dried, refused]
    rfl
  | case5 o surplus switch spelling takes text rest next given ih =>
    rw [requestFrom_value takes, value?_dried, given]
    exact ih
  | case6 o surplus switch spelling takes text rest refused =>
    rw [requestFrom_value takes, value?_dried, refused]
    rfl
  | case7 o surplus switch spelling rest takes bare =>
    rw [requestFrom_bare takes bare]
    rfl
  | case8 o surplus switch spelling attached rest flag refused =>
    rw [requestFrom_flag flag, refused]
    rfl
  | case9 o surplus switch spelling attached rest flag flags set help =>
    rw [requestFrom_flag flag, set]
    exact if_pos help
  | case10 o surplus switch spelling attached rest flag flags set plain ih =>
    rw [requestFrom_flag flag, set, ← ih, ← foldl_flag_dried]
    exact if_neg plain
  | case11 o surplus word rest other ih => rw [requestFrom_surplus other, ih]

/-- An option that takes the next word as its value. -/
def Word.awaitsValue : Word → Bool
  | .option switch _ none => switch.takesValue
  | _ => false

/-- Words that do not end in an option that waits for its value. -/
def Word.settled (words : List Word) : Bool :=
  words.getLast?.all (!·.awaitsValue)

theorem Word.settled_cons {next : Word} : settled (word :: next :: words) = settled (next :: words) := by
  simp [settled]

theorem Word.settled_values (word : Word) (plain : word.awaitsValue = false) (texts : List String) :
    settled (word :: texts.map .value) := by
  induction texts generalizing word with
  | nil => simp [settled, plain]
  | cons text texts ih =>
    rw [map_cons, settled_cons]
    exact ih (.value text) rfl

/-- What follows some words is not taken for the value of an option among them. -/
def Word.Parted (words rest : List Word) : Prop :=
  settled words ∨ ∀ text others, rest ≠ .value text :: others

theorem Word.Parted.tail {rest : List Word} (parted : Parted (word :: words) rest) : Parted words rest := by
  refine parted.imp_left fun settled => ?_
  cases words with
  | nil => rfl
  | cons next words => rwa [settled_cons] at settled

/-- Reading some words either settles what is asked for, which is no run but a dry one, or sets options with which the
rest is read. A separator among the words leaves no room for more of them. -/
def Word.Pass (o : Options) (surplus : Bool) (words : List Word) : Prop :=
  (∃ answer : Request, answer.dried = answer ∧ ∀ rest, Parted words rest →
    requestFrom o surplus (words ++ rest) = answer) ∨
  ∃ next more, (surplus ∨ .separator ∈ words → more = true) ∧ ∀ rest, Parted words rest →
    requestFrom o surplus (words ++ rest) = requestFrom next more rest

theorem Word.Pass.of_step {o next : Options} {surplus more : Bool} {left : List Word} (pass : Pass next more left)
    (separated : surplus ∨ .separator ∈ words → more ∨ .separator ∈ left) (step : ∀ rest, Parted words rest →
      Parted left rest ∧ requestFrom o surplus (words ++ rest) = requestFrom next more (left ++ rest)) :
    Pass o surplus words := by
  rcases pass with ⟨answer, dry, settled⟩ | ⟨last, most, separatedToo, read⟩
  · refine .inl ⟨answer, dry, fun rest parted => ?_⟩
    obtain ⟨parted, same⟩ := step rest parted
    rw [same, settled rest parted]
  · refine .inr ⟨last, most, fun found => separatedToo (separated found), fun rest parted => ?_⟩
    obtain ⟨parted, same⟩ := step rest parted
    rw [same, read rest parted]

theorem Word.pass (o : Options) (surplus : Bool) (words : List Word) : Pass o surplus words := by
  -- the words are read as they would be without the rest
  fun_induction requestFrom o surplus words with
  | case1 o surplus => exact .inr ⟨o, surplus, by simp, fun _ _ => rfl⟩
  | case2 o surplus => exact .inr ⟨o, surplus, by simp, fun _ _ => rfl⟩
  | case3 o surplus switch spelling takes text left next given ih =>
    refine ih.of_step (by simp) fun rest parted => ⟨parted.tail, ?_⟩
    rw [cons_append, requestFrom_attached takes, given]
    rfl
  | case4 o surplus switch spelling takes text left refused =>
    refine .inl ⟨.misuse, rfl, fun rest _ => ?_⟩
    rw [cons_append, requestFrom_attached takes, refused]
    rfl
  | case5 o surplus switch spelling takes text left next given ih =>
    refine ih.of_step (by simp) fun rest parted => ⟨parted.tail.tail, ?_⟩
    rw [cons_append, cons_append, requestFrom_value takes, given]
    rfl
  | case6 o surplus switch spelling takes text left refused =>
    refine .inl ⟨.misuse, rfl, fun rest _ => ?_⟩
    rw [cons_append, cons_append, requestFrom_value takes, refused]
    rfl
  | case7 o surplus switch spelling left takes bare =>
    refine .inl ⟨.misuse, rfl, fun rest parted => requestFrom_bare takes ?_⟩
    cases left with
    | nil => exact parted.resolve_left (by simp [settled, awaitsValue, takes])
    | cons word left =>
      intro text others same
      exact bare text left (by rw [(List.cons.inj same).1])
  | case8 o surplus switch spelling attached left flag refused =>
    refine .inl ⟨.misuse, rfl, fun rest _ => ?_⟩
    rw [cons_append, requestFrom_flag flag, refused]
    rfl
  | case9 o surplus switch spelling attached left flag flags set help =>
    refine .inl ⟨.help, rfl, fun rest _ => ?_⟩
    rw [cons_append, requestFrom_flag flag, set]
    exact if_pos help
  | case10 o surplus switch spelling attached left flag flags set plain ih =>
    refine ih.of_step (by simp) fun rest parted => ⟨parted.tail, ?_⟩
    rw [cons_append, requestFrom_flag flag, set]
    exact if_neg plain
  | case11 o surplus word left other ih =>
    refine ih.of_step (fun _ => .inl rfl) fun rest parted => ⟨parted.tail, ?_⟩
    rw [cons_append, requestFrom_surplus other]

/-- After a separator there is no place for a value. -/
theorem requestFrom_values (o : Options) (texts : List String) : requestFrom o true (texts.map .value) = .misuse := by
  induction texts with
  | nil => rfl
  | cons text texts ih => exact ih

/-- The words of a command line before some others: they cannot be told apart, they make values of all others, or they
are classified on their own. -/
theorem classifyAll?_append (front : List String) :
    (∀ back, classifyAll? (front ++ back) = none) ∨
    (∃ words, .separator ∈ words ∧ Word.settled words ∧
      ∀ back, classifyAll? (front ++ back) = some (words ++ back.map .value)) ∨
    ∃ words, ∀ back, classifyAll? (front ++ back) = (classifyAll? back).map (words ++ ·) := by
  induction front with
  | nil => exact .inr (.inr ⟨[], fun back => by simp⟩)
  | cons word front ih =>
    by_cases separates : word = separatorText
    · refine .inr (.inl ⟨.separator :: front.map .value, mem_cons_self, settled_values _ rfl _, fun back => ?_⟩)
      simp [classifyAll?, separates]
    · cases found : classify? word with
      | none => exact .inl fun back => by simp [classifyAll?, separates, found]
      | some first =>
        rcases ih with unclear | ⟨words, separated, settled, known⟩ | ⟨words, known⟩
        · exact .inl fun back => by simp [classifyAll?, separates, found, unclear]
        · refine .inr (.inl ⟨first :: words, mem_cons_of_mem _ separated, ?_, fun back => ?_⟩)
          · cases words with
            | nil => cases separated
            | cons next words => rwa [settled_cons]
          · simp [classifyAll?, separates, found, known]
        · refine .inr (.inr ⟨first :: words, fun back => ?_⟩)
          cases classified : classifyAll? back <;>
            simp [classifyAll?, separates, found, known, classified]

def dryRunWord : String := "--dry-run"

def Word.dryRun : Word := .option .dryRun dryRunWord none

theorem classifyAll?_dryRunWord (back : List String) :
    classifyAll? (dryRunWord :: back) = (classifyAll? back).map (Word.dryRun :: ·) := by
  have known : classify? dryRunWord = some Word.dryRun := by rfl
  have other : (dryRunWord == separatorText) = false := by rfl
  cases classified : classifyAll? back <;> simp [classifyAll?, known, other, classified]

theorem requestFrom_dryRun (o : Options) (surplus : Bool) (rest : List Word) :
    requestFrom o surplus (Word.dryRun :: rest) = (requestFrom o surplus rest).dried := by
  rw [← requestFrom_dried, Word.dryRun, requestFrom_flag (by decide)]
  rfl

/-- The first words of a command line do not end in an option that waits for its value. -/
def Settled (front : List String) : Prop :=
  (classifyAll? front).all Word.settled

/-- Classified words leave a reading of the rest, for which the option of a dry run makes a dry run of what is asked for
without it. After a separator it does not matter which values follow. -/
theorem Word.exists_reading (words : List Word) : ∃ read : List Word → Request,
    (∀ rest, read (Word.dryRun :: rest) = (read rest).dried) ∧
    (.separator ∈ words → ∃ answer : Request, answer.dried = answer ∧
      ∀ texts : List String, read (texts.map .value) = answer) ∧
    ∀ rest, Parted words rest → requestFrom {} false (words ++ rest) = read rest := by
  rcases Word.pass {} false words with ⟨answer, dry, settles⟩ | ⟨next, more, surplus, reads⟩
  · exact ⟨fun _ => answer, fun _ => dry.symm, fun _ => ⟨answer, dry, fun _ => rfl⟩, settles⟩
  · refine ⟨requestFrom next more, requestFrom_dryRun next more, fun separated => ?_, reads⟩
    obtain rfl := surplus (.inr separated)
    exact ⟨.misuse, rfl, requestFrom_values next⟩

theorem exists_reading (front : List String) : ∃ read : List String → Request,
    (∀ back, read (dryRunWord :: back) = (read back).dried) ∧
    ∀ back, Settled front ∨ back.head? = some dryRunWord → request (front ++ back) = read back := by
  unfold request
  rcases classifyAll?_append front with unclear | ⟨words, separated, ended, known⟩ | ⟨words, known⟩
  · exact ⟨fun _ => .misuse, fun _ => rfl, fun back _ => by rw [unclear]⟩
  · obtain ⟨read, _, values, reads⟩ := Word.exists_reading words
    obtain ⟨answer, dry, same⟩ := values separated
    refine ⟨fun _ => answer, fun _ => dry.symm, fun back _ => ?_⟩
    rw [known]
    exact (reads _ (.inl ended)).trans (same back)
  · obtain ⟨read, dry, _, reads⟩ := Word.exists_reading words
    have parted {back : List String} {rest : List Word} (leaves : Settled front ∨ back.head? = some dryRunWord)
        (classified : classifyAll? back = some rest) : Parted words rest := by
      rcases leaves with settled | first
      · have alone := known []
        rw [append_nil] at alone
        exact .inl (by simpa [Settled, alone, classifyAll?] using settled)
      · obtain ⟨others, rfl⟩ := head?_eq_some_iff.mp first
        rw [classifyAll?_dryRunWord] at classified
        obtain ⟨_, _, rfl⟩ := Option.map_eq_some_iff.mp classified
        exact .inr fun _ _ impossible => by cases impossible
    -- words that cannot be classified make the whole line unusable
    refine ⟨fun back => (classifyAll? back).elim .misuse read, fun back => ?_, fun back leaves => ?_⟩
    · dsimp only
      rw [classifyAll?_dryRunWord]
      cases classifyAll? back with
      | none => rfl
      | some rest => exact dry rest
    · dsimp only
      rw [known]
      cases classified : classifyAll? back with
      | none => rfl
      | some rest => exact reads rest (parted leaves classified)

/-- The word for a dry run makes a dry run of what is asked for, wherever it does not part an option from its value. -/
theorem request_dryRunWord (settled : Settled front) (back : List String) :
    request (front ++ dryRunWord :: back) = (request (front ++ back)).dried := by
  obtain ⟨read, dry, reads⟩ := exists_reading front
  rw [reads _ (.inl settled), reads _ (.inl settled), dry]

theorem dried_of_request {back : List String} {o : Options} (asked : request (front ++ dryRunWord :: back) = .run o) :
    o.dried = o := by
  obtain ⟨read, dry, reads⟩ := exists_reading front
  rw [reads _ (.inr rfl), dry] at asked
  cases found : read back with
  | run other =>
    rw [found] at asked
    cases asked
    rfl
  | help | misuse =>
    rw [found] at asked
    cases asked

end FlatAbi.CommandLine
