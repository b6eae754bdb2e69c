import FlatAbi.Proofs.Emission.Over
import FlatAbi.Proofs.Emission.RuntimeClass
import FlatAbi.Proofs.Emission.Trailing

/-!
Support of exceptions only adds to the interface. A run with it is ahead of one without by the runtime class.
-/

namespace FlatAbi

open Emit SymbolTable Facade List Text

/-! ### Trees that avoid the exception class -/

/-- A name whose last component is that of the exception class. As in lookups, a keyword such as `struct` in front of
the name and a leading `::` do not count. -/
def SymbolTable.NamesException (name : String) : Prop :=
  lastComponent (normalizeName name) = Facade.exceptionClass

instance (name : String) : Decidable (NamesException name) :=
  inferInstanceAs (Decidable (_ = _))

/-- A declaration that neither names the exception class nor introduces its name. -/
structure Site.AvoidsException (s : Site) : Prop where
  types : ∀ t ∈ s.decl.types, ¬ NamesException t.base
  bases : ∀ base ∈ s.decl.baseNames, ¬ NamesException base
  named : s.kind = .classDecl ∨ s.kind = .enumDecl ∨ s.kind = .typedefDecl → ¬ NamesException s.qualifiedName

instance (s : Site) : Decidable s.AvoidsException :=
  decidable_of_iff ((∀ t ∈ s.decl.types, ¬ NamesException t.base) ∧
      (∀ base ∈ s.decl.baseNames, ¬ NamesException base) ∧
      (s.kind = .classDecl ∨ s.kind = .enumDecl ∨ s.kind = .typedefDecl → ¬ NamesException s.qualifiedName))
    ⟨fun ⟨types, bases, named⟩ => ⟨types, bases, named⟩, fun avoids => ⟨avoids.types, avoids.bases, avoids.named⟩⟩

theorem SymbolTable.isOrdinary_of_not_namesException {name : String} (avoids : ¬ NamesException name) :
    IsOrdinary name := by
  intro same
  apply avoids
  rw [NamesException, same]
  decide

variable {root : Site} {config : Config} {typemaps : TypemapTable} {tree : Node}

section avoiding

variable (avoids : ∀ s ∈ (Site.root tree).walk, s.AvoidsException)

include avoids

theorem Site.ordinary_of_avoids {s : Site} (walked : s ∈ (Site.root tree).walk) : s.Ordinary where
  declared := by
    obtain ⟨rest, id⟩ := Site.id_of_mem_walk rfl walked
    rw [id]
    rfl
  types t listed := isOrdinary_of_not_namesException ((avoids s walked).types t listed)
  bases base listed := isOrdinary_of_not_namesException ((avoids s walked).bases base listed)
  named isClass := isOrdinary_of_not_namesException ((avoids s walked).named (.inl isClass))

theorem Site.familiar_of_avoids {s : Site} (walked : s ∈ (Site.root tree).walk) : s.Familiar :=
  ⟨ordinary_of_avoids avoids walked, fun _ listed => ordinary_of_avoids avoids (Site.child_mem_walk walked listed)⟩

end avoiding

/-! ### The table with the runtime class -/

theorem Text.colon_mem_join {pieces : List String} (several : 2 ≤ pieces.length) :
    ':' ∈ (join "::" pieces).toList := by
  match pieces, several with
  | piece :: next :: rest, _ => simp [join]

namespace SymbolTable

/-- A name that is qualified further is not the name of the exception class. -/
theorem candidatesFrom_ne {name : String} (other : name ≠ exceptionClass) (parts : List String) :
    exceptionClass ∉ candidatesFrom name parts := by
  induction parts with
  | nil => simpa [candidatesFrom] using other.symm
  | cons part rest ih =>
    intro listed
    rcases mem_cons.mp listed with same | listed
    · have colon : ':' ∈ exceptionClass.toList := same ▸ colon_mem_join (by simp)
      revert colon
      decide
    · exact ih listed

theorem find_append {entries : List (String × Site)} {name scope : String} (ordinary : IsOrdinary name) (cls : Site) :
    find? (entries ++ [(exceptionClass, cls)]) name scope = find? entries name scope := by
  have others := candidatesFrom_ne ordinary ((Text.splitOn "::" scope).filter (· != "")).reverse
  unfold find? candidates
  generalize candidatesFrom _ _ = names at others
  induction names with
  | nil => rfl
  | cons candidate rest ih =>
    rw [mem_cons, not_or] at others
    obtain ⟨first, others⟩ := others
    have same : (entries ++ [(exceptionClass, cls)]).lookup candidate = entries.lookup candidate := by
      rw [lookup_append, lookup_cons, beq_false_of_ne (Ne.symm first)]
      simp
    rw [findSome?_cons, findSome?_cons, same, ih others]

theorem register_runtimeClass {table : SymbolTable} (isModule : root.kind = .moduleDecl) :
    table.register (Module.runtimeClass root) =
      { table with classes := table.classes ++ [(exceptionClass, Module.runtimeClass root)] } := by
  have names : classNames (Module.runtimeClass root) = [exceptionClass] := by
    change (Module.runtimeClass root).qualifiedName :: [] = _
    rw [Module.qualifiedName_runtimeClass isModule]
  have enums : enumNames (Module.runtimeClass root) = [] := rfl
  have typedefs : typedefNames (Module.runtimeClass root) = [] := rfl
  simp [register, names, enums, typedefs]

theorem candidates_exceptionClass :
    candidates (normalizeName exceptionClass) exceptionClass =
      ["SWIG_CException::SWIG_CException", exceptionClass] := by
  decide +kernel

section avoiding

variable (avoids : ∀ s ∈ (Site.root tree).walk, s.AvoidsException)

include avoids

theorem typedefs_of_avoids {entry : String × Site} (listed : entry ∈ (ofTree (.root tree)).typedefs) :
    entry.2 ∈ (Site.root tree).walk ∧ ¬ NamesException entry.1 := by
  obtain ⟨walked, named⟩ := mem_typedefs_ofTree listed
  refine ⟨walked, ?_⟩
  unfold typedefNames at named
  split at named
  · rename_i isTypedef
    rw [mem_singleton.mp named]
    simp only [Bool.and_eq_true, beq_iff_eq] at isTypedef
    exact (avoids entry.2 walked).named (.inr (.inr isTypedef.1.1))
  · cases named

theorem sameSeen_of_avoids {table : SymbolTable} (enums : (ofTree (.root tree)).enums = table.enums)
    (typedefs : (ofTree (.root tree)).typedefs = table.typedefs)
    (classes : ∀ name scope, IsOrdinary name → (ofTree (.root tree)).class? name scope = table.class? name scope) :
    (ofTree (.root tree)).SameSeen IsOrdinary table where
  enums := enums
  typedefs := typedefs
  classes := classes
  targets _ listed t written :=
    (Site.ordinary_of_avoids avoids (typedefs_of_avoids avoids listed).1).types t (Members.mem_types_of_type written)

theorem typedef_exceptionClass : (ofTree (.root tree)).typedef? exceptionClass exceptionClass = none := by
  unfold typedef? find?
  rw [candidates_exceptionClass, findSome?_eq_none_iff]
  intro candidate listed
  have names : NamesException candidate := by
    revert candidate
    decide +kernel
  rw [lookup_eq_none_iff]
  intro entry found
  have other := (typedefs_of_avoids avoids found).2
  exact bne_iff_ne.mpr fun same => other (same ▸ names)

theorem knowsException_of_avoids (isModule : root.kind = .moduleDecl) :
    ((ofTree (.root tree)).register (Module.runtimeClass root)).KnowsException := by
  rw [register_runtimeClass isModule]
  refine ⟨typedef_exceptionClass avoids, ?_⟩
  unfold class? find?
  rw [candidates_exceptionClass, findSome?_isSome_iff]
  refine ⟨exceptionClass, by simp, ?_⟩
  rw [lookup_append]
  simp

end avoiding

end SymbolTable

/-! ### Runs with and without exceptions -/

namespace Module

variable {job : Job}

theorem interfaceChunks_prepared (job : Job) : interfaceChunks (prepared job).chunks = [] := by
  unfold prepared preparedChunks
  rcases exceptionSupport job.config job.root with ⟨support, part⟩
  cases job.config.writesFacade <;> cases support <;> rfl

theorem ownRuntimeClass_of_namedImport (imports : job.root.namedImport?.isSome) : ownRuntimeClass? job = none := by
  obtain ⟨found, first⟩ := Option.isSome_iff_exists.mp imports
  unfold ownRuntimeClass? exceptionSupport
  rw [first]
  split <;> rfl

theorem ownRuntimeClass_of_no_import (cxx : job.config.cplusplus) (enabled : job.config.exceptions)
    (absent : job.root.namedImport? = none) : ownRuntimeClass? job = some (runtimeClass job.root) := by
  simp [ownRuntimeClass?, exceptionSupport, cxx, enabled, absent]

theorem runtimeDraft_of_none (absent : ownRuntimeClass? job = none) : runtimeDraft job = prepared job := by
  rw [runtimeDraft, absent]
  rfl

/-- A run visits the runtime class, where the module has one, and then the declarations of the module. -/
theorem ends_runtimeDraft {draft : Draft} (ran : run job = .ok draft) :
    Ends ((ownRuntimeClass? job).toList.forM (declaration job)) (prepared job) (.ok ()) (runtimeDraft job) ∧
      Ends (job.root.emitted.forM (declaration job)) (runtimeDraft job) (.ok ()) draft := by
  have visits := ends_of_run ran
  have parts : (visited job).forM (declaration job) =
      (ownRuntimeClass? job).toList.forM (declaration job) >>= fun _ => job.root.emitted.forM (declaration job) :=
    forM_append
  rw [parts] at visits
  rcases visits.bind_cases with ⟨_, middle, runtime, others⟩ | ⟨_, _, impossible⟩
  · have same : runtimeDraft job = middle := congrArg Prod.snd runtime
    rw [same]
    exact ⟨runtime, others⟩
  · cases impossible

theorem lookup_of_runtime {κ α : Type} [BEq κ] [LawfulBEq κ] {entries : List (κ × α)} {node : κ → NodeId}
    (runtime : ∀ entry ∈ entries, (node entry.1).isRuntime) {key : κ} (declared : (node key).isRuntime = false) :
    entries.lookup key = none := by
  refine lookup_eq_none_iff.mpr fun entry listed => bne_iff_ne.mpr ?_
  rintro rfl
  exact Bool.noConfusion ((runtime entry listed).symm.trans declared)

section avoiding

variable (avoids : ∀ s ∈ (Site.root tree).walk, s.AvoidsException) (isModule : tree.kind = .moduleDecl)
  (rooted : job.root = .root tree)

include avoids isModule rooted

theorem prepared_sameSeen : (SymbolTable.ofTree (.root tree)).SameSeen IsOrdinary (prepared job).table := by
  unfold prepared
  dsimp only
  cases own : ownRuntimeClass? job with
  | none =>
    rw [rooted]
    exact sameSeen_of_avoids avoids rfl rfl fun _ _ _ => rfl
  | some cls =>
    obtain rfl := ownRuntimeClass_eq own
    rw [rooted]
    change SameSeen _ _ ((SymbolTable.ofTree (.root tree)).register (runtimeClass (.root tree)))
    rw [@register_runtimeClass (.root tree) _ isModule]
    exact sameSeen_of_avoids avoids rfl rfl fun _ _ ordinary =>
      (find_append ordinary (runtimeClass (.root tree))).symm

theorem prepared_knowsException {cls : Site} (own : ownRuntimeClass? job = some cls) :
    (prepared job).table.KnowsException := by
  unfold prepared
  dsimp only
  rw [own, ownRuntimeClass_eq own, rooted]
  exact knowsException_of_avoids avoids isModule

theorem holdsRuntime_of_run {draft : Draft} (cxx : job.config.cplusplus) (ran : run job = .ok draft) :
    Draft.HoldsRuntime (prepared job) (runtimeDraft job) := by
  refine runtimeDraft_holds cxx ?_ (fun _ own => prepared_knowsException avoids isModule rooted own)
    (ends_runtimeDraft ran).1
  rw [rooted]
  exact isModule

/-- What a run is ahead by after the visit of the runtime class. -/
def runtimeLead : Lead where
  table := .ofTree (.root tree)
  ahead := (prepared job).table
  chunks := interfaceChunks (runtimeDraft job).chunks
  symbols := (runtimeDraft job).symbols
  same := prepared_sameSeen avoids isModule rooted
  known _ listed := Site.familiar_of_avoids avoids (mem_classes_ofTree listed).1

/-- A run that has visited the runtime class is ahead of one that has visited nothing and has no such class. -/
theorem ahead_runtimeDraft {other : Job} (holds : Draft.HoldsRuntime (prepared job) (runtimeDraft job))
    (otherRooted : other.root = .root tree) (absent : ownRuntimeClass? other = none) :
    Ahead (runtimeLead avoids isModule rooted) (prepared other) (runtimeDraft job) where
  table := by simp only [prepared, absent, otherRooted, Option.elim_none, runtimeLead]
  ahead := holds.table
  chunks := by rw [interfaceChunks_prepared, append_nil]; rfl
  declared := holds.declared.symm
  symbols := (append_nil _).symm
  names key declared := (lookup_of_runtime holds.names declared).symm
  memo id declared :=
    (@lookup_of_runtime _ _ _ _ _ (·) (fun entry listed => (holds.memo entry listed).1) id declared).symm
  shadows := by simp [prepared, Inheritance.Memo.All]
  freeFunctions := by rw [holds.freeFunctions, prepared, prepared, rooted, otherRooted]
  runtimeClass id declared := by
    rw [holds.runtimeClass, prepared, prepared, absent]
    cases own : ownRuntimeClass? job with
    | none => rfl
    | some cls =>
      rw [ownRuntimeClass_eq own]
      constructor <;> intro same <;> cases same
      cases declared

end avoiding

theorem chunksOf_interfaceChunks {target : Section} (counts : target = .declarations ∨ target = .types)
    (chunks : List Chunk) : chunksOf target (interfaceChunks chunks) = chunksOf target chunks := by
  unfold chunksOf interfaceChunks
  rw [filter_filter]
  refine filter_congr fun chunk _ => ?_
  by_cases home : chunk.home = target
  · rcases counts with rfl | rfl <;> simp [Chunk.isInterface, home]
  · simp [home]

/-- Support of exceptions only adds to the interface. A module of C++ that does not name the exception class is written
with and without it, and both runs complete. If no symbol of the run without it is one of the runtime class, then the
declarations, the types and the symbols of the other run are those of the runtime class, followed by those of the run
without it. Where a named module is imported, there is nothing of the runtime class; else its type is the only one that
is added. -/
theorem exceptions_only_add {off on : Draft} (isModule : tree.kind = .moduleDecl) (cxx : config.cplusplus = true)
    (avoids : ∀ s ∈ (Site.root tree).walk, s.AvoidsException)
    (ranOff : run ((Job.ofTree config typemaps tree).withExceptions false) = .ok off)
    (ranOn : run ((Job.ofTree config typemaps tree).withExceptions true) = .ok on)
    (apart : ∀ symbol ∈ off.symbols,
      ∀ own ∈ (runtimeDraft ((Job.ofTree config typemaps tree).withExceptions true)).symbols, symbol.name ≠ own.name) :
    let added := runtimeDraft ((Job.ofTree config typemaps tree).withExceptions true)
    on.symbols = added.symbols ++ off.symbols ∧
      (∀ target, target = .declarations ∨ target = .types →
        chunksOf target on.chunks = chunksOf target added.chunks ++ chunksOf target off.chunks) ∧
      ((Site.root tree).namedImport?.isSome = true →
        added.symbols = [] ∧ ∀ target, target = .declarations ∨ target = .types → chunksOf target added.chunks = []) ∧
      ((Site.root tree).namedImport? = none →
        chunksOf .types added.chunks = [.proxyType (Naming.proxyName config (runtimeClass (.root tree)))]) := by
  intro added
  -- both runs visit the declarations of the module, one of them from what the runtime class has left
  have visits := (ends_runtimeDraft ranOff).2
  rw [runtimeDraft_of_none rfl, declaration_withExceptions] at visits
  obtain ⟨runtime, others⟩ := ends_runtimeDraft ranOn
  rw [declaration_withExceptions] at others
  have rooted : ((Job.ofTree config typemaps tree).withExceptions true).root = .root tree := rfl
  have ahead := ahead_runtimeDraft avoids isModule rooted (holdsRuntime_of_run avoids isModule rooted cxx ranOn) rfl
    (show ownRuntimeClass? ((Job.ofTree config typemaps tree).withExceptions false) = none from rfl)
  have foreseen : Foreseen (runtimeLead avoids isModule rooted)
      ((Site.root tree).emitted.forM (declaration (.ofTree config typemaps tree)))
      ((Site.root tree).emitted.forM (declaration (.ofTree config typemaps tree))) Eq :=
    .forM (.ofTree config typemaps tree)
      (fun _ listed => declaration_foreseen cxx (Site.familiar_of_avoids avoids (Site.mem_walk_of_emitted listed)))
      fun site _ => declaration_within site
  obtain ⟨last, _⟩ := foreseen _ _ ahead visits others survives_ok survives_ok apart
  refine ⟨last.symbols, fun target counts => ?_, fun imports => ?_, fun absent => ?_⟩
  · rw [← chunksOf_interfaceChunks counts on.chunks, last.chunks, chunksOf, filter_append]
    exact congrArg₂ _ (chunksOf_interfaceChunks counts _) (chunksOf_interfaceChunks counts _)
  · have same : added = prepared _ := runtimeDraft_of_none (ownRuntimeClass_of_namedImport imports)
    rw [same]
    refine ⟨rfl, fun target counts => ?_⟩
    rw [← chunksOf_interfaceChunks counts, interfaceChunks_prepared]
    rfl
  · have own : ownRuntimeClass? ((Job.ofTree config typemaps tree).withExceptions true) =
        some (runtimeClass (.root tree)) :=
      ownRuntimeClass_of_no_import cxx rfl absent
    exact runtimeDraft_types cxx isModule own (prepared_knowsException avoids isModule rfl own) runtime

/-! ### A class and a function -/

def queueTree : Node :=
  .mk (.named .moduleDecl "m")
    [ .mk (.named .classDecl "Queue")
        [ .mk
            { Declaration.named .functionDecl "push" with
              type := some ⟨"bool", []⟩
              parameters := [{ name := .string "item", type := some ⟨"Item", [.pointer]⟩ }] } [] ],
      .mk
        { Declaration.named .functionDecl "drain" with
          parameters := [{ name := .string "queue", type := some ⟨"Queue", [.lvalueReference]⟩ }] } [] ]

def queueModule : Job :=
  .ofTree { givenModule := .string "m", facade := false } {} queueTree

/-- The runtime class has a type and six functions, and what is declared for the class and the function follows. -/
theorem exceptions_only_add_queueModule :
    ∃ off on, run (queueModule.withExceptions false) = .ok off ∧ run (queueModule.withExceptions true) = .ok on ∧
      off.symbols.map (·.name.display) = ["Queue", "Queue_push", "Queue_new", "Queue_delete", "m_drain"] ∧
      (runtimeDraft (queueModule.withExceptions true)).symbols.map (·.name.display) =
        ["SWIG_CException", "SWIG_CException_copy", "SWIG_CException_delete", "SWIG_CException_code_get",
          "SWIG_CException_msg_get", "SWIG_CException_get_pending", "SWIG_CException_reset_pending"] ∧
      chunksOf .types (runtimeDraft (queueModule.withExceptions true)).chunks = [.proxyType "SWIG_CException"] ∧
      on.symbols = (runtimeDraft (queueModule.withExceptions true)).symbols ++ off.symbols ∧
      ∀ target, target = .declarations ∨ target = .types → chunksOf target on.chunks =
        chunksOf target (runtimeDraft (queueModule.withExceptions true)).chunks ++ chunksOf target off.chunks := by
  have written : (run (queueModule.withExceptions false)).toOption.map
      (fun draft => draft.symbols.map (·.name.display)) =
      some ["Queue", "Queue_push", "Queue_new", "Queue_delete", "m_drain"] := by decide +kernel
  have completes : (run (queueModule.withExceptions true)).isOk := by decide +kernel
  have avoids : ∀ s ∈ (Site.root queueTree).walk, s.AvoidsException := by decide +kernel
  obtain ⟨off, ranOff, symbols⟩ := ok_of_toOption_map written
  obtain ⟨on, ranOn⟩ := ok_of_isOk completes
  have apart : ∀ symbol ∈ off.symbols,
      ∀ own ∈ (runtimeDraft (queueModule.withExceptions true)).symbols, symbol.name ≠ own.name := by
    have names : ∀ one ∈ off.symbols.map (·.name.display),
        ∀ two ∈ (runtimeDraft (queueModule.withExceptions true)).symbols.map (·.name.display), one ≠ two := by
      rw [symbols]
      decide +kernel
    intro symbol listed own member same
    exact names _ (mem_map_of_mem listed) _ (mem_map_of_mem member) (congrArg Value.display same)
  obtain ⟨allSymbols, sections, _, types⟩ := exceptions_only_add rfl rfl avoids ranOff ranOn apart
  exact ⟨off, on, ranOff, ranOn, symbols, by decide +kernel, types rfl, allSymbols, sections⟩

end Module

end FlatAbi
