import FlatAbi.Proofs.Facade.Needs
import FlatAbi.Proofs.Header.NamedTypes
import FlatAbi.Proofs.Wrapper.Alignment

/-!
The classes and enums that prototypes name. A prototype may name a class that no visited declaration declares.
-/

namespace FlatAbi

open Emit Wrapper FlatAbi.Module Naming List Option

inductive Reference where
  | toClass (cls : Site)
  | toEnum (enum : Site)

namespace Reference

/-- How C refers to it; an anonymous enum has no name. -/
def name? (config : Config) : Reference → Option String
  | .toClass cls => some (proxyName config cls)
  | .toEnum enum => enumType? config enum

/-- A chunk declares the name that C refers to. -/
def isDeclaredBy (config : Config) : Reference → Chunk → Bool
  | .toClass cls, .proxyType name => name == proxyName config cls
  | .toEnum enum, .enumeration _ tag typeName _ =>
    (enumType? config enum).any fun name => typeName == some name || tag.any fun tag => "enum " ++ tag == name
  | _, _ => false

theorem isNamedType_of_isDeclaredBy {config : Config} {ref : Reference} {chunk : Chunk}
    (declared : ref.isDeclaredBy config chunk) : chunk.isNamedType := by
  cases ref <;> cases chunk <;> first | rfl | cases declared

end Reference

namespace Resolver

/-- What a type of a category refers to. -/
def reference? (r : Resolver) (t : CxxType) (scope : String) (category : Category) : Option Reference :=
  let base := (r.table.resolve t scope).base
  match category with
  | .enumeration | .enumConstRef | .enumPointer => (r.table.enum? base scope).map .toEnum
  | .classPointer | .classRef | .classValue => (r.table.class? base scope).map .toClass
  | _ => none

/-- The C type of a value that refers to a name. -/
def spelledWith (r : Resolver) (t : CxxType) (scope : String) (category : Category) (name : String) : String :=
  match category with
  | .enumPointer => ((r.table.resolve t scope).assignable.withBase name).spelling
  | .classPointer | .classRef | .classValue => name ++ " *"
  | _ => name

theorem cTypeOf_text_of_reference {r : Resolver} {t : CxxType} {scope name : String} {category : Category}
    {ref : Reference} (refers : r.reference? t scope category = some ref) (named : ref.name? r.config = some name) :
    (r.cTypeOf t scope .header category).text = r.spelledWith t scope category name := by
  cases category with
  | enumeration | enumConstRef | enumPointer =>
    obtain ⟨enum, found, rfl⟩ := map_eq_some_iff.mp refers
    have type : enumType? r.config enum = some name := named
    simp only [cTypeOf, spelledWith, enumCType, found, type, getD_some]
  | classPointer | classRef | classValue =>
    obtain ⟨cls, found, rfl⟩ := map_eq_some_iff.mp refers
    have proxy : proxyName r.config cls = name := Option.some.inj named
    simp only [cTypeOf, spelledWith, found, proxy]
    rfl
  | _ => cases refers

end Resolver

variable {job : Job} {draft : Draft}

/-- Every prototype of a draft comes from a rendering. -/
def Draft.HasRendered (job : Job) (draft : Draft) : Prop :=
  ∀ s ∈ draft.prototypes, ∃ support c symbol rendering,
    Renders job ⟨job.config, draft.table⟩ support c symbol rendering ∧ rendering.prototype = s

theorem Draft.HasRendered.step {move : Move} {before after : Draft} (permitted : move.Ordinary)
    (moves : Step job move before after) (rendered : before.HasRendered job) : after.HasRendered job := by
  have table := moves.extended.table
  unfold Draft.HasRendered at rendered ⊢
  rw [← table]
  cases moves with
  | append _ chunk =>
    simpa [Draft.prototypes, prototype?_of_not_wrapper permitted] using rendered
  | @wrap c _ _ _ object ends =>
    cases writeEnd_of_ends ends survives_ok with
    | @published symbol rendering renders named fresh =>
      have undeclared : (supply before.declared rendering.needs).filterMap Chunk.prototype? = [] :=
        filterMap_eq_nil_iff.mpr fun _ member => prototype?_of_not_wrapper (isWrapper_of_mem_supply member)
      have prototypes : (rendering.publishedIn job c symbol before).prototypes =
          before.prototypes ++ [rendering.prototype] := by
        simp only [Draft.prototypes, Rendering.publishedIn, filterMap_append, undeclared, append_nil]
        rfl
      rw [prototypes]
      refine forall_mem_append.mpr ⟨rendered, forall_mem_singleton.mpr ?_⟩
      exact ⟨before.exceptions, c, symbol, rendering, renders, rfl⟩
  | tell | record | name | learn => exact rendered

theorem Module.hasRendered_of_run (ran : run job = .ok draft) : draft.HasRendered job := by
  refine (goes_of_run ran).preserves (Draft.HasRendered job) (fun permitted moves kept => kept.step permitted moves) ?_
  intro s listed
  rw [(prepared_aligned job).prototypes] at listed
  cases listed

/-- Some declaration that a run visits declares what a type refers to. -/
def Module.Declares (job : Job) (draft : Draft) (ref : Reference) : Prop :=
  ∃ site ∈ visited job, ∃ chunk ∈ typesOf job draft site, ref.isDeclaredBy job.config chunk

theorem Module.declared_iff {ref : Reference} (cxx : job.config.cplusplus) (ran : run job = .ok draft) :
    (∃ chunk ∈ draft.chunks, ref.isDeclaredBy job.config chunk) ↔ Declares job draft ref := by
  have listed (chunk : Chunk) (declared : ref.isDeclaredBy job.config chunk) :
      chunk ∈ draft.chunks ↔ ∃ site ∈ visited job, chunk ∈ typesOf job draft site := by
    rw [← mem_flatMap, ← namedTypes_of_run cxx ran, namedTypes, mem_filter]
    simp [ref.isNamedType_of_isDeclaredBy declared]
  constructor
  · rintro ⟨chunk, member, declared⟩
    obtain ⟨site, visited, written⟩ := (listed chunk declared).mp member
    exact ⟨site, visited, chunk, written, declared⟩
  · rintro ⟨site, visited, chunk, written, declared⟩
    exact ⟨chunk, (listed chunk declared).mpr ⟨site, visited, written⟩, declared⟩

/-- A header declares the classes and enums of what the run visits, in order. So where a type of a prototype refers to
a class or an enum, its name is declared exactly if some declaration that is visited declares it. -/
theorem Module.references_of_run (cxx : job.config.cplusplus) (plain : job.typemaps.HasNoCType)
    (ran : run job = .ok draft) :
    namedTypes draft.chunks = (visited job).flatMap (typesOf job draft) ∧
      ∀ s ∈ draft.prototypes, ∃ c parameters p,
        plan job (resolver job) c parameters = .ok p ∧ p.signature job (resolver job) s.symbol .header = .ok s ∧
        ∀ t category, (t, category) ∈ p.prototypeTypes → ∀ ref name,
          (resolver job).reference? t p.scope category = some ref → ref.name? job.config = some name →
          (cTypeOf job (resolver job) t p.scope category .header).text =
              (resolver job).spelledWith t p.scope category name ∧
            ((∃ chunk ∈ draft.chunks, ref.isDeclaredBy job.config chunk = true) ↔ Declares job draft ref) := by
  refine ⟨namedTypes_of_run cxx ran, fun s listed => ?_⟩
  have table : (prepared job).table = draft.table := (goes_of_run ran).extended.table
  obtain ⟨support, c, symbol, rendering, renders, rfl⟩ := hasRendered_of_run ran s listed
  rw [← table] at renders
  cases renders with
  | direct simple => rw [cxx] at simple; cases simple
  | @converted parameters p implementation header body _ typed planned implemented declared bodied =>
    refine ⟨c, parameters, p, planned, ?_, fun t category _ ref name refers named => ⟨?_, declared_iff cxx ran⟩⟩
    · rw [signature_symbol declared]
      exact declared
    · rw [cTypeOf_eq plain]
      exact Resolver.cTypeOf_text_of_reference refers named

/-- A module with a class, an enum in it, and a function that takes both. -/
def shapeModule : Job :=
  .ofNodes
    [ .mk (.named .classDecl "Shape")
        [ .mk (.named .enumDecl "Mode")
            [.mk (.named .enumValueDecl "Plain") []] ],
      .mk
        { Declaration.named .functionDecl "draw" with
          parameters :=
            [ { name := .string "shape", type := some ⟨"Shape", [.pointer]⟩ },
              { name := .string "mode", type := some ⟨"Shape::Mode", []⟩ } ] } [] ] (.ofRules [] true)

/-- The header declares the class and its enum, and the prototypes name both. -/
theorem Module.references_of_shapeModule :
    ∃ draft, run shapeModule = .ok draft ∧
      draft.prototypes.map (·.text) =
        ["Shape *Shape_new(void)", "void Shape_delete(Shape *self)",
          "void m_draw(Shape *shape, enum Shape_Mode mode)"] ∧
      namedTypes draft.chunks =
        [.proxyType "Shape", .enumeration "Shape" (some "Shape_Mode") none [⟨"Plain", none⟩]] ∧
      namedTypes draft.chunks = (visited shapeModule).flatMap (typesOf shapeModule draft) ∧
      ∀ s ∈ draft.prototypes, ∃ c parameters p, plan shapeModule (resolver shapeModule) c parameters = .ok p ∧
        p.signature shapeModule (resolver shapeModule) s.symbol .header = .ok s ∧
        ∀ t category, (t, category) ∈ p.prototypeTypes → ∀ ref name,
          (resolver shapeModule).reference? t p.scope category = some ref →
          ref.name? shapeModule.config = some name →
          (cTypeOf shapeModule (resolver shapeModule) t p.scope category .header).text =
              (resolver shapeModule).spelledWith t p.scope category name ∧
            ((∃ chunk ∈ draft.chunks, ref.isDeclaredBy shapeModule.config chunk = true) ↔
              Declares shapeModule draft ref) :=
  exists_ok (by decide +kernel) fun _ ran _ => ⟨of_ok ran (by decide +kernel), references_of_run rfl (by decide) ran⟩

/-- A module with an ignored class, and a function that takes a pointer to it. -/
def ignoredClassModule : Job :=
  .ofNodes
    [ .mk { Declaration.named .classDecl "A" with features := [("ignore", .bool true)] } [],
      .mk
        { Declaration.named .functionDecl "f" with
          parameters := [{ name := .string "a", type := some ⟨"A", [.pointer]⟩ }] } [] ] (.ofRules [] true)

/-- The prototype names the class, which the header does not declare, and nothing is reported. -/
theorem Module.ignoredClassModule_undeclared :
    (run ignoredClassModule).toOption.map (fun draft =>
      (draft.prototypes.map (·.text), chunksOf .types draft.chunks, draft.diagnostics.length)) =
        some (["void m_f(A *a)"], [], 0) := by
  decide +kernel

end FlatAbi
