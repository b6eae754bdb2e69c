import FlatAbi.Proofs.Declaration.Mirroring
import FlatAbi.Proofs.Resolver.Failures

/-!
What a document is loaded to. Each type of the loaded tree is what some spelling reads to.
-/

namespace FlatAbi

open List

variable {place : Place} {value : Value}

/-- Every type of a declaration is what a spelling reads to. -/
def Declaration.HasReadTypes (d : Declaration) : Prop :=
  ∀ t ∈ d.types, ∃ spelling, CxxType.read spelling = .ok t

namespace Load

theorem typeAt_eq_ok {t : CxxType} (read : typeAt place value = .ok (some t)) :
    ∃ spelling, CxxType.read spelling = .ok t := by
  have field : typeField value = .ok (some t) := mapError_eq_ok_iff.mp read
  unfold typeField at field
  split at field
  · cases field
  · rename_i spelling
    obtain ⟨other, found, same⟩ := map_eq_ok (mapError_eq_ok_iff.mp field)
    cases same
    exact ⟨spelling, found⟩
  · cases field

theorem parameter_eq_ok {position : Nat} {p : Parameter} {t : CxxType} (loaded : parameter place position value = .ok p)
    (written : p.type = some t) :
    ∃ spelling, CxxType.read spelling = .ok t := by
  unfold parameter at loaded
  split at loaded
  · obtain ⟨type, read, loaded⟩ := bind_eq_ok loaded
    cases loaded
    cases written
    exact typeAt_eq_ok read
  · split at loaded
    · cases loaded
    · obtain ⟨type, read, loaded⟩ := bind_eq_ok loaded
      cases loaded
      cases written
      exact typeAt_eq_ok read
  · cases loaded

theorem parametersFrom_eq_ok {position : Nat} {values : List Value} {parameters : List Parameter}
    (loaded : parametersFrom place position values = .ok parameters) :
    ∀ p ∈ parameters, ∀ t, p.type = some t → ∃ spelling, CxxType.read spelling = .ok t := by
  induction values generalizing position parameters with
  | nil =>
    cases loaded
    exact forall_mem_nil _
  | cons value rest ih =>
    obtain ⟨first, head, loaded⟩ := bind_eq_ok loaded
    obtain ⟨others, tail, loaded⟩ := bind_eq_ok loaded
    cases loaded
    exact forall_mem_cons.mpr ⟨fun t written => parameter_eq_ok head written, ih tail⟩

theorem parameters_eq_ok {found : List Parameter} (loaded : parameters place value = .ok found) :
    ∀ p ∈ found, ∀ t, p.type = some t → ∃ spelling, CxxType.read spelling = .ok t := by
  unfold parameters at loaded
  split at loaded
  · exact parametersFrom_eq_ok loaded
  · cases loaded

theorem ReadsTo.hasReadTypes {v outer : Value} {d : Declaration} (reads : ReadsTo v outer d) : d.HasReadTypes := by
  intro t member
  obtain ⟨_, typed⟩ := reads.type
  obtain ⟨_, listed⟩ := reads.parameters
  rcases mem_append.mp member with own | taken
  · rw [Option.mem_toList.mp own] at typed
    exact typeAt_eq_ok typed
  · obtain ⟨p, found, written⟩ := mem_filterMap.mp taken
    exact parameters_eq_ok listed p found t written

theorem document_hasReadTypes {useDefaults : Bool} {loaded : Loaded}
    (accepted : document useDefaults value = .ok loaded) :
    ∀ site ∈ (Site.root loaded.tree).walk, site.decl.HasReadTypes := by
  intro site member
  obtain ⟨_, _, read⟩ := document_eq_ok accepted
  obtain ⟨_, _, _, _, _, reads, _⟩ := site_read read member
  exact reads.hasReadTypes

end Load

end FlatAbi
