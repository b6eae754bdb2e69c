import FlatAbi.Proofs.Emission.Enumerations
import FlatAbi.Proofs.Facade.Brackets

/-!
The classes and enums that the header declares. They come from the declarations that a run visits, in order.
-/

namespace FlatAbi

open Emit Members Enumeration List Facade Inheritance Chunk

variable {job : Job} {cls enum : Site} {before after : Draft} {draft : Draft} {opened : OpenClass}
  {abstract : Bool} {outcome : Except Halt Unit}

def Chunk.isNamedType : Chunk → Bool
  | .proxyType _ | .enumeration .. => true
  | _ => false

def namedTypes (chunks : List Chunk) : List Chunk :=
  chunks.filter isNamedType

theorem namedTypes_append (first rest : List Chunk) :
    namedTypes (first ++ rest) = namedTypes first ++ namedTypes rest :=
  filter_append first rest

/-- A move that declares neither a class nor an enum. -/
def Move.Unnamed : Move → Prop
  | .append chunk => chunk.isNamedType = false
  | _ => True

instance : Move.Lenient Move.Unnamed where
  append chunk minor := by cases chunk <;> first | rfl | cases minor
  tell _ := trivial
  record _ _ := trivial
  name _ := trivial
  learn _ := trivial
  wrap _ _ := trivial

theorem Goes.namedTypes_eq (goes : Goes job Move.Unnamed before after) :
    namedTypes after.chunks = namedTypes before.chunks := by
  simp only [namedTypes, ← filterMap_eq_filter]
  refine Goes.filterMap_eq (fun chunk plain => ?_) (goes.mono fun move unnamed => ?_)
  · cases chunk <;> first | rfl | simp [isWrapper, isMinor] at plain
  · cases move with
    | append chunk => exact Option.guard_eq_none_iff.mpr unnamed
    | _ => trivial

theorem GoesWithin.namedTypes_eq {α : Type} {work : Emit α} {outcome : Except Halt α}
    (within : Within job Move.Unnamed work) (ends : Ends work before outcome after) (survives : Survives outcome) :
    namedTypes after.chunks = namedTypes before.chunks :=
  (within before outcome after ends survives).namedTypes_eq

/-- The declaration of an enum, where it has one. -/
def enumTypes (config : Config) (enum : Site) : List Chunk :=
  if isHidden enum then []
  else match (survivors enum).mapM item with
    | .ok (first :: rest) => [declaration config enum (first :: rest)]
    | _ => []

theorem ends_enumeration {opened : Option OpenClass} {outcome : Except Halt Bool}
    (ends : Ends (write job enum opened) before outcome after) (survives : Survives outcome) :
    namedTypes after.chunks = namedTypes before.chunks ++ enumTypes job.config enum := by
  unfold enumTypes
  cases writes_of_ends ends with
  | hidden hidden => simp [hidden]
  | unnamed => exact survives.elim
  | refused shown failed => simp [shown, failed]
  | empty shown unlisted => simp [shown, unlisted]
  | declared shown filled accepted =>
    obtain ⟨first, rest, rfl⟩ := exists_cons_of_ne_nil filled
    simp only [shown, Bool.false_eq_true, if_false, accepted, namedTypes_append, declarations]
    split <;> rfl

theorem ends_guarded_enumeration {opened : Option OpenClass}
    (ends : Ends (guarded enum (do let _ ← write job enum opened)) before outcome after)
    (survives : Survives outcome) :
    namedTypes after.chunks = namedTypes before.chunks ++ enumTypes job.config enum := by
  rcases ends.guarded_cases survives with ended | ⟨_, _, middle, began, rfl⟩
  · obtain ⟨_, wrote, survived⟩ := ended.of_bind_pure survives_ok
    exact ends_enumeration wrote survived
  · obtain ⟨_, wrote, survived⟩ := began.of_bind_pure survives_rejected
    exact (ends_enumeration wrote survived :)

/-- What a member of a class declares. -/
def memberTypes (config : Config) : Member → List Chunk
  | .enumeration site => enumTypes config site
  | _ => []

theorem ends_classMember {m : Member} {outcome : Except Halt OpenClass} (cxx : job.config.cplusplus)
    (ends : Ends (Module.classMember job opened m) before outcome after) (survives : Survives outcome) :
    namedTypes after.chunks = namedTypes before.chunks ++ memberTypes job.config m := by
  have quiet (notEnum : ∀ site, m ≠ .enumeration site) : namedTypes after.chunks = namedTypes before.chunks :=
    (classMember_within_of cxx notEnum opened).namedTypes_eq ends survives
  cases m with
  | enumeration site =>
    obtain ⟨_, wrote, survived⟩ := Ends.of_bind_pure ends survives
    exact ends_guarded_enumeration wrote survived
  | callable | constant =>
    rw [quiet (by simp)]
    exact (append_nil _).symm

theorem ends_members {finished : OpenClass} {members : List Member} (cxx : job.config.cplusplus)
    (ends : Ends (members.foldlM (Module.classMember job) opened) before (.ok finished) after) :
    namedTypes after.chunks = namedTypes before.chunks ++ members.flatMap (memberTypes job.config) := by
  induction members generalizing opened before with
  | nil =>
    obtain ⟨_, rfl⟩ := ends.of_pure
    simp
  | cons m rest ih =>
    rw [foldlM_cons] at ends
    obtain ⟨_, middle, first, others⟩ := ends.bind_value (classMember_neverRejects opened m) survives_ok
    rw [ih others, ends_classMember cxx first survives_ok, flatMap_cons, append_assoc]

/-- The enums that a class declares, the ignored ones left out. -/
def nestedEnums (cls : Site) : List Site :=
  cls.children.filter fun child => child.kind == .enumDecl && !child.decl.isIgnored

theorem own_children {r : Resolver} {own : List Own} (owned : Members.own r cls abstract = .ok own) :
    own.map (·.child) = cls.children := by
  refine map_of_mapM_ok (fun child o found => ?_) owned
  split at found
  · cases found
    rfl
  · obtain ⟨_, _, rfl⟩ := map_eq_ok found
    rfl

theorem ofOwn_types (config : Config) (all : List Callable) (o : Own) :
    (ofOwn all o).flatMap (memberTypes config) =
      if o.child.kind == .enumDecl && !o.child.decl.isIgnored then enumTypes config o.child else [] := by
  have callables (listed : List Callable) :
      (listed.map fun c => Member.callable (markOverload all c)).flatMap (memberTypes config) = [] := by
    simp [memberTypes]
  unfold ofOwn
  cases ignored : o.child.decl.isIgnored with
  | true => simp
  | false =>
    cases kind : o.child.kind <;> simp [memberTypes]

theorem inOrder_types {r : Resolver} {own : List Own} {inherited : List Callable} (config : Config)
    (owned : Members.own r cls abstract = .ok own) :
    (inOrder cls abstract own inherited).flatMap (memberTypes config) =
      (nestedEnums cls).flatMap (enumTypes config) := by
  have unnamed (callables : List Callable) (f : Callable → Callable) :
      (callables.map fun c => Member.callable (f c)).flatMap (memberTypes config) = [] := by
    simp [memberTypes]
  have last := unnamed (implicitConstructor cls abstract ++ implicitDestructor cls) id
  simp only [id] at last
  rw [nestedEnums, ← flatMap_ite, ← own_children owned, flatMap_map]
  unfold inOrder
  dsimp only
  rw [flatMap_append, flatMap_append, unnamed, last, append_nil, append_nil, flatMap_assoc]
  simp only [ofOwn_types]

/-- What a class of C++ declares: its own type, and its enums unless its members cannot be listed. -/
def classTypes (job : Job) (draft : Draft) (cls : Site) : List Chunk :=
  .proxyType (Naming.proxyName job.config cls) ::
    if offersUntyped draft cls then [] else (nestedEnums cls).flatMap (enumTypes job.config)

theorem ClassBegins.namedTypes_eq {begun asked : Draft}
    (begins : ClassBegins job cls before opened abstract begun asked) :
    namedTypes asked.chunks = namedTypes before.chunks ++ [.proxyType (Naming.proxyName job.config cls)] := by
  have opens : Within job Move.Unnamed (openClass job cls) :=
    openClass_within_of (fun _ => rfl) (fun _ _ => rfl) cls
  have asks : Within job Move.Unnamed (inherit fun table memo => isAbstract table memo cls) :=
    inherit_within fun table memo => isAbstract_keeps table memo cls
  rw [asks.namedTypes_eq begins.asking survives_ok, opens.namedTypes_eq begins.opening survives_ok, classDeclaredIn,
    namedTypes_append]
  rfl

theorem ends_cxxClass_types (cxx : job.config.cplusplus) (ends : Ends (Module.cxxClass job cls) before outcome after)
    (survives : Survives outcome) (later : after.ExtendedBy draft) :
    namedTypes after.chunks = namedTypes before.chunks ++ classTypes job draft cls := by
  have whole := classEnd_of_ends ends survives
  have offered := whole.offersUntyped_iff cxx later
  have flattening : Within job Move.Unnamed (inherit fun table memo => Inheritance.flatten table memo cls) :=
    inherit_within fun table memo => flatten_keeps table memo cls
  cases whole with
  | unlisted begins failed =>
    rw [begins.namedTypes_eq, classTypes, offered.mpr (by simp)]
    rfl
  | uninherited begins owned flattens failed =>
    rw [flattening.namedTypes_eq flattens survives_ok, begins.namedTypes_eq, classTypes, offered.mpr (by simp)]
    rfl
  | filled begins owned flattens found fills =>
    obtain ⟨warning, finished, closed, emitted, closing⟩ := fills
    have warns : Within job Move.Unnamed (warnUnsupported cls) := unsupported_within cls _
    have closes : Within job Move.Unnamed (closeClass job finished) := closeClass_within_of (fun _ => rfl) _
    have typed : offersUntyped draft cls = false := by simpa using offered
    rw [closes.namedTypes_eq closing survives_ok, ends_members cxx emitted, warns.namedTypes_eq warning survives_ok,
      flattening.namedTypes_eq flattens survives_ok, begins.namedTypes_eq, inOrder_types _ owned, classTypes, typed]
    simp

/-- What a declaration outside of classes declares. -/
def typesOf (job : Job) (draft : Draft) (site : Site) : List Chunk :=
  match site.kind with
  | .classDecl => if Module.writesClass job site then classTypes job draft site else []
  | .enumDecl => enumTypes job.config site
  | _ => []

theorem visit_types {site : Site} (started : (Module.prepared job).ExtendedBy before) (cxx : job.config.cplusplus)
    (visit : Ends (Module.declaration job site) before (.ok ()) after) (later : after.ExtendedBy draft) :
    namedTypes after.chunks = namedTypes before.chunks ++ typesOf job draft site := by
  by_cases isClass : site.kind = .classDecl
  · rcases ends_declaration_of_class started cxx isClass visit with
      ⟨unwritten, same⟩ | ⟨written, outcome, middle, told, ends, survives, rfl⟩
    · simp [typesOf, isClass, unwritten, same]
    · have held : middle.ExtendedBy draft :=
        ⟨later.table, later.runtimeClass, later.chunks, later.symbols, later.memo⟩
      simp only [typesOf, isClass, written, if_true]
      exact ends_cxxClass_types cxx ends survives held
  · by_cases isEnum : site.kind = .enumDecl
    · unfold Module.declaration at visit
      rw [isEnum] at visit
      rw [ends_guarded_enumeration visit survives_ok]
      simp [typesOf, isEnum]
    · have within : Within job Move.Unnamed (Module.declaration job site) := declaration_within_of isClass isEnum
      rw [within.namedTypes_eq visit survives_ok]
      unfold typesOf
      split
      · rename_i found
        exact (isClass found).elim
      · rename_i found
        exact (isEnum found).elim
      · exact (append_nil _).symm

theorem Visits.namedTypes_eq {visits : List Visit} (started : (Module.prepared job).ExtendedBy before)
    (cxx : job.config.cplusplus) (chain : Visits job visits before after) (later : after.ExtendedBy draft) :
    namedTypes after.chunks =
      namedTypes before.chunks ++ (visits.map (·.site)).flatMap (typesOf job draft) := by
  simp only [namedTypes, ← filterMap_eq_filter]
  refine chain.filterMap_eq started later fun started visit later => ?_
  simpa only [namedTypes, ← filterMap_eq_filter] using visit_types started cxx visit later

theorem Module.prepared_namedTypes (job : Job) : namedTypes (prepared job).chunks = [] := by
  refine filter_eq_nil_iff.mpr fun chunk listed => ?_
  simp only [prepared, preparedChunks] at listed
  grind [isNamedType]

theorem Module.namedTypes_of_run (cxx : job.config.cplusplus) (ran : Module.run job = .ok draft) :
    namedTypes draft.chunks = (visited job).flatMap (typesOf job draft) := by
  obtain ⟨visits, chain, sites⟩ := exists_visits ran
  rw [chain.namedTypes_eq (.refl _) cxx (.refl _), prepared_namedTypes, sites]
  rfl

end FlatAbi
