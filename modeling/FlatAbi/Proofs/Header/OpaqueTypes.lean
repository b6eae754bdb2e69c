import FlatAbi.Emission.TypeRequest
import FlatAbi.Proofs.Header.BoolSupport

/-!
What the header gets to declare while requests about types are answered. No type is declared twice.
-/

namespace FlatAbi

open Emit Resolver List

def Category.isUnknown : Category → Bool
  | .unknownPointer | .unknownRef | .unknownValue => true
  | _ => false

variable {config : Config} {r : Resolver} {t : CxxType} {scope : Value} {draft before after : Draft}

theorem Resolver.cTypeOf_unknown {category : Category} {scope : String} (unknown : category.isUnknown) :
    r.cTypeOf t scope .header category = r.opaquePointer t scope := by
  cases category with
  | unknownPointer | unknownRef | unknownValue => rfl
  | _ => cases unknown

theorem eq_of_text_chunkOf {one two : Need} (same : (chunkOf one).text = (chunkOf two).text) : one = two := by
  have support : (chunkOf .boolSupport).text.toList.head? = some '#' := by decide
  have typedef (name : String) : (chunkOf (.opaqueType name)).text.toList.head? = some 't' := by
    change ("typedef struct " ++ name ++ " " ++ name ++ ";\n\n").toList.head? = some 't'
    simp [String.toList_append]
  cases one with
  | boolSupport =>
    cases two with
    | boolSupport => rfl
    | opaqueType name =>
      rw [same, typedef] at support
      exact absurd support (by decide)
  | opaqueType name =>
    cases two with
    | boolSupport =>
      rw [← same, typedef] at support
      exact absurd support (by decide)
    | opaqueType other =>
      have chars : ("typedef struct " ++ name ++ " " ++ name ++ ";\n\n").toList =
          ("typedef struct " ++ other ++ " " ++ other ++ ";\n\n").toList := congrArg String.toList same
      simp only [String.toList_append, append_assoc, append_cancel_left_eq] at chars
      have length := congrArg List.length chars
      simp only [length_append] at length
      rw [String.toList_inj.mp (append_inj_left chars (by omega))]

/-- Work that adds nothing to a draft but what is needed and missing, and nothing at all unless it is `loud`. -/
def Supplies {α : Type} (loud : Bool) (work : Emit α) : Prop :=
  ∀ before outcome after, Ends work before outcome after →
    ∃ needs, after = before.supplied needs ∧ (loud = false → needs = [])

namespace Supplies

variable {α β : Type} {loud : Bool} {next : α → Emit β}

theorem pure {value : α} : Supplies loud (pure value) := by
  intro before outcome after ends
  obtain ⟨_, rfl⟩ := ends.of_pure
  exact ⟨[], (Draft.supplied_nil _).symm, fun _ => rfl⟩

theorem lift_bind {result : Except Halt α} (rest : ∀ value, result = .ok value → Supplies loud (next value)) :
    Supplies loud (lift result >>= next) := by
  intro before outcome after ends
  rcases ends.lift_bind with ⟨value, found, ends⟩ | ⟨_, _, _, rfl⟩
  · exact rest value found _ _ _ ends
  · exact ⟨[], (Draft.supplied_nil _).symm, fun _ => rfl⟩

theorem require_bind {needs : List Need} {next : Unit → Emit β} (quiet : loud = false → needs = [])
    (rest : Supplies loud (next ())) : Supplies loud (require needs >>= next) := by
  intro before outcome after ends
  obtain ⟨more, rfl, quietToo⟩ := rest _ _ _ (ends_require_bind.mp ends)
  refine ⟨needs ++ more, (before.supplied_append needs more).symm, fun silent => ?_⟩
  rw [quiet silent, quietToo silent]
  rfl

end Supplies

/-- The questions that are answered with text for the header or the facade. -/
def TypeQuestion.writesHeader : TypeQuestion → Bool
  | .cType .header | .facadeParameter | .facadeResult => true
  | _ => false

theorem Resolver.cTypeAt_needs {c : CRendering} (rendered : r.cTypeAt t scope .implementation = .ok c) :
    c.needs = [] := by
  have rendered := cType_of_cTypeAt rendered
  cases cxx : r.config.cplusplus with
  | false =>
    simp only [cType, cxx, Bool.not_false, if_true] at rendered
    rw [← Except.ok.inj rendered]
    rfl
  | true =>
    obtain ⟨category, _, rfl⟩ := (cType_eq_ok_iff cxx).mp rendered
    cases category <;> rfl

theorem TypeQuestion.supplies (r : Resolver) (t : CxxType) (scope : Value) (question : TypeQuestion) :
    Supplies question.writesHeader (question.work r t scope) := by
  cases question with
  | overloadCode | opaqueName | resolved | qualified | enumeration => exact .pure
  | category => exact .lift_bind fun _ _ => .pure
  | cType side =>
    refine .lift_bind fun c rendered => .require_bind (fun quiet => ?_) .pure
    cases side with
    | header => cases quiet
    | implementation => exact cTypeAt_needs rendered
  | facadeParameter => exact .lift_bind fun c _ => .require_bind (fun quiet => nomatch quiet) .pure
  | facadeResult => exact .lift_bind fun c _ => .require_bind (fun quiet => nomatch quiet) (.lift_bind fun _ _ => .pure)

namespace TypeRequest

def writesHeader : TypeRequest → Bool
  | .about question _ _ => question.writesHeader
  | .boolSupport => true

theorem supplies (config : Config) (request : TypeRequest) : Supplies request.writesHeader (request.work config) := by
  cases request with
  | about question t scope =>
    intro before outcome after ends
    exact Supplies.lift_bind (fun _ _ => question.supplies ⟨config, before.table⟩ t scope) _ _ _ (ends_get_bind.mp ends)
  | boolSupport => exact .require_bind (fun quiet => nomatch quiet) .pure

/-- A draft with nothing but declarations of what types need, none of them twice. -/
structure Declares (root : Site) (draft : Draft) : Prop extends draft.DeclaresOnce where
  table : draft.table = .ofTree root
  needed : draft.chunks = draft.declared.map chunkOf

theorem Declares.answer {root : Site} (declares : Declares root draft) (config : Config) (request : TypeRequest) :
    Declares root (request.answer config draft).2 := by
  obtain ⟨needs, same, _⟩ := request.supplies config _ _ _ (ends_self _ draft)
  rw [show (request.answer config draft).2 = _ from same]
  refine ⟨declares.supplied needs, declares.table, ?_⟩
  rw [Draft.supplied, map_append, ← declares.needed]
  rfl

theorem declares_afterRequests (config : Config) (root : Site) (requests : List TypeRequest) :
    Declares root (.afterRequests config root requests) := by
  have start : Declares root (.ofTree root) := ⟨⟨rfl, .nil⟩, rfl, rfl⟩
  unfold Draft.afterRequests
  generalize Draft.ofTree root = draft at start
  induction requests generalizing draft with
  | nil => exact start
  | cons request rest ih => exact ih _ (start.answer config request)

theorem Declares.texts_nodup {root : Site} (declares : Declares root draft) : (draft.chunks.map Chunk.text).Nodup := by
  rw [declares.needed, map_map]
  exact declares.once.map_on fun _ _ _ _ same => eq_of_text_chunkOf same

theorem exists_opaqueType {category : Category} {text : String} (known : before.DeclaresOnce) (cxx : config.cplusplus)
    (sorted : categoryAt ⟨config, before.table⟩ t scope = .ok category) (unknown : category.isUnknown)
    (ends : Ends ((TypeRequest.about (.cType .header) t scope).work config) before (.ok (.text text)) after) :
    ∃ name, text = name ++ " *" ∧ Chunk.opaqueType name ∈ after.chunks := by
  have ends := ends_get_bind.mp ends
  rcases Ends.lift_bind ends with ⟨_, _, ends⟩ | ⟨_, _, impossible, _⟩
  · rcases Ends.lift_bind ends with ⟨c, rendered, ends⟩ | ⟨_, _, impossible, _⟩
    · have ends := ends_require_bind.mp ends
      obtain ⟨same, rfl⟩ := ends.of_pure
      obtain ⟨_, found, rfl⟩ := (cType_eq_ok_iff cxx).mp (cType_of_cTypeAt rendered)
      cases (category_of_categoryAt sorted).symm.trans found
      rw [cTypeOf_unknown unknown] at same ⊢
      refine ⟨_, TypeAnswer.text.inj (Except.ok.inj same), ((known.supplied _).mem_iff (.opaqueType _)).mpr ?_⟩
      exact subset_missing _ _ (mem_singleton_self _)
    · cases impossible
  · cases impossible

/-- Types are declared once and before they are used. After any requests about the types of a tree, the header has
nothing but declarations that were needed, all with different texts; a request that is not answered with text for the
header adds nothing; and where the C type of an unknown type is asked for in C++, it points to an opaque type that is
declared then. -/
theorem opaque_types_declared_once (config : Config) (root : Site) (requests : List TypeRequest) :
    ((Draft.afterRequests config root requests).chunks.map Chunk.text).Nodup ∧
    (∀ chunk ∈ (Draft.afterRequests config root requests).chunks,
      chunk = .boolSupport ∨ ∃ name, chunk = .opaqueType name) ∧
    ∀ (request : TypeRequest) (answer : Except Halt TypeAnswer) (after : Draft),
      request.answer config (.afterRequests config root requests) = (answer, after) →
        (request.writesHeader = false → after = .afterRequests config root requests) ∧
        ∀ t scope category text, request = .about (.cType .header) t scope → config.cplusplus = true →
          categoryAt ⟨config, .ofTree root⟩ t scope = .ok category → category.isUnknown = true →
          answer = .ok (.text text) → ∃ name, text = name ++ " *" ∧ .opaqueType name ∈ after.chunks := by
  have declares := declares_afterRequests config root requests
  refine ⟨declares.texts_nodup, fun chunk listed => ?_, fun request answer after answered => ⟨fun quiet => ?_, ?_⟩⟩
  · rw [declares.needed] at listed
    obtain ⟨need, _, rfl⟩ := mem_map.mp listed
    cases need with
    | boolSupport => exact .inl rfl
    | opaqueType name => exact .inr ⟨name, rfl⟩
  · obtain ⟨needs, rfl, silent⟩ := request.supplies config _ _ _ answered
    rw [silent quiet, Draft.supplied_nil]
  · rintro t scope category text rfl cxx known unknown rfl
    rw [← declares.table] at known
    exact exists_opaqueType declares.toDeclaresOnce cxx known unknown answered

/-- An unknown type by value, its opaque name, and a reference to it. -/
def widgetRequests : List TypeRequest :=
  [.about (.cType .header) ⟨"Widget", []⟩ (.string ""), .about .opaqueName ⟨"Widget", []⟩ (.string ""),
    .about (.cType .header) ⟨"Widget", [.lvalueReference, .qualifier "const"]⟩ (.string "")]

def text? : TypeAnswer → Option String
  | .text text => some text
  | _ => none

def widgetModule : Site :=
  .root (.mk (.named .moduleDecl "m") [])

def widgetConfig : Config where
  givenModule := .string "m"

/-- The value and the reference are the same pointer in C, to a type that is declared once. -/
theorem opaque_types_declared_once_widget :
    ((Draft.afterRequests widgetConfig widgetModule widgetRequests).chunks.map Chunk.text).Nodup ∧
      ∃ after, (TypeRequest.about (.cType .header) ⟨"Widget", []⟩ (.string "")).answer widgetConfig
          (.afterRequests widgetConfig widgetModule widgetRequests) = (.ok (.text "SWIGTYPE_p_Widget *"), after) ∧
        ∃ name, "SWIGTYPE_p_Widget *" = name ++ " *" ∧ .opaqueType name ∈ after.chunks := by
  obtain ⟨once, _, each⟩ := opaque_types_declared_once widgetConfig widgetModule widgetRequests
  refine ⟨once, ?_⟩
  cases ends : (TypeRequest.about (.cType .header) ⟨"Widget", []⟩ (.string "")).answer widgetConfig
    (.afterRequests widgetConfig widgetModule widgetRequests) with
  | mk answer after =>
    have text : answer.toOption.bind text? = some "SWIGTYPE_p_Widget *" := by
      rw [show answer = (answer, after).1 from rfl, ← ends]
      decide +kernel
    obtain ⟨found, answered, text⟩ := Option.bind_eq_some_iff.mp text
    obtain rfl := eq_ok_of_toOption answered
    obtain rfl : found = .text "SWIGTYPE_p_Widget *" := by
      cases found <;> cases text
      rfl
    have known : categoryAt ⟨widgetConfig, .ofTree widgetModule⟩ ⟨"Widget", []⟩ (.string "") =
        .ok .unknownValue := eq_ok_of_toOption (by decide +kernel)
    exact ⟨after, rfl, (each _ _ _ ends).2 _ _ _ _ rfl rfl known rfl rfl⟩

end TypeRequest

end FlatAbi
