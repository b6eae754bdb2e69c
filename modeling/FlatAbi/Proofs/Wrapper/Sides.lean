import FlatAbi.Proofs.Resolver.Categories
import FlatAbi.Wrapper.Converted

/-!
The C type of a value in the implementation unit and the one in the header belong together.
-/

namespace FlatAbi

namespace Resolver

/-- The C types of a value of type `t`, seen from `scope`, in the implementation unit and in the header. -/
inductive SameAbi (r : Resolver) (t : CxxType) (scope : String) : CRendering → CRendering → Prop
  /-- Both files have the same text. -/
  | same {implementation header : CRendering} (text : implementation.text = header.text) :
      SameAbi r t scope implementation header
  /-- The header has the struct of a class that the type is based on. -/
  | proxy {cls : Site} (known : r.table.class? (r.table.resolve t scope).base scope = some cls) :
      SameAbi r t scope ⟨"SwigObj *", []⟩ ⟨Naming.proxyName r.config cls ++ " *", []⟩
  /-- The header has an opaque struct, which it declares. -/
  | unknown :
      SameAbi r t scope ⟨"SwigObj *", []⟩
        ⟨r.table.opaqueName t scope ++ " *", [.opaqueType (r.table.opaqueName t scope)]⟩
  /-- The header has the type of the enum that the type is based on, under the same declarators. -/
  | enumeration {site : Site} {name : String} (known : r.table.enum? (r.table.resolve t scope).base scope = some site)
      (named : Naming.enumType? r.config site = some name) (levels : List Declarator) :
      SameAbi r t scope ⟨(CxxType.mk "int" levels).spelling, []⟩ ⟨(CxxType.mk name levels).spelling, []⟩

variable (r : Resolver) (t : CxxType) (scope : String)

theorem enumCType_sameAbi (levels : List Declarator) :
    r.SameAbi t scope
      ⟨(CxxType.mk (r.enumCType (r.table.enum? (r.table.resolve t scope).base scope) .implementation) levels).spelling,
        []⟩
      ⟨(CxxType.mk (r.enumCType (r.table.enum? (r.table.resolve t scope).base scope) .header) levels).spelling,
        []⟩ := by
  cases known : r.table.enum? (r.table.resolve t scope).base scope with
  | none => exact .same rfl
  | some site =>
    cases named : Naming.enumType? r.config site with
    | none =>
      refine .same ?_
      simp [enumCType, named]
    | some name =>
      simp only [enumCType, named, Option.getD_some]
      exact .enumeration known named levels

theorem cTypeOf_sameAbi (category : Category) :
    r.SameAbi t scope (r.cTypeOf t scope .implementation category) (r.cTypeOf t scope .header category) := by
  cases category with
  | void | builtin | builtinConstRef | builtinRef | builtinPointer | functionPointer => exact .same rfl
  | enumeration | enumConstRef =>
    have bare := r.enumCType_sameAbi t scope []
    rw [CxxType.spelling_of_bare, CxxType.spelling_of_bare] at bare
    exact bare
  | enumPointer => exact r.enumCType_sameAbi t scope _
  | classPointer | classRef | classValue =>
    cases known : r.table.class? (r.table.resolve t scope).base scope with
    | none =>
      simp only [cTypeOf, known]
      exact .unknown
    | some cls =>
      simp only [cTypeOf, known]
      exact .proxy known
  | unknownPointer | unknownRef | unknownValue => exact .unknown

/-- In either mode a type that can be written in the header can be written in the implementation unit. -/
theorem cType_sameAbi {header : CRendering} (rendered : r.cType t scope .header = .ok header) :
    ∃ implementation, r.cType t scope .implementation = .ok implementation ∧
      r.SameAbi t scope implementation header := by
  cases plain : r.config.cplusplus with
  | false =>
    simp only [cType, plain, Bool.not_false, if_true] at rendered ⊢
    obtain rfl := Except.ok.inj rendered
    exact ⟨_, rfl, .same rfl⟩
  | true =>
    obtain ⟨category, classified, rfl⟩ := (cType_eq_ok_iff plain).mp rendered
    exact ⟨_, (cType_eq_ok_iff plain).mpr ⟨category, classified, rfl⟩, r.cTypeOf_sameAbi t scope category⟩

theorem cTypeAt_sameAbi {scope : Value} {header : CRendering} (rendered : r.cTypeAt t scope .header = .ok header) :
    ∃ implementation, r.cTypeAt t scope .implementation = .ok implementation ∧
      r.SameAbi t scope.display implementation header := by
  obtain ⟨_, resolves, _⟩ := bind_eq_ok rendered
  obtain ⟨implementation, rendered, same⟩ := r.cType_sameAbi t scope.display (cType_of_cTypeAt rendered)
  refine ⟨implementation, ?_, same⟩
  -- only the header asks for the names of classes and enums
  have other : (r.config.cplusplus && Side.implementation == .header) = false := Bool.and_false _
  simp only [cTypeAt, resolves, other, Bool.false_eq_true, if_false]
  exact mapError_eq_ok_iff.mpr rendered

end Resolver

/-- The C types of a value in the two files belong together: those that a wrapper is written with, whether the user
gives them or not, and those of the resolver in either mode. -/
theorem Wrapper.cTypes_sameAbi (job : Job) (r : Resolver) (t : CxxType) (scope : Value) :
    (∀ category, r.SameAbi t scope.display (cTypeOf job r t scope.display category .implementation)
      (cTypeOf job r t scope.display category .header)) ∧
    ∀ header, r.cTypeAt t scope .header = .ok header →
      ∃ implementation, r.cTypeAt t scope .implementation = .ok implementation ∧
        r.SameAbi t scope.display implementation header := by
  refine ⟨fun category => ?_, fun header => r.cTypeAt_sameAbi t⟩
  unfold cTypeOf
  split
  · exact .same rfl
  · exact r.cTypeOf_sameAbi t scope.display category

/-- A module with a class and an enum. -/
def paletteModule : Node :=
  .mk (.named .moduleDecl "m")
    [ .mk (.named .classDecl "Widget") [],
      .mk (.named .enumDecl "Color") [] ]

/-- What the types of the module are resolved against. -/
def paletteResolver : Resolver where
  config := { givenModule := .string "m" }
  table := .ofTree (.root paletteModule)

theorem Wrapper.cTypes_sameAbi_paletteModule :
    paletteResolver.cTypeAt ⟨"Color", [.lvalueReference]⟩ (.string "") .header = .ok ⟨"enum m_Color *", []⟩ ∧
      ∃ implementation,
        paletteResolver.cTypeAt ⟨"Color", [.lvalueReference]⟩ (.string "") .implementation = .ok implementation ∧
        paletteResolver.SameAbi ⟨"Color", [.lvalueReference]⟩ "" implementation ⟨"enum m_Color *", []⟩ := by
  have rendered : paletteResolver.cTypeAt ⟨"Color", [.lvalueReference]⟩ (.string "") .header =
      .ok ⟨"enum m_Color *", []⟩ := eq_ok_of_toOption (by decide +kernel)
  exact ⟨rendered, (cTypes_sameAbi ⟨paletteResolver.config, .root paletteModule, {}⟩ paletteResolver _ _).2 _ rendered⟩

end FlatAbi
