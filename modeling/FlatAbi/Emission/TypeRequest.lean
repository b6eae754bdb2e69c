import FlatAbi.Emission.Draft

/-!
Requests about types, answered one after another. What an answer needs in the header is declared there first, unless an
earlier one did.
-/

namespace FlatAbi

inductive TypeQuestion where
  | category
  | overloadCode
  | opaqueName
  | resolved
  | qualified
  | enumeration
  | cType (side : Side)
  | facadeParameter
  | facadeResult
  deriving DecidableEq, Repr

inductive TypeRequest where
  | about (question : TypeQuestion) (t : CxxType) (scope : Value)
  | boolSupport

inductive TypeAnswer where
  | category (category : Category)
  | text (text : String)
  | type (t : CxxType)
  | enumeration (found : Option Site)
  | facade (rendering : FacadeRendering) (type : Value)
  | nothing

def TypeQuestion.work (r : Resolver) (t : CxxType) (scope : Value) : TypeQuestion → Emit TypeAnswer
  | .category => return .category (← Emit.lift (r.categoryAt t scope))
  | .overloadCode => return .text (r.table.overloadCode t scope.display)
  | .opaqueName => return .text (r.table.opaqueName t scope.display)
  | .resolved => return .type (r.table.resolve t scope.display)
  | .qualified => return .type (r.table.qualified t scope.display)
  | .enumeration => return .enumeration (r.table.enumOf? t scope.display)
  | .cType side => do
    let c ← Emit.lift (r.cTypeAt t scope side)
    Emit.require c.needs
    return .text c.text
  | .facadeParameter => do
    let c ← Emit.lift (r.facadeParameterAt t scope)
    Emit.require c.needs
    return .facade c (.string c.type)
  | .facadeResult => do
    let c ← Emit.lift (r.facadeResultAt t scope)
    Emit.require c.needs
    let category ← Emit.lift (r.categoryAt t scope)
    return .facade c (r.facadeResultType t scope.display category c)

namespace TypeRequest

def work (config : Config) : TypeRequest → Emit TypeAnswer
  | .about question t scope => do
    let r : Resolver := ⟨config, (← get).table⟩
    Emit.check (r.table.checkResolve t scope)
    question.work r t scope
  | .boolSupport => do
    Emit.require [.boolSupport]
    return .nothing

def answer (config : Config) (draft : Draft) (request : TypeRequest) : Except Halt TypeAnswer × Draft :=
  (request.work config).run.run draft

end TypeRequest

def Draft.afterRequests (config : Config) (root : Site) (requests : List TypeRequest) : Draft :=
  requests.foldl (fun draft request => (request.answer config draft).2) (.ofTree root)

end FlatAbi
