import FlatAbi.Proofs.Emission.Members

/-!
The same job on another tree, and with or without support of exceptions.
-/

namespace FlatAbi

open Enumeration Variable Emit

def Job.ofTree (config : Config) (typemaps : TypemapTable) (tree : Node) : Job :=
  ⟨config, .root tree, typemaps⟩

def Job.over (job : Job) (root : Site) : Job :=
  { job with root := root }

def Job.withExceptions (job : Job) (exceptions : Bool) : Job :=
  { job with config := { job.config with exceptions := exceptions } }

def Resolver.withExceptions (r : Resolver) (exceptions : Bool) : Resolver :=
  { r with config := { r.config with exceptions := exceptions } }

/-- The job on another tree and under another setting of exceptions. -/
def Job.varied (job : Job) (root : Site) (exceptions : Bool) : Job :=
  (job.over root).withExceptions exceptions

variable (job : Job) (r : Resolver) (root : Site) (e : Bool)

theorem Emit.resolver_varied {α : Type} (next : Resolver → Emit α) :
    (resolver (job.varied root e) >>= next) = resolver job >>= fun r => next (r.withExceptions e) := rfl

namespace Wrapper

theorem plan_varied (c : Callable) (parameters : List TypedParameter) :
    plan (job.varied root e) (r.withExceptions e) c parameters = plan job r c parameters :=
  plan_congr (by rfl) parameters

theorem plan_over (c : Callable) (parameters : List TypedParameter) :
    plan (job.over root) r c parameters = plan job r c parameters :=
  plan_congr (by rfl) parameters

theorem writeConverted_varied (p : Plan) (symbol : String) :
    writeConverted (job.varied root e) (r.withExceptions e) p symbol = writeConverted job r p symbol :=
  writeConverted_congr (by rfl) (by rfl) (by rfl) (by rfl) p symbol

theorem reserveSymbol_varied : reserveSymbol (job.varied root e) = reserveSymbol job := rfl

theorem direct_varied : direct (job.varied root e) = direct job := rfl

theorem write_varied : write (job.varied root e) = write job := by
  funext c
  simp only [write, convert, resolver_varied, plan_varied, writeConverted_varied, direct_varied, reserveSymbol_varied]
  rfl

end Wrapper

namespace Facade

theorem parameters_withExceptions (c : Callable) (inputs : List Wrapper.TypedParameter) :
    parameters (r.withExceptions e) c inputs = parameters r c inputs := by
  induction inputs with
  | nil => rfl
  | cons p rest ih =>
    simp only [parameters, ih]
    rfl

theorem member_varied (cls : OpenClass) (w : Wrapper.Written) :
    member (job.varied root e) cls w = member job cls w := by
  simp only [member, resolver_varied, parameters_withExceptions]
  rfl

theorem addMember_varied : addMember (job.varied root e) = addMember job := by
  funext cls w
  simp only [addMember, member_varied]

end Facade

theorem Enumeration.write_varied : Enumeration.write (job.varied root e) = Enumeration.write job := rfl

theorem Constant.write_varied : Constant.write (job.varied root e) = Constant.write job := rfl

theorem Variable.declare_varied : declare? (job.varied root e) = declare? job := rfl

theorem Struct.members_varied (sites : List Site) :
    Struct.members (job.varied root e) sites = Struct.members job sites := by
  induction sites with
  | nil => rfl
  | cons site rest ih =>
    simp only [Struct.members, Struct.child, Struct.member?, declare_varied, write_varied, ih]

namespace Module

theorem wrap_varied : wrap (job.varied root e) = wrap job := by
  funext cls c
  simp only [wrap, Wrapper.write_varied, Facade.addMember_varied]

theorem classMember_varied : classMember (job.varied root e) = classMember job := by
  funext cls m
  cases m <;> simp only [classMember, wrap_varied, write_varied, Constant.write_varied]

theorem cxxClass_varied : cxxClass (job.varied root e) = cxxClass job := by
  funext cls
  simp only [cxxClass, resolver_varied, classMember_varied]
  rfl

theorem classDecl_varied : classDecl (job.varied root e) = classDecl job := by
  funext cls
  simp only [classDecl, cxxClass_varied, Struct.write, Struct.members_varied]
  rfl

theorem globalVariable_varied : globalVariable (job.varied root e) = globalVariable job := by
  funext site
  simp only [globalVariable, resolver_varied, wrap_varied]
  rfl

theorem declaration_varied : declaration (job.varied root e) = declaration job := by
  funext site
  unfold declaration
  simp only [classDecl_varied, freeFunction, globalVariable_varied, wrap_varied, write_varied,
    Constant.write_varied]
  rfl

theorem declaration_over : declaration (job.over root) = declaration job :=
  declaration_varied job root job.config.exceptions

theorem declaration_withExceptions : declaration (job.withExceptions e) = declaration job :=
  declaration_varied job job.root e

end Module

end FlatAbi
