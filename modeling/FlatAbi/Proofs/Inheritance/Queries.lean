import FlatAbi.Proofs.Inheritance.Recursion

/-!
Queries about inheritance, one after the other, with what was learned from the earlier ones.
-/

namespace FlatAbi.Inheritance

variable {table : SymbolTable} {memo : Memo}

/-- What can be asked about a class: its inherited members, its usable bases, and whether it is abstract. -/
inductive Query where
  | members (cls : Site)
  | bases (cls : Site)
  | abstractness (cls : Site)

inductive Answer where
  | members (found : List Shadow)
  | bases (found : List Site)
  | abstractness (found : Bool)

namespace Query

def cls : Query → Site
  | .members cls | .bases cls | .abstractness cls => cls

/-- The answer to a query, and what is known afterwards. -/
def answer (table : SymbolTable) (memo : Memo) : Query → Except Misshapen Answer × Memo
  | .members cls =>
    let (found, memo) := flatten table memo cls
    memo.settle (.members found)
  | .bases cls => ((checkBases cls).map fun _ => .bases (usableBases table cls), memo)
  | .abstractness cls =>
    let (found, memo) := isAbstract table memo cls
    memo.settle (.abstractness found)

end Query

namespace Memo

def after (table : SymbolTable) (memo : Memo) (queries : List Query) : Memo :=
  queries.foldl (fun memo q => (q.answer table memo).2) memo

/-- All of the queries get answers. -/
def Serves (table : SymbolTable) : Memo → List Query → Prop
  | _, [] => True
  | memo, q :: rest => (∃ answer, (q.answer table memo).1 = .ok answer) ∧ Serves table (q.answer table memo).2 rest

/-- Whether work was broken off, and why. -/
def verdict (memo : Memo) : Except Misshapen Unit :=
  memo.broken.elim (.ok ()) fun b => .error b.cause

/-- What is left to go on with. -/
def recovered (memo : Memo) : Memo :=
  memo.broken.elim memo fun b => { entries := b.entries, opened := b.opened }

theorem settle_eq {α : Type} (memo : Memo) (answer : α) :
    memo.settle answer = (memo.verdict.map fun _ => answer, memo.recovered) := by
  unfold verdict recovered settle
  cases memo.broken <;> rfl

theorem verdict_eq_ok_iff : memo.verdict = .ok () ↔ memo.broken = none := by
  unfold verdict
  cases memo.broken <;> simp

theorem recovered_of_unbroken (unbroken : memo.broken = none) : memo.recovered = memo := by
  rw [recovered, unbroken]
  rfl

theorem recovered_broken (memo : Memo) : memo.recovered.broken = none := by
  unfold recovered
  cases broken : memo.broken with
  | none => exact broken
  | some b => rfl

@[simp] theorem note_verdict (memo : Memo) (check : Except Misshapen Unit) :
    (memo.note check).verdict = memo.verdict >>= fun _ => check := by
  unfold note verdict
  cases broken : memo.broken <;> cases check <;> simp [broken] <;> rfl

@[simp] theorem start_verdict (memo : Memo) (cls : Site) :
    (memo.start cls).verdict = memo.verdict >>= fun _ => checkOwn cls >>= fun _ => checkBases cls := by
  have begun : (({ memo with entries := (cls.id, []) :: memo.entries } : Memo).note (checkOwn cls)).verdict =
      memo.verdict >>= fun _ => checkOwn cls := note_verdict _ _
  unfold start
  rw [note_verdict, ← bind_assoc, ← begun]
  rfl

end Memo

end FlatAbi.Inheritance
