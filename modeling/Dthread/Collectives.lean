import Mathlib.Logic.Basic
import Mathlib.Data.List.Basic

/-!
Programs that many ranks execute side by side and that meet in collective calls.
A call completes when every rank has made it, and then gives each of them one
and the same value, reduced from what they put in.
-/
namespace Dthread.Collectives

variable {Rank Op α β : Type} {Val : Op → Type}

/-- The program of a rank: collective calls, and what it computes in between. -/
inductive Prog (Val : Op → Type) (α : Type) : Type
  | ret (a : α)
  | coll (op : Op) (x : Val op) (k : Val op → Prog Val α)

namespace Prog

def bind : Prog Val α → (α → Prog Val β) → Prog Val β
  | ret a, f => f a
  | coll op x k, f => coll op x fun y => (k y).bind f

end Prog

/-- The ranks run to their ends: all of them make the listed calls, in this
order, and nothing else. -/
inductive Runs (reduce : (op : Op) → (Rank → Val op) → Val op) :
    (Rank → Prog Val α) → List Op → (Rank → α) → Prop
  | ret {p : Rank → Prog Val α} {a : Rank → α} (hp : ∀ r, p r = .ret (a r)) : Runs reduce p [] a
  | coll {p : Rank → Prog Val α} {op : Op} {x : Rank → Val op}
      {k : Rank → Val op → Prog Val α} {tr : List Op} {a : Rank → α}
      (hp : ∀ r, p r = .coll op (x r) (k r))
      (hk : Runs reduce (fun r => k r (reduce op x)) tr a) : Runs reduce p (op :: tr) a

namespace Runs

variable {reduce : (op : Op) → (Rank → Val op) → Val op} {p : Rank → Prog Val α}
  {tr tr' : List Op}

/-- One program after the other. -/
theorem bind {a : Rank → α} {b : Rank → β} {f : Rank → α → Prog Val β}
    (h : Runs reduce p tr a) (h' : Runs reduce (fun r => f r (a r)) tr' b) :
    Runs reduce (fun r => (p r).bind (f r)) (tr ++ tr') b := by
  induction h with
  | ret hp => simpa only [List.nil_append, hp, Prog.bind] using h'
  | @coll p op x k tr a hp _ ih =>
    have hcall : ∀ r, (p r).bind (f r) = .coll op (x r) fun y => (k r y).bind (f r) := by
      intro r
      rw [hp r, Prog.bind]
    exact coll hcall (ih h')

/-- The calls and the results are determined by the programs. -/
theorem unique [Nonempty Rank] {a a' : Rank → α} (h : Runs reduce p tr a)
    (h' : Runs reduce p tr' a') : tr = tr' ∧ a = a' := by
  obtain ⟨r₀⟩ := ‹Nonempty Rank›
  induction h generalizing tr' a' with
  | ret hp =>
    cases h' with
    | ret hp' =>
      refine ⟨rfl, funext fun r => ?_⟩
      exact Prog.ret.inj ((hp r).symm.trans (hp' r))
    | coll hp' hk' => exact absurd ((hp r₀).symm.trans (hp' r₀)) (by simp)
  | coll hp _ ih =>
    cases h' with
    | ret hp' => exact absurd ((hp r₀).symm.trans (hp' r₀)) (by simp)
    | coll hp' hk' =>
      obtain ⟨rfl, -, -⟩ := Prog.coll.inj ((hp r₀).symm.trans (hp' r₀))
      have hsame := fun r => Prog.coll.inj ((hp r).symm.trans (hp' r))
      obtain rfl := funext fun r => eq_of_heq (hsame r).2.1
      obtain rfl := funext fun r => eq_of_heq (hsame r).2.2
      obtain ⟨rfl, rfl⟩ := ih hk'
      exact ⟨rfl, rfl⟩

end Runs

end Dthread.Collectives
