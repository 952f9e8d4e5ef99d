import Mathlib.Data.Finite.Defs
import Mathlib.Data.Set.Finite.Basic
import Mathlib.Logic.Relation
import Mathlib.Order.WellFounded
import Mathlib.Order.RelClasses
import Mathlib.Tactic

/-!
Transition systems that come to rest. A measure that every step takes down
bounds the length of every run, so that each run can be continued to a state
without steps. In a finite set whose members all wait for members of it, some
member waits for itself in the end.
-/
namespace Dthread.Quiescence

variable {σ : Type*} (step : σ → σ → Prop)

/-- Runs of `n` steps. -/
inductive Runs : ℕ → σ → σ → Prop
  | refl (s : σ) : Runs 0 s s
  | tail {n : ℕ} {s t u : σ} (h : Runs n s t) (hs : step t u) : Runs (n + 1) s u

def Stuck (s : σ) : Prop := ∀ t, ¬ step s t

variable {step} {s t : σ} {n : ℕ}

theorem Runs.head {u : σ} (hs : step s t) (h : Runs step n t u) : Runs step (n + 1) s u := by
  induction h with
  | refl t => exact .tail (.refl s) hs
  | tail _ hu ih => exact .tail (ih hs) hu

section Measure

variable {I : σ → Prop} {work : σ → ℕ} (hkeep : ∀ s t, I s → step s t → I t)
  (hless : ∀ s t, I s → step s t → work t < work s)

include hkeep in
theorem Runs.invariant (h : Runs step n s t) (hs : I s) : I t := by
  induction h with
  | refl => exact hs
  | tail _ hu ih => exact hkeep _ _ (ih hs) hu

include hkeep hless in
/-- Each step costs some of the work that is left. -/
theorem Runs.length_add_work_le (h : Runs step n s t) (hs : I s) : n + work t ≤ work s := by
  induction h with
  | refl => omega
  | tail h hu ih =>
    have hstep := hless _ _ (h.invariant hkeep hs) hu
    have hrest := ih hs
    omega

include hkeep hless in
/-- A run goes on until nothing can be done any more. -/
theorem exists_stuck (s : σ) (hs : I s) : ∃ n t, Runs step n s t ∧ Stuck step t := by
  induction hw : work s using Nat.strong_induction_on generalizing s with
  | _ w ih =>
    by_cases hstuck : Stuck step s
    · exact ⟨0, s, .refl s, hstuck⟩
    · unfold Stuck at hstuck
      push Not at hstuck
      obtain ⟨t, ht⟩ := hstuck
      obtain ⟨n, u, hrun, hu⟩ := ih (work t) (hw ▸ hless s t hs ht) t (hkeep s t hs ht) rfl
      exact ⟨n + 1, u, hrun.head ht, hu⟩

end Measure

/-- Whoever waits for somebody of a finite set of waiting ones waits in a circle
or for one that does. -/
theorem exists_cycle {α : Type*} {r : α → α → Prop} {S : Set α} (hfin : S.Finite)
    (hne : S.Nonempty) (hout : ∀ a ∈ S, ∃ b ∈ S, r a b) :
    ∃ a ∈ S, Relation.TransGen r a a := by
  by_contra hnone
  push Not at hnone
  have : Finite S := hfin
  let later : S → S → Prop := fun a b => Relation.TransGen r b a
  have htrans : IsTrans S later := ⟨fun a b c hab hbc => hbc.trans hab⟩
  have hirrefl : Std.Irrefl later := ⟨fun a ha => hnone a a.2 ha⟩
  have hwf : WellFounded later := Finite.wellFounded_of_trans_of_irrefl later
  obtain ⟨a, ha⟩ := hne
  -- a member that nobody comes after would wait for nobody
  obtain ⟨m, -, hlast⟩ := hwf.has_min Set.univ ⟨⟨a, ha⟩, trivial⟩
  obtain ⟨b, hb, hr⟩ := hout m m.2
  exact hlast ⟨b, hb⟩ trivial (.single hr)

end Dthread.Quiescence
