import Mathlib.Data.List.Basic
import Mathlib.Logic.Function.Basic
import Mathlib.Tactic

/-!
First-in first-out channels as a labelled transition system. A channel is
named by an element of `κ` and holds the items that were put into it and not
yet taken out. A run is known by its trace of puts and takes.
-/
namespace Dthread.FifoChannels

inductive Event (κ α : Type*) where
  | put (c : κ) (x : α)
  | take (c : κ) (x : α)
deriving DecidableEq

variable {κ α : Type*} [DecidableEq κ]

def Event.putOn (c : κ) : Event κ α → Option α
  | .put c' x => if c' = c then some x else none
  | .take _ _ => none

def Event.takenFrom (c : κ) : Event κ α → Option α
  | .put _ _ => none
  | .take c' x => if c' = c then some x else none

/-- The items put into a channel, in order. -/
def puts (c : κ) (tr : List (Event κ α)) : List α := tr.filterMap (Event.putOn c)

/-- The items taken out of a channel, in order. -/
def takes (c : κ) (tr : List (Event κ α)) : List α := tr.filterMap (Event.takenFrom c)

inductive Step : (κ → List α) → Option (Event κ α) → (κ → List α) → Prop
  | idle (q : κ → List α) : Step q none q
  | put (q : κ → List α) (c : κ) (x : α) :
      Step q (some (.put c x)) (Function.update q c (q c ++ [x]))
  | take (q : κ → List α) (c : κ) (x : α) (rest : List α) (h : q c = x :: rest) :
      Step q (some (.take c x)) (Function.update q c rest)

inductive Run : List (Event κ α) → (κ → List α) → Prop
  | init : Run [] fun _ => []
  | snoc {tr : List (Event κ α)} {q q' : κ → List α} {ev : Option (Event κ α)} (h : Run tr q)
      (hs : Step q ev q') : Run (tr ++ ev.toList) q'

variable {tr : List (Event κ α)} {q q' : κ → List α} {ev : Option (Event κ α)}

@[simp] theorem puts_nil (c : κ) : puts c ([] : List (Event κ α)) = [] := rfl

@[simp] theorem takes_nil (c : κ) : takes c ([] : List (Event κ α)) = [] := rfl

@[simp] theorem puts_put (c d : κ) (x : α) :
    puts c [.put d x] = if d = c then [x] else [] := by
  by_cases h : d = c <;> simp [puts, Event.putOn, h]

@[simp] theorem puts_take (c d : κ) (x : α) : puts c [.take d x] = [] := rfl

@[simp] theorem takes_take (c d : κ) (x : α) :
    takes c [.take d x] = if d = c then [x] else [] := by
  by_cases h : d = c <;> simp [takes, Event.takenFrom, h]

@[simp] theorem takes_put (c d : κ) (x : α) : takes c [.put d x] = [] := rfl

/-- A step is known by what it does to each channel: what it puts in comes
last, and what it takes out was first. -/
theorem step_iff : Step q ev q' ↔
    ∀ c, q c ++ puts c ev.toList = takes c ev.toList ++ q' c := by
  constructor
  · intro h c
    cases h with
    | idle => simp
    | put d x =>
      by_cases hd : d = c
      · subst hd
        simp
      · simp [hd, Ne.symm hd]
    | take d x rest hq =>
      by_cases hd : d = c
      · subst hd
        simp [hq]
      · simp [hd, Ne.symm hd]
  · intro h
    match ev with
    | none =>
      have heq : q' = q := funext fun c => by simpa using (h c).symm
      rw [heq]
      exact .idle q
    | some (.put d x) =>
      have heq : q' = Function.update q d (q d ++ [x]) := by
        funext c
        have hc := h c
        by_cases hd : c = d
        · subst hd
          simpa using hc.symm
        · simpa [hd, Ne.symm hd] using hc.symm
      rw [heq]
      exact .put q d x
    | some (.take d x) =>
      have heq : q' = Function.update q d (q' d) := by
        funext c
        have hc := h c
        by_cases hd : c = d
        · subst hd
          simp
        · simpa [hd, Ne.symm hd] using hc.symm
      rw [heq]
      refine .take q d x (q' d) ?_
      simpa using h d

theorem puts_append (c : κ) (tr tr' : List (Event κ α)) :
    puts c (tr ++ tr') = puts c tr ++ puts c tr' := List.filterMap_append

theorem takes_append (c : κ) (tr tr' : List (Event κ α)) :
    takes c (tr ++ tr') = takes c tr ++ takes c tr' := List.filterMap_append

/-- What was put into a channel is what was taken out of it and then what it
still holds. -/
theorem Run.puts_eq (h : Run tr q) (c : κ) : puts c tr = takes c tr ++ q c := by
  induction h with
  | init => rfl
  | snoc _ hs ih =>
    rw [puts_append, takes_append, ih, List.append_assoc, List.append_assoc, step_iff.mp hs c]

theorem Run.takes_prefix (h : Run tr q) (c : κ) : takes c tr <+: puts c tr :=
  ⟨q c, (h.puts_eq c).symm⟩

end Dthread.FifoChannels
