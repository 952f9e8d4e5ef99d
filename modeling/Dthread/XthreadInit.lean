import Mathlib.Data.List.Basic
import Mathlib.Tactic
import Dthread.ReqMsg

/-!
xthread_init of xthread.c: every argument "--dthread" after the first is taken
out of argv while argv is scanned, and selects dthreads.
-/
namespace Dthread.XthreadInit

open ReqMsg

def EALREADY : ℕ := 114

def dthreadFlag : String := "--dthread"

/-- *argc and *argv, with `none` for NULL. -/
structure Arguments where
  argc : ℕ
  argv : ℕ → Option String

/-- The loop of remove_argument for `n` turns from `i` on. -/
def shiftDown : ℕ → (ℕ → Option String) → ℕ → (ℕ → Option String)
  | 0, argv, _ => argv
  | n + 1, argv, i => shiftDown n (Function.update argv i (argv (i + 1))) (i + 1)

def removeArgument (a : Arguments) (index : ℕ) : Arguments where
  argc := a.argc - 1
  argv := Function.update (shiftDown (a.argc - 1 - index) a.argv index) (a.argc - 1) none

/-- The loop of xthread_init from `i` on. After a removal the index is stepped
back, so that the argument that moved to `i` comes next. -/
def initLoop (a : Arguments) (i : ℕ) (useDthreads : Bool) : Arguments × Bool :=
  if i < a.argc then
    if a.argv i = some dthreadFlag then initLoop (removeArgument a i) i true
    else initLoop a (i + 1) useDthreads
  else (a, useDthreads)
termination_by a.argc - i
decreasing_by
  · change a.argc - 1 - i < a.argc - i
    omega
  · omega

/-- The static variables of xthread.c that xthread_init uses. -/
structure XthreadStatics where
  initialized : Bool
  useDthreads : Bool
deriving DecidableEq, Repr

/-- The statics before the first call. -/
def XthreadStatics.zero : XthreadStatics := ⟨false, false⟩

/-- Return value, statics and arguments after a call. -/
structure InitResult where
  rv : ℕ
  statics : XthreadStatics
  args : Option Arguments

/-- xthread_init; `none` for the arguments stands for a null pointer among argc,
argv and *argv. dthread_init returns `dthreadRv` and leaves the arguments. -/
def xthreadInit (s : XthreadStatics) (args : Option Arguments) (dthreadRv : ℕ) : InitResult :=
  if s.initialized then ⟨EALREADY, s, args⟩
  else
    match args with
    | none => ⟨EINVAL, s, none⟩
    | some a =>
      let (a', useDthreads) := initLoop a 1 s.useDthreads
      if useDthreads = true ∧ dthreadRv ≠ 0 then ⟨dthreadRv, ⟨false, useDthreads⟩, some a'⟩
      else ⟨0, ⟨true, useDthreads⟩, some a'⟩

/-- The arguments are the strings of a list, and NULL follows them. -/
structure Arguments.Holds (a : Arguments) (args : List String) : Prop where
  argc : a.argc = args.length
  argv : ∀ i ≤ args.length, a.argv i = args[i]?

theorem shiftDown_apply (n : ℕ) (argv : ℕ → Option String) (i j : ℕ) :
    shiftDown n argv i j = if i ≤ j ∧ j < i + n then argv (j + 1) else argv j := by
  induction n generalizing argv i with
  | zero =>
    rw [shiftDown, if_neg (by omega)]
  | succ n ih =>
    rw [shiftDown, ih]
    by_cases hj : j = i
    · subst hj
      rw [if_neg (by omega), if_pos (by omega), Function.update_self]
    · have hsame : Function.update argv i (argv (i + 1)) j = argv j := Function.update_of_ne hj _ _
      by_cases hin : i ≤ j ∧ j < i + (n + 1)
      · have hnext : j + 1 ≠ i := by omega
        rw [if_pos (by omega), if_pos hin, Function.update_of_ne hnext]
      · rw [if_neg (by omega), if_neg hin, hsame]

/-- remove_argument takes one argument out of the list. -/
theorem Arguments.Holds.removeArgument {a : Arguments} {args : List String} {i : ℕ}
    (h : a.Holds args) (hi : i < args.length) :
    (removeArgument a i).Holds (args.eraseIdx i) where
  argc := by
    rw [List.length_eraseIdx_of_lt hi, ← h.argc]
    rfl
  argv j hj := by
    rw [List.length_eraseIdx_of_lt hi] at hj
    have hcount := h.argc
    rw [List.getElem?_eraseIdx]
    change Function.update (shiftDown (a.argc - 1 - i) a.argv i) (a.argc - 1) none j = _
    by_cases hlast : j = a.argc - 1
    · subst hlast
      rw [Function.update_self, if_neg (by omega), List.getElem?_eq_none (by omega)]
    · rw [Function.update_of_ne hlast, shiftDown_apply]
      by_cases hlt : j < i
      · rw [if_neg (by omega), if_pos hlt, h.argv j (by omega)]
      · rw [if_pos (by omega), if_neg hlt, h.argv (j + 1) (by omega)]

/-- The loop keeps what it has passed, and filters the rest. -/
theorem initLoop_holds {a : Arguments} {args : List String} {i : ℕ} (useDthreads : Bool)
    (h : a.Holds args) (hi : i ≤ args.length) :
    (initLoop a i useDthreads).1.Holds
        (args.take i ++ (args.drop i).filter (· ≠ dthreadFlag)) ∧
      ((initLoop a i useDthreads).2 = true ↔
        useDthreads = true ∨ dthreadFlag ∈ args.drop i) := by
  induction hn : args.length - i generalizing a args i useDthreads with
  | zero =>
    have hend : i = args.length := by omega
    rw [initLoop, if_neg (by rw [h.argc]; omega)]
    simp [hend, h]
  | succ n ih =>
    have hlt : i < args.length := by omega
    have hdrop : args.drop i = args[i] :: args.drop (i + 1) := List.drop_eq_getElem_cons hlt
    have harg : a.argv i = some args[i] := by
      rw [h.argv i hi, List.getElem?_eq_getElem hlt]
    rw [initLoop, if_pos (by rw [h.argc]; exact hlt), harg, hdrop]
    by_cases hflag : args[i] = dthreadFlag
    · have hshort := List.length_eraseIdx_of_lt hlt
      have hlen : (args.take i).length = i := List.length_take_of_le hi
      have hsplit := List.eraseIdx_eq_take_drop_succ args i
      have htake : (args.eraseIdx i).take i = args.take i := by
        rw [hsplit, List.take_left' hlen]
      have hrest : (args.eraseIdx i).drop i = args.drop (i + 1) := by
        rw [hsplit, List.drop_left' hlen]
      obtain ⟨hargs, huse⟩ := ih true (h.removeArgument hlt) (i := i) (by omega) (by omega)
      rw [htake, hrest] at hargs
      rw [if_pos (by rw [hflag]), List.filter_cons_of_neg (by simpa using hflag), huse]
      exact ⟨hargs, by simp only [hflag, List.mem_cons, true_or, or_true]⟩
    · obtain ⟨hargs, huse⟩ := ih useDthreads h (i := i + 1) hlt (by omega)
      have htake : args.take (i + 1) = args.take i ++ [args[i]] :=
        List.take_succ_eq_append_getElem hlt
      rw [htake, List.append_assoc, List.singleton_append] at hargs
      rw [if_neg (by simpa using hflag), List.filter_cons_of_pos (by simpa using hflag), huse,
        List.mem_cons]
      have hother : ¬ dthreadFlag = args[i] := fun he => hflag he.symm
      exact ⟨hargs, by simp only [hother, false_or]⟩

/-- A call before initialization runs the loop, whatever dthread_init returns. -/
theorem xthreadInit_call {s : XthreadStatics} (h : s.initialized = false) (a : Arguments)
    (dthreadRv : ℕ) :
    (xthreadInit s (some a) dthreadRv).args = some (initLoop a 1 s.useDthreads).1 ∧
      (xthreadInit s (some a) dthreadRv).statics.useDthreads = (initLoop a 1 s.useDthreads).2 := by
  simp only [xthreadInit, h, Bool.false_eq_true, if_false]
  by_cases hfail : (initLoop a 1 s.useDthreads).2 = true ∧ dthreadRv ≠ 0
  · rw [if_pos hfail]
    exact ⟨rfl, rfl⟩
  · rw [if_neg hfail]
    exact ⟨rfl, rfl⟩

/-- What the application finds in argv after xthread_init. -/
def filtered (args : List String) : List String := args.tail.filter (· ≠ dthreadFlag)

/-- A first call keeps argv[0] and the other arguments in their order, takes out
every "--dthread" after argv[0], and selects dthreads if there was one. -/
theorem xthreadInit_filters (a : Arguments) (args : List String) (hargs : a.Holds args)
    (hne : args ≠ []) (dthreadRv : ℕ) :
    ∃ a', (xthreadInit .zero (some a) dthreadRv).args = some a' ∧
      a'.argv 0 = a.argv 0 ∧ a'.argc = 1 + (filtered args).length ∧
      (∀ i < (filtered args).length, a'.argv (i + 1) = (filtered args)[i]?) ∧
      a'.argv a'.argc = none ∧
      ((xthreadInit .zero (some a) dthreadRv).statics.useDthreads = true ↔
        dthreadFlag ∈ args.tail) := by
  obtain ⟨arg0, rest, rfl⟩ := List.exists_cons_of_ne_nil hne
  obtain ⟨hloop, huse⟩ := initLoop_holds XthreadStatics.zero.useDthreads hargs (i := 1) (by simp)
  have hcall := xthreadInit_call (s := .zero) rfl a dthreadRv
  have hlist : (arg0 :: rest).take 1 ++ ((arg0 :: rest).drop 1).filter (· ≠ dthreadFlag) =
      arg0 :: filtered (arg0 :: rest) := rfl
  rw [hlist] at hloop
  refine ⟨_, hcall.1, ?_, ?_, ?_, ?_, ?_⟩
  · rw [hloop.argv 0 (Nat.zero_le _), hargs.argv 0 (Nat.zero_le _)]
    rfl
  · rw [hloop.argc, List.length_cons, Nat.add_comm]
  · intro i hi
    rw [hloop.argv (i + 1) (by rw [List.length_cons]; omega), List.getElem?_cons_succ]
  · rw [hloop.argc, hloop.argv _ (le_refl _), List.getElem?_eq_none (le_refl _)]
  · rw [hcall.2, huse]
    simp [XthreadStatics.zero]

/-- Four arguments with the flag twice. -/
def flaggedArgs : Arguments := ⟨4, fun i => ["app", "--dthread", "x", "--dthread"][i]?⟩

theorem xthreadInit_filters_flaggedArgs :
    ∃ a', (xthreadInit .zero (some flaggedArgs) 0).args = some a' ∧ a'.argc = 2 ∧
      a'.argv 1 = some "x" ∧ a'.argv a'.argc = none ∧
      (xthreadInit .zero (some flaggedArgs) 0).statics.useDthreads = true := by
  obtain ⟨a', hargs, -, hargc, hargv, hnull, huse⟩ := xthreadInit_filters flaggedArgs
    ["app", "--dthread", "x", "--dthread"] ⟨rfl, fun _ _ => rfl⟩ (by simp) 0
  exact ⟨a', hargs, hargc, hargv 0 (by decide), hnull, huse.mpr (by decide)⟩

end Dthread.XthreadInit
