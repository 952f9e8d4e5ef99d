import Mathlib.Logic.Function.Iterate
import Mathlib.Tactic

/-!
Slots that are reused under generation numbers. The numbers come from one
source, which may also be drawn from for other purposes. As long as no number
is drawn twice, the pair of a slot and a generation is good exactly while the
slot is held under it.
-/
namespace Dthread.Generations

/-- The source's next number, and the generations of the slots in use. -/
structure Slots where
  src : ℕ
  gen : ℕ → Option ℕ

/-- An operation with the slot and the number it concerns. -/
inductive Op where
  | alloc (slot gen : ℕ)
  | free (slot : ℕ)
  | draw (gen : ℕ)
deriving DecidableEq

/-- `next` is how the source moves on. -/
inductive Step (next : ℕ → ℕ) (s : Slots) : Op → Slots → Prop
  | alloc (slot : ℕ) (hfree : s.gen slot = none) :
      Step next s (.alloc slot s.src)
        ⟨next s.src, Function.update s.gen slot (some s.src)⟩
  | free (slot : ℕ) (hused : s.gen slot ≠ none) :
      Step next s (.free slot) ⟨s.src, Function.update s.gen slot none⟩
  | draw : Step next s (.draw s.src) ⟨next s.src, s.gen⟩

inductive Steps (next : ℕ → ℕ) (start : Slots) : List Op → Slots → Prop
  | nil : Steps next start [] start
  | snoc {ops : List Op} {s s' : Slots} {op : Op} (h : Steps next start ops s)
      (hs : Step next s op s') : Steps next start (ops ++ [op]) s'

/-- The number an operation takes from the source. -/
def Op.drawn : Op → Option ℕ
  | .alloc _ gen => some gen
  | .free _ => none
  | .draw gen => some gen

/-- How many numbers have been drawn. -/
def draws (ops : List Op) : ℕ := (ops.filterMap Op.drawn).length

variable {next : ℕ → ℕ} {start s s' : Slots} {ops : List Op}

theorem Steps.single {op : Op} (h : Step next s op s') : Steps next s [op] s' :=
  .snoc .nil h

theorem Steps.append {ops' : List Op} {s'' : Slots} (h : Steps next s ops s')
    (h' : Steps next s' ops' s'') : Steps next s (ops ++ ops') s'' := by
  induction h' with
  | nil =>
    rw [List.append_nil]
    exact h
  | snoc _ hs ih =>
    rw [← List.append_assoc]
    exact .snoc ih hs

theorem draws_append (ops ops' : List Op) : draws (ops ++ ops') = draws ops + draws ops' := by
  simp [draws]

theorem draws_snoc (ops : List Op) (op : Op) :
    draws (ops ++ [op]) = draws ops + op.drawn.toList.length := by
  rw [draws_append]
  cases op <;> rfl

/-- The source stands where so many draws bring it. -/
theorem Steps.src_eq (h : Steps next start ops s) : s.src = next^[draws ops] start.src := by
  induction h with
  | nil => rfl
  | snoc _ hs ih =>
    rw [draws_snoc]
    cases hs with
    | alloc slot hfree =>
      simp only [Op.drawn, Option.toList_some, List.length_singleton, Function.iterate_succ_apply']
      rw [ih]
    | free slot hused => exact ih
    | draw =>
      simp only [Op.drawn, Option.toList_some, List.length_singleton, Function.iterate_succ_apply']
      rw [ih]

/-- A generation that was given out is one of the numbers drawn so far. -/
theorem Steps.gen_drawn (h : Steps next start ops s) {slot gen : ℕ}
    (hmem : Op.alloc slot gen ∈ ops) : ∃ i < draws ops, gen = next^[i] start.src := by
  induction h with
  | nil => simp at hmem
  | @snoc ops s s' op h hs ih =>
    rw [List.mem_append, List.mem_singleton] at hmem
    rw [draws_snoc]
    rcases hmem with hmem | rfl
    · obtain ⟨i, hi, hgen⟩ := ih hmem
      exact ⟨i, by omega, hgen⟩
    · cases hs with
      | alloc slot hfree => exact ⟨draws ops, by simp [Op.drawn], h.src_eq⟩

/-- A slot in use has a generation that was given out, or had one from the
start. -/
theorem Steps.alloc_of_gen (h : Steps next start ops s) {slot gen : ℕ}
    (hgen : s.gen slot = some gen) : Op.alloc slot gen ∈ ops ∨ start.gen slot = some gen := by
  induction h with
  | nil => exact .inr hgen
  | @snoc ops s s' op h hs ih =>
    have hkeep (hold : s.gen slot = some gen) :
        Op.alloc slot gen ∈ ops ++ [op] ∨ start.gen slot = some gen :=
      (ih hold).imp_left fun hmem => List.mem_append_left _ hmem
    cases hs with
    | alloc k hfree =>
      by_cases hk : slot = k
      · subst hk
        simp only [Function.update_self, Option.some.injEq] at hgen
        rw [hgen]
        exact .inl (List.mem_append_right _ (List.mem_singleton_self _))
      · simp only [Function.update_of_ne hk] at hgen
        exact hkeep hgen
    | free k hused =>
      by_cases hk : slot = k
      · subst hk
        simp at hgen
      · simp only [Function.update_of_ne hk] at hgen
        exact hkeep hgen
    | draw => exact hkeep hgen

/-- The list of operations around one of them, when another one is added. -/
theorem split_snoc {ops : List Op} {op op' : Op} {before after : List Op}
    (h : ops ++ [op] = before ++ op' :: after) :
    (after = [] ∧ op' = op ∧ before = ops) ∨
      ∃ after', after = after' ++ [op] ∧ ops = before ++ op' :: after' := by
  rcases List.eq_nil_or_concat after with rfl | ⟨after', x, rfl⟩
  · obtain ⟨rfl, hop⟩ := List.append_inj' h rfl
    left
    exact ⟨rfl, by simpa using hop.symm, rfl⟩
  · have hassoc : ops ++ [op] = (before ++ op' :: after') ++ [x] := by simpa using h
    obtain ⟨hops, hop⟩ := List.append_inj' hassoc rfl
    right
    refine ⟨after', ?_, hops⟩
    rw [List.concat_eq_append, show x = op by simpa using hop.symm]

/-- While no number comes twice, a slot has the generation it was given exactly
until it is freed. -/
theorem Steps.gen_iff (h : Steps next start ops s)
    (hinj : ∀ i j, i < draws ops → j < draws ops →
      next^[i] start.src = next^[j] start.src → i = j)
    {slot gen : ℕ} {before after : List Op} (hops : ops = before ++ .alloc slot gen :: after) :
    s.gen slot = some gen ↔ Op.free slot ∉ after := by
  induction h generalizing before after with
  | nil => simp at hops
  | @snoc ops s s' op h hs ih =>
    have hle : draws ops ≤ draws (ops ++ [op]) := by
      rw [draws_snoc]
      exact Nat.le_add_right _ _
    rcases split_snoc hops with ⟨rfl, rfl, rfl⟩ | ⟨after, rfl, rfl⟩
    · cases hs with
      | alloc _ hfree => simp
    · have hold := ih (fun i j hi hj => hinj i j (hi.trans_le hle) (hj.trans_le hle)) rfl
      cases hs with
      | alloc k hfree =>
        by_cases hk : slot = k
        · -- the slot was free, so it has been freed, and its new number is another one
          subst hk
          have hfreed : Op.free slot ∈ after := by
            by_contra hno
            rw [hold.mpr hno] at hfree
            simp at hfree
          have hmem : Op.alloc slot gen ∈ before ++ Op.alloc slot gen :: after := by simp
          obtain ⟨i, hi, hgen⟩ := h.gen_drawn hmem
          have hlt : draws (before ++ Op.alloc slot gen :: after) <
              draws (before ++ Op.alloc slot gen :: after ++ [.alloc slot s.src]) := by
            rw [draws_snoc]
            simp [Op.drawn]
          have hne : s.src ≠ gen := by
            intro heq
            have hsame := h.src_eq.symm.trans (heq.trans hgen)
            exact hi.ne' (hinj _ _ hlt (hi.trans hlt) hsame)
          simp [hne, hfreed]
        · simp only [Function.update_of_ne hk]
          rw [hold]
          simp
      | free k hused =>
        by_cases hk : slot = k
        · subst hk
          simp
        · simp only [Function.update_of_ne hk]
          rw [hold]
          simp [hk]
      | draw =>
        rw [hold]
        simp

end Dthread.Generations
