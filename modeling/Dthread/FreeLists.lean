import Mathlib.Data.List.Basic
import Dthread.ByteMemory

/-!
Singly linked lists whose links are the first words of their cells, as an
allocator threads them through its free blocks. Offset zero ends a list.
-/
namespace Dthread.FreeLists

open ByteMemory

/-- The list of cells that starts at an offset. -/
inductive Linked (mem : Mem) : ℕ → List ℕ → Prop
  | nil : Linked mem 0 []
  | cons {x : ℕ} {l : List ℕ} (hx : x ≠ 0) (h : Linked mem (load 8 mem x) l) :
      Linked mem x (x :: l)

namespace Linked

variable {mem mem' : Mem} {x : ℕ} {l : List ℕ}

theorem eq_nil (h : Linked mem 0 l) : l = [] := by
  cases h with
  | nil => rfl
  | cons hx _ => exact absurd rfl hx

theorem eq_cons (h : Linked mem x l) (hx : x ≠ 0) :
    ∃ rest, l = x :: rest ∧ Linked mem (load 8 mem x) rest := by
  cases h with
  | nil => exact absurd rfl hx
  | cons _ h => exact ⟨_, rfl, h⟩

/-- The link of a cell ends the list or leads to another cell of it. -/
theorem next_mem (h : Linked mem x l) {y : ℕ} (hy : y ∈ l) :
    load 8 mem y = 0 ∨ load 8 mem y ∈ l := by
  induction h with
  | nil => exact absurd hy List.not_mem_nil
  | cons hx hrest ih =>
    rcases List.mem_cons.mp hy with rfl | hy
    · generalize load 8 mem y = z at hrest
      cases hrest with
      | nil => exact .inl rfl
      | cons _ _ => exact .inr (by simp)
    · exact (ih hy).imp_right fun hmem => by simp [hmem]

/-- A list only depends on the links of its cells. -/
theorem congr (h : Linked mem x l) (hw : ∀ y ∈ l, load 8 mem' y = load 8 mem y) :
    Linked mem' x l := by
  induction h with
  | nil => exact .nil
  | cons hx _ ih =>
    refine .cons hx ?_
    rw [hw _ (by simp)]
    exact ih fun y hy => hw y (by simp [hy])

/-- A new cell in front whose link is the old start. -/
theorem push (h : Linked mem x l) (hx : x < 2 ^ 64) {y : ℕ} (hy : y ≠ 0)
    (hd : ∀ z ∈ l, z + 8 ≤ y ∨ y + 8 ≤ z) : Linked (store 8 mem y x) y (y :: l) := by
  refine .cons hy ?_
  rw [load_store_self mem y (by simpa using hx)]
  apply h.congr
  intro z hz
  exact load_of_onlyAt (onlyAt_store 8 mem y x) (hd z hz)

end Linked

end Dthread.FreeLists
