import Mathlib.Algebra.BigOperators.Group.List.Basic
import Dthread.MachineInts
import Dthread.ManagerHandlers
import Dthread.TreeFlood

/-!
The broadcast tree of binary_router. Counted from the root, the ranks are the
places of a binary heap: place `x` has the children `2 x + 1` and `2 x + 2` as
far as they exist. The tree spans the job for every size and every root.
-/
namespace Dthread.BroadcastTree

open MachineInts ManagerHandlers TreeFlood

/-- The place of a rank, counted from the root. -/
def place (n r m : ℕ) : ℕ := if m < r then m + n - r else m - r

/-- The rank at a place. -/
def rankAt (n r x : ℕ) : ℕ := if x + r < n then x + r else x + r - n

section Places

variable {n r : ℕ} (hr : r < n)

include hr

theorem place_lt {m : ℕ} (hm : m < n) : place n r m < n := by
  unfold place
  split <;> omega

theorem rankAt_lt {x : ℕ} (hx : x < n) : rankAt n r x < n := by
  unfold rankAt
  split <;> omega

theorem rankAt_place {m : ℕ} (hm : m < n) : rankAt n r (place n r m) = m := by
  unfold rankAt place
  split <;> split <;> omega

theorem place_rankAt {x : ℕ} (hx : x < n) : place n r (rankAt n r x) = x := by
  unfold rankAt place
  split <;> split <;> omega

theorem place_eq_zero {m : ℕ} : place n r m = 0 ↔ m = r := by
  unfold place
  split <;> omega

theorem add_mod_eq_rankAt {x : ℕ} (hx : x < n) : (x + r) % n = rankAt n r x := by
  unfold rankAt
  split
  · exact Nat.mod_eq_of_lt ‹_›
  · rw [Nat.mod_eq_sub_mod (by omega), Nat.mod_eq_of_lt (by omega)]

/-- The second child is at the place after the first. -/
theorem rankAt_succ {x : ℕ} (hx : x + 1 < n) : (rankAt n r x + 1) % n = rankAt n r (x + 1) := by
  have hlt := rankAt_lt hr (x := x) (by omega)
  by_cases hlast : rankAt n r x + 1 = n
  · rw [hlast, Nat.mod_self]
    unfold rankAt at hlast ⊢
    split at hlast <;> split <;> omega
  · rw [Nat.mod_eq_of_lt (by omega)]
    unfold rankAt at hlast ⊢
    split_ifs at hlast ⊢ <;> omega

theorem binaryRouter_eq (m : ℕ) :
    binaryRouter r n m =
      if n ≤ place n r m * 2 + 1 then []
      else if place n r m * 2 + 1 = n - 1 then [rankAt n r (place n r m * 2 + 1)]
      else [rankAt n r (place n r m * 2 + 1), rankAt n r (place n r m * 2 + 2)] := by
  have hplace : (if m < r then m + n - r else m - r) = place n r m := rfl
  unfold binaryRouter
  simp only [hplace]
  by_cases hnone : n ≤ place n r m * 2 + 1
  · rw [if_pos hnone, if_pos hnone]
  · rw [if_neg hnone, if_neg hnone, add_mod_eq_rankAt hr (by omega)]
    by_cases hone : place n r m * 2 + 1 = n - 1
    · rw [if_pos hone, if_pos hone]
    · rw [if_neg hone, if_neg hone, rankAt_succ hr (by omega)]

/-- The children of a rank are at the two places of the heap below it. -/
theorem mem_binaryRouter {m k : ℕ} : k ∈ binaryRouter r n m ↔ k < n ∧
    (place n r k = place n r m * 2 + 1 ∨ place n r k = place n r m * 2 + 2) := by
  have hat {x : ℕ} (hx : x < n) : k = rankAt n r x ↔ k < n ∧ place n r k = x := by
    constructor
    · rintro rfl
      exact ⟨rankAt_lt hr hx, place_rankAt hr hx⟩
    · rintro ⟨hk, rfl⟩
      exact (rankAt_place hr hk).symm
  have hlt (hk : k < n) := place_lt hr hk
  rw [binaryRouter_eq hr]
  split
  · simp only [List.not_mem_nil, false_iff, not_and, not_or]
    intro hk
    have := hlt hk
    omega
  split
  · rw [List.mem_singleton, hat (by omega)]
    constructor
    · exact fun ⟨hk, hx⟩ => ⟨hk, .inl hx⟩
    · rintro ⟨hk, hx | hx⟩
      · exact ⟨hk, hx⟩
      · have := hlt hk
        omega
  · rw [List.mem_cons, List.mem_singleton, hat (by omega), hat (by omega)]
    tauto

theorem binaryRouter_nodup (m : ℕ) : (binaryRouter r n m).Nodup := by
  rw [binaryRouter_eq hr]
  split
  · exact List.nodup_nil
  split
  · exact List.nodup_singleton _
  · have hne : rankAt n r (place n r m * 2 + 1) ≠ rankAt n r (place n r m * 2 + 2) := by
      intro heq
      have hx := place_rankAt hr (x := place n r m * 2 + 1) (by omega)
      rw [heq, place_rankAt hr (by omega)] at hx
      omega
    simpa using hne

/-- Where a rank hears of a broadcast from. -/
theorem mem_binaryRouter_iff_parent {m k : ℕ} (hm : m < n) (hk : k < n) (hne : k ≠ r) :
    k ∈ binaryRouter r n m ↔ m = rankAt n r ((place n r k - 1) / 2) := by
  have hpos : place n r k ≠ 0 := fun h => hne ((place_eq_zero hr).mp h)
  have hlt := place_lt hr hk
  rw [mem_binaryRouter hr]
  constructor
  · rintro ⟨-, hx⟩
    have hup : (place n r k - 1) / 2 = place n r m := by omega
    rw [hup, rankAt_place hr hm]
  · intro hparent
    have hplace : place n r m = (place n r k - 1) / 2 := by
      rw [hparent, place_rankAt hr (by omega)]
    refine ⟨hk, ?_⟩
    omega

theorem count_children {k : ℕ} (hk : k < n) (hne : k ≠ r) :
    ((List.range n).flatMap (binaryRouter r n)).count k = 1 := by
  obtain ⟨p, hp⟩ : ∃ p, p = rankAt n r ((place n r k - 1) / 2) := ⟨_, rfl⟩
  have hlt := place_lt hr hk
  have hpn : p < n := by
    rw [hp]
    exact rankAt_lt hr (by omega)
  have hiff {m : ℕ} (hm : m ∈ List.range n) : k ∈ binaryRouter r n m ↔ m = p := by
    rw [hp]
    exact mem_binaryRouter_iff_parent hr (List.mem_range.mp hm) hk hne
  have hmem : p ∈ List.range n := List.mem_range.mpr hpn
  have hparent : (binaryRouter r n p).count k = 1 :=
    List.count_eq_one_of_mem (binaryRouter_nodup hr p) ((hiff hmem).mpr rfl)
  have hother : ∀ m, m ≠ p → m ∈ List.range n → (binaryRouter r n m).count k = 0 := by
    intro m hmp hm
    exact List.count_eq_zero_of_not_mem fun hchild => hmp ((hiff hm).mp hchild)
  calc ((List.range n).flatMap (binaryRouter r n)).count k
      = ((List.range n).map fun m => (binaryRouter r n m).count k).sum := List.count_flatMap
    _ = (List.range n).count p • (binaryRouter r n p).count k :=
      List.sum_map_eq_nsmul_single p _ hother
    _ = 1 := by rw [List.count_eq_one_of_mem List.nodup_range hmem, hparent, one_nsmul]

theorem reachable_rank (x : ℕ) (hx : x < n) :
    Relation.ReflTransGen (fun a b => b ∈ binaryRouter r n a) r (rankAt n r x) := by
  -- the place above is smaller
  induction x using Nat.strong_induction_on with
  | _ x ih =>
    by_cases hzero : x = 0
    · subst hzero
      have hroot : rankAt n r 0 = r := by
        unfold rankAt
        rw [Nat.zero_add, if_pos hr]
      rw [hroot]
    · refine (ih ((x - 1) / 2) (by omega) (by omega)).tail ?_
      rw [mem_binaryRouter hr, place_rankAt hr hx, place_rankAt hr (by omega)]
      refine ⟨rankAt_lt hr hx, ?_⟩
      omega

/-- The tree spans the job. -/
theorem binaryRouter_spanning : Spanning (binaryRouter r n) (List.range n) r where
  root_mem := List.mem_range.mpr hr
  root_never := by
    intro hmem
    obtain ⟨m, -, hchild⟩ := List.mem_flatMap.mp hmem
    have hzero := (place_eq_zero hr).mpr rfl
    have hplace := ((mem_binaryRouter hr).mp hchild).2
    omega
  once := fun a ha hne => count_children hr (List.mem_range.mp ha) hne
  closed := fun a _ b hb => List.mem_range.mpr ((mem_binaryRouter hr).mp hb).1
  reach := by
    intro a ha
    have hlt := List.mem_range.mp ha
    have hpath := reachable_rank hr _ (place_lt hr hlt)
    rwa [rankAt_place hr hlt] at hpath

end Places

end Dthread.BroadcastTree
