import Mathlib.Data.List.Basic
import Mathlib.Data.List.Pairwise
import Mathlib.Algebra.Order.Group.Nat
import Mathlib.Tactic.Ring

/-!
Half-open ranges of offsets: lists of ranges in address order, with gaps or
without. Order gives disjointness, and it survives removal of a range and
growth at the end.
-/
namespace Dthread.Extents

structure Extent where
  off : ℕ
  len : ℕ
deriving DecidableEq, Repr

namespace Extent

def stop (e : Extent) : ℕ := e.off + e.len

/-- The two ranges have no offset in common. -/
def Apart (e f : Extent) : Prop := e.stop ≤ f.off ∨ f.stop ≤ e.off

def Inside (lo hi : ℕ) (e : Extent) : Prop := lo ≤ e.off ∧ e.stop ≤ hi

end Extent

/-- The ranges lie in `[lo, hi)`, in address order and without overlap. -/
def Ordered (lo hi : ℕ) : List Extent → Prop
  | [] => lo ≤ hi
  | e :: es => lo ≤ e.off ∧ Ordered e.stop hi es

/-- The ranges follow each other from `lo` to `hi` without a gap. -/
def Tiles (lo hi : ℕ) : List Extent → Prop
  | [] => lo = hi
  | e :: es => e.off = lo ∧ Tiles e.stop hi es

theorem Ordered.lower {lo lo' hi : ℕ} {es : List Extent} (h : Ordered lo hi es) (hlo : lo' ≤ lo) :
    Ordered lo' hi es := by
  cases es with
  | nil => exact hlo.trans h
  | cons e es => exact ⟨hlo.trans h.1, h.2⟩

theorem Ordered.raise {lo hi hi' : ℕ} {es : List Extent} (h : Ordered lo hi es) (hhi : hi ≤ hi') :
    Ordered lo hi' es := by
  induction es generalizing lo with
  | nil => exact le_trans h hhi
  | cons e es ih => exact ⟨h.1, ih h.2⟩

theorem Ordered.le {lo hi : ℕ} {es : List Extent} (h : Ordered lo hi es) : lo ≤ hi := by
  induction es generalizing lo with
  | nil => exact h
  | cons e es ih =>
    have hstop : e.off ≤ e.stop := Nat.le_add_right _ _
    exact h.1.trans (hstop.trans (ih h.2))

theorem Ordered.inside {lo hi : ℕ} {es : List Extent} (h : Ordered lo hi es) {e : Extent}
    (he : e ∈ es) : e.Inside lo hi := by
  induction es generalizing lo with
  | nil => exact absurd he List.not_mem_nil
  | cons f es ih =>
    rcases List.mem_cons.mp he with rfl | he
    · exact ⟨h.1, h.2.le⟩
    · obtain ⟨hoff, hstop⟩ := ih h.2 he
      exact ⟨h.1.trans ((Nat.le_add_right _ _).trans hoff), hstop⟩

theorem Ordered.pairwise {lo hi : ℕ} {es : List Extent} (h : Ordered lo hi es) :
    es.Pairwise Extent.Apart := by
  induction es generalizing lo with
  | nil => exact .nil
  | cons e es ih => exact .cons (fun f hf => .inl (h.2.inside hf).1) (ih h.2)

/-- Two different members of a family of ranges in order are apart. -/
theorem Ordered.apart {ι : Type*} {f : ι → Extent} {lo hi : ℕ} {l : List ι}
    (h : Ordered lo hi (l.map f)) {i j : ι} (hi : i ∈ l) (hj : j ∈ l) (hne : i ≠ j) :
    (f i).Apart (f j) := by
  have hpair : l.Pairwise fun i j => (f i).Apart (f j) := List.pairwise_map.mp h.pairwise
  have : Std.Symm fun i j => (f i).Apart (f j) := ⟨fun _ _ => Or.symm⟩
  exact hpair.forall hi hj hne

/-- A family of non-empty ranges in order has no repetitions. -/
theorem Ordered.nodup {ι : Type*} {f : ι → Extent} {lo hi : ℕ} {l : List ι}
    (h : Ordered lo hi (l.map f)) (hpos : ∀ i ∈ l, 0 < (f i).len) : l.Nodup := by
  refine (List.pairwise_map.mp h.pairwise).imp_of_mem fun {i j} hi _ hap heq => ?_
  have hlen := hpos i hi
  subst heq
  unfold Extent.Apart Extent.stop at hap
  omega

/-- Ranges of at least `k` offsets each fill the space they lie in. -/
theorem Ordered.length_le {lo hi k : ℕ} {es : List Extent} (h : Ordered lo hi es)
    (hk : ∀ e ∈ es, k ≤ e.len) : lo + k * es.length ≤ hi := by
  induction es generalizing lo with
  | nil => simpa [Ordered] using h
  | cons e es ih =>
    have hrest := ih h.2 fun f hf => hk f (by simp [hf])
    have hoff := h.1
    have hlen := hk e (by simp)
    rw [List.length_cons, Nat.mul_succ]
    unfold Extent.stop at hrest
    omega

theorem Ordered.sublist {lo hi : ℕ} {es es' : List Extent} (h : Ordered lo hi es)
    (hs : es'.Sublist es) : Ordered lo hi es' := by
  induction hs generalizing lo with
  | slnil => exact h
  | cons e _ ih => exact (ih h.2).lower (h.1.trans (Nat.le_add_right _ _))
  | cons_cons e _ ih => exact ⟨h.1, ih h.2⟩

/-- A new range behind all the others. -/
theorem Ordered.snoc {lo hi : ℕ} {es : List Extent} (h : Ordered lo hi es) {e : Extent}
    {hi' : ℕ} (he : hi ≤ e.off) (hhi : e.stop ≤ hi') : Ordered lo hi' (es ++ [e]) := by
  induction es generalizing lo with
  | nil => exact ⟨le_trans h he, hhi⟩
  | cons f es ih => exact ⟨h.1, ih h.2⟩

theorem Tiles.ordered {lo hi : ℕ} {es : List Extent} (h : Tiles lo hi es) : Ordered lo hi es := by
  induction es generalizing lo with
  | nil => exact le_of_eq h
  | cons e es ih => exact ⟨h.1.ge, ih h.2⟩

theorem Tiles.append {lo mid hi : ℕ} {es es' : List Extent} (h : Tiles lo mid es)
    (h' : Tiles mid hi es') : Tiles lo hi (es ++ es') := by
  induction es generalizing lo with
  | nil =>
    obtain rfl : lo = mid := h
    exact h'
  | cons e es ih => exact ⟨h.1, ih h.2⟩

end Dthread.Extents
