import Mathlib.Data.Nat.Basic
import Mathlib.Logic.Function.Basic
import Mathlib.Algebra.Order.Group.Nat
import Mathlib.Tactic.Ring

/-!
A byte-addressed memory with little-endian words of any width, and what its
writes leave unchanged. A write is described by its value on the range it
writes and by agreement of the memories everywhere else.
-/
namespace Dthread.ByteMemory

abbrev Mem := ℕ → UInt8

/-- The two memories hold the same `n` bytes at `a`. -/
def Agree (m m' : Mem) (a n : ℕ) : Prop := ∀ x, a ≤ x → x < a + n → m' x = m x

/-- Nothing changes outside the `n` bytes at `a`. -/
def OnlyAt (m m' : Mem) (a n : ℕ) : Prop := ∀ x, x < a ∨ a + n ≤ x → m' x = m x

theorem Agree.refl (m : Mem) (a n : ℕ) : Agree m m a n := fun _ _ _ => rfl

theorem Agree.trans {m m' m'' : Mem} {a n : ℕ} (h : Agree m m' a n) (h' : Agree m' m'' a n) :
    Agree m m'' a n := fun x ha hn => (h' x ha hn).trans (h x ha hn)

theorem Agree.mono {m m' : Mem} {a n b k : ℕ} (h : Agree m m' a n) (ha : a ≤ b)
    (hn : b + k ≤ a + n) : Agree m m' b k := fun x hx hk => h x (by omega) (by omega)

/-- What is written elsewhere does not matter. -/
theorem OnlyAt.agree {m m' : Mem} {a n b k : ℕ} (h : OnlyAt m m' a n)
    (hd : b + k ≤ a ∨ a + n ≤ b) : Agree m m' b k := by
  intro x hb hk
  apply h
  omega

theorem OnlyAt.mono {m m' : Mem} {a n b k : ℕ} (h : OnlyAt m m' a n) (hb : b ≤ a)
    (hn : a + n ≤ b + k) : OnlyAt m m' b k := by
  intro x hx
  apply h
  omega

theorem OnlyAt.trans {m m' m'' : Mem} {a n : ℕ} (h : OnlyAt m m' a n) (h' : OnlyAt m' m'' a n) :
    OnlyAt m m'' a n := fun x hx => (h' x hx).trans (h x hx)

theorem OnlyAt.refl (m : Mem) (a n : ℕ) : OnlyAt m m a n := fun _ _ => rfl

/-- The little-endian number in the `k` bytes at `a`. -/
def load (k : ℕ) (m : Mem) (a : ℕ) : ℕ :=
  match k with
  | 0 => 0
  | k + 1 => (m a).toNat + 256 * load k m (a + 1)

/-- Write the low `k` bytes of a number. -/
def store (k : ℕ) (m : Mem) (a v : ℕ) : Mem :=
  match k with
  | 0 => m
  | k + 1 => store k (Function.update m a (UInt8.ofNat v)) (a + 1) (v / 256)

/-- The case of memcpy whose ranges do not overlap. -/
def memcpy (m : Mem) (dst src n : ℕ) : Mem :=
  fun x => if dst ≤ x ∧ x < dst + n then m (src + (x - dst)) else m x

/-- A field of a record in memory: where it is in the record, and what is written. -/
structure Field where
  off : ℕ
  width : ℕ
  value : ℕ

/-- Write fields of the record at `base`, one after the other. -/
def storeFields (m : Mem) (base : ℕ) : List Field → Mem
  | [] => m
  | f :: fs => storeFields (store f.width m (base + f.off) f.value) base fs

def memset (m : Mem) (a : ℕ) (v : UInt8) (n : ℕ) : Mem :=
  fun x => if a ≤ x ∧ x < a + n then v else m x

theorem onlyAt_store (k : ℕ) (m : Mem) (a v : ℕ) : OnlyAt m (store k m a v) a k := by
  induction k generalizing m a v with
  | zero => exact .refl m a 0
  | succ k ih =>
    intro x hx
    have hrest := ih (Function.update m a (UInt8.ofNat v)) (a + 1) (v / 256) x (by omega)
    have hne : x ≠ a := by omega
    rw [store, hrest, Function.update_of_ne hne]

theorem onlyAt_memcpy (m : Mem) (dst src n : ℕ) : OnlyAt m (memcpy m dst src n) dst n := by
  intro x hx
  exact if_neg (by omega)

theorem onlyAt_memset (m : Mem) (a : ℕ) (v : UInt8) (n : ℕ) : OnlyAt m (memset m a v n) a n := by
  intro x hx
  exact if_neg (by omega)

/-- Fields of a record of `n` bytes stay within it. -/
theorem onlyAt_storeFields (m : Mem) (base : ℕ) {fs : List Field} {n : ℕ}
    (h : ∀ f ∈ fs, f.off + f.width ≤ n) : OnlyAt m (storeFields m base fs) base n := by
  induction fs generalizing m with
  | nil => exact .refl m base n
  | cons f fs ih =>
    have hf := h f List.mem_cons_self
    have hhead : OnlyAt m (store f.width m (base + f.off) f.value) base n :=
      (onlyAt_store f.width m (base + f.off) f.value).mono (by omega) (by omega)
    exact hhead.trans (ih _ fun g hg => h g (List.mem_cons_of_mem f hg))

theorem onlyAt_update (m : Mem) (a : ℕ) (v : UInt8) : OnlyAt m (Function.update m a v) a 1 := by
  intro x hx
  have hne : x ≠ a := by omega
  rw [Function.update_of_ne hne]

theorem memcpy_apply (m : Mem) {dst src n i : ℕ} (h : i < n) :
    memcpy m dst src n (dst + i) = m (src + i) := by
  unfold memcpy
  rw [if_pos (by omega), Nat.add_sub_cancel_left]

theorem load_congr {k : ℕ} {m m' : Mem} {a : ℕ} (h : Agree m m' a k) :
    load k m' a = load k m a := by
  induction k generalizing a with
  | zero => rfl
  | succ k ih =>
    have hhead : m' a = m a := h a le_rfl (by omega)
    have htail := ih (a := a + 1) (h.mono (by omega) (by omega))
    simp only [load, hhead, htail]

theorem load_store_self {k : ℕ} (m : Mem) (a : ℕ) {v : ℕ} (hv : v < 256 ^ k) :
    load k (store k m a v) a = v := by
  induction k generalizing m a v with
  | zero =>
    have hzero : v = 0 := by simpa using hv
    rw [hzero, load]
  | succ k ih =>
    have hdiv : v / 256 < 256 ^ k := by
      rw [Nat.div_lt_iff_lt_mul (by omega)]
      calc v < 256 ^ (k + 1) := hv
        _ = 256 ^ k * 256 := pow_succ 256 k
    have hbyte : store k (Function.update m a (UInt8.ofNat v)) (a + 1) (v / 256) a =
        UInt8.ofNat v := by
      rw [onlyAt_store k _ (a + 1) (v / 256) a (by omega), Function.update_self]
    simp only [load, store, hbyte, ih _ (a + 1) hdiv, UInt8.toNat_ofNat']
    omega

/-- A load sees through a store to other bytes. -/
theorem load_of_onlyAt {k : ℕ} {m m' : Mem} {a n b : ℕ} (h : OnlyAt m m' a n)
    (hd : b + k ≤ a ∨ a + n ≤ b) : load k m' b = load k m b :=
  load_congr (h.agree hd)

end Dthread.ByteMemory
