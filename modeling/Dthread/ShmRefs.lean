import Dthread.MachineInts

/-!
References to shared memory (dt_ops.c) and the metadata that every arena has
(dthread.h, dt_shmops.c). A segment is mapped at some address on each rank; the
memory itself is addressed by segment offset.
-/
namespace Dthread.ShmRefs

open MachineInts

structure Shmref where
  dtShmid : ℕ
  dtOffset : ℕ
  dtLength : ℕ
deriving DecidableEq, Repr

/-- dthread_shmmap_t: where a rank has a segment. -/
structure Shmmap where
  mapping : ℕ
  mdOffset : ℕ
  size : ℕ
deriving DecidableEq, Repr

/-- The segments of a rank. -/
structure Dtrs where
  nshmsrc : ℕ
  shmmap : ℕ → Shmmap

/-- dthread_shmref2ptr; `none` is NULL. -/
def shmref2ptr (dtrs : Dtrs) (ref : Shmref) (len : ℕ) : Option ℕ :=
  if dtrs.nshmsrc ≤ ref.dtShmid then none
  else if (dtrs.shmmap ref.dtShmid).size ≤ ref.dtOffset then none
  else if (dtrs.shmmap ref.dtShmid).size - ref.dtOffset < ref.dtLength then none
  else if len ≠ 0 ∧ ref.dtLength < len then none
  else some ((dtrs.shmmap ref.dtShmid).mapping + ref.dtOffset)

/-- The segment offset behind a pointer into a segment. -/
def ptrOffset (dtrs : Dtrs) (shmid ptr : ℕ) : ℕ := ptr - (dtrs.shmmap shmid).mapping

/-- alignof(max_align_t). -/
def alignsz : ℕ := 16

/-- What rounds a size or an address up to the alignment. -/
def padding (n : ℕ) : ℕ := if n % alignsz = 0 then 0 else alignsz - n % alignsz

/-- dthread_shm_alloc_md_t without its magic number, lock and driver id. -/
structure AllocMd where
  self : Shmref
  minUoffset : ℕ
  maxUoffset : ℕ
  badalignBits : ℕ
deriving DecidableEq, Repr

/-- sizeof(dthread_shm_alloc_md_t). -/
def allocMdSize : ℕ := 64

/-- The metadata as dthread_shm_new_arena leaves it for the driver. -/
def newArenaMd (arena : Shmref) : AllocMd where
  self := arena
  minUoffset := wrap64 (arena.dtOffset + allocMdSize)
  maxUoffset := wrap64 (arena.dtOffset + arena.dtLength)
  badalignBits := 0

def mdalignSize (dtrs : Dtrs) (arena : Shmref) (mdBasesize : ℕ) : ℕ :=
  mdBasesize + padding ((shmref2ptr dtrs arena 0).getD 0 + mdBasesize)

/-- The rank sees the segment with the size and the alignment it has on the
first rank, which mdalign_size relies on. -/
structure Attached (dtrs₀ dtrs : Dtrs) (shmid : ℕ) : Prop where
  count : shmid < dtrs.nshmsrc
  size : (dtrs.shmmap shmid).size = (dtrs₀.shmmap shmid).size
  align : (dtrs.shmmap shmid).mapping % alignsz = (dtrs₀.shmmap shmid).mapping % alignsz

theorem add_padding_mod (n : ℕ) : (n + padding n) % alignsz = 0 := by
  unfold padding alignsz
  split <;> omega

theorem padding_lt (n : ℕ) : padding n < alignsz := by
  unfold padding alignsz
  split <;> omega

/-- A reference inside its segment resolves to the mapping plus the offset. -/
theorem shmref2ptr_eq_some {dtrs : Dtrs} {ref : Shmref} {len : ℕ}
    (hid : ref.dtShmid < dtrs.nshmsrc) (hoff : ref.dtOffset < (dtrs.shmmap ref.dtShmid).size)
    (hlen : ref.dtOffset + ref.dtLength ≤ (dtrs.shmmap ref.dtShmid).size)
    (hwant : len ≤ ref.dtLength) :
    shmref2ptr dtrs ref len = some ((dtrs.shmmap ref.dtShmid).mapping + ref.dtOffset) := by
  unfold shmref2ptr
  rw [if_neg (by omega), if_neg (by omega), if_neg (by omega), if_neg (by omega)]

theorem shmref2ptr_spec {dtrs : Dtrs} {ref : Shmref} {len ptr : ℕ}
    (h : shmref2ptr dtrs ref len = some ptr) :
    ref.dtShmid < dtrs.nshmsrc ∧ ref.dtOffset < (dtrs.shmmap ref.dtShmid).size ∧
      ref.dtOffset + ref.dtLength ≤ (dtrs.shmmap ref.dtShmid).size ∧ len ≤ ref.dtLength ∧
      ptr = (dtrs.shmmap ref.dtShmid).mapping + ref.dtOffset := by
  unfold shmref2ptr at h
  split at h
  · simp at h
  split at h
  · simp at h
  split at h
  · simp at h
  split at h
  · simp at h
  · simp only [Option.some.injEq] at h
    refine ⟨by omega, by omega, by omega, by omega, h.symm⟩

@[simp] theorem ptrOffset_mapping_add (dtrs : Dtrs) (shmid off : ℕ) :
    ptrOffset dtrs shmid ((dtrs.shmmap shmid).mapping + off) = off :=
  Nat.add_sub_cancel_left _ _

/-- The metadata block of a usable arena ends on an aligned address. -/
theorem mdalignSize_aligned {dtrs : Dtrs} {arena : Shmref} {n ptr : ℕ} (md : ℕ)
    (h : shmref2ptr dtrs arena n = some ptr) :
    ((dtrs.shmmap arena.dtShmid).mapping + arena.dtOffset + mdalignSize dtrs arena md) %
      alignsz = 0 := by
  obtain ⟨hid, hoff, hlen, -, -⟩ := shmref2ptr_spec h
  unfold mdalignSize
  rw [shmref2ptr_eq_some hid hoff hlen (Nat.zero_le _)]
  have hpad := add_padding_mod ((dtrs.shmmap arena.dtShmid).mapping + arena.dtOffset + md)
  rw [Option.getD_some, ← Nat.add_assoc]
  exact hpad

end Dthread.ShmRefs
