import Dthread.Arenas
import Dthread.AnySizes

/-!
Freeing and resizing a block by its pointer and by its reference. Both ways reach
the same driver with references that differ in their length alone, except that a
reference of length zero stands for NULL and that a reference has to resolve with
its length. The lengths of a block are those of any request, also of the requests
whose size wraps in break_malloc or is beyond the size classes of bsd_malloc.
-/
namespace Dthread.FreeByRef

open ByteMemory MachineInts Extents ShmRefs BreakMalloc BsdMalloc Arenas BreakRuns BsdRuns
  BsdBuckets AnySizes BreakInv BsdInv

/-- The segments of a rank are mapped to different places. -/
def DisjointMaps (dtrs : Dtrs) : Prop :=
  ∀ i < dtrs.nshmsrc, ∀ j < dtrs.nshmsrc, i ≠ j →
    Extent.Apart ⟨(dtrs.shmmap i).mapping, (dtrs.shmmap i).size⟩
      ⟨(dtrs.shmmap j).mapping, (dtrs.shmmap j).size⟩

/-- A live block in a state that requests of regular sizes lead to, on an aligned mapping,
with a reference to it as malloc or realloc returned it. -/
inductive LiveBlock (dtrs : Dtrs) : Shmref → ArenaHeap → Shmref → Prop
  | brk (A : BreakRegion) (mem : Mem) (s : BreakState) (b : Block) (ref : Shmref)
      (h : A.Reachable mem s) (hd : Attached A.dtrs₀ dtrs A.arena.dtShmid)
      (hal : A.mapping % 16 = 0) (hb : b ∈ s.live) (href : b.Named A.arena ref) :
      LiveBlock dtrs A.arena ⟨DTHREAD_SHM_MD_MAGIC, .brk s.heap⟩ ref
  | bsd (A : BsdRegion) (mem : Mem) (s : BsdState) (u : User) (ref : Shmref)
      (h : A.Reachable mem s) (hd : Attached A.dtrs₀ dtrs A.arena.dtShmid)
      (hal : A.mapping % 16 = 0) (hu : u ∈ s.live) (href : s.Returned ref)
      (hname : Names ref u = true) :
      LiveBlock dtrs A.arena ⟨DTHREAD_SHM_MD_MAGIC, .bsd s.heap⟩ ref

/-- The header at `hdr` is that of a block in use. -/
def InUse (driver : DriverHeap) (hdr : ℕ) : Prop :=
  match driver with
  | .brk h => hasMagic h.mem hdr
  | .bsd h => OV_MAGIC (load 8 h.mem hdr) = MAGIC ∧ OV_INDEX (load 8 h.mem hdr) < NBUCKETS

instance (driver : DriverHeap) (hdr : ℕ) : Decidable (InUse driver hdr) :=
  match driver with
  | .brk h => inferInstanceAs (Decidable (hasMagic h.mem hdr))
  | .bsd _ => inferInstanceAs (Decidable (_ ∧ _))

/-- The block is in use in `st` and no longer in `st'`: a break arena counts one block less
and the header is dead, in a bsd arena the block is at the front of the free list of its
bucket, which counts one block less. -/
def Freed (ref : Shmref) (st st' : ArenaHeap) : Prop :=
  InUse st.driver (ref.dtOffset - 16) ∧
    match st.driver, st'.driver with
    | .brk h, .brk h' =>
      (0 < h.md.nalloc → h'.md.nalloc = h.md.nalloc - 1) ∧ ¬ hasMagic h'.mem (ref.dtOffset - 16)
    | .bsd h, .bsd h' =>
      h'.md.nextf (OV_INDEX (load 8 h.mem (ref.dtOffset - 16))) = ref.dtOffset - 16 ∧
        h'.md.nmalloc (OV_INDEX (load 8 h.mem (ref.dtOffset - 16))) =
          sub64 (h.md.nmalloc (OV_INDEX (load 8 h.mem (ref.dtOffset - 16)))) 1
    | _, _ => False

/-- The two ways agree for the block at `ref`. -/
structure Agree (dtrs : Dtrs) (arena : Shmref) (st : ArenaHeap) (ref : Shmref) : Prop where
  free : ∃ st', shmFree dtrs none (some arena) st
      ((dtrs.shmmap ref.dtShmid).mapping + ref.dtOffset) = some st' ∧
    shmFreeRef dtrs none (some arena) st (some ref) = some st' ∧ Freed ref st st'
  realloc : ∀ n, ∃ res, shmRealloc dtrs none (some arena) st
      ((dtrs.shmmap ref.dtShmid).mapping + ref.dtOffset) n = some res ∧
    shmReallocRef dtrs none (some arena) st (some ref) n = some res

theorem not_freed_self (ref : Shmref) (st : ArenaHeap) : ¬ Freed ref st st := by
  rintro ⟨huse, hfreed⟩
  obtain ⟨mdmagic, driver⟩ := st
  cases driver with
  | brk h => exact hfreed.2 huse
  | bsd h =>
    have hcount := hfreed.2
    unfold sub64 at hcount
    omega

/-- The space that the driver has before a block. -/
def headerLen : DriverHeap → ℕ
  | .brk h => h.md.hdrlen
  | .bsd h => h.md.oversize

/-- What stays as the driver set it up, in an arena of a segment on an aligned mapping. -/
structure Framed (dtrs : Dtrs) (arena : Shmref) (lo : ℕ) (st : ArenaHeap) : Prop where
  magic : st.mdmagic = DTHREAD_SHM_MD_MAGIC
  amd : st.driver.amd = ⟨arena, lo, arena.dtOffset + arena.dtLength, 15⟩
  header : headerLen st.driver = 16
  metadata : arena.dtOffset + 64 ≤ lo
  length : lo ≤ arena.dtOffset + arena.dtLength
  count : arena.dtShmid < dtrs.nshmsrc
  segment : arena.dtOffset + arena.dtLength ≤ (dtrs.shmmap arena.dtShmid).size
  small : (dtrs.shmmap arena.dtShmid).size < 2 ^ 64
  mapped : (dtrs.shmmap arena.dtShmid).mapping % 16 = 0

/-- The checks of the arguments let a reference pass. -/
structure InUser (arena : Shmref) (lo : ℕ) (ref : Shmref) : Prop where
  shmid : ref.dtShmid = arena.dtShmid
  lower : lo ≤ ref.dtOffset
  upper : ref.dtOffset < arena.dtOffset + arena.dtLength
  aligned : ref.dtOffset % 16 = 0

/-- A reference that is not one to NULL passes the checks and resolves with its length. -/
structure Addressed (dtrs : Dtrs) (arena : Shmref) (lo : ℕ) (ref : Shmref) : Prop
    extends InUser arena lo ref where
  positive : 0 < ref.dtLength
  inside : ref.dtOffset + ref.dtLength ≤ (dtrs.shmmap arena.dtShmid).size

section Validation

variable {dtrs : Dtrs} {arena ref : Shmref} {st : ArenaHeap}

/-- A pointer into a segment is found there. -/
theorem ptr2shmref_eq (hmaps : DisjointMaps dtrs) {shmid off len : ℕ} (hid : shmid < dtrs.nshmsrc)
    (hoff : off < (dtrs.shmmap shmid).size) (hlen : off + len ≤ (dtrs.shmmap shmid).size) :
    ptr2shmref dtrs ((dtrs.shmmap shmid).mapping + off) len = some ⟨shmid, off, len⟩ := by
  have hfind : (List.range dtrs.nshmsrc).find? (fun i =>
      ((dtrs.shmmap i).mapping ≤ (dtrs.shmmap shmid).mapping + off ∧
        (dtrs.shmmap shmid).mapping + off - (dtrs.shmmap i).mapping <
          (dtrs.shmmap i).size : Bool)) = some shmid := by
    rw [List.find?_range_eq_some]
    refine ⟨?_, List.mem_range.mpr hid, ?_⟩
    · simp only [decide_eq_true_eq]
      omega
    · intro i hi
      have hap := hmaps i (by omega) shmid hid (by omega)
      simp only [Extent.Apart, Extent.stop] at hap
      simp only [Bool.not_eq_true', decide_eq_false_iff_not]
      omega
  unfold ptr2shmref
  rw [hfind]
  simp only [Nat.add_sub_cancel_left]
  rw [if_neg (by omega)]

theorem and_fifteen (n : ℕ) : n &&& 15 = n % 16 := Nat.and_two_pow_sub_one_eq_mod n 4

theorem Framed.resolves {lo : ℕ} (h : Framed dtrs arena lo st) :
    shmref2ptr dtrs arena allocMdSize =
      some ((dtrs.shmmap arena.dtShmid).mapping + arena.dtOffset) := by
  have hmd := h.metadata
  have hlen := h.length
  have hseg := h.segment
  have hsize : allocMdSize ≤ arena.dtLength := by
    unfold allocMdSize
    omega
  exact shmref2ptr_eq_some h.count (by omega) h.segment hsize

theorem validate_ptr {lo : ℕ} (h : Framed dtrs arena lo st) (hmaps : DisjointMaps dtrs)
    (hin : InUser arena lo ref) :
    shmValidateArgs dtrs none (some arena) st
      (some ((dtrs.shmmap ref.dtShmid).mapping + ref.dtOffset)) none =
      some (arena, some ⟨arena.dtShmid, ref.dtOffset, 0⟩) := by
  have hseg := h.segment
  have hupper := hin.upper
  have hptr : ptr2shmref dtrs ((dtrs.shmmap arena.dtShmid).mapping + ref.dtOffset) 0 =
      some ⟨arena.dtShmid, ref.dtOffset, 0⟩ :=
    ptr2shmref_eq hmaps h.count (by omega) (by omega)
  have hlower := hin.lower
  have hal := hin.aligned
  have hmap := h.mapped
  unfold shmValidateArgs
  rw [hin.shmid]
  simp [h.resolves, h.magic, h.amd, hptr, and_fifteen]
  omega

theorem validate_ref {lo : ℕ} (h : Framed dtrs arena lo st) (hin : InUser arena lo ref) :
    shmValidateArgs dtrs none (some arena) st none (some ref) = some (arena, none) := by
  have hlower := hin.lower
  have hupper := hin.upper
  have hal := hin.aligned
  unfold shmValidateArgs
  simp [h.resolves, h.magic, h.amd, and_fifteen, hin.shmid]
  omega

theorem validate_ref_none {lo : ℕ} (h : Framed dtrs arena lo st) (hout : ¬ InUser arena lo ref) :
    shmValidateArgs dtrs none (some arena) st none (some ref) = none := by
  have hcase : ref.dtShmid = arena.dtShmid → lo ≤ ref.dtOffset →
      ref.dtOffset < arena.dtOffset + arena.dtLength → ref.dtOffset % 16 ≠ 0 :=
    fun hid hlo hhi hal => hout ⟨hid, hlo, hhi, hal⟩
  unfold shmValidateArgs
  simp [h.resolves, h.magic, h.amd, and_fifteen]
  omega

end Validation

section Drivers

variable {dtrs : Dtrs} {arena ref ref' : Shmref} {st : ArenaHeap} {lo : ℕ}

/-- Two references lead to the same place. -/
structure SamePlace (dtrs : Dtrs) (ref ref' : Shmref) : Prop where
  shmid : ref.dtShmid = ref'.dtShmid
  offset : ref.dtOffset = ref'.dtOffset
  resolved : shmref2ptr dtrs ref 0 = shmref2ptr dtrs ref' 0

/-- The drivers do not look at the length of a reference. -/
theorem driverFree_congr (h : SamePlace dtrs ref ref') (st : ArenaHeap) :
    driverFree dtrs st ref = driverFree dtrs st ref' := by
  unfold driverFree breakFree bsdFree
  rw [h.shmid, h.offset, h.resolved]

theorem driverRealloc_congr (h : SamePlace dtrs ref ref') (arena : Shmref) (st : ArenaHeap)
    (n : ℕ) : driverRealloc dtrs arena st ref n = driverRealloc dtrs arena st ref' n := by
  unfold driverRealloc breakRealloc bsdRealloc breakFree bsdFree
  rw [h.shmid, h.offset, h.resolved]

theorem breakFree_returns {ptr : ℕ} (hptr : shmref2ptr dtrs ref 0 = some ptr) (h : BreakHeap) :
    (breakFree dtrs h ref).isSome := by
  unfold breakFree
  simp only [hptr]
  split <;> rfl

theorem breakRealloc_returns {ptr : ℕ} (hptr : shmref2ptr dtrs ref 0 = some ptr) (arena : Shmref)
    (h : BreakHeap) (n : ℕ) : (breakRealloc dtrs arena h ref n).isSome := by
  unfold breakRealloc
  simp only [hptr]
  split
  · rfl
  split
  · split
    · rfl
    split
    · rfl
    · rw [Option.isSome_map]
      exact breakFree_returns hptr _
  · rfl

theorem bsdFree_returns {ptr : ℕ} (hptr : shmref2ptr dtrs ref 0 = some ptr) (h : BsdHeap) :
    (bsdFree dtrs h ref).isSome := by
  unfold bsdFree
  simp only [hptr]
  split <;> rfl

theorem bsdRealloc_returns {ptr : ℕ} (hptr : shmref2ptr dtrs ref 0 = some ptr) (h : BsdHeap)
    (n : ℕ) : (bsdRealloc dtrs h ref n).isSome := by
  unfold bsdRealloc
  simp only [hptr]
  split
  · rfl
  split
  · rfl
  split
  · rfl
  -- the size of the next smaller bucket does not matter
  split
  all_goals
    split
    · rfl
    split
    · rfl
    · rw [Option.isSome_map]
      exact bsdFree_returns hptr _

/-- A realloc of a reference that resolves returns, whatever the size. -/
theorem driverRealloc_returns {ptr : ℕ} (hptr : shmref2ptr dtrs ref 0 = some ptr)
    (arena : Shmref) (st : ArenaHeap) (n : ℕ) :
    ∃ res, driverRealloc dtrs arena st ref n = some res := by
  rw [← Option.isSome_iff_exists]
  unfold driverRealloc
  cases st.driver with
  | brk h =>
    simp only [Option.isSome_map]
    exact breakRealloc_returns hptr arena h n
  | bsd h =>
    simp only [Option.isSome_map]
    exact bsdRealloc_returns hptr h n

/-- A free of a reference that does not resolve does not return, or changes nothing. -/
theorem driverFree_unresolved (hptr : shmref2ptr dtrs ref 0 = none) {st' : ArenaHeap}
    (h : driverFree dtrs st ref = some st') : st' = st := by
  obtain ⟨mdmagic, driver⟩ := st
  cases driver with
  | brk heap =>
    simp only [driverFree, breakFree, hptr, Option.map_none] at h
    split at h
    · exact (Option.some.inj h).symm
    · simp at h
  | bsd heap =>
    simp only [driverFree, bsdFree, hptr, Option.map_none] at h
    split at h
    · exact (Option.some.inj h).symm
    · simp at h

theorem Addressed.resolves (h : Framed dtrs arena lo st) (ha : Addressed dtrs arena lo ref) :
    shmref2ptr dtrs ref 0 = some ((dtrs.shmmap arena.dtShmid).mapping + ref.dtOffset) := by
  have hcount := h.count
  have hpos := ha.positive
  have hin := ha.inside
  rw [← ha.shmid] at hcount hin ⊢
  exact shmref2ptr_eq_some hcount (by omega) hin (Nat.zero_le _)

/-- The reference that is made from a pointer leads to the same place. -/
theorem Addressed.samePlace (h : Framed dtrs arena lo st) (ha : Addressed dtrs arena lo ref) :
    SamePlace dtrs ⟨arena.dtShmid, ref.dtOffset, 0⟩ ref := by
  have hpos := ha.positive
  have hin := ha.inside
  have hzero : shmref2ptr dtrs ⟨arena.dtShmid, ref.dtOffset, 0⟩ 0 = some _ :=
    shmref2ptr_eq_some h.count (by simp only; omega) (by simp only; omega) le_rfl
  exact ⟨ha.shmid.symm, rfl, by rw [hzero, ha.resolves h]⟩

/-- break_free of a block whose header is intact makes it dead. -/
theorem breakFree_freed {heap : BreakHeap} (hlen : heap.md.hdrlen = 16)
    (hroom : wrap64 (heap.md.amd.minUoffset + 16) ≤ ref.dtOffset)
    (hptr : shmref2ptr dtrs ref 0 = some ((dtrs.shmmap ref.dtShmid).mapping + ref.dtOffset))
    (hoff : 16 ≤ ref.dtOffset) (huse : hasMagic heap.mem (ref.dtOffset - 16)) :
    ∃ heap', breakFree dtrs heap ref = some heap' ∧
      (0 < heap.md.nalloc → heap'.md.nalloc = heap.md.nalloc - 1) ∧
      ¬ hasMagic heap'.mem (ref.dtOffset - 16) := by
  have hhdr : ptrOffset dtrs ref.dtShmid
      ((dtrs.shmmap ref.dtShmid).mapping + ref.dtOffset - 16) = ref.dtOffset - 16 := by
    unfold ptrOffset
    omega
  unfold breakFree
  simp only [hlen, hptr, Option.map_some, hhdr, huse, if_true]
  rw [if_neg (not_lt.mpr hroom)]
  refine ⟨_, rfl, fun hpos => if_pos hpos, ?_⟩
  rintro ⟨hbefore, -⟩
  rw [load_store_self _ _ (by norm_num [BREAK_DEAD])] at hbefore
  simp [BREAK_DEAD, BREAK_BEFORE] at hbefore

/-- bsd_free of a block whose header is intact puts it onto the list of its bucket. -/
theorem bsdFree_freed {heap : BsdHeap} (hlen : heap.md.oversize = 16)
    (hroom : wrap64 (heap.md.amd.minUoffset + 16) ≤ ref.dtOffset)
    (hptr : shmref2ptr dtrs ref 0 = some ((dtrs.shmmap ref.dtShmid).mapping + ref.dtOffset))
    (hoff : 16 ≤ ref.dtOffset) (hlt : ref.dtOffset < 2 ^ 64)
    (hmagic : OV_MAGIC (load 8 heap.mem (ref.dtOffset - 16)) = MAGIC)
    (hindex : OV_INDEX (load 8 heap.mem (ref.dtOffset - 16)) < NBUCKETS) :
    ∃ heap', bsdFree dtrs heap ref = some heap' ∧
      heap'.md.nextf (OV_INDEX (load 8 heap.mem (ref.dtOffset - 16))) = ref.dtOffset - 16 ∧
      heap'.md.nmalloc (OV_INDEX (load 8 heap.mem (ref.dtOffset - 16))) =
        sub64 (heap.md.nmalloc (OV_INDEX (load 8 heap.mem (ref.dtOffset - 16)))) 1 := by
  have hhdr : ptrOffset dtrs ref.dtShmid
      ((dtrs.shmmap ref.dtShmid).mapping + ref.dtOffset - 16) = ref.dtOffset - 16 := by
    unfold ptrOffset
    omega
  unfold bsdFree
  simp only [hlen, hptr, Option.map_some, hhdr, hmagic, ne_eq, not_true_eq_false, if_false,
    not_le.mpr hindex]
  rw [if_neg (not_lt.mpr hroom)]
  refine ⟨_, rfl, ?_, Function.update_self ..⟩
  simp only [Function.update_self]
  exact sub64_of_le hoff hlt

theorem driverFree_freed (h : Framed dtrs arena lo st) (ha : Addressed dtrs arena lo ref)
    (hroom : lo + 16 ≤ ref.dtOffset) (huse : InUse st.driver (ref.dtOffset - 16)) :
    ∃ st', driverFree dtrs st ref = some st' ∧ Freed ref st st' := by
  have hptr := ha.resolves h
  have hupper := ha.upper
  have hseg := h.segment
  have hsmall := h.small
  have hwrap : wrap64 (st.driver.amd.minUoffset + 16) ≤ ref.dtOffset := by
    rw [h.amd, wrap64_of_lt (by simp only; omega)]
    exact hroom
  have hheader := h.header
  rw [← ha.shmid] at hptr
  obtain ⟨mdmagic, driver⟩ := st
  cases driver with
  | brk heap =>
    obtain ⟨heap', hcall, hfreed⟩ := breakFree_freed hheader hwrap hptr (by omega) huse
    exact ⟨⟨mdmagic, .brk heap'⟩, by simp only [driverFree, hcall, Option.map_some], huse, hfreed⟩
  | bsd heap =>
    obtain ⟨heap', hcall, hfreed⟩ :=
      bsdFree_freed hheader hwrap hptr (by omega) (by omega) huse.1 huse.2
    exact ⟨⟨mdmagic, .bsd heap'⟩, by simp only [driverFree, hcall, Option.map_some], huse, hfreed⟩

/-- The two ways agree for a block with an intact header whose reference is addressed. -/
theorem agree_of_addressed (h : Framed dtrs arena lo st) (hmaps : DisjointMaps dtrs)
    (ha : Addressed dtrs arena lo ref) (hroom : lo + 16 ≤ ref.dtOffset)
    (huse : InUse st.driver (ref.dtOffset - 16)) : Agree dtrs arena st ref := by
  have hplace := ha.samePlace h
  have hptr := validate_ptr h hmaps ha.toInUser
  have href := validate_ref h ha.toInUser
  have hne : (dtrs.shmmap ref.dtShmid).mapping + ref.dtOffset ≠ 0 := by
    have hmd := h.metadata
    omega
  have hlen := ha.positive.ne'
  constructor
  · obtain ⟨st', hfree, hfreed⟩ := driverFree_freed h ha hroom huse
    refine ⟨st', ?_, ?_, hfreed⟩
    · simp only [shmFree, hne, if_false, hptr, driverFree_congr hplace, hfree]
    · simp only [shmFreeRef, hlen, if_false, href, hfree]
  · intro n
    obtain ⟨res, hres⟩ := driverRealloc_returns (ha.resolves h) arena st n
    refine ⟨res, ?_, ?_⟩
    · simp only [shmRealloc, hne, if_false, hptr, driverRealloc_congr hplace, hres]
    · simp only [shmReallocRef, hlen, if_false, href, hres]

/-- Where free_ref frees a block, its reference is addressed. -/
theorem addressed_of_freeRef (h : Framed dtrs arena lo st) {st' : ArenaHeap}
    (hfree : shmFreeRef dtrs none (some arena) st (some ref) = some st')
    (hfreed : Freed ref st st') : Addressed dtrs arena lo ref := by
  have hkept : some st ≠ some st' := by
    rintro heq
    exact not_freed_self ref st (Option.some.inj heq ▸ hfreed)
  simp only [shmFreeRef] at hfree
  split at hfree
  · exact absurd hfree hkept
  next hlen =>
  by_cases hin : InUser arena lo ref
  · simp only [validate_ref h hin] at hfree
    cases hptr : shmref2ptr dtrs ref 0 with
    | none => exact absurd (congrArg some (driverFree_unresolved hptr hfree).symm) hkept
    | some ptr =>
      have hspec := shmref2ptr_spec hptr
      rw [hin.shmid] at hspec
      exact ⟨hin, Nat.pos_of_ne_zero hlen, hspec.2.2.1⟩
  · simp only [validate_ref_none h hin] at hfree
    exact absurd hfree hkept

/-- For a reference behind the metadata the two ways agree exactly if it is addressed and
leads to a block in use. -/
theorem agree_iff (h : Framed dtrs arena lo st) (hmaps : DisjointMaps dtrs)
    (hroom : lo + 16 ≤ ref.dtOffset) :
    Agree dtrs arena st ref ↔
      Addressed dtrs arena lo ref ∧ InUse st.driver (ref.dtOffset - 16) := by
  constructor
  · intro hagree
    obtain ⟨st', -, hfree, hfreed⟩ := hagree.free
    exact ⟨addressed_of_freeRef h hfree hfreed, hfreed.1⟩
  · rintro ⟨ha, huse⟩
    exact agree_of_addressed h hmaps ha hroom huse

end Drivers

section BreakSizes

variable {A : BreakRegion} {s : BreakState} {dtrs : Dtrs} {heap : BreakHeap}

theorem framed_brk (h : Line A heap.md) (hd : Attached A.dtrs₀ dtrs A.arena.dtShmid)
    (hal : A.mapping % 16 = 0) :
    Framed dtrs A.arena (A.arena.dtOffset + A.mdsize)
      ⟨DTHREAD_SHM_MD_MAGIC, .brk heap⟩ where
  magic := rfl
  amd := by
    simp only [DriverHeap.amd]
    rw [h.md_eq]
  header := by
    simp only [headerLen]
    rw [h.md_eq]
  metadata := by
    have hge := A.mdsize_ge
    omega
  length := by
    have hlen := A.init_spec.1.2.2.1
    omega
  count := hd.count
  segment := by
    have hseg := A.init_spec.1.2.1
    rw [hd.size]
    omega
  small := by
    rw [hd.size]
    exact A.segment
  mapped := by
    have hsame : _ = A.mapping % alignsz := hd.align
    unfold alignsz at hsame
    omega

/-- A placed block that has bytes is addressed. -/
theorem addressed_of_placed {b : Block} {ref : Shmref} (h : Placed A b)
    (hd : Attached A.dtrs₀ dtrs A.arena.dtShmid) (hal : A.mapping % 16 = 0)
    (href : b.Named A.arena ref) (hpos : 0 < ref.dtLength) :
    Addressed dtrs A.arena (A.arena.dtOffset + A.mdsize) ref ∧
      A.arena.dtOffset + A.mdsize + 16 ≤ ref.dtOffset := by
  have hlower := h.lower
  have hupper := h.upper
  have haligned := h.aligned
  have hoff := href.offset
  have hlen := href.length
  have hseg := A.init_spec.1.2.1
  have hsize := hd.size
  unfold Block.off at hupper hoff
  exact ⟨⟨⟨href.shmid, by omega, by omega, by omega⟩, hpos, by omega⟩, by omega⟩

/-- In a break arena the two ways agree for the sizes that do not wrap, on blocks that no
other block has destroyed. -/
theorem break_agree_iff {mem : Mem} (h : BreakRun A mem s)
    (hd : Attached A.dtrs₀ dtrs A.arena.dtShmid) (hal : A.mapping % 16 = 0)
    (hmaps : DisjointMaps dtrs) {b : Block} (hb : b ∈ s.live) :
    Agree dtrs A.arena ⟨DTHREAD_SHM_MD_MAGIC, .brk s.heap⟩ ⟨A.arena.dtShmid, b.off, b.size⟩ ↔
      0 < b.size ∧ b.size ≤ 2 ^ 64 - 32 ∧ hasMagic s.heap.mem b.hdr := by
  have hinv := Loose.of_run h
  have hframed := framed_brk hinv.line hd hal
  constructor
  · intro hagree
    obtain ⟨st', -, hfree, hfreed⟩ := hagree.free
    have ha := addressed_of_freeRef hframed hfree hfreed
    have hlower := ha.lower
    have hinside := ha.inside
    have hge := A.mdsize_ge
    have hsmall := hframed.small
    simp only at hlower hinside
    exact ⟨ha.positive, by omega, hfreed.1⟩
  · rintro ⟨hpos, hle, hmagic⟩
    have href : b.Named A.arena ⟨A.arena.dtShmid, b.off, b.size⟩ := ⟨rfl, rfl, le_rfl⟩
    obtain ⟨ha, hroom⟩ := addressed_of_placed (hinv.placed b hb hle) hd hal href hpos
    exact agree_of_addressed hframed hmaps ha hroom hmagic

end BreakSizes

section BsdSizes

variable {A : BsdRegion} {s : BsdState} {dtrs : Dtrs} {heap : BsdHeap}

theorem framed_bsd (hamd : heap.md.amd = ⟨A.arena, A.lo, A.hi, 15⟩)
    (hover : heap.md.oversize = 16) (hd : Attached A.dtrs₀ dtrs A.arena.dtShmid)
    (hal : A.mapping % 16 = 0) :
    Framed dtrs A.arena A.lo ⟨DTHREAD_SHM_MD_MAGIC, .bsd heap⟩ where
  magic := rfl
  amd := hamd
  header := hover
  metadata := by
    have hge : 1056 ≤ mdalignSize A.dtrs₀ A.arena bsdMdSize := Nat.le_add_right _ _
    unfold BsdRegion.lo
    omega
  length := A.bounds.1
  count := hd.count
  segment := by
    rw [hd.size]
    exact A.bounds.2.1
  small := by
    rw [hd.size]
    exact A.segment
  mapped := by
    have hsame : _ = A.mapping % alignsz := hd.align
    unfold alignsz at hsame
    omega

/-- In a bsd arena the two ways agree for the blocks that their reference addresses and
that no other block has destroyed. -/
theorem bsd_agree_iff {mem : Mem} (h : BsdRun A mem s)
    (hd : Attached A.dtrs₀ dtrs A.arena.dtShmid) (hal : A.mapping % 16 = 0)
    (hmaps : DisjointMaps dtrs) {u : User} (hu : u ∈ s.live) :
    Agree dtrs A.arena ⟨DTHREAD_SHM_MD_MAGIC, .bsd s.heap⟩
        ⟨A.arena.dtShmid, u.cell.off + 16, u.len⟩ ↔
      Addressed dtrs A.arena A.lo ⟨A.arena.dtShmid, u.cell.off + 16, u.len⟩ ∧
        InUse (.bsd s.heap) u.cell.off := by
  obtain ⟨⟨hamd, hover⟩, hplaced⟩ := bsdRun_setup h
  have hroom : A.lo + 16 ≤ u.cell.off + 16 := by
    have hlo := hplaced u hu
    omega
  exact agree_iff (framed_bsd hamd hover hd hal) hmaps hroom

end BsdSizes

/-- After requests of regular sizes a reference to a live block that is not one to NULL is
addressed, and the header is intact. -/
theorem LiveBlock.agree_iff_pos {dtrs : Dtrs} {arena ref : Shmref} {st : ArenaHeap}
    (h : LiveBlock dtrs arena st ref) (hmaps : DisjointMaps dtrs) :
    Agree dtrs arena st ref ↔ 0 < ref.dtLength := by
  cases h with
  | brk A mem s b ref h hd hal hb href =>
    have hinv := BreakInv.of_reachable h
    obtain ⟨hlo, hhi⟩ := hinv.extent_inside hb
    obtain ⟨hhdr, hintact⟩ := hinv.block b hb
    have hbound := hinv.bound
    have hline : Line A s.heap.md :=
      ⟨by rw [hinv.md], hinv.lower, hinv.bound, hinv.aligned⟩
    have hframed := framed_brk hline hd hal
    have hplaced : Placed A b := ⟨hlo, by omega, hhdr⟩
    refine ⟨fun hagree => ?_, fun hpos => ?_⟩
    · obtain ⟨st', -, hfree, hfreed⟩ := hagree.free
      exact (addressed_of_freeRef hframed hfree hfreed).positive
    · obtain ⟨ha, hroom⟩ := addressed_of_placed hplaced hd hal href hpos
      refine agree_of_addressed hframed hmaps ha hroom ?_
      rw [href.offset]
      exact hintact.magic
  | bsd A mem s u ref h hd hal hu href hname =>
    obtain ⟨avail, hinv⟩ := BsdInv.of_reachable h
    obtain ⟨hid, c, hc, hoff, hlen⟩ := hinv.returned_cell href
    obtain rfl : u.cell = c := by
      apply hinv.cell_eq (hinv.live_carved hu) hc
      simp only [Names, beq_iff_eq] at hname
      omega
    have hbounds := A.bounds
    have hin := hinv.cell_inside hc
    obtain ⟨hmin, hmax, hmod⟩ := hinv.cell _ hc
    have hblock := A.page.blockLen_ge hmin
    have hcore := hinv.core
    have hsize := hd.size
    have hhi : A.arena.dtOffset + A.arena.dtLength = A.hi := rfl
    have hframed := framed_bsd hinv.amd hinv.classes.oversize hd hal
    unfold PageSize.capacity at hlen
    refine ⟨fun hagree => ?_, fun hpos => ?_⟩
    · obtain ⟨st', -, hfree, hfreed⟩ := hagree.free
      exact (addressed_of_freeRef hframed hfree hfreed).positive
    · refine agree_of_addressed hframed hmaps
        ⟨⟨hid, by omega, by omega, by omega⟩, hpos, by omega⟩ (by omega) ?_
      rw [hoff, Nat.add_sub_cancel]
      have hheader := hinv.header u hu
      refine ⟨?_, ?_⟩
      · rw [hheader, OV_MAGIDX_magic]
      · rw [hheader, OV_MAGIDX_index hmax]
        unfold maxBucket at hmax
        unfold NBUCKETS
        omega

/-- Freeing and resizing by pointer and by reference agree, in every state of a break arena
exactly for the blocks of the sizes from 1 to 2^64 - 32 whose header is intact, in every
state of a bsd arena exactly for the blocks that their reference addresses and whose header
is intact, and after requests of regular sizes exactly for the references of positive
length. -/
theorem free_realloc_agree_iff {dtrs : Dtrs} (hmaps : DisjointMaps dtrs) :
    (∀ (A : BreakRegion) (mem : Mem) (s : BreakState), BreakRun A mem s →
      Attached A.dtrs₀ dtrs A.arena.dtShmid → A.mapping % 16 = 0 → ∀ b ∈ s.live,
      (Agree dtrs A.arena ⟨DTHREAD_SHM_MD_MAGIC, .brk s.heap⟩ ⟨A.arena.dtShmid, b.off, b.size⟩ ↔
        0 < b.size ∧ b.size ≤ 2 ^ 64 - 32 ∧ InUse (.brk s.heap) b.hdr)) ∧
    (∀ (A : BsdRegion) (mem : Mem) (s : BsdState), BsdRun A mem s →
      Attached A.dtrs₀ dtrs A.arena.dtShmid → A.mapping % 16 = 0 → ∀ u ∈ s.live,
      (Agree dtrs A.arena ⟨DTHREAD_SHM_MD_MAGIC, .bsd s.heap⟩
          ⟨A.arena.dtShmid, u.cell.off + 16, u.len⟩ ↔
        Addressed dtrs A.arena A.lo ⟨A.arena.dtShmid, u.cell.off + 16, u.len⟩ ∧
          InUse (.bsd s.heap) u.cell.off)) ∧
    ∀ arena st ref, LiveBlock dtrs arena st ref → (Agree dtrs arena st ref ↔ 0 < ref.dtLength) :=
  ⟨fun _ _ _ h hd hal _ hb => break_agree_iff h hd hal hmaps hb,
    fun _ _ _ h hd hal _ hu => bsd_agree_iff h hd hal hmaps hu,
    fun _ _ _ h => h.agree_iff_pos hmaps⟩

/-- A fresh break arena of 1 KiB. -/
def freshArena : ArenaHeap :=
  ⟨DTHREAD_SHM_MD_MAGIC, .brk (BreakRuns.smallArena.start fun _ => 0).heap⟩

/-- Requests for 5 and for 2^64 - 16 bytes are granted there, and the two ways agree for
the first block only. -/
theorem free_realloc_agree_iff_small :
    (∃ st, shmMalloc BreakRuns.smallArena.dtrs₀ none (some BreakRuns.smallArena.arena) freshArena
        5 = (some (4256, ⟨0, 160, 5⟩), st) ∧
      Agree BreakRuns.smallArena.dtrs₀ BreakRuns.smallArena.arena st ⟨0, 160, 5⟩) ∧
    ∃ st, shmMalloc BreakRuns.smallArena.dtrs₀ none (some BreakRuns.smallArena.arena) freshArena
        (2 ^ 64 - 16) = (some (4256, ⟨0, 160, 2 ^ 64 - 16⟩), st) ∧
      ¬ Agree BreakRuns.smallArena.dtrs₀ BreakRuns.smallArena.arena st ⟨0, 160, 2 ^ 64 - 16⟩ := by
  have hd : Attached BreakRuns.smallArena.dtrs₀ BreakRuns.smallArena.dtrs₀
      BreakRuns.smallArena.arena.dtShmid := ⟨by decide, rfl, rfl⟩
  have hmaps : DisjointMaps BreakRuns.smallArena.dtrs₀ := by
    intro i hi j hj hne
    change i < 1 at hi
    change j < 1 at hj
    omega
  have hagree := (free_realloc_agree_iff hmaps).1 BreakRuns.smallArena.toBreakRegion (fun _ => 0)
  constructor
  · have hmalloc : BreakMove (fun _ size => size < 2 ^ 64) BreakRuns.smallArena.toBreakRegion
      (BreakRuns.smallArena.start fun _ => 0) _ := .malloc _ 5 hd (by norm_num) _ _ rfl
    refine ⟨_, rfl, (hagree _ (.single hmalloc) hd rfl ⟨144, 5⟩ List.mem_cons_self).mpr ?_⟩
    exact ⟨by decide, by decide, by decide⟩
  · have hmalloc : BreakMove (fun _ size => size < 2 ^ 64) BreakRuns.smallArena.toBreakRegion
      (BreakRuns.smallArena.start fun _ => 0) _ :=
      .malloc _ (2 ^ 64 - 16) hd (by norm_num) _ _ rfl
    refine ⟨_, rfl, fun h => ?_⟩
    have hsize := (hagree _ (.single hmalloc) hd rfl ⟨144, 2 ^ 64 - 16⟩ List.mem_cons_self).mp h
    exact absurd hsize.2.1 (by decide)

/-- A block of no bytes is freed by its pointer, but not by its reference. -/
theorem zero_length_not_freed :
    ∃ st h h', shmMalloc BreakRuns.smallArena.dtrs₀ none (some BreakRuns.smallArena.arena)
        freshArena 0 = (some (4256, ⟨0, 160, 0⟩), st) ∧
      st.driver = .brk h ∧ h.md.nalloc = 1 ∧
      shmFree BreakRuns.smallArena.dtrs₀ none (some BreakRuns.smallArena.arena) st 4256 =
        some ⟨DTHREAD_SHM_MD_MAGIC, .brk h'⟩ ∧ h'.md.nalloc = 0 ∧
      shmFreeRef BreakRuns.smallArena.dtrs₀ none (some BreakRuns.smallArena.arena) st
        (some ⟨0, 160, 0⟩) = some st := by
  refine ⟨_, _, _, rfl, rfl, by decide, rfl, by decide, rfl⟩

end Dthread.FreeByRef
