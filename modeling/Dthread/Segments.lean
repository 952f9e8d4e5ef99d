import Dthread.ReqMsg
import Dthread.ShmRefs

/-!
Shared memory segments (dt_segops.c): how one rank maps a segment, the metadata
page that the first rank writes into it, and the low-level allocator over it.
What the system calls return is part of the input.
-/
namespace Dthread.Segments

open ReqMsg MachineInts ShmRefs

def DTHREAD_SRC_DEV : ℕ := 1

def DTHREAD_SRC_FILE : ℕ := 2

def DTHREAD_SRC_PSHM : ℕ := 3

def DTHREAD_SRC_ADDR : ℕ := 4

/-- dthread_shmsrc_t without its label. -/
structure Shmsrc where
  dtSrcflags : ℕ
  dtMmoffset : ℕ
  dtMmsize : ℕ
  dtAddr : ℕ
  dtReserveFront : ℕ
  dtReserveBack : ℕ
deriving DecidableEq, Repr

namespace Shmsrc

/-- The source type, under DTHREAD_SRC_MASK. -/
def type (src : Shmsrc) : ℕ := src.dtSrcflags % 8

/-- The flag DTHREAD_SRC_UMAP. -/
def umap (src : Shmsrc) : Bool := src.dtSrcflags / 8 % 2 = 1

/-- The types whose segments are mapped with mmap. -/
def mapped (src : Shmsrc) : Bool :=
  src.type = DTHREAD_SRC_DEV || src.type = DTHREAD_SRC_FILE || src.type = DTHREAD_SRC_PSHM

end Shmsrc

def DTHREAD_SEG_MD_MAGIC : ℕ := 0x64746873676d6431

/-- dthread_shmseg_md_t without its lock. -/
structure SegMd where
  segMdMagic : ℕ
  self : Shmref
  srcflags : ℕ
  umapaddr : ℕ
  firstAvail : ℕ
  endAvail : ℕ
deriving DecidableEq, Repr

/-- What the system gives to one call of establish: error numbers, zero for
success, the size of the file, an address for each hint, and the metadata that
the mapping shows. -/
structure EstablishSys where
  openErr : ℕ
  fstat : Except ℕ ℕ
  ftruncateErr : ℕ
  mmap : ℕ → Except ℕ ℕ
  spinErr : ℕ
  md : SegMd

/-- The switch of establish: the new mapping or an error. Except for a memory
address it leaves a file descriptor open. -/
def establishMapping (src : Shmsrc) (hint : ℕ) (init : Bool) (sys : EstablishSys) :
    Except ℕ ℕ :=
  if src.type = DTHREAD_SRC_DEV then
    if sys.openErr ≠ 0 then .error sys.openErr else sys.mmap hint
  else if src.type = DTHREAD_SRC_FILE ∨ src.type = DTHREAD_SRC_PSHM then
    if sys.openErr ≠ 0 then .error sys.openErr
    else
      match sys.fstat with
      | .error e => .error e
      | .ok stSize =>
        if stSize = wrap64 (src.dtMmoffset + src.dtMmsize) then sys.mmap hint
        else if init = false then .error EIO
        else if sys.ftruncateErr ≠ 0 then .error sys.ftruncateErr
        else sys.mmap hint
  else if src.type = DTHREAD_SRC_ADDR then
    if src.umap then .error EINVAL else .ok src.dtAddr
  else .error EINVAL

/-- The offset of the metadata: the first page behind the front reserve. -/
def mdOffset (pagesize : ℕ) (src : Shmsrc) (newmapping : ℕ) : ℕ :=
  let mdptr := wrap64 (newmapping + src.dtReserveFront)
  let pad := mdptr % pagesize
  let pad := if pad = 0 then 0 else pagesize - pad
  sub64 (wrap64 (mdptr + pad)) newmapping

/-- The metadata that establish writes when it initializes a segment. -/
def initMd (pagesize : ℕ) (src : Shmsrc) (idx newmdoffset : ℕ) : SegMd where
  segMdMagic := DTHREAD_SEG_MD_MAGIC
  self := ⟨idx, 0, src.dtMmsize⟩
  srcflags := src.dtSrcflags
  umapaddr := 0
  firstAvail := wrap64 (newmdoffset + pagesize)
  endAvail := sub64 src.dtMmsize src.dtReserveBack

/-- establish up to where it looks at the metadata: the new entry of the rank's table of
mappings. -/
def establishEntry (pagesize : ℕ) (src : Shmsrc) (hint : ℕ) (init : Bool) (sys : EstablishSys) :
    Except ℕ Shmmap :=
  let totalreserve := wrap64 (src.dtReserveFront + src.dtReserveBack)
  if src.dtMmsize ≤ totalreserve then .error EINVAL
  else if src.dtMmsize - totalreserve < 2 * pagesize then .error EINVAL
  else
    match establishMapping src hint init sys with
    | .error e => .error e
    | .ok newmapping => .ok ⟨newmapping, mdOffset pagesize src newmapping, src.dtMmsize⟩

/-- establish: the new entry, and the metadata of the segment. On an error the
descriptor is closed and the table of mappings unchanged. -/
def establish (pagesize : ℕ) (src : Shmsrc) (idx hint : ℕ) (init : Bool)
    (sys : EstablishSys) : Except ℕ (Shmmap × SegMd) :=
  match establishEntry pagesize src hint init sys with
  | .error e => .error e
  | .ok entry =>
    if init then
      let md := initMd pagesize src idx entry.mdOffset
      if md.endAvail ≤ md.firstAvail then .error EINVAL
      else if sys.spinErr ≠ 0 then .error sys.spinErr
      else .ok (entry, md)
    else if sys.md.segMdMagic ≠ DTHREAD_SEG_MD_MAGIC then .error EINVAL
    else if sys.md.self ≠ ⟨idx, 0, src.dtMmsize⟩ then .error EINVAL
    else .ok (entry, sys.md)

/-- dthread_shmseg_alloc on a rank, with the result of taking the segment's
lock; NULL or the pointer and the reference. -/
def shmsegAlloc (dtrs : Dtrs) (md : SegMd) (spinErr shmid want : ℕ) :
    Option (ℕ × Shmref) × SegMd :=
  if dtrs.nshmsrc ≤ shmid then (none, md)
  else if md.segMdMagic ≠ DTHREAD_SEG_MD_MAGIC then (none, md)
  else if spinErr ≠ 0 then (none, md)
  else
    let total := wrap64 (want + padding want)
    if (dtrs.shmmap shmid).size ≤ md.firstAvail ∨ md.endAvail ≤ md.firstAvail then (none, md)
    else if total ≠ 0 ∧ sub64 md.endAvail md.firstAvail < total then (none, md)
    else
      let total := if total = 0 then sub64 md.endAvail md.firstAvail else total
      (some ((dtrs.shmmap shmid).mapping + md.firstAvail, ⟨shmid, md.firstAvail, total⟩),
        { md with firstAvail := wrap64 (md.firstAvail + total) })

/-- dthread_shm_segavail: the free space of a segment at this time. -/
def shmSegavail (dtrs : Dtrs) (md : SegMd) (shmid : ℕ) : Except ℕ Shmref :=
  if dtrs.nshmsrc ≤ shmid then .error EINVAL
  else if md.segMdMagic ≠ DTHREAD_SEG_MD_MAGIC then .error EINVAL
  else if (dtrs.shmmap shmid).size < md.firstAvail ∨ md.endAvail < md.firstAvail then
    .ok ⟨shmid, md.endAvail, 0⟩
  else .ok ⟨shmid, md.firstAvail, sub64 md.endAvail md.firstAvail⟩

theorem establishEntry_ok {pagesize hint : ℕ} {src : Shmsrc} {init : Bool} {sys : EstablishSys}
    {entry : Shmmap} (h : establishEntry pagesize src hint init sys = .ok entry) :
    2 * pagesize + wrap64 (src.dtReserveFront + src.dtReserveBack) ≤ src.dtMmsize ∧
    establishMapping src hint init sys = .ok entry.mapping ∧
    entry.mdOffset = mdOffset pagesize src entry.mapping ∧ entry.size = src.dtMmsize := by
  unfold establishEntry at h
  simp only at h
  split at h
  · simp at h
  split at h
  · simp at h
  split at h
  · simp at h
  next newmapping hmap =>
  obtain rfl := Except.ok.inj h
  exact ⟨by omega, hmap, rfl, rfl⟩

/-- What a successful establish has checked and installed. -/
theorem establish_ok {pagesize idx hint : ℕ} {src : Shmsrc} {init : Bool} {sys : EstablishSys}
    {entry : Shmmap} {md : SegMd} (h : establish pagesize src idx hint init sys = .ok (entry, md)) :
    2 * pagesize + wrap64 (src.dtReserveFront + src.dtReserveBack) ≤ src.dtMmsize ∧
    establishMapping src hint init sys = .ok entry.mapping ∧
    entry.mdOffset = mdOffset pagesize src entry.mapping ∧ entry.size = src.dtMmsize ∧
    (init = true → md = initMd pagesize src idx entry.mdOffset ∧ md.firstAvail < md.endAvail) := by
  unfold establish at h
  split at h
  · simp at h
  next hentry =>
  cases init with
  | true =>
    rw [if_pos rfl] at h
    simp only at h
    split at h
    · simp at h
    next hspace =>
    split at h
    · simp at h
    · obtain ⟨rfl, rfl⟩ := Prod.mk.inj (Except.ok.inj h)
      obtain ⟨hroom, hmap, hoff, hsize⟩ := establishEntry_ok hentry
      exact ⟨hroom, hmap, hoff, hsize, fun _ => ⟨rfl, Nat.lt_of_not_le hspace⟩⟩
  | false =>
    rw [if_neg Bool.false_ne_true] at h
    split at h
    · simp at h
    split at h
    · simp at h
    · obtain ⟨rfl, rfl⟩ := Prod.mk.inj (Except.ok.inj h)
      obtain ⟨hroom, hmap, hoff, hsize⟩ := establishEntry_ok hentry
      exact ⟨hroom, hmap, hoff, hsize, fun hinit => absurd hinit Bool.false_ne_true⟩

/-- The metadata start less than a page behind the front reserve, wherever the
segment is mapped. -/
theorem mdOffset_eq {pagesize newmapping : ℕ} (src : Shmsrc) (hpage : 0 < pagesize)
    (hmap : newmapping < 2 ^ 64) :
    ∃ pad < pagesize, mdOffset pagesize src newmapping = wrap64 (src.dtReserveFront + pad) := by
  unfold mdOffset
  simp only
  generalize hmdptr : wrap64 (newmapping + src.dtReserveFront) = mdptr
  have hrem : mdptr % pagesize < pagesize := Nat.mod_lt _ hpage
  unfold wrap64 at hmdptr
  split
  · refine ⟨0, hpage, ?_⟩
    unfold sub64 wrap64
    omega
  · refine ⟨pagesize - mdptr % pagesize, by omega, ?_⟩
    generalize pagesize - mdptr % pagesize = pad
    unfold sub64 wrap64
    omega

/-- At a page boundary the offset of the metadata does not depend on the mapping. -/
theorem mdOffset_of_dvd {pagesize newmapping : ℕ} (src : Shmsrc) (hpow : pagesize ∣ 2 ^ 64)
    (hmap : newmapping < 2 ^ 64) (hdvd : pagesize ∣ newmapping) :
    mdOffset pagesize src newmapping = mdOffset pagesize src 0 := by
  have hrem : wrap64 (newmapping + src.dtReserveFront) % pagesize =
      wrap64 (0 + src.dtReserveFront) % pagesize := by
    unfold wrap64
    rw [Nat.mod_mod_of_dvd _ hpow, Nat.mod_mod_of_dvd _ hpow, Nat.add_mod,
      Nat.mod_eq_zero_of_dvd hdvd, Nat.zero_add, Nat.mod_mod, Nat.zero_add]
  unfold mdOffset
  simp only [hrem]
  generalize wrap64 (0 + src.dtReserveFront) % pagesize = rem
  generalize (if rem = 0 then 0 else pagesize - rem) = pad
  unfold sub64 wrap64
  omega

/-- The switch of establish reports an error as such, unless a system call
fails with errno zero. -/
theorem establishMapping_error {src : Shmsrc} {hint e : ℕ} {init : Bool} {sys : EstablishSys}
    (hfstat : ∀ e, sys.fstat = .error e → e ≠ 0) (hmmap : ∀ e, sys.mmap hint = .error e → e ≠ 0)
    (h : establishMapping src hint init sys = .error e) : e ≠ 0 := by
  have hinval : EINVAL ≠ 0 := by decide
  have hio : ReqMsg.EIO ≠ 0 := by decide
  unfold establishMapping at h
  repeat' split at h
  all_goals first
    | exact hmmap e h
    | (obtain rfl := Except.error.inj h; first | assumption | exact hfstat _ ‹_›)
    | cases h

theorem establishEntry_error {pagesize hint e : ℕ} {src : Shmsrc} {init : Bool}
    {sys : EstablishSys} (hfstat : ∀ e, sys.fstat = .error e → e ≠ 0)
    (hmmap : ∀ e, sys.mmap hint = .error e → e ≠ 0)
    (h : establishEntry pagesize src hint init sys = .error e) : e ≠ 0 := by
  have hinval : EINVAL ≠ 0 := by decide
  unfold establishEntry at h
  simp only at h
  split at h
  · exact Except.error.inj h ▸ hinval
  split at h
  · exact Except.error.inj h ▸ hinval
  split at h
  next e' hmap =>
    obtain rfl := Except.error.inj h
    exact establishMapping_error hfstat hmmap hmap
  · cases h

theorem establish_error {pagesize idx hint e : ℕ} {src : Shmsrc} {init : Bool}
    {sys : EstablishSys} (hfstat : ∀ e, sys.fstat = .error e → e ≠ 0)
    (hmmap : ∀ e, sys.mmap hint = .error e → e ≠ 0)
    (h : establish pagesize src idx hint init sys = .error e) : e ≠ 0 := by
  have hinval : EINVAL ≠ 0 := by decide
  unfold establish at h
  split at h
  next e' hentry =>
    obtain rfl := Except.error.inj h
    exact establishEntry_error hfstat hmmap hentry
  simp only at h
  split at h
  · split at h
    · exact Except.error.inj h ▸ hinval
    split at h
    next hspin => exact Except.error.inj h ▸ hspin
    · cases h
  · split at h
    · exact Except.error.inj h ▸ hinval
    split at h
    · exact Except.error.inj h ▸ hinval
    · cases h

/-- A segment that is mapped with mmap is where mmap put it. -/
theorem establishMapping_mapped {src : Shmsrc} {hint newmapping : ℕ} {init : Bool}
    {sys : EstablishSys} (hsrc : src.mapped = true)
    (h : establishMapping src hint init sys = .ok newmapping) :
    sys.mmap hint = .ok newmapping := by
  unfold Shmsrc.mapped at hsrc
  simp only [Bool.or_eq_true, decide_eq_true_eq] at hsrc
  unfold establishMapping at h
  split at h
  · split at h
    · cases h
    · exact h
  next hdev =>
  rw [if_pos (by simpa [hdev] using hsrc)] at h
  split at h
  · cases h
  split at h
  · cases h
  split at h
  · exact h
  split at h
  · cases h
  split at h
  · cases h
  · exact h

/-- A call gives nothing and changes nothing, or takes a range from the front of
the free space: a multiple of the alignment, or all that is left. -/
theorem shmsegAlloc_cases (dtrs : Dtrs) {md : SegMd} (spinErr shmid want : ℕ)
    (hend : md.endAvail < 2 ^ 64) :
    shmsegAlloc dtrs md spinErr shmid want = (none, md) ∨
    ∃ total, (total % alignsz = 0 ∨ md.firstAvail + total = md.endAvail) ∧
      0 < total ∧ md.firstAvail + total ≤ md.endAvail ∧
      shmsegAlloc dtrs md spinErr shmid want =
        (some ((dtrs.shmmap shmid).mapping + md.firstAvail, ⟨shmid, md.firstAvail, total⟩),
          { md with firstAvail := md.firstAvail + total }) := by
  unfold shmsegAlloc
  split
  · exact .inl rfl
  split
  · exact .inl rfl
  split
  · exact .inl rfl
  simp only
  split
  · exact .inl rfl
  next hspace =>
  push Not at hspace
  have hleft := sub64_of_le hspace.2.le hend
  have haligned : wrap64 (want + padding want) % alignsz = 0 := by
    have hpad := add_padding_mod want
    unfold wrap64
    unfold alignsz at hpad ⊢
    omega
  generalize wrap64 (want + padding want) = total at haligned ⊢
  rw [hleft]
  split
  · exact .inl rfl
  next hfits =>
  refine .inr ?_
  by_cases hzero : total = 0
  · rw [if_pos hzero]
    refine ⟨md.endAvail - md.firstAvail, .inr (by omega), by omega, by omega, ?_⟩
    rw [wrap64_of_lt (by omega)]
  · rw [if_neg hzero]
    refine ⟨total, .inl haligned, Nat.pos_of_ne_zero hzero, by omega, ?_⟩
    rw [wrap64_of_lt (by omega)]

theorem shmsegAlloc_null {dtrs : Dtrs} {md md' : SegMd} {spinErr shmid want : ℕ}
    (h : shmsegAlloc dtrs md spinErr shmid want = (none, md')) : md' = md := by
  unfold shmsegAlloc at h
  simp only at h
  split at h
  · exact (Prod.mk.inj h).2.symm
  split at h
  · exact (Prod.mk.inj h).2.symm
  split at h
  · exact (Prod.mk.inj h).2.symm
  split at h
  · exact (Prod.mk.inj h).2.symm
  split at h
  · exact (Prod.mk.inj h).2.symm
  · simp at h

/-- The length that a request is granted where `left` bytes are left. -/
def grant (left want : ℕ) : ℕ :=
  if wrap64 (want + padding want) = 0 then left else wrap64 (want + padding want)

/-- The segment is there, its lock can be taken, and it has space left. -/
structure Serves (dtrs : Dtrs) (md : SegMd) (spinErr shmid : ℕ) : Prop where
  count : shmid < dtrs.nshmsrc
  magic : md.segMdMagic = DTHREAD_SEG_MD_MAGIC
  lock : spinErr = 0
  mapped : md.firstAvail < (dtrs.shmmap shmid).size
  left : md.firstAvail < md.endAvail

theorem shmsegAlloc_of_serves {dtrs : Dtrs} {md : SegMd} {spinErr shmid : ℕ} (want : ℕ)
    (h : Serves dtrs md spinErr shmid) (hend : md.endAvail < 2 ^ 64) :
    shmsegAlloc dtrs md spinErr shmid want =
      if md.endAvail - md.firstAvail < wrap64 (want + padding want) then (none, md)
      else (some ((dtrs.shmmap shmid).mapping + md.firstAvail,
          ⟨shmid, md.firstAvail, grant (md.endAvail - md.firstAvail) want⟩),
        { md with firstAvail := md.firstAvail + grant (md.endAvail - md.firstAvail) want }) := by
  obtain ⟨hcount, hmagic, rfl, hmapped, hspace⟩ := h
  have hleft : sub64 md.endAvail md.firstAvail = md.endAvail - md.firstAvail :=
    sub64_of_le hspace.le hend
  unfold shmsegAlloc grant
  rw [if_neg (by omega), if_neg (by simpa using hmagic), if_neg (by simp), hleft]
  simp only
  generalize wrap64 (want + padding want) = total
  rw [if_neg (by omega)]
  by_cases hbig : md.endAvail - md.firstAvail < total
  · rw [if_pos ⟨by omega, hbig⟩, if_pos hbig]
  rw [if_neg (fun h => hbig h.2), if_neg hbig]
  have hfits : (if total = 0 then md.endAvail - md.firstAvail else total) ≤
      md.endAvail - md.firstAvail := by
    split <;> omega
  rw [wrap64_of_lt (by omega)]

theorem shmsegAlloc_of_not_serves {dtrs : Dtrs} {md : SegMd} {spinErr shmid : ℕ} (want : ℕ)
    (h : ¬ Serves dtrs md spinErr shmid) :
    shmsegAlloc dtrs md spinErr shmid want = (none, md) := by
  unfold shmsegAlloc
  split
  · rfl
  next hcount =>
  split
  · rfl
  next hmagic =>
  split
  · rfl
  next hlock =>
  simp only
  split
  · rfl
  next hspace =>
  refine absurd ⟨not_le.mp hcount, not_not.mp hmagic, not_not.mp hlock, ?_, ?_⟩ h <;> omega

/-- The allocator of an intact segment, with its lock taken. -/
theorem shmsegAlloc_eq {dtrs : Dtrs} {md : SegMd} {shmid : ℕ} (want : ℕ)
    (hid : shmid < dtrs.nshmsrc) (hmagic : md.segMdMagic = DTHREAD_SEG_MD_MAGIC)
    (hfirst : md.firstAvail ≤ md.endAvail) (hend : md.endAvail ≤ (dtrs.shmmap shmid).size)
    (hsize : (dtrs.shmmap shmid).size < 2 ^ 64) :
    shmsegAlloc dtrs md 0 shmid want =
      if md.firstAvail = md.endAvail ∨
          md.endAvail - md.firstAvail < wrap64 (want + padding want) then (none, md)
      else (some ((dtrs.shmmap shmid).mapping + md.firstAvail,
          ⟨shmid, md.firstAvail, grant (md.endAvail - md.firstAvail) want⟩),
        { md with firstAvail := md.firstAvail + grant (md.endAvail - md.firstAvail) want }) := by
  by_cases hfull : md.firstAvail = md.endAvail
  · rw [if_pos (.inl hfull)]
    exact shmsegAlloc_of_not_serves want fun h => h.left.ne hfull
  · rw [shmsegAlloc_of_serves want ⟨hid, hmagic, rfl, by omega, by omega⟩ (by omega)]
    simp only [hfull, false_or]

end Dthread.Segments
