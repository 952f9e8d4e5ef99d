import Dthread.Arenas
import Dthread.Bootstrap

/-!
The xthread layer over dthreads (xthread.c): what xthread_run hands to
dthread_run, the first function of the application on rank 0, and its mallocs.
-/
namespace Dthread.Xthread

open ByteMemory MachineInts ReqMsg ShmRefs Segments BreakMalloc Arenas Bootstrap

def EOVERFLOW : ℕ := 75

def INT_MAX : ℕ := 2 ^ 31 - 1

/-- xthread_shmsrc_type_t; the compiler lets other values through. -/
inductive XthreadShmsrcType
  | file
  | device
  | posixShm
  | other (n : ℕ)
deriving DecidableEq, Repr

structure XthreadShmsrc where
  source : Option String
  type : XthreadShmsrcType
  offset : ℕ
  applicationBytes : ℕ
deriving DecidableEq, Repr

/-- xthread_entry_t, with `none` for NULL and a function as a number. -/
structure XthreadEntry where
  name : Option String
  start : Option ℕ
deriving DecidableEq, Repr

/-- xthread_config_t; a null pointer is an empty list. -/
structure XthreadConfig where
  entries : List XthreadEntry
  shmsrcs : List XthreadShmsrc
  maxThreads : ℕ
deriving DecidableEq, Repr

def checkedAddU64 (total value : ℕ) : Except ℕ ℕ :=
  if 2 ^ 64 - 1 - value < total then .error EOVERFLOW else .ok (total + value)

/-- What dthread_mapping_size adds for segment 0: the thread table, and a page for the
allocator's metadata and headers. -/
def segmentZeroSize (pageSize maxThreads index total : ℕ) : Except ℕ ℕ :=
  if index ≠ 0 then .ok total
  else if (2 ^ 64 - 1) / gtabSize < maxThreads then .error EOVERFLOW
  else do
    let total ← checkedAddU64 total (maxThreads * gtabSize)
    checkedAddU64 total pageSize

def roundToPage (pageSize total : ℕ) : Except ℕ ℕ :=
  if total % pageSize ≠ 0 then checkedAddU64 total (pageSize - total % pageSize) else .ok total

/-- dthread_mapping_size; a page size of zero stands for a failed sysconf. -/
def dthreadMappingSize (pageSize : ℕ) (config : XthreadConfig) (index : ℕ) (src : XthreadShmsrc) :
    Except ℕ ℕ :=
  if pageSize = 0 then .error EINVAL
  else do
    let total ← checkedAddU64 src.applicationBytes pageSize
    let total ← segmentZeroSize pageSize config.maxThreads index total
    roundToPage pageSize total

def dthreadSourceFlags : XthreadShmsrcType → Except ℕ ℕ
  | .file => .ok DTHREAD_SRC_FILE
  | .device => .ok DTHREAD_SRC_DEV
  | .posixShm => .ok DTHREAD_SRC_PSHM
  | .other _ => .error EINVAL

/-- One turn of the loop over the memory sources. -/
def runShmsrc (pageSize : ℕ) (config : XthreadConfig) (index : ℕ) (src : XthreadShmsrc) :
    Except ℕ Shmsrc :=
  if src.source = none then .error EINVAL
  else do
    let flags ← dthreadSourceFlags src.type
    let mappingSize ← dthreadMappingSize pageSize config index src
    .ok ⟨flags, src.offset, mappingSize, 0, 0, 0⟩

/-- The part of dthread_run's arguments that decides about memory. -/
structure RunArgs where
  shms : List Shmsrc
  maxthreads : ℕ
deriving DecidableEq, Repr

/-- xthread_run up to its call of dthread_run, where calloc has memory. -/
def xthreadRun (pageSize : ℕ) (config : XthreadConfig) : Except ℕ RunArgs :=
  if config.entries = [] ∨ config.shmsrcs = [] ∨ config.maxThreads = 0 ∨
      INT_MAX ≤ config.entries.length ∨ INT_MAX < config.shmsrcs.length ∨
      INT_MAX < config.maxThreads then .error EINVAL
  else if config.entries.any (fun e => e.name = none ∨ e.start = none) then .error EINVAL
  else do
    let shms ← config.shmsrcs.zipIdx.mapM fun p => runShmsrc pageSize config p.2 p.1
    .ok ⟨shms, config.maxThreads⟩

/-- What dthread_shm_set_defaultarena writes through da_src. -/
def defarenaFields (arena : Shmref) : List Field :=
  [⟨0, 8, arena.dtShmid⟩, ⟨8, 8, arena.dtOffset⟩, ⟨16, 8, arena.dtLength⟩]

/-- xthread_dthread_application_main up to the application's main: the default arena and
its state, with the metadata that break_init left. -/
def applicationArena (sys : ArenaSys) (dtrs : Dtrs) (seg : SegMd) (mem : Mem) (daSrc : ℕ) :
    Except ℕ (Shmref × ArenaHeap) :=
  let new := shmNewArena sys dtrs seg mem 0 0 "break" 0
  match new.arena with
  | none => .error new.rv
  | some arena =>
    match new.rv, breakInit dtrs arena (newArenaMd arena) with
    | 0, some md =>
      let mem := storeFields new.mem (ptrOffset dtrs 0 daSrc) (defarenaFields arena)
      .ok (arena, ⟨DTHREAD_SHM_MD_MAGIC, .brk ⟨md, mem⟩⟩)
    | rv, _ => .error rv

/-- What xthread_malloc returns to the application for these sizes, one call after the
other; `none` is NULL. -/
def xthreadMallocs (dtrs : Dtrs) (defarena : Shmref) : ArenaHeap → List ℕ →
    List (Option (ℕ × Shmref))
  | _, [] => []
  | st, size :: sizes =>
    let r := shmMalloc dtrs (some defarena) none st size
    r.1 :: xthreadMallocs dtrs defarena r.2 sizes

section MappingSize

variable {pageSize : ℕ} {config : XthreadConfig} {src : XthreadShmsrc}

theorem checkedAddU64_ok {total value sum : ℕ} (h : checkedAddU64 total value = .ok sum)
    (hvalue : value < 2 ^ 64) : sum = total + value ∧ sum < 2 ^ 64 := by
  unfold checkedAddU64 at h
  split at h
  · cases h
  · obtain rfl := Except.ok.inj h
    exact ⟨rfl, by omega⟩

theorem bind_ok {α β : Type} {x : Except ℕ α} {f : α → Except ℕ β} {b : β}
    (h : x.bind f = .ok b) : ∃ a, x = .ok a ∧ f a = .ok b := by
  cases x with
  | error e => cases h
  | ok a => exact ⟨a, rfl, h⟩

/-- Segment 0 of an accepted configuration has room for the application's bytes, one
table, and two pages. -/
theorem dthreadMappingSize_ok {size : ℕ} (hpage : pageSize < 2 ^ 64)
    (h : dthreadMappingSize pageSize config 0 src = .ok size) :
    0 < pageSize ∧ size < 2 ^ 64 ∧ size % pageSize = 0 ∧
      src.applicationBytes + pageSize + config.maxThreads * gtabSize + pageSize ≤ size := by
  unfold dthreadMappingSize at h
  split at h
  · cases h
  next hzero =>
  obtain ⟨metadata, hmetadata, h⟩ := bind_ok h
  obtain ⟨total, hsegment, hround⟩ := bind_ok h
  unfold segmentZeroSize at hsegment
  rw [if_neg (by simp)] at hsegment
  split at hsegment
  · cases hsegment
  next hthreads =>
  obtain ⟨table, htable, hheaders⟩ := bind_ok hsegment
  have hentries : config.maxThreads * gtabSize < 2 ^ 64 := by
    unfold gtabSize argretSize at hthreads ⊢
    omega
  obtain ⟨rfl, -⟩ := checkedAddU64_ok hmetadata hpage
  obtain ⟨rfl, -⟩ := checkedAddU64_ok htable hentries
  obtain ⟨rfl, hlt⟩ := checkedAddU64_ok hheaders hpage
  generalize src.applicationBytes + pageSize + config.maxThreads * gtabSize + pageSize = total
    at hround hlt ⊢
  have hrem : total % pageSize < pageSize := Nat.mod_lt _ (by omega)
  unfold roundToPage at hround
  split at hround
  · obtain ⟨rfl, hfits⟩ := checkedAddU64_ok hround (by omega)
    refine ⟨by omega, hfits, ?_, by omega⟩
    have hup : total + (pageSize - total % pageSize) = pageSize * (total / pageSize + 1) := by
      have hdiv := Nat.div_add_mod total pageSize
      rw [Nat.mul_add]
      omega
    rw [hup, Nat.mul_mod_right]
  next heven =>
    obtain rfl := Except.ok.inj hround
    exact ⟨by omega, hlt, by omega, le_rfl⟩

/-- What xthread_run has checked of a configuration with one memory source. -/
theorem xthreadRun_ok {args : RunArgs} (hsrc : config.shmsrcs = [src])
    (h : xthreadRun pageSize config = .ok args) :
    0 < config.maxThreads ∧ config.maxThreads < 2 ^ 31 ∧ args.maxthreads = config.maxThreads ∧
      ∃ flags size, args.shms = [⟨flags, src.offset, size, 0, 0, 0⟩] ∧
        dthreadMappingSize pageSize config 0 src = .ok size := by
  unfold xthreadRun at h
  split at h
  · cases h
  next hchecks =>
  split at h
  · cases h
  obtain ⟨shms, hshms, h⟩ := bind_ok h
  obtain rfl := Except.ok.inj h
  have hthreads : 0 < config.maxThreads ∧ config.maxThreads < 2 ^ 31 := by
    unfold INT_MAX at hchecks
    omega
  refine ⟨hthreads.1, hthreads.2, rfl, ?_⟩
  rw [hsrc, List.zipIdx_singleton, List.mapM_cons, List.mapM_nil] at hshms
  obtain ⟨shm, hshm, hshms⟩ := bind_ok hshms
  obtain rfl := Except.ok.inj hshms
  unfold runShmsrc at hshm
  split at hshm
  · cases hshm
  obtain ⟨flags, -, hshm⟩ := bind_ok hshm
  obtain ⟨size, hsize, hshm⟩ := bind_ok hshm
  obtain rfl := Except.ok.inj hshm
  exact ⟨flags, size, rfl, hsize⟩

end MappingSize

section Mallocs

variable {dtrs : Dtrs} {arena : Shmref}

/-- A call without a pointer only checks the default arena. -/
theorem shmMalloc_default {ptr : ℕ} {h : BreakHeap}
    (hptr : shmref2ptr dtrs arena allocMdSize = some ptr) (hself : h.md.amd.self = arena)
    (size : ℕ) :
    shmMalloc dtrs (some arena) none ⟨DTHREAD_SHM_MD_MAGIC, .brk h⟩ size =
      ((breakMalloc dtrs arena h size).1,
        ⟨DTHREAD_SHM_MD_MAGIC, .brk (breakMalloc dtrs arena h size).2⟩) := by
  have hvalid : shmValidateArgs dtrs (some arena) none ⟨DTHREAD_SHM_MD_MAGIC, .brk h⟩ none none =
      some (arena, none) := by
    simp [shmValidateArgs, DriverHeap.amd, hptr, hself]
  unfold shmMalloc
  rw [hvalid]
  rfl

/-- A block takes its header and is rounded up. -/
def blockSize (size : ℕ) : ℕ := 16 + round16 size

/-- break_malloc while no size wraps: the break line moves over the block, or NULL. -/
theorem breakMalloc_room (dtrs : Dtrs) {h : BreakHeap} {size : ℕ} (hself : h.md.amd.self = arena)
    (hhdr : h.md.hdrlen = 16) (hlength : arena.dtLength < 2 ^ 64)
    (hallocated : h.md.allocated ≤ arena.dtLength) (hsize : size + 31 < 2 ^ 64) :
    (h.md.allocated + blockSize size ≤ arena.dtLength ∧
      ∃ res h', breakMalloc dtrs arena h size = (some res, h') ∧ h'.md.amd = h.md.amd ∧
        h'.md.hdrlen = 16 ∧ h'.md.allocated = h.md.allocated + blockSize size) ∨
    (arena.dtLength < h.md.allocated + blockSize size ∧
      breakMalloc dtrs arena h size = (none, h)) := by
  have hpad := padding_lt size
  unfold alignsz at hpad
  have htotal : wrap64 (size + padding size + 16) = blockSize size := by
    rw [wrap64_of_lt (by omega)]
    unfold blockSize round16
    omega
  have hleft : sub64 arena.dtLength h.md.allocated = arena.dtLength - h.md.allocated :=
    sub64_of_le hallocated hlength
  unfold breakMalloc
  simp only [hself, hhdr, htotal, hleft]
  by_cases hfits : blockSize size ≤ arena.dtLength - h.md.allocated
  · rw [if_pos hfits]
    exact .inl ⟨by omega, _, _, rfl, rfl, rfl, wrap64_of_lt (by omega)⟩
  · rw [if_neg hfits]
    exact .inr ⟨by omega, rfl⟩

/-- The calls all succeed exactly if the arena has room for all the blocks. -/
theorem xthreadMallocs_served {ptr : ℕ} {h : BreakHeap} {sizes : List ℕ}
    (hptr : shmref2ptr dtrs arena allocMdSize = some ptr) (hself : h.md.amd.self = arena)
    (hhdr : h.md.hdrlen = 16) (hlength : arena.dtLength < 2 ^ 64)
    (hallocated : h.md.allocated ≤ arena.dtLength)
    (hsizes : ∀ size ∈ sizes, size + 31 < 2 ^ 64) :
    (∀ res ∈ xthreadMallocs dtrs arena ⟨DTHREAD_SHM_MD_MAGIC, .brk h⟩ sizes, res ≠ none) ↔
      h.md.allocated + (sizes.map blockSize).sum ≤ arena.dtLength := by
  induction sizes generalizing h with
  | nil => simpa [xthreadMallocs] using hallocated
  | cons size sizes ih =>
    have hsize := hsizes size List.mem_cons_self
    rw [xthreadMallocs, shmMalloc_default hptr hself, List.map_cons, List.sum_cons,
      List.forall_mem_cons]
    rcases breakMalloc_room dtrs hself hhdr hlength hallocated hsize with
      ⟨hfits, res, h', hmalloc, hamd, hhdr', hnext⟩ | ⟨hfull, hmalloc⟩
    · rw [hmalloc, ih (hamd ▸ hself) hhdr' (hnext ▸ hfits)
        fun n hn => hsizes n (List.mem_cons_of_mem size hn), hnext, Nat.add_assoc]
      simp
    · rw [hmalloc]
      constructor
      · rintro ⟨hnull, -⟩
        exact absurd rfl hnull
      · omega

end Mallocs

section ApplicationArena

variable {sys : ArenaSys} {dtrs : Dtrs} {seg : SegMd}

theorem padding_of_dvd {n : ℕ} (h : alignsz ∣ n) : padding n = 0 :=
  if_pos (Nat.mod_eq_zero_of_dvd h)

/-- On an aligned address the driver's metadata need no padding. -/
theorem breakInit_aligned (dtrs : Dtrs) (arena : Shmref) (hid : arena.dtShmid < dtrs.nshmsrc)
    (hpos : 0 < arena.dtLength)
    (hend : arena.dtOffset + arena.dtLength ≤ (dtrs.shmmap arena.dtShmid).size)
    (halign : alignsz ∣ (dtrs.shmmap arena.dtShmid).mapping + arena.dtOffset) :
    (breakMdSize ≤ arena.dtLength ∧ ∃ md, breakInit dtrs arena (newArenaMd arena) = some md ∧
      md.amd.self = arena ∧ md.hdrlen = 16 ∧ md.allocated = breakMdSize) ∨
    (arena.dtLength < breakMdSize ∧ breakInit dtrs arena (newArenaMd arena) = none) := by
  have hptr := shmref2ptr_eq_some hid (by omega) hend (Nat.zero_le arena.dtLength)
  have hmdsize : mdalignSize dtrs arena breakMdSize = breakMdSize := by
    unfold mdalignSize
    rw [hptr, Option.getD_some, padding_of_dvd (halign.add (by decide)), Nat.add_zero]
  unfold breakInit
  simp only [hmdsize]
  by_cases hfits : breakMdSize ≤ arena.dtLength
  · rw [shmref2ptr_eq_some hid (by omega) hend hfits]
    exact .inl ⟨hfits, _, rfl, rfl, rfl, rfl⟩
  · refine .inr ⟨by omega, ?_⟩
    cases hnull : shmref2ptr dtrs arena breakMdSize with
    | none => rfl
    | some ptr => exact absurd (shmref2ptr_spec hnull).2.2.2.1 hfits

/-- The application gets all that is left of segment 0, if the metadata fit into it. -/
theorem applicationArena_cases (husr : sys.usrmops = []) (hid : 0 < dtrs.nshmsrc)
    (hmagic : seg.segMdMagic = DTHREAD_SEG_MD_MAGIC) (hfirst : seg.firstAvail ≤ seg.endAvail)
    (hend : seg.endAvail = (dtrs.shmmap 0).size) (hsize : (dtrs.shmmap 0).size < 2 ^ 64)
    (hmapping : alignsz ∣ (dtrs.shmmap 0).mapping) (halign : alignsz ∣ seg.firstAvail)
    (mem : Mem) (daSrc : ℕ) :
    (seg.firstAvail + breakMdSize ≤ seg.endAvail ∧ ∃ h : BreakHeap,
      applicationArena sys dtrs seg mem daSrc =
        .ok (⟨0, seg.firstAvail, seg.endAvail - seg.firstAvail⟩,
          ⟨DTHREAD_SHM_MD_MAGIC, .brk h⟩) ∧
      h.md.amd.self = ⟨0, seg.firstAvail, seg.endAvail - seg.firstAvail⟩ ∧
      h.md.hdrlen = 16 ∧ h.md.allocated = breakMdSize) ∨
    (seg.endAvail < seg.firstAvail + breakMdSize ∧
      ∃ e, applicationArena sys dtrs seg mem daSrc = .error e) := by
  have hmopid : getMopid sys.usrmops "break" = some 0 := by
    rw [husr]
    rfl
  have hmops : mopid2ops sys.usrmops 0 = some .brk := by
    rw [husr]
    rfl
  have hzero : wrap64 (0 + padding 0) = 0 := rfl
  have halloc := shmsegAlloc_eq 0 hid hmagic hfirst hend.le hsize
  rw [hzero] at halloc
  unfold applicationArena shmNewArena
  rw [if_neg (by simp), hmopid]
  simp only [hmops]
  by_cases hfull : seg.firstAvail = seg.endAvail
  · rw [if_pos (.inl hfull)] at halloc
    refine .inr ⟨by unfold breakMdSize; omega, ENOMEM, ?_⟩
    rw [halloc]
  rw [if_neg (not_or.mpr ⟨hfull, Nat.not_lt_zero _⟩)] at halloc
  have hgrant : grant (seg.endAvail - seg.firstAvail) 0 = seg.endAvail - seg.firstAvail := rfl
  rw [halloc, hgrant]
  generalize harena : (⟨0, seg.firstAvail, seg.endAvail - seg.firstAvail⟩ : Shmref) = arena
  have hplace : arena.dtShmid = 0 ∧ arena.dtOffset = seg.firstAvail ∧
      arena.dtLength = seg.endAvail - seg.firstAvail := by
    rw [← harena]
    exact ⟨rfl, rfl, rfl⟩
  obtain ⟨hshmid, hoffset, hlength⟩ := hplace
  rcases breakInit_aligned dtrs arena (by omega) (by omega)
    (by rw [hshmid]; omega) (by rw [hshmid, hoffset]; exact hmapping.add halign) with
    ⟨hfits, md, hinit, hself, hhdr, hallocated⟩ | ⟨hshort, hinit⟩
  · refine .inl ⟨by omega, ?_⟩
    simp only [mopsInit, hinit]
    exact ⟨_, rfl, hself, hhdr, hallocated⟩
  · refine .inr ⟨by omega, ENOMEM, ?_⟩
    simp only [mopsInit, hinit]
    rfl

end ApplicationArena

end Dthread.Xthread
