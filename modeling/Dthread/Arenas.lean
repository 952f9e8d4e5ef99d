import Dthread.BreakMalloc
import Dthread.BsdMalloc
import Dthread.Segments

/-!
Arenas for shared memory malloc (dt_shmops.c): the table of malloc drivers,
dthread_shm_new_arena with the bytes that it and the drivers write to the
segment, and the calls that check their arguments and enter the driver.
-/
namespace Dthread.Arenas

open ByteMemory MachineInts ShmRefs ReqMsg Segments BreakMalloc BsdMalloc

def ENOENT : ℕ := 2

/-- The part of a user's dthread_shm_alloc_ops_t that sets up an arena: what its init
returns, and what it makes of the segment. -/
structure UserMops where
  name : String
  init : Shmref → Mem → ℕ × Mem

inductive Mops
  | brk
  | bsd
  | user (m : UserMops)

def internalMops : List (String × Mops) := [("break", .brk), ("bsd", .bsd)]

def NINT_MOPS : ℕ := internalMops.length

/-- dthread_get_mopid, with `none` for -1. The drivers of the user come first. -/
def getMopid (usrmops : List UserMops) (name : String) : Option ℕ :=
  match usrmops.findIdx? (·.name = name) with
  | some i => some (NINT_MOPS + i)
  | none => internalMops.findIdx? (·.1 = name)

def mopid2ops (usrmops : List UserMops) (mopid : ℕ) : Option Mops :=
  if mopid < NINT_MOPS then internalMops[mopid]?.map Prod.snd
  else usrmops[mopid - NINT_MOPS]?.map .user

def DTHREAD_SHM_MD_MAGIC : ℕ := 0x647468626d643030

/-- What the process has: its page size, the drivers of the user, and the word of a
spin lock that nobody holds. -/
structure ArenaSys where
  pagesize : ℕ
  usrmops : List UserMops
  unlocked : ℕ

/-- The header that dthread_shm_new_arena writes, a dthread_shm_alloc_md_t. -/
def allocMdFields (amd : AllocMd) (mopid unlocked : ℕ) : List Field :=
  [⟨0, 8, DTHREAD_SHM_MD_MAGIC⟩, ⟨8, 8, amd.self.dtShmid⟩, ⟨16, 8, amd.self.dtOffset⟩,
    ⟨24, 8, amd.self.dtLength⟩, ⟨32, 8, amd.minUoffset⟩, ⟨40, 8, amd.maxUoffset⟩,
    ⟨48, 8, amd.badalignBits⟩, ⟨56, 4, mopid⟩, ⟨60, 4, unlocked⟩]

/-- The fields of the struct break_malloc_md that break_init sets. -/
def breakMdFields (md : BreakMd) (unlocked : ℕ) : List Field :=
  [⟨32, 8, md.amd.minUoffset⟩, ⟨48, 8, md.amd.badalignBits⟩, ⟨64, 8, md.allocated⟩,
    ⟨72, 4, md.hdrlen⟩, ⟨76, 4, toU64 md.nalloc⟩, ⟨60, 4, unlocked⟩]

/-- The fields of the struct bsd_malloc_md that bsd_init sets before the lists. -/
def bsdMdFields (md : BsdMd) : List Field :=
  [⟨32, 8, md.amd.minUoffset⟩, ⟨48, 8, md.amd.badalignBits⟩, ⟨64, 4, md.oversize⟩,
    ⟨68, 4, md.minbucket⟩, ⟨72, 4, md.pagesz⟩, ⟨76, 4, md.pagebucket⟩]

/-- The fields that it sets behind the lists. -/
def bsdCoreFields (md : BsdMd) (unlocked : ℕ) : List Field :=
  [⟨1040, 8, md.mycore⟩, ⟨1048, 8, md.coreResid⟩, ⟨60, 4, unlocked⟩]

/-- The init of a driver on the bytes of the segment: its result, and the bytes. -/
def mopsInit (sys : ArenaSys) (dtrs : Dtrs) (mops : Mops) (arena : Shmref) (mem : Mem) :
    ℕ × Mem :=
  match mops with
  | .brk =>
    match breakInit dtrs arena (newArenaMd arena) with
    | none => (ENOMEM, mem)
    | some md => (0, storeFields mem arena.dtOffset (breakMdFields md sys.unlocked))
  | .bsd =>
    match bsdInit dtrs arena (newArenaMd arena) sys.pagesize with
    | none => (ENOMEM, mem)
    | some md =>
      let mem := storeFields mem arena.dtOffset (bsdMdFields md)
      let mem := memset mem (arena.dtOffset + 80) 0 (NBUCKETS * 8)
      let mem := memset mem (arena.dtOffset + 560) 0 (NBUCKETS * 8)
      (0, storeFields mem arena.dtOffset (bsdCoreFields md sys.unlocked))
  | .user m => m.init arena mem

/-- What dthread_shm_new_arena returns and leaves. Its `arena` is what it stores
through newarena. -/
structure NewArena where
  rv : ℕ
  arena : Option Shmref
  seg : SegMd
  mem : Mem

/-- dthread_shm_new_arena, with the result of taking the segment's lock. -/
def shmNewArena (sys : ArenaSys) (dtrs : Dtrs) (seg : SegMd) (mem : Mem) (spinErr shmid : ℕ)
    (name : String) (size : ℕ) : NewArena :=
  if size ≠ 0 ∧ size < sys.pagesize then ⟨EINVAL, none, seg, mem⟩
  else
    match getMopid sys.usrmops name with
    | none => ⟨ENOENT, none, seg, mem⟩
    | some mopid =>
      match mopid2ops sys.usrmops mopid with
      | none => ⟨ENOENT, none, seg, mem⟩
      | some mops =>
        match shmsegAlloc dtrs seg spinErr shmid size with
        | (none, seg) => ⟨ENOMEM, none, seg, mem⟩
        | (some (_, arena), seg) =>
          let mem := storeFields mem arena.dtOffset
            (allocMdFields (newArenaMd arena) mopid sys.unlocked)
          let init := mopsInit sys dtrs mops arena mem
          ⟨init.1, some arena, seg, init.2⟩

/-- dthread_ptr2shmref; `none` is EINVAL. The loop takes the first segment that the
pointer is in. -/
def ptr2shmref (dtrs : Dtrs) (ptr len : ℕ) : Option Shmref :=
  match (List.range dtrs.nshmsrc).find? fun shmid =>
      (dtrs.shmmap shmid).mapping ≤ ptr ∧
        ptr - (dtrs.shmmap shmid).mapping < (dtrs.shmmap shmid).size with
  | none => none
  | some shmid =>
    let offset := ptr - (dtrs.shmmap shmid).mapping
    if (dtrs.shmmap shmid).size - offset < len then none else some ⟨shmid, offset, len⟩

/-- The state of the driver that the mopid in an arena's metadata selects. -/
inductive DriverHeap
  | brk (h : BreakHeap)
  | bsd (h : BsdHeap)

def DriverHeap.amd : DriverHeap → AllocMd
  | .brk h => h.md.amd
  | .bsd h => h.md.amd

/-- An arena of one of the two drivers. -/
structure ArenaHeap where
  mdmagic : ℕ
  driver : DriverHeap

/-- dthread_shm_validate_args: the arena, or the default one, and the reference that a
pointer stands for; `none` is NULL. `st` is what the arena's reference leads to. -/
def shmValidateArgs (dtrs : Dtrs) (defarena arena : Option Shmref) (st : ArenaHeap)
    (ptr : Option ℕ) (inref : Option Shmref) : Option (Shmref × Option Shmref) := do
  let arena ← arena.or defarena
  let md := st.driver.amd
  let _ ← shmref2ptr dtrs arena allocMdSize
  if st.mdmagic ≠ DTHREAD_SHM_MD_MAGIC ∨ arena ≠ md.self then none
  let outside (ref : Shmref) : Bool :=
    ref.dtShmid ≠ arena.dtShmid ∨ ref.dtOffset < md.minUoffset ∨ md.maxUoffset ≤ ref.dtOffset
  let outptref ← match ptr with
    | none => some none
    | some ptr =>
      match ptr2shmref dtrs ptr 0 with
      | none => none
      | some ref => if outside ref ∨ ptr &&& md.badalignBits ≠ 0 then none else some (some ref)
  match inref with
  | none => some (arena, outptref)
  | some ref =>
    if outside ref ∨ ref.dtOffset &&& md.badalignBits ≠ 0 then none else some (arena, outptref)

/-- The malloc of the arena's driver. -/
def driverMalloc (dtrs : Dtrs) (arena : Shmref) (st : ArenaHeap) (len : ℕ) :
    Option (ℕ × Shmref) × ArenaHeap :=
  match st.driver with
  | .brk h =>
    let r := breakMalloc dtrs arena h len
    (r.1, { st with driver := .brk r.2 })
  | .bsd h =>
    let r := bsdMalloc dtrs h len
    (r.1, { st with driver := .bsd r.2 })

/-- Its free, with `none` for an access through a null pointer. -/
def driverFree (dtrs : Dtrs) (st : ArenaHeap) (ref : Shmref) : Option ArenaHeap :=
  match st.driver with
  | .brk h => (breakFree dtrs h ref).map fun h => { st with driver := .brk h }
  | .bsd h => (bsdFree dtrs h ref).map fun h => { st with driver := .bsd h }

/-- Its realloc. -/
def driverRealloc (dtrs : Dtrs) (arena : Shmref) (st : ArenaHeap) (inref : Shmref) (len : ℕ) :
    Option (Option (ℕ × Shmref) × ArenaHeap) :=
  match st.driver with
  | .brk h =>
    (breakRealloc dtrs arena h inref len).map fun r => (r.1, { st with driver := .brk r.2 })
  | .bsd h => (bsdRealloc dtrs h inref len).map fun r => (r.1, { st with driver := .bsd r.2 })

section Calls

variable (dtrs : Dtrs) (defarena arena : Option Shmref) (st : ArenaHeap)

/-- dthread_shm_malloc. -/
def shmMalloc (len : ℕ) : Option (ℕ × Shmref) × ArenaHeap :=
  match shmValidateArgs dtrs defarena arena st none none with
  | none => (none, st)
  | some (arena, _) => driverMalloc dtrs arena st len

/-- dthread_shm_free; the pointer 0 is NULL. -/
def shmFree (ptr : ℕ) : Option ArenaHeap :=
  if ptr = 0 then some st
  else
    match shmValidateArgs dtrs defarena arena st (some ptr) none with
    | some (_, some ref) => driverFree dtrs st ref
    | _ => some st

/-- dthread_shm_free_ref. -/
def shmFreeRef (ref : Option Shmref) : Option ArenaHeap :=
  match ref with
  | none => some st
  | some ref =>
    if ref.dtLength = 0 then some st
    else
      match shmValidateArgs dtrs defarena arena st none (some ref) with
      | none => some st
      | some _ => driverFree dtrs st ref

/-- dthread_shm_realloc. -/
def shmRealloc (ptr len : ℕ) : Option (Option (ℕ × Shmref) × ArenaHeap) :=
  if ptr = 0 then some (shmMalloc dtrs defarena arena st len)
  else
    match shmValidateArgs dtrs defarena arena st (some ptr) none with
    | some (arena, some ref) => driverRealloc dtrs arena st ref len
    | _ => some (none, st)

/-- dthread_shm_realloc_ref. -/
def shmReallocRef (inref : Option Shmref) (len : ℕ) : Option (Option (ℕ × Shmref) × ArenaHeap) :=
  match inref with
  | none => some (shmMalloc dtrs defarena arena st len)
  | some inref =>
    if inref.dtLength = 0 then some (shmMalloc dtrs defarena arena st len)
    else
      match shmValidateArgs dtrs defarena arena st none (some inref) with
      | none => some (none, st)
      | some (arena, _) => driverRealloc dtrs arena st inref len

end Calls

/-- A request for an arena is refused without a change, or the driver sets up the space
that the segment gave. -/
theorem shmNewArena_cases (sys : ArenaSys) (dtrs : Dtrs) (seg : SegMd) (mem : Mem)
    (spinErr shmid : ℕ) (name : String) (size : ℕ) :
    (∃ rv, rv ≠ 0 ∧ shmNewArena sys dtrs seg mem spinErr shmid name size = ⟨rv, none, seg, mem⟩) ∨
    ∃ mopid mops ptr arena seg', getMopid sys.usrmops name = some mopid ∧
      mopid2ops sys.usrmops mopid = some mops ∧
      shmsegAlloc dtrs seg spinErr shmid size = (some (ptr, arena), seg') ∧
      shmNewArena sys dtrs seg mem spinErr shmid name size =
        ⟨(mopsInit sys dtrs mops arena (storeFields mem arena.dtOffset
            (allocMdFields (newArenaMd arena) mopid sys.unlocked))).1, some arena, seg',
          (mopsInit sys dtrs mops arena (storeFields mem arena.dtOffset
            (allocMdFields (newArenaMd arena) mopid sys.unlocked))).2⟩ := by
  unfold shmNewArena
  split
  · exact .inl ⟨EINVAL, by decide, rfl⟩
  split
  · exact .inl ⟨ENOENT, by decide, rfl⟩
  next mopid hmopid =>
  split
  · exact .inl ⟨ENOENT, by decide, rfl⟩
  next mops hmops =>
  split
  next seg' hnull =>
    have hsame : seg' = seg := shmsegAlloc_null hnull
    rw [hsame]
    exact .inl ⟨ENOMEM, by decide, rfl⟩
  next ptr arena seg' halloc =>
    exact .inr ⟨mopid, mops, ptr, arena, seg', hmopid, hmops, halloc, rfl⟩

end Dthread.Arenas
