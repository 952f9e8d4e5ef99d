import Dthread.ByteMemory
import Dthread.ShmRefs

/-!
The "bsd" malloc driver (dt_shmops.c): blocks of fixed sizes with a free list
for each size. The links of the free lists are in the blocks themselves, where
an allocated block has a magic number and its bucket. The lock is held around
every access, so a call is one step.
-/
namespace Dthread.BsdMalloc

open ByteMemory MachineInts ShmRefs

def NBUCKETS : ℕ := 60

def MAGIC : ℕ := 0x5555

/-- BUCKSIZE: a shift of an int, whose count the machine takes modulo 32. -/
def BUCKSIZE (x : ℕ) : ℤ := int32 (2 ^ ((x + 4) % 32))

def OV_MAGIC (x : ℕ) : ℕ := x % 2 ^ 16

def OV_INDEX (x : ℕ) : ℕ := x / 2 ^ 16 % 2 ^ 8

def OV_MAGIDX (i : ℕ) : ℕ := i % 2 ^ 8 * 2 ^ 16 + MAGIC

structure BsdMd where
  amd : AllocMd
  oversize : ℕ
  minbucket : ℕ
  pagesz : ℕ
  pagebucket : ℕ
  nextf : ℕ → ℕ
  nmalloc : ℕ → ℕ
  mycore : ℕ
  coreResid : ℕ

/-- sizeof(struct bsd_malloc_md). -/
def bsdMdSize : ℕ := 1056

/-- sizeof(union overhead). -/
def overheadSize : ℕ := 8

/-- The metadata and the bytes of the segment. -/
structure BsdHeap where
  md : BsdMd
  mem : Mem

/-- The loop that makes the overhead a multiple of the alignment. -/
def oversizeLoop : ℕ → ℕ → ℕ
  | 0, oversize => oversize
  | fuel + 1, oversize =>
    if oversize < overheadSize then oversizeLoop fuel (oversize + alignsz) else oversize

/-- The loops for minbucket and pagebucket: the first bucket of a size. -/
def bucketLoop (bound : ℤ) : ℕ → ℕ → ℕ
  | 0, bucket => bucket
  | fuel + 1, bucket =>
    if BUCKSIZE bucket < bound then bucketLoop bound fuel (bucket + 1) else bucket

/-- bsd_init; `none` is ENOMEM, `pagesz` the result of getpagesize. -/
def bsdInit (dtrs : Dtrs) (arena : Shmref) (amd : AllocMd) (pagesz : ℕ) : Option BsdMd :=
  let mdsize := mdalignSize dtrs arena bsdMdSize
  (shmref2ptr dtrs arena mdsize).map fun _ =>
    let oversize := oversizeLoop overheadSize 0
    { amd := { amd with
        minUoffset := wrap64 (amd.self.dtOffset + mdsize)
        badalignBits := alignsz - 1 }
      oversize := oversize
      minbucket := bucketLoop (1 + oversize) NBUCKETS 0
      pagesz := pagesz
      pagebucket := bucketLoop pagesz NBUCKETS 0
      nextf := fun _ => 0
      nmalloc := fun _ => 0
      mycore := wrap64 (arena.dtOffset + mdsize)
      coreResid := sub64 arena.dtLength mdsize }

/-- The loop of bsd_morecore that links `n` further blocks behind the one at
`op`, whose offset is `curoff`. -/
def linkBlocks (dtrs : Dtrs) (shmid sz : ℕ) : ℕ → Mem → ℕ → ℕ → Mem
  | 0, mem, _, op => store 8 mem (ptrOffset dtrs shmid op) 0
  | n + 1, mem, curoff, op =>
    let curoff := wrap64 (curoff + sz)
    linkBlocks dtrs shmid sz n (store 8 mem (ptrOffset dtrs shmid op) curoff) curoff (op + sz)

def bsdMorecore (dtrs : Dtrs) (h : BsdHeap) (bucket : ℕ) : BsdHeap :=
  let md := h.md
  let sz := toU64 (BUCKSIZE bucket)
  let amt := if sz < md.pagesz then md.pagesz else wrap64 (sz + md.pagesz)
  let nblks := if sz < md.pagesz then amt / sz else 1
  if bucket < md.minbucket ∨ NBUCKETS ≤ bucket then h
  else if md.coreResid < amt then h
  else
    match shmref2ptr dtrs ⟨md.amd.self.dtShmid, md.mycore, amt⟩ amt with
    | none => h
    | some op =>
      { md := { md with
          mycore := wrap64 (md.mycore + amt)
          coreResid := md.coreResid - amt
          nextf := Function.update md.nextf bucket md.mycore }
        mem := linkBlocks dtrs md.amd.self.dtShmid sz (nblks - 1) h.mem md.mycore op }

/-- The loop of bsd_malloc that looks for a bucket; `none` is the overflow of
`amt`, which a 64-bit value reaches before the fuel ends. -/
def bucketSearch (size n : ℕ) : ℕ → ℕ → ℕ → Option ℕ
  | 0, _, _ => none
  | fuel + 1, amt, bucket =>
    if wrap64 (amt + n) < size then
      let amt := wrap64 (amt * 2)
      if amt = 0 then none else bucketSearch size n fuel amt (bucket + 1)
    else some bucket

/-- The bucket that bsd_malloc uses for a size. -/
def sizeBucket (md : BsdMd) (size : ℕ) : Option ℕ :=
  if size ≤ toU64 (md.pagesz / 2 - md.oversize) then
    bucketSearch size (toU64 (-md.oversize)) 65 (toU64 (BUCKSIZE md.minbucket)) md.minbucket
  else
    bucketSearch size (toU64 (md.pagesz - md.oversize)) 65 md.pagesz md.pagebucket

/-- bsd_malloc: the pointer and the reference to the new block, or NULL. -/
def bsdMalloc (dtrs : Dtrs) (h : BsdHeap) (size : ℕ) : Option (ℕ × Shmref) × BsdHeap :=
  match sizeBucket h.md size with
  | none => (none, h)
  | some bucket =>
    let h := if h.md.nextf bucket = 0 then bsdMorecore dtrs h bucket else h
    let md := h.md
    let shmid := md.amd.self.dtShmid
    let ovoff := md.nextf bucket
    if ovoff = 0 then (none, h)
    else
      match shmref2ptr dtrs ⟨shmid, ovoff, md.oversize⟩ md.oversize with
      | none => (none, h)
      | some ovp =>
        (some (ovp + md.oversize, ⟨shmid, wrap64 (ovoff + md.oversize), size⟩),
          { md := { md with
              nextf := Function.update md.nextf bucket (load 8 h.mem (ptrOffset dtrs shmid ovp))
              nmalloc := Function.update md.nmalloc bucket (wrap64 (md.nmalloc bucket + 1)) }
            mem := store 8 h.mem (ptrOffset dtrs shmid ovp) (OV_MAGIDX bucket) })

/-- bsd_free. A reference that does not resolve makes it read through a null
pointer, hence `none`; its callers have checked that. -/
def bsdFree (dtrs : Dtrs) (h : BsdHeap) (ref : Shmref) : Option BsdHeap :=
  let md := h.md
  if ref.dtOffset < wrap64 (md.amd.minUoffset + md.oversize) then some h
  else
    (shmref2ptr dtrs ref 0).map fun ptr =>
      let ovp := ptrOffset dtrs ref.dtShmid (ptr - md.oversize)
      let bucket := OV_INDEX (load 8 h.mem ovp)
      if OV_MAGIC (load 8 h.mem ovp) ≠ MAGIC then h
      else if NBUCKETS ≤ bucket then h
      else
        { md := { md with
            nextf := Function.update md.nextf bucket (sub64 ref.dtOffset md.oversize)
            nmalloc := Function.update md.nmalloc bucket (sub64 (md.nmalloc bucket) 1) }
          mem := store 8 h.mem ovp (md.nextf bucket) }

/-- The user bytes of a block of a bucket, as bsd_realloc computes them. -/
def userBytes (md : BsdMd) (bucket : ℕ) : ℕ :=
  if toU64 (BUCKSIZE bucket) < md.pagesz then sub64 (toU64 (BUCKSIZE bucket)) md.oversize
  else wrap64 (toU64 (BUCKSIZE bucket) + toU64 (md.pagesz - md.oversize))

/-- bsd_realloc, with `none` as for bsd_free. -/
def bsdRealloc (dtrs : Dtrs) (h : BsdHeap) (inref : Shmref) (newSize : ℕ) :
    Option (Option (ℕ × Shmref) × BsdHeap) :=
  let md := h.md
  if inref.dtOffset < wrap64 (md.amd.minUoffset + md.oversize) then some (none, h)
  else
    match shmref2ptr dtrs inref 0 with
    | none => none
    | some ptr =>
      let ovp := ptrOffset dtrs inref.dtShmid (ptr - md.oversize)
      let bucket := OV_INDEX (load 8 h.mem ovp)
      if OV_MAGIC (load 8 h.mem ovp) ≠ MAGIC then some (none, h)
      else if bucket < md.minbucket ∨ NBUCKETS ≤ bucket then some (none, h)
      else
        let bucksize := userBytes md bucket
        let prevbucksize := if bucket ≤ md.minbucket then 0 else userBytes md (bucket - 1)
        if newSize ≤ bucksize ∧ (prevbucksize = 0 ∨ prevbucksize < newSize) then
          some (some (ptr, ⟨inref.dtShmid, inref.dtOffset, newSize⟩), h)
        else
          match bsdMalloc dtrs h newSize with
          | (none, h) => some (none, h)
          | (some (newptr, newref), h) =>
            let mem := memcpy h.mem (ptrOffset dtrs inref.dtShmid newptr)
              (ptrOffset dtrs inref.dtShmid ptr) (if newSize < bucksize then newSize else bucksize)
            (bsdFree dtrs { h with mem := mem } inref).map fun h => (some (newptr, newref), h)

end Dthread.BsdMalloc
