import Dthread.ByteMemory
import Dthread.ShmRefs

/-!
The "break" malloc driver (dt_shmops.c): a break line that moves up with every
allocation and back to the start when nothing is allocated any more. The lock
is held around every access, so a call is one step.
-/
namespace Dthread.BreakMalloc

open ByteMemory MachineInts ShmRefs

structure BreakMd where
  amd : AllocMd
  allocated : ℕ
  hdrlen : ℕ
  nalloc : ℤ
deriving DecidableEq, Repr

/-- sizeof(struct break_malloc_md). -/
def breakMdSize : ℕ := 80

def BREAK_BEFORE : ℕ := 0xbef01e12

def BREAK_AFTER : ℕ := 0xaf1e1345

/-- What break_free leaves of a header's first word. -/
def BREAK_DEAD : ℕ := 0xdeaddead

/-- The metadata and the bytes of the segment. -/
structure BreakHeap where
  md : BreakMd
  mem : Mem

/-- break_init; `none` is ENOMEM. -/
def breakInit (dtrs : Dtrs) (arena : Shmref) (amd : AllocMd) : Option BreakMd :=
  let mdsize := mdalignSize dtrs arena breakMdSize
  (shmref2ptr dtrs arena mdsize).map fun _ =>
    { amd := { amd with
        minUoffset := wrap64 (amd.self.dtOffset + mdsize)
        badalignBits := alignsz - 1 }
      allocated := mdsize
      hdrlen := 4 * 4 + padding (4 * 4)
      nalloc := 0 }

/-- The four words of a header. -/
def writeHdr (mem : Mem) (hdr size : ℕ) : Mem :=
  let mem := store 4 mem hdr BREAK_BEFORE
  let mem := store 4 mem (hdr + 4) (size / 2 ^ 32)
  let mem := store 4 mem (hdr + 8) (size % 2 ^ 32)
  store 4 mem (hdr + 12) BREAK_AFTER

/-- break_malloc: the pointer and the reference to the new block, or NULL. -/
def breakMalloc (dtrs : Dtrs) (arena : Shmref) (h : BreakHeap) (size : ℕ) :
    Option (ℕ × Shmref) × BreakHeap :=
  let md := h.md
  let total := wrap64 (size + padding size + md.hdrlen)
  if total ≤ sub64 md.amd.self.dtLength md.allocated then
    let hdr := (dtrs.shmmap arena.dtShmid).mapping + (arena.dtOffset + md.allocated)
    (some (hdr + md.hdrlen,
        ⟨arena.dtShmid, wrap64 (arena.dtOffset + md.allocated + md.hdrlen), size⟩),
      { md := { md with
          allocated := wrap64 (md.allocated + total)
          nalloc := int32 (md.nalloc + 1) }
        mem := writeHdr h.mem (ptrOffset dtrs arena.dtShmid hdr) size })
  else (none, h)

/-- Both magic words are in place. -/
def hasMagic (mem : Mem) (hdr : ℕ) : Prop :=
  load 4 mem hdr = BREAK_BEFORE ∧ load 4 mem (hdr + 12) = BREAK_AFTER

instance (mem : Mem) (hdr : ℕ) : Decidable (hasMagic mem hdr) :=
  inferInstanceAs (Decidable (_ ∧ _))

/-- break_free. A reference that does not resolve makes it read through a null
pointer, hence `none`; its callers have checked that. -/
def breakFree (dtrs : Dtrs) (h : BreakHeap) (ref : Shmref) : Option BreakHeap :=
  let md := h.md
  if ref.dtOffset < wrap64 (md.amd.minUoffset + md.hdrlen) then some h
  else
    (shmref2ptr dtrs ref 0).map fun ptr =>
      let hdr := ptrOffset dtrs ref.dtShmid (ptr - md.hdrlen)
      if hasMagic h.mem hdr then
        let nalloc := if 0 < md.nalloc then md.nalloc - 1 else md.nalloc
        { md := { md with
            nalloc := nalloc
            allocated :=
              if nalloc = 0 then sub64 md.amd.minUoffset md.amd.self.dtOffset
              else md.allocated }
          mem := store 4 h.mem hdr BREAK_DEAD }
      else h

/-- The size in a header. -/
def hdrSize (mem : Mem) (hdr : ℕ) : ℕ := load 4 mem (hdr + 4) * 2 ^ 32 + load 4 mem (hdr + 8)

/-- break_realloc, with `none` as for break_free. -/
def breakRealloc (dtrs : Dtrs) (arena : Shmref) (h : BreakHeap) (inref : Shmref)
    (newSize : ℕ) : Option (Option (ℕ × Shmref) × BreakHeap) :=
  let md := h.md
  if inref.dtOffset < wrap64 (md.amd.minUoffset + md.hdrlen) then some (none, h)
  else
    match shmref2ptr dtrs inref 0 with
    | none => none
    | some ptr =>
      let hdr := ptrOffset dtrs inref.dtShmid (ptr - md.hdrlen)
      if hasMagic h.mem hdr then
        let oldSize := hdrSize h.mem hdr
        if newSize ≤ oldSize then
          some (some (ptr, ⟨arena.dtShmid, ptrOffset dtrs arena.dtShmid ptr, newSize⟩), h)
        else
          match breakMalloc dtrs arena h newSize with
          | (none, h) => some (none, h)
          | (some (newptr, newref), h) =>
            let mem := memcpy h.mem (ptrOffset dtrs arena.dtShmid newptr)
              (ptrOffset dtrs arena.dtShmid ptr) oldSize
            (breakFree dtrs { h with mem := mem } inref).map fun h =>
              (some (newptr, newref), h)
      else some (none, h)

end Dthread.BreakMalloc
