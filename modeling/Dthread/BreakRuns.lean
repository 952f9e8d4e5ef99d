import Mathlib.Logic.Relation
import Dthread.BreakMalloc
import Dthread.Extents

/-!
Runs of the break allocator. The live blocks lie in address order below the
break line and each keeps its header, whatever is written to their data.
-/
namespace Dthread.BreakRuns

open ByteMemory MachineInts Extents ShmRefs BreakMalloc

/-- A live block: where its header is in the segment, and the size in it. -/
structure Block where
  hdr : ℕ
  size : ℕ
deriving DecidableEq, Repr

namespace Block

/-- Where the data of a block start. -/
def off (b : Block) : ℕ := b.hdr + 16

/-- Header, data and padding. -/
def extent (b : Block) : Extent := ⟨b.hdr, 16 + (b.size + padding b.size)⟩

/-- A reference to a live block as malloc or realloc returned it, or as it is
made from a pointer. -/
structure Named (b : Block) (arena ref : Shmref) : Prop where
  shmid : ref.dtShmid = arena.dtShmid
  offset : ref.dtOffset = b.off
  length : ref.dtLength ≤ b.size

/-- The header as break_malloc wrote it. -/
structure Intact (b : Block) (mem : Mem) : Prop where
  magic : hasMagic mem b.hdr
  size : hdrSize mem b.hdr = b.size

end Block

/-- The allocator and its live blocks. -/
structure BreakState where
  heap : BreakHeap
  live : List Block

/-- The live blocks after a realloc of `b`. -/
def reallocLive (live : List Block) (b : Block) (newSize : ℕ) :
    Option (ℕ × Shmref) → List Block
  | none => live
  | some (_, ref) =>
    if ref.dtOffset = b.off then live else live.erase b ++ [⟨ref.dtOffset - 16, newSize⟩]

/-- An arena of any length set up by break_init on one of the ranks. -/
structure BreakRegion where
  dtrs₀ : Dtrs
  arena : Shmref
  md₀ : BreakMd
  init : breakInit dtrs₀ arena (newArenaMd arena) = some md₀
  segment : (dtrs₀.shmmap arena.dtShmid).size < 2 ^ 64

/-- An arena of at most 32 GiB. -/
structure BreakArena extends BreakRegion where
  length : arena.dtLength ≤ 2 ^ 35

/-- The calls that any rank may make with the sizes that `ok` admits, and the writes of
users. The callers of break_free and break_realloc have checked that the reference is in
the arena. -/
inductive BreakMove (ok : BreakState → ℕ → Prop) (A : BreakRegion) (s : BreakState) :
    BreakState → Prop
  | malloc (dtrs : Dtrs) (size : ℕ) (hd : Attached A.dtrs₀ dtrs A.arena.dtShmid)
      (hsize : ok s size) (res : Option (ℕ × Shmref)) (heap : BreakHeap)
      (h : breakMalloc dtrs A.arena s.heap size = (res, heap)) :
      BreakMove ok A s ⟨heap, s.live ++ res.toList.map fun r => ⟨r.2.dtOffset - 16, size⟩⟩
  | free (dtrs : Dtrs) (b : Block) (ref : Shmref) (hd : Attached A.dtrs₀ dtrs A.arena.dtShmid)
      (hb : b ∈ s.live) (href : b.Named A.arena ref)
      (hin : ref.dtOffset < s.heap.md.amd.maxUoffset) (heap : BreakHeap)
      (h : breakFree dtrs s.heap ref = some heap) : BreakMove ok A s ⟨heap, s.live.erase b⟩
  | realloc (dtrs : Dtrs) (b : Block) (ref : Shmref) (newSize : ℕ)
      (hd : Attached A.dtrs₀ dtrs A.arena.dtShmid) (hb : b ∈ s.live)
      (href : b.Named A.arena ref) (hin : ref.dtOffset < s.heap.md.amd.maxUoffset)
      (hsize : ok s newSize) (res : Option (ℕ × Shmref)) (heap : BreakHeap)
      (h : breakRealloc dtrs A.arena s.heap ref newSize = some (res, heap)) :
      BreakMove ok A s ⟨heap, reallocLive s.live b newSize res⟩
  | write (b : Block) (x : ℕ) (v : UInt8) (hb : b ∈ s.live) (hlo : b.off ≤ x)
      (hhi : x < b.off + b.size) :
      BreakMove ok A s ⟨{ s.heap with mem := Function.update s.heap.mem x v }, s.live⟩

theorem BreakMove.mono {ok ok' : BreakState → ℕ → Prop} {A : BreakRegion} {s s' : BreakState}
    (hok : ∀ size, ok s size → ok' s size) (h : BreakMove ok A s s') : BreakMove ok' A s s' := by
  cases h with
  | malloc dtrs size hd hsize res heap hcall =>
    exact .malloc dtrs size hd (hok size hsize) res heap hcall
  | free dtrs b ref hd hb href hin heap hcall => exact .free dtrs b ref hd hb href hin heap hcall
  | realloc dtrs b ref newSize hd hb href hin hsize res heap hcall =>
    exact .realloc dtrs b ref newSize hd hb href hin (hok newSize hsize) res heap hcall
  | write b x v hb hlo hhi => exact .write b x v hb hlo hhi

/-- The calls on an arena of at most 32 GiB, with sizes that do not wrap. -/
def BreakStep (A : BreakArena) : BreakState → BreakState → Prop :=
  BreakMove (fun _ size => size + padding size + 16 < 2 ^ 64) A.toBreakRegion

/-- Header, size and padding do not wrap, or what they wrap to is rejected. -/
def SizeOk (md : BreakMd) (size : ℕ) : Prop :=
  size + padding size + 16 < 2 ^ 64 ∨
    (2 ^ 64 - 16 < size ∧ size < 2 ^ 64 ∧ md.amd.self.dtLength - md.allocated < 16)

/-- The calls on an arena of any length. The counter of the blocks is an int, so
there are at most 2^31 - 2 of them when one is allocated. -/
def BreakCall : BreakRegion → BreakState → BreakState → Prop :=
  BreakMove fun s size => SizeOk s.heap.md size ∧ s.live.length + 1 < 2 ^ 31

namespace BreakRegion

variable (A : BreakRegion)

/-- The space that break_init reserves for the metadata. -/
def mdsize : ℕ := mdalignSize A.dtrs₀ A.arena breakMdSize

/-- Where the segment is on the rank that made the arena. -/
def mapping : ℕ := (A.dtrs₀.shmmap A.arena.dtShmid).mapping

/-- The state that break_init leaves, over any contents of the memory. -/
def start (mem : Mem) : BreakState := ⟨⟨A.md₀, mem⟩, []⟩

def Reachable (mem : Mem) : BreakState → Prop :=
  Relation.ReflTransGen (BreakCall A) (A.start mem)

theorem init_spec :
    (A.arena.dtShmid < A.dtrs₀.nshmsrc ∧
      A.arena.dtOffset + A.arena.dtLength ≤ (A.dtrs₀.shmmap A.arena.dtShmid).size ∧
      A.mdsize ≤ A.arena.dtLength ∧ (A.mapping + A.arena.dtOffset + A.mdsize) % 16 = 0) ∧
    A.md₀ = ⟨⟨A.arena, A.arena.dtOffset + A.mdsize, A.arena.dtOffset + A.arena.dtLength, 15⟩,
      A.mdsize, 16, 0⟩ := by
  have hinit := A.init
  have hseg := A.segment
  unfold breakInit at hinit
  simp only [Option.map_eq_some_iff] at hinit
  obtain ⟨ptr, hptr, hmd⟩ := hinit
  obtain ⟨hid, hoff, hlen, hmdsize, -⟩ := shmref2ptr_spec hptr
  have hfold : mdalignSize A.dtrs₀ A.arena breakMdSize = A.mdsize := rfl
  refine ⟨⟨hid, hlen, hmdsize, mdalignSize_aligned breakMdSize hptr⟩, ?_⟩
  rw [← hmd]
  rw [hfold] at hmdsize ⊢
  simp only [newArenaMd]
  rw [wrap64_of_lt (by omega), wrap64_of_lt (by omega)]
  rfl

theorem mdsize_ge : 80 ≤ A.mdsize := Nat.le_add_right _ _

end BreakRegion

def BreakArena.Reachable (A : BreakArena) (mem : Mem) : BreakState → Prop :=
  Relation.ReflTransGen (BreakStep A) (A.start mem)

section Header

theorem onlyAt_writeHdr (mem : Mem) (hdr size : ℕ) :
    OnlyAt mem (writeHdr mem hdr size) hdr 16 := by
  have hword (m : Mem) (i v : ℕ) (hi : i + 4 ≤ 16) : OnlyAt m (store 4 m (hdr + i) v) hdr 16 :=
    (onlyAt_store 4 m (hdr + i) v).mono (by omega) (by omega)
  unfold writeHdr
  exact (((hword _ 0 _ (by omega)).trans (hword _ 4 _ (by omega))).trans
    (hword _ 8 _ (by omega))).trans (hword _ 12 _ (by omega))

theorem intact_writeHdr (mem : Mem) {b : Block} (hsize : b.size < 2 ^ 64) :
    b.Intact (writeHdr mem b.hdr b.size) := by
  have hnext (m : Mem) (i j v : ℕ) (hij : j + 4 ≤ i ∨ i + 4 ≤ j) :
      load 4 (store 4 m (b.hdr + i) v) (b.hdr + j) = load 4 m (b.hdr + j) :=
    load_of_onlyAt (onlyAt_store 4 m (b.hdr + i) v) (by omega)
  have hself (m : Mem) (i v : ℕ) (hv : v < 2 ^ 32) :
      load 4 (store 4 m (b.hdr + i) v) (b.hdr + i) = v :=
    load_store_self m _ (by simpa using hv)
  have hhi : b.size / 2 ^ 32 < 2 ^ 32 := by omega
  have hlo : b.size % 2 ^ 32 < 2 ^ 32 := Nat.mod_lt _ (by norm_num)
  unfold writeHdr
  refine ⟨⟨?_, ?_⟩, ?_⟩
  · rw [← Nat.add_zero b.hdr, hnext _ 12 0 _ (by omega), hnext _ 8 0 _ (by omega),
      hnext _ 4 0 _ (by omega), hself _ 0 _ (by norm_num [BREAK_BEFORE])]
  · rw [hself _ 12 _ (by norm_num [BREAK_AFTER])]
  · unfold hdrSize
    rw [hnext _ 12 4 _ (by omega), hnext _ 8 4 _ (by omega), hself _ 4 _ hhi,
      hnext _ 12 8 _ (by omega), hself _ 8 _ hlo]
    omega

/-- A header survives what is written elsewhere. -/
theorem Block.Intact.of_onlyAt {b : Block} {mem mem' : Mem} {a n : ℕ} (h : b.Intact mem)
    (ho : OnlyAt mem mem' a n) (hd : b.hdr + 16 ≤ a ∨ a + n ≤ b.hdr) : b.Intact mem' := by
  have hload (i : ℕ) (hi : i + 4 ≤ 16) : load 4 mem' (b.hdr + i) = load 4 mem (b.hdr + i) :=
    load_of_onlyAt ho (by omega)
  have hzero := hload 0 (by omega)
  rw [Nat.add_zero] at hzero
  refine ⟨⟨?_, ?_⟩, ?_⟩
  · rw [hzero, h.magic.1]
  · rw [hload 12 (by omega), h.magic.2]
  · rw [← h.size]
    unfold hdrSize
    rw [hload 4 (by omega), hload 8 (by omega)]

end Header

/-- What every state of a run has. -/
structure BreakInv (A : BreakRegion) (s : BreakState) : Prop where
  md : s.heap.md = { A.md₀ with allocated := s.heap.md.allocated, nalloc := s.live.length }
  ordered : Ordered (A.arena.dtOffset + A.mdsize) (A.arena.dtOffset + s.heap.md.allocated)
    (s.live.map Block.extent)
  bound : s.heap.md.allocated ≤ A.arena.dtLength
  aligned : (A.mapping + A.arena.dtOffset + s.heap.md.allocated) % 16 = 0
  block : ∀ b ∈ s.live, (A.mapping + b.hdr) % 16 = 0 ∧ b.Intact s.heap.mem
  reset : s.live = [] → s.heap.md.allocated = A.mdsize

namespace BreakInv

variable {A : BreakRegion} {s : BreakState}

theorem start (A : BreakRegion) (mem : Mem) : BreakInv A (A.start mem) := by
  obtain ⟨⟨-, hlen, hmd, hal⟩, heq⟩ := A.init_spec
  have halloc : A.md₀.allocated = A.mdsize := by rw [heq]
  refine ⟨?_, ?_, ?_, ?_, fun b hb => absurd hb List.not_mem_nil, fun _ => halloc⟩
  · simp only [BreakRegion.start, heq]
    rfl
  · simp only [BreakRegion.start, List.map_nil, Ordered, halloc, le_refl]
  · simpa only [BreakRegion.start, halloc] using hmd
  · simpa only [BreakRegion.start, halloc] using hal

theorem lower (h : BreakInv A s) : A.mdsize ≤ s.heap.md.allocated := by
  have := h.ordered.le
  omega

theorem extent_inside (h : BreakInv A s) {b : Block} (hb : b ∈ s.live) :
    A.arena.dtOffset + A.mdsize ≤ b.hdr ∧
      b.off + (b.size + padding b.size) ≤ A.arena.dtOffset + s.heap.md.allocated := by
  obtain ⟨hlo, hhi⟩ := h.ordered.inside (List.mem_map_of_mem hb)
  simp only [Block.extent, Extent.stop] at hlo hhi
  unfold Block.off
  omega

/-- Headers alone fill the arena before the counter could overflow. -/
theorem count (h : BreakInv A s) : 16 * s.live.length + A.mdsize ≤ s.heap.md.allocated := by
  have hlen := h.ordered.length_le (k := 16) fun e he => by
    obtain ⟨b, -, rfl⟩ := List.mem_map.mp he
    exact Nat.le_add_right _ _
  rw [List.length_map] at hlen
  omega

theorem apart (h : BreakInv A s) {b c : Block} (hb : b ∈ s.live) (hc : c ∈ s.live)
    (hne : b ≠ c) :
    b.off + (b.size + padding b.size) ≤ c.hdr ∨ c.off + (c.size + padding c.size) ≤ b.hdr := by
  have hap := h.ordered.apart hb hc hne
  simp only [Extent.Apart, Extent.stop, Block.extent] at hap
  unfold Block.off
  omega

theorem nodup (h : BreakInv A s) : s.live.Nodup :=
  h.ordered.nodup fun b _ => by
    have hpos : 0 < 16 + (b.size + padding b.size) := by omega
    exact hpos

/-- The metadata in full. -/
theorem md_eq (h : BreakInv A s) :
    s.heap.md = ⟨⟨A.arena, A.arena.dtOffset + A.mdsize, A.arena.dtOffset + A.arena.dtLength, 15⟩,
      s.heap.md.allocated, 16, s.live.length⟩ := by
  rw [h.md, A.init_spec.2]

/-- The block that a malloc of `size` bytes gives if it succeeds. -/
def nextBlock (A : BreakRegion) (s : BreakState) (size : ℕ) : Block :=
  ⟨A.arena.dtOffset + s.heap.md.allocated, size⟩

/-- The allocator after a successful malloc. -/
def grown (A : BreakRegion) (s : BreakState) (size : ℕ) : BreakState where
  heap := {
    md := { s.heap.md with
      allocated := s.heap.md.allocated + (16 + (size + padding size))
      nalloc := s.live.length + 1 }
    mem := writeHdr s.heap.mem (A.arena.dtOffset + s.heap.md.allocated) size }
  live := s.live ++ [nextBlock A s size]

/-- break_malloc takes the space behind the break line if it is large enough. -/
theorem breakMalloc_eq (h : BreakInv A s) (dtrs : Dtrs) {size : ℕ}
    (hsize : SizeOk s.heap.md size) (hcount : s.live.length + 1 < 2 ^ 31) :
    breakMalloc dtrs A.arena s.heap size =
      if s.heap.md.allocated + (16 + (size + padding size)) ≤ A.arena.dtLength then
        (some ((dtrs.shmmap A.arena.dtShmid).mapping + (nextBlock A s size).off,
          ⟨A.arena.dtShmid, (nextBlock A s size).off, size⟩), (grown A s size).heap)
      else (none, s.heap) := by
  obtain ⟨⟨-, hseg, -, -⟩, -⟩ := A.init_spec
  have hbound := h.bound
  have h64 := A.segment
  have hself : s.heap.md.amd.self = A.arena := by rw [h.md_eq]
  have hhdr : s.heap.md.hdrlen = 16 := by rw [h.md_eq]
  have hn : s.heap.md.nalloc = s.live.length := by rw [h.md_eq]
  unfold breakMalloc
  simp only [hself, hhdr, hn]
  rw [sub64_of_le hbound (by omega)]
  rcases hsize with hsize | ⟨hwrap, hlt, hfull⟩
  swap
  · have htotal : wrap64 (size + padding size + 16) = 16 := by
      have hpad := add_padding_mod size
      have hpadlt := padding_lt size
      unfold alignsz at hpad hpadlt
      unfold wrap64
      omega
    rw [hself] at hfull
    rw [htotal, if_neg (by omega), if_neg (by omega)]
  rw [wrap64_of_lt hsize]
  by_cases hfit : s.heap.md.allocated + (16 + (size + padding size)) ≤ A.arena.dtLength
  · rw [if_pos hfit, if_pos (by omega), wrap64_of_lt (by omega), wrap64_of_lt (by omega),
      int32_of_bounds (by omega) (by omega), ptrOffset_mapping_add]
    simp only [grown, nextBlock, Block.off, hhdr, Nat.add_comm (size + padding size) 16,
      Nat.add_assoc]
  · rw [if_neg hfit, if_neg (by omega)]

theorem grown_inv (h : BreakInv A s) {size : ℕ}
    (hfit : s.heap.md.allocated + (16 + (size + padding size)) ≤ A.arena.dtLength) :
    BreakInv A (grown A s size) where
  md := by
    simp only [grown]
    rw [h.md]
    simp
  ordered := by
    simp only [grown, List.map_append, List.map_cons, List.map_nil]
    refine h.ordered.snoc le_rfl ?_
    simp only [Extent.stop, Block.extent, nextBlock]
    omega
  bound := hfit
  aligned := by
    have hal := h.aligned
    have hpad : (size + padding size) % 16 = 0 := add_padding_mod size
    simp only [grown]
    omega
  block := by
    intro b hb
    rcases List.mem_append.mp hb with hb | hb
    · obtain ⟨hal, hint⟩ := h.block b hb
      refine ⟨hal, hint.of_onlyAt (onlyAt_writeHdr _ _ _) (.inl ?_)⟩
      have := (h.extent_inside hb).2
      unfold Block.off at this
      omega
    · obtain rfl := List.mem_singleton.mp hb
      refine ⟨?_, intact_writeHdr s.heap.mem (b := nextBlock A s size) ?_⟩
      · have hal := h.aligned
        simp only [nextBlock]
        omega
      · obtain ⟨⟨-, hseg, -, -⟩, -⟩ := A.init_spec
        have h64 := A.segment
        simp only [nextBlock]
        omega
  reset := by simp [grown]

/-- Data of live blocks may change at will. -/
theorem write_inv (h : BreakInv A s) {b : Block} (hb : b ∈ s.live) {mem : Mem} {a n : ℕ}
    (ho : OnlyAt s.heap.mem mem a n) (ha : b.off ≤ a) (hn : a + n ≤ b.off + b.size) :
    BreakInv A ⟨{ s.heap with mem := mem }, s.live⟩ where
  md := h.md
  ordered := h.ordered
  bound := h.bound
  aligned := h.aligned
  reset := h.reset
  block := by
    intro c hc
    obtain ⟨hal, hint⟩ := h.block c hc
    refine ⟨hal, hint.of_onlyAt ho ?_⟩
    by_cases hbc : b = c
    · subst hbc
      exact .inl ha
    · have hap := h.apart hb hc hbc
      unfold Block.off at ha hn hap
      omega

/-- The allocator after `b` was freed. -/
def freed (A : BreakRegion) (s : BreakState) (b : Block) : BreakState where
  heap := {
    md := { s.heap.md with
      nalloc := (s.live.erase b).length
      allocated := if s.live.erase b = [] then A.mdsize else s.heap.md.allocated }
    mem := store 4 s.heap.mem b.hdr BREAK_DEAD }
  live := s.live.erase b

theorem freed_inv (h : BreakInv A s) {b : Block} (hb : b ∈ s.live) : BreakInv A (freed A s b) where
  md := by
    simp only [freed]
    rw [h.md]
  ordered := by
    obtain ⟨⟨-, -, hmd, -⟩, -⟩ := A.init_spec
    by_cases hlast : s.live.erase b = []
    · simp only [freed, hlast, if_true, List.map_nil, Ordered, le_refl]
    · simp only [freed, hlast, if_false]
      exact h.ordered.sublist (List.erase_sublist.map _)
  bound := by
    obtain ⟨⟨-, -, hmd, -⟩, -⟩ := A.init_spec
    simp only [freed]
    split
    · exact hmd
    · exact h.bound
  aligned := by
    obtain ⟨⟨-, -, -, hal⟩, -⟩ := A.init_spec
    simp only [freed]
    split
    · exact hal
    · exact h.aligned
  block := by
    intro c hc
    have hmem : c ∈ s.live := List.mem_of_mem_erase hc
    obtain ⟨hal, hint⟩ := h.block c hmem
    refine ⟨hal, hint.of_onlyAt (onlyAt_store 4 _ _ _) ?_⟩
    have hne : b ≠ c := fun heq => h.nodup.not_mem_erase (heq ▸ hc)
    have hap := h.apart hb hmem hne
    unfold Block.off at hap
    omega
  reset := by
    intro hlast
    simp only [freed] at hlast ⊢
    rw [if_pos hlast]

/-- A reference to a live block in the arena passes the check for header room
and leads to the block's header. -/
theorem named_spec (h : BreakInv A s) {dtrs : Dtrs}
    (hd : Attached A.dtrs₀ dtrs A.arena.dtShmid) {b : Block} (hb : b ∈ s.live) {ref : Shmref}
    (href : b.Named A.arena ref) (hin : ref.dtOffset < s.heap.md.amd.maxUoffset) :
    shmref2ptr dtrs ref 0 = some ((dtrs.shmmap A.arena.dtShmid).mapping + b.off) ∧
      ¬ ref.dtOffset < wrap64 (s.heap.md.amd.minUoffset + s.heap.md.hdrlen) ∧
      ptrOffset dtrs ref.dtShmid
        ((dtrs.shmmap A.arena.dtShmid).mapping + b.off - s.heap.md.hdrlen) = b.hdr := by
  obtain ⟨⟨-, hseg, hmd, -⟩, -⟩ := A.init_spec
  have hbound := h.bound
  have h64 := A.segment
  have hsize := hd.size
  have hcount := hd.count
  obtain ⟨hlo, hhi⟩ := h.extent_inside hb
  have hlength := href.length
  rw [h.md_eq] at hin ⊢
  rw [href.offset] at hin ⊢
  simp only at hin ⊢
  have hptr : _ → _ → _ → _ → shmref2ptr dtrs ref 0 = _ := shmref2ptr_eq_some
  rw [href.shmid, href.offset] at hptr
  refine ⟨hptr (by omega) (by omega) (by omega) (by omega), ?_, ?_⟩
  · unfold Block.off at hin hhi ⊢
    rw [wrap64_of_lt (by omega)]
    omega
  · unfold Block.off ptrOffset
    rw [href.shmid]
    omega

/-- break_free accepts every live block in the arena. -/
theorem breakFree_eq (h : BreakInv A s) {dtrs : Dtrs}
    (hd : Attached A.dtrs₀ dtrs A.arena.dtShmid) {b : Block} (hb : b ∈ s.live) {ref : Shmref}
    (href : b.Named A.arena ref) (hin : ref.dtOffset < s.heap.md.amd.maxUoffset) :
    breakFree dtrs s.heap ref = some (freed A s b).heap := by
  obtain ⟨⟨-, hseg, hmd, -⟩, -⟩ := A.init_spec
  obtain ⟨hptr, hroom, hhdr⟩ := h.named_spec hd hb href hin
  have h64 := A.segment
  have hpos : 0 < s.live.length := List.length_pos_of_mem hb
  have herase : (s.live.erase b).length = s.live.length - 1 := List.length_erase_of_mem hb
  have hn : s.heap.md.nalloc = s.live.length := by rw [h.md_eq]
  have hn' : (if 0 < s.heap.md.nalloc then s.heap.md.nalloc - 1 else s.heap.md.nalloc) =
      ((s.live.erase b).length : ℤ) := by
    rw [hn, if_pos (by omega), herase]
    omega
  have hreset : sub64 s.heap.md.amd.minUoffset s.heap.md.amd.self.dtOffset = A.mdsize := by
    rw [h.md_eq]
    simp only
    rw [sub64_of_le (by omega) (by omega), Nat.add_sub_cancel_left]
  unfold breakFree
  simp only [hroom, if_false, hptr, Option.map_some, hhdr, (h.block b hb).2.magic, if_true, hn',
    hreset]
  simp only [freed, Nat.cast_eq_zero, List.length_eq_zero_iff]

/-- The allocator in the middle of a realloc: the data of `b` are copied to a
new block, and both blocks are live. -/
def copied (A : BreakRegion) (s : BreakState) (b : Block) (newSize : ℕ) : BreakState where
  heap := { (grown A s newSize).heap with
    mem := memcpy (grown A s newSize).heap.mem (nextBlock A s newSize).off b.off b.size }
  live := (grown A s newSize).live

/-- The allocator after a realloc that moved `b`. -/
def moved (A : BreakRegion) (s : BreakState) (b : Block) (newSize : ℕ) : BreakState :=
  freed A (copied A s b newSize) b

theorem copied_inv (h : BreakInv A s) {b : Block} {newSize : ℕ} (hgrow : b.size < newSize)
    (hfit : s.heap.md.allocated + (16 + (newSize + padding newSize)) ≤ A.arena.dtLength) :
    BreakInv A (copied A s b newSize) := by
  have hnew : nextBlock A s newSize ∈ (grown A s newSize).live := by simp [grown]
  refine (h.grown_inv hfit).write_inv hnew (onlyAt_memcpy _ _ b.off b.size) le_rfl ?_
  simp only [nextBlock]
  omega

theorem mem_copied {b : Block} (hb : b ∈ s.live) (newSize : ℕ) :
    b ∈ (copied A s b newSize).live := by
  simp [copied, grown, hb]

theorem moved_inv (h : BreakInv A s) {b : Block} (hb : b ∈ s.live) {newSize : ℕ}
    (hgrow : b.size < newSize)
    (hfit : s.heap.md.allocated + (16 + (newSize + padding newSize)) ≤ A.arena.dtLength) :
    BreakInv A (moved A s b newSize) :=
  (h.copied_inv hgrow hfit).freed_inv (mem_copied hb newSize)

theorem moved_live {b : Block} (hb : b ∈ s.live) (newSize : ℕ) :
    (moved A s b newSize).live = s.live.erase b ++ [nextBlock A s newSize] := by
  simp only [moved, freed, copied, grown]
  exact List.erase_append_left _ hb

theorem reallocLive_moved (h : BreakInv A s) {b : Block} (hb : b ∈ s.live) (ptr newSize : ℕ) :
    reallocLive s.live b newSize
      (some (ptr, ⟨A.arena.dtShmid, (nextBlock A s newSize).off, newSize⟩)) =
      (moved A s b newSize).live := by
  have hin := (h.extent_inside hb).2
  have hne : (nextBlock A s newSize).off ≠ b.off := by
    simp only [nextBlock, Block.off] at hin ⊢
    omega
  rw [moved_live hb, reallocLive, if_neg hne]
  rfl

/-- break_realloc keeps the block, fails, or moves it. -/
theorem breakRealloc_eq (h : BreakInv A s) {dtrs : Dtrs}
    (hd : Attached A.dtrs₀ dtrs A.arena.dtShmid) {b : Block} (hb : b ∈ s.live) {ref : Shmref}
    (href : b.Named A.arena ref) (hin : ref.dtOffset < s.heap.md.amd.maxUoffset)
    {newSize : ℕ} (hsize : SizeOk s.heap.md newSize) (hcount : s.live.length + 1 < 2 ^ 31) :
    breakRealloc dtrs A.arena s.heap ref newSize = some (
      if newSize ≤ b.size then
        (some ((dtrs.shmmap A.arena.dtShmid).mapping + b.off,
          ⟨A.arena.dtShmid, b.off, newSize⟩), s.heap)
      else if s.heap.md.allocated + (16 + (newSize + padding newSize)) ≤ A.arena.dtLength then
        (some ((dtrs.shmmap A.arena.dtShmid).mapping + (nextBlock A s newSize).off,
          ⟨A.arena.dtShmid, (nextBlock A s newSize).off, newSize⟩), (moved A s b newSize).heap)
      else (none, s.heap)) := by
  obtain ⟨hptr, hroom, hhdr⟩ := h.named_spec hd hb href hin
  obtain ⟨-, hmagic, hold⟩ := h.block b hb
  unfold breakRealloc
  simp only [hroom, if_false, hptr, hhdr, hmagic, if_true, hold, ptrOffset_mapping_add]
  by_cases hkeep : newSize ≤ b.size
  · rw [if_pos hkeep, if_pos hkeep]
  rw [if_neg hkeep, if_neg hkeep, h.breakMalloc_eq dtrs hsize hcount]
  by_cases hfit : s.heap.md.allocated + (16 + (newSize + padding newSize)) ≤ A.arena.dtLength
  · have hcopied := h.copied_inv (not_le.mp hkeep) hfit
    have hfree := hcopied.breakFree_eq hd (mem_copied hb newSize) href hin
    simp only [hfit, if_true, ptrOffset_mapping_add]
    exact congrArg (Option.map _) hfree
  · simp only [hfit, if_false]

/-- A realloc that moves a block takes its data along. -/
theorem moved_data (h : BreakInv A s) {b : Block} (hb : b ∈ s.live) (newSize : ℕ) {i : ℕ}
    (hi : i < b.size) :
    (moved A s b newSize).heap.mem ((nextBlock A s newSize).off + i) =
      s.heap.mem (b.off + i) := by
  have hin := (h.extent_inside hb).2
  simp only [moved, freed, copied]
  rw [onlyAt_store 4 _ _ _ _ (.inr ?_), memcpy_apply _ hi]
  · exact onlyAt_writeHdr _ _ _ _ (.inl (by omega))
  · unfold Block.off at hin
    simp only [Block.off, nextBlock]
    omega

/-- Every call and every write of a user keeps the invariant. -/
theorem step (h : BreakInv A s) {s' : BreakState} (hs : BreakCall A s s') : BreakInv A s' := by
  cases hs with
  | malloc dtrs size hd hsize res heap hcall =>
    rw [h.breakMalloc_eq dtrs hsize.1 hsize.2] at hcall
    split at hcall
    · rename_i hfit
      obtain ⟨rfl, rfl⟩ := Prod.mk.inj hcall
      exact h.grown_inv hfit
    · obtain ⟨rfl, rfl⟩ := Prod.mk.inj hcall
      simpa using h
  | free dtrs b ref hd hb href hin heap hcall =>
    rw [h.breakFree_eq hd hb href hin] at hcall
    obtain rfl := Option.some.inj hcall
    exact h.freed_inv hb
  | realloc dtrs b ref newSize hd hb href hin hsize res heap hcall =>
    rw [h.breakRealloc_eq hd hb href hin hsize.1 hsize.2] at hcall
    have hcall := Option.some.inj hcall
    split at hcall
    · obtain ⟨rfl, rfl⟩ := Prod.mk.inj hcall
      simpa [reallocLive] using h
    rename_i hgrow
    split at hcall
    · rename_i hfit
      obtain ⟨rfl, rfl⟩ := Prod.mk.inj hcall
      rw [h.reallocLive_moved hb]
      exact h.moved_inv hb (not_le.mp hgrow) hfit
    · obtain ⟨rfl, rfl⟩ := Prod.mk.inj hcall
      exact h
  | write b x v hb hlo hhi => exact h.write_inv hb (onlyAt_update _ x v) hlo hhi

theorem run (h : BreakInv A s) {s' : BreakState}
    (hrun : Relation.ReflTransGen (BreakCall A) s s') : BreakInv A s' := by
  induction hrun with
  | refl => exact h
  | tail _ hs ih => exact ih.step hs

theorem of_reachable {mem : Mem} (h : A.Reachable mem s) : BreakInv A s :=
  (start A mem).run h

theorem moved_allocated {b : Block} (hb : b ∈ s.live) (newSize : ℕ) :
    (moved A s b newSize).heap.md.allocated =
      s.heap.md.allocated + (16 + (newSize + padding newSize)) := by
  have hlive : (copied A s b newSize).live.erase b ≠ [] := by
    have hmoved := moved_live (A := A) hb newSize
    simp only [moved, freed] at hmoved
    simp [hmoved]
  simp only [moved, freed]
  rw [if_neg hlive]
  rfl

/-- break_realloc of a live block returns, does not move the break line back,
and keeps the data that fit into the new size. -/
theorem realloc_spec (h : BreakInv A s) {dtrs : Dtrs}
    (hd : Attached A.dtrs₀ dtrs A.arena.dtShmid) {b : Block} (hb : b ∈ s.live) {ref : Shmref}
    (href : b.Named A.arena ref) (hin : ref.dtOffset < s.heap.md.amd.maxUoffset)
    {newSize : ℕ} (hsize : SizeOk s.heap.md newSize) (hcount : s.live.length + 1 < 2 ^ 31) :
    ∃ res heap, breakRealloc dtrs A.arena s.heap ref newSize = some (res, heap) ∧
      s.heap.md.allocated ≤ heap.md.allocated ∧
      ∀ ptr newref, res = some (ptr, newref) → ∀ i < min b.size newSize,
        heap.mem (newref.dtOffset + i) = s.heap.mem (b.off + i) := by
  have hcall := h.breakRealloc_eq hd hb href hin hsize hcount
  split at hcall
  · refine ⟨_, _, hcall, le_rfl, ?_⟩
    intro ptr newref hres i hi
    obtain ⟨-, rfl⟩ := Prod.mk.inj (Option.some.inj hres)
    rfl
  split at hcall
  · refine ⟨_, _, hcall, ?_, ?_⟩
    · rw [moved_allocated hb newSize]
      exact Nat.le_add_right _ _
    · intro ptr newref hres i hi
      obtain ⟨-, rfl⟩ := Prod.mk.inj (Option.some.inj hres)
      exact h.moved_data hb newSize (by omega)
  · refine ⟨_, _, hcall, le_rfl, ?_⟩
    intro ptr newref hres
    simp at hres

/-- The break line only moves back when nothing is live any more. -/
theorem forward (h : BreakInv A s) {s' : BreakState} (hs : BreakCall A s s')
    (hlive : s'.live ≠ []) : s.heap.md.allocated ≤ s'.heap.md.allocated := by
  cases hs with
  | malloc dtrs size hd hsize res heap hcall =>
    rw [h.breakMalloc_eq dtrs hsize.1 hsize.2] at hcall
    split at hcall <;> obtain ⟨rfl, rfl⟩ := Prod.mk.inj hcall
    · exact Nat.le_add_right _ _
    · exact le_rfl
  | free dtrs b ref hd hb href hin heap hcall =>
    rw [h.breakFree_eq hd hb href hin] at hcall
    obtain rfl := Option.some.inj hcall
    simp only [freed]
    rw [if_neg hlive]
  | realloc dtrs b ref newSize hd hb href hin hsize res heap hcall =>
    obtain ⟨res', heap', hcall', hle, -⟩ := h.realloc_spec hd hb href hin hsize.1 hsize.2
    rw [hcall'] at hcall
    obtain ⟨-, rfl⟩ := Prod.mk.inj (Option.some.inj hcall)
    exact hle
  | write b x v hb hlo hhi => exact le_rfl

end BreakInv

section Bounded

variable {A : BreakArena} {s s' : BreakState}

/-- An arena of at most 32 GiB is full before the counter could overflow. -/
theorem count_lt (h : BreakInv A.toBreakRegion s) : s.live.length + 1 < 2 ^ 31 := by
  have hcount := h.count
  have hmdsize := A.mdsize_ge
  have hbound : s.heap.md.allocated ≤ A.arena.dtLength := h.bound
  have hlen := A.length
  omega

theorem BreakStep.call (h : BreakInv A.toBreakRegion s) (hs : BreakStep A s s') :
    BreakCall A.toBreakRegion s s' :=
  BreakMove.mono (fun _ hsize => ⟨.inl hsize, count_lt h⟩) hs

theorem BreakArena.Reachable.region {mem : Mem} (h : A.Reachable mem s) :
    A.toBreakRegion.Reachable mem s := by
  induction h with
  | refl => exact .refl
  | tail _ hs ih => exact ih.tail (hs.call (BreakInv.of_reachable ih))

end Bounded

/-- The references that a sequence of mallocs returns. -/
def mallocRefs (dtrs : Dtrs) (arena : Shmref) : BreakHeap → List ℕ → List (Option Shmref)
  | _, [] => []
  | h, size :: sizes =>
    (breakMalloc dtrs arena h size).1.map Prod.snd ::
      mallocRefs dtrs arena (breakMalloc dtrs arena h size).2 sizes

/-- They depend on the metadata alone. -/
theorem mallocRefs_congr (dtrs : Dtrs) (arena : Shmref) {h h' : BreakHeap} (hmd : h.md = h'.md)
    (sizes : List ℕ) : mallocRefs dtrs arena h sizes = mallocRefs dtrs arena h' sizes := by
  induction sizes generalizing h h' with
  | nil => rfl
  | cons size sizes ih =>
    have hcall : (breakMalloc dtrs arena h size).1 = (breakMalloc dtrs arena h' size).1 ∧
        (breakMalloc dtrs arena h size).2.md = (breakMalloc dtrs arena h' size).2.md := by
      unfold breakMalloc
      simp only [hmd]
      split
      · exact ⟨rfl, rfl⟩
      · exact ⟨rfl, hmd⟩
    simp only [mallocRefs]
    rw [hcall.1, ih hcall.2]

/-- What the allocator guarantees in a state of a run. -/
structure BreakSafe (A : BreakArena) (s : BreakState) : Prop where
  nalloc : s.heap.md.nalloc = s.live.length ∧ s.live.length < 2 ^ 31
  allocated : A.mdsize ≤ s.heap.md.allocated ∧
    s.heap.md.allocated ≤ s.heap.md.amd.self.dtLength
  disjoint : (s.live.map Block.extent).Pairwise Extent.Apart
  inside : ∀ b ∈ s.live,
    b.extent.Inside (A.arena.dtOffset + A.mdsize) (A.arena.dtOffset + s.heap.md.allocated)
  aligned : ∀ dtrs, Attached A.dtrs₀ dtrs A.arena.dtShmid → ∀ b ∈ s.live,
    ((dtrs.shmmap A.arena.dtShmid).mapping + b.hdr) % 16 = 0
  intact : ∀ b ∈ s.live, b.Intact s.heap.mem
  reset : s.live = [] → s.heap.md = A.md₀ ∧
    ∀ dtrs sizes mem, mallocRefs dtrs A.arena s.heap sizes =
      mallocRefs dtrs A.arena ⟨A.md₀, mem⟩ sizes
  forward : ∀ s', BreakStep A s s' → s'.live ≠ [] → s.heap.md.allocated ≤ s'.heap.md.allocated
  free : ∀ dtrs, Attached A.dtrs₀ dtrs A.arena.dtShmid → ∀ b ∈ s.live, ∀ ref,
    b.Named A.arena ref → ref.dtOffset < s.heap.md.amd.maxUoffset →
    ∃ heap, breakFree dtrs s.heap ref = some heap
  realloc : ∀ dtrs, Attached A.dtrs₀ dtrs A.arena.dtShmid → ∀ b ∈ s.live, ∀ ref,
    b.Named A.arena ref → ref.dtOffset < s.heap.md.amd.maxUoffset →
    ∀ newSize, newSize + padding newSize + 16 < 2 ^ 64 →
    ∃ res heap, breakRealloc dtrs A.arena s.heap ref newSize = some (res, heap) ∧
      s.heap.md.allocated ≤ heap.md.allocated ∧
      ∀ ptr newref, res = some (ptr, newref) → ∀ i < min b.size newSize,
        heap.mem (newref.dtOffset + i) = s.heap.mem (b.off + i)
  validated : ∀ b ∈ s.live, 0 < b.size → b.off < s.heap.md.amd.maxUoffset

/-- Every sequence of calls on live blocks and of writes to them keeps the
break allocator safe. -/
theorem break_run_safe {A : BreakArena} {mem : Mem} {s : BreakState} (h : A.Reachable mem s) :
    BreakSafe A s := by
  have hinv := BreakInv.of_reachable h.region
  have hcount := count_lt hinv
  exact {
    nalloc := ⟨by rw [hinv.md_eq], by omega⟩
    allocated := by
      rw [hinv.md_eq]
      exact ⟨hinv.lower, hinv.bound⟩
    disjoint := hinv.ordered.pairwise
    inside := fun b hb => hinv.ordered.inside (List.mem_map_of_mem hb)
    aligned := by
      intro dtrs hd b hb
      have hal := (hinv.block b hb).1
      have hsame : _ = A.mapping % alignsz := hd.align
      unfold alignsz at hsame
      omega
    intact := fun b hb => (hinv.block b hb).2
    reset := by
      intro hlive
      have hmd : s.heap.md = A.md₀ := by
        rw [hinv.md_eq, hinv.reset hlive, hlive]
        exact A.init_spec.2.symm
      exact ⟨hmd, fun dtrs sizes mem => mallocRefs_congr dtrs A.arena hmd sizes⟩
    forward := fun s' hs hlive => hinv.forward (hs.call hinv) hlive
    free := fun dtrs hd b hb ref href hin => ⟨_, hinv.breakFree_eq hd hb href hin⟩
    realloc := fun dtrs hd b hb ref href hin newSize hsize =>
      hinv.realloc_spec hd hb href hin (.inl hsize) hcount
    validated := by
      intro b hb hpos
      have hin := (hinv.extent_inside hb).2
      have hbound := hinv.bound
      rw [hinv.md_eq]
      simp only
      omega }

/-- An arena of 1 KiB in a segment of two pages. -/
def smallArena : BreakArena where
  dtrs₀ := ⟨1, fun _ => ⟨4096, 0, 8192⟩⟩
  arena := ⟨0, 64, 1024⟩
  md₀ := ⟨⟨⟨0, 64, 1024⟩, 144, 1088, 15⟩, 80, 16, 0⟩
  init := rfl
  length := by norm_num
  segment := by norm_num

/-- A run that allocates two blocks and frees the first of them. -/
theorem break_run_safe_small :
    ∃ s, smallArena.Reachable (fun _ => 0) s ∧ s.live = [⟨176, 40⟩] ∧
      BreakSafe smallArena s := by
  have hd : Attached smallArena.dtrs₀ smallArena.dtrs₀ smallArena.arena.dtShmid :=
    ⟨by decide, rfl, rfl⟩
  have h5 : 5 + padding 5 + 16 < 2 ^ 64 := by norm_num [padding, alignsz]
  have h40 : 40 + padding 40 + 16 < 2 ^ 64 := by norm_num [padding, alignsz]
  have hfirst : BreakStep smallArena (smallArena.start fun _ => 0) _ :=
    .malloc _ 5 hd h5 _ _ rfl
  have hone := Relation.ReflTransGen.refl.tail hfirst
  have htwo := hone.tail (.malloc _ 40 hd h40 _ _ rfl)
  have href : Block.Named ⟨144, 5⟩ smallArena.arena ⟨0, 160, 5⟩ := ⟨rfl, rfl, le_rfl⟩
  have hfree := (BreakInv.of_reachable (BreakArena.Reachable.region htwo)).breakFree_eq hd
    List.mem_cons_self href (by decide)
  have hrun := htwo.tail (.free _ _ _ hd List.mem_cons_self href (by decide) _ hfree)
  exact ⟨_, hrun, rfl, break_run_safe hrun⟩

end Dthread.BreakRuns
