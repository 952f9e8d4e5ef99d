import Mathlib.Data.List.Perm.Basic
import Mathlib.Logic.Relation
import Dthread.BsdBuckets

/-!
Runs of the bsd allocator. The space that was taken from the core is tiled by
cells, and each cell is either in the hands of a user, with the magic number in
its first word, or on the free list of its bucket, which is linked through that
word. A link is a multiple of 16 and so never looks like the magic number.
-/
namespace Dthread.BsdRuns

open ByteMemory MachineInts Extents FreeLists ShmRefs BsdMalloc BsdBuckets

/-- A cell in the hands of a user, who asked for `len` bytes. -/
structure User where
  cell : Cell
  len : ℕ
deriving DecidableEq, Repr

/-- The bytes of the user. -/
def User.extent (u : User) : Extent := ⟨u.cell.off + 16, u.len⟩

/-- The allocator with what it has cut, what is live, and every reference it
has returned so far. -/
structure BsdState where
  heap : BsdHeap
  carved : List Cell
  live : List User
  ever : List Shmref

/-- A reference that the allocator returned at some time, or as it is made from
a pointer that it returned. -/
def BsdState.Returned (s : BsdState) (ref : Shmref) : Prop :=
  ∃ r ∈ s.ever, ref.dtShmid = r.dtShmid ∧ ref.dtOffset = r.dtOffset ∧ ref.dtLength ≤ r.dtLength

/-- The reference points to a cell. -/
def Names (ref : Shmref) (u : User) : Bool := u.cell.off + 16 == ref.dtOffset

/-- An arena set up by bsd_init on one of the ranks, wherever the segment is mapped. -/
structure BsdRegion where
  page : PageSize
  dtrs₀ : Dtrs
  arena : Shmref
  md₀ : BsdMd
  init : bsdInit dtrs₀ arena (newArenaMd arena) page.bytes = some md₀
  segment : (dtrs₀.shmmap arena.dtShmid).size < 2 ^ 64

/-- An arena on a mapping that starts at a page. -/
structure BsdArena extends BsdRegion where
  paged : (dtrs₀.shmmap arena.dtShmid).mapping % page.bytes = 0

/-- The cells that a call has cut, seen from the core before and after it. -/
def newCells (P : PageSize) (md md' : BsdMd) (bucket : ℕ) : List Cell :=
  if md'.mycore = md.mycore then [] else P.carve md.mycore bucket

/-- The state after a malloc. -/
def mallocState (P : PageSize) (s : BsdState) (size : ℕ) (res : Option (ℕ × Shmref))
    (heap : BsdHeap) : BsdState where
  heap := heap
  carved := s.carved ++ newCells P s.heap.md heap.md ((sizeBucket s.heap.md size).getD 0)
  live := s.live ++ res.toList.map fun r =>
    ⟨⟨r.2.dtOffset - 16, (sizeBucket s.heap.md size).getD 0⟩, size⟩
  ever := s.ever ++ res.toList.map Prod.snd

/-- The state after a free. -/
def freeState (s : BsdState) (ref : Shmref) (heap : BsdHeap) : BsdState :=
  { s with heap := heap, live := s.live.eraseP (Names ref) }

/-- The state after a realloc: the block was kept, or moved to a new cell. -/
def reallocState (P : PageSize) (s : BsdState) (ref : Shmref) (newSize : ℕ)
    (res : Option (ℕ × Shmref)) (heap : BsdHeap) : BsdState :=
  match res with
  | none => mallocState P s newSize none heap
  | some (ptr, newref) =>
    if newref.dtOffset = ref.dtOffset then
      { s with
        heap := heap
        live := s.live.map fun u => if Names ref u then { u with len := newSize } else u
        ever := s.ever ++ [newref] }
    else freeState (mallocState P s newSize (some (ptr, newref)) heap) ref heap

/-- The calls that any rank may make with the sizes that `ok` admits and references that
are `usable`, and the writes of users. -/
inductive BsdMove (ok : ℕ → Prop) (usable : BsdState → Shmref → Prop) (A : BsdRegion)
    (s : BsdState) : BsdState → Prop
  | malloc (dtrs : Dtrs) (size : ℕ) (hd : Attached A.dtrs₀ dtrs A.arena.dtShmid)
      (hsize : ok size) (res : Option (ℕ × Shmref)) (heap : BsdHeap)
      (h : bsdMalloc dtrs s.heap size = (res, heap)) :
      BsdMove ok usable A s (mallocState A.page s size res heap)
  | free (dtrs : Dtrs) (ref : Shmref) (hd : Attached A.dtrs₀ dtrs A.arena.dtShmid)
      (href : usable s ref) (heap : BsdHeap) (h : bsdFree dtrs s.heap ref = some heap) :
      BsdMove ok usable A s (freeState s ref heap)
  | realloc (dtrs : Dtrs) (ref : Shmref) (newSize : ℕ)
      (hd : Attached A.dtrs₀ dtrs A.arena.dtShmid) (href : usable s ref)
      (hsize : ok newSize) (res : Option (ℕ × Shmref)) (heap : BsdHeap)
      (h : bsdRealloc dtrs s.heap ref newSize = some (res, heap)) :
      BsdMove ok usable A s (reallocState A.page s ref newSize res heap)
  | write (u : User) (x : ℕ) (v : UInt8) (hu : u ∈ s.live) (hlo : u.cell.off + 16 ≤ x)
      (hhi : x < u.cell.off + A.page.blockLen u.cell.bucket) :
      BsdMove ok usable A s
        { s with heap := { s.heap with mem := Function.update s.heap.mem x v } }

theorem BsdMove.mono {ok ok' : ℕ → Prop} {usable usable' : BsdState → Shmref → Prop}
    {A : BsdRegion} {s s' : BsdState} (hok : ∀ size, ok size → ok' size)
    (huse : ∀ ref, usable s ref → usable' s ref) (h : BsdMove ok usable A s s') :
    BsdMove ok' usable' A s s' := by
  cases h with
  | malloc dtrs size hd hsize res heap hcall =>
    exact .malloc dtrs size hd (hok size hsize) res heap hcall
  | free dtrs ref hd href heap hcall => exact .free dtrs ref hd (huse ref href) heap hcall
  | realloc dtrs ref newSize hd href hsize res heap hcall =>
    exact .realloc dtrs ref newSize hd (huse ref href) (hok newSize hsize) res heap hcall
  | write u x v hu hlo hhi => exact .write u x v hu hlo hhi

/-- The calls on a mapping that starts at a page, with references of any age. -/
def BsdStep (A : BsdArena) : BsdState → BsdState → Prop :=
  BsdMove (· ≤ 2 ^ 30) BsdState.Returned A.toBsdRegion

namespace BsdRegion

variable (A : BsdRegion)

/-- Where the cells start. -/
def lo : ℕ := A.arena.dtOffset + mdalignSize A.dtrs₀ A.arena bsdMdSize

/-- Where the arena ends. -/
def hi : ℕ := A.arena.dtOffset + A.arena.dtLength

def mapping : ℕ := (A.dtrs₀.shmmap A.arena.dtShmid).mapping

/-- The state that bsd_init leaves, over any contents of the memory. -/
def start (mem : Mem) : BsdState := ⟨⟨A.md₀, mem⟩, [], [], []⟩

/-- The arena is large enough for its metadata and lies in the segment. -/
theorem bounds : A.lo ≤ A.hi ∧ A.hi ≤ (A.dtrs₀.shmmap A.arena.dtShmid).size ∧
    (A.mapping + A.lo) % 16 = 0 ∧ 1056 ≤ A.lo := by
  have hinit := A.init
  unfold bsdInit at hinit
  simp only [Option.map_eq_some_iff] at hinit
  obtain ⟨ptr, hptr, -⟩ := hinit
  obtain ⟨-, -, hlen, hmdsize, -⟩ := shmref2ptr_spec hptr
  have hal := mdalignSize_aligned bsdMdSize hptr
  have hge : 1056 ≤ mdalignSize A.dtrs₀ A.arena bsdMdSize := Nat.le_add_right _ _
  unfold alignsz at hal
  unfold lo hi mapping
  refine ⟨by omega, hlen, by omega, by omega⟩

/-- What bsd_init computes. -/
theorem init_eq : A.md₀ = ⟨⟨A.arena, A.lo, A.hi, 15⟩, 16, 1, A.page.bytes, A.page.order - 4,
    fun _ => 0, fun _ => 0, A.lo, A.hi - A.lo⟩ := by
  obtain ⟨hle, hhi, -, -⟩ := A.bounds
  have hseg := A.segment
  have hinit := A.init
  have hlower := A.page.lower
  have hupper := A.page.upper
  unfold bsdInit at hinit
  simp only [Option.map_eq_some_iff] at hinit
  obtain ⟨ptr, -, hmd⟩ := hinit
  have hpage : bucketLoop A.page.bytes NBUCKETS 0 = A.page.order - 4 := by
    have hloop := bucketLoop_eq (t := A.page.order - 4) (by unfold maxBucket; omega) NBUCKETS 0
      (by omega) (by unfold NBUCKETS; omega)
    have horder : A.page.order - 4 + 4 = A.page.order := by omega
    rw [horder] at hloop
    exact hloop
  rw [← hmd, hpage]
  have hlo : A.arena.dtOffset + mdalignSize A.dtrs₀ A.arena bsdMdSize = A.lo := rfl
  have hhi' : A.arena.dtOffset + A.arena.dtLength = A.hi := rfl
  simp only [newArenaMd, hlo, hhi']
  rw [wrap64_of_lt (by omega), wrap64_of_lt (by omega), sub64_of_le (by omega) (by omega)]
  have hresid : A.arena.dtLength - mdalignSize A.dtrs₀ A.arena bsdMdSize = A.hi - A.lo := by
    omega
  rw [hresid]
  rfl

end BsdRegion

def BsdArena.Reachable (A : BsdArena) (mem : Mem) : BsdState → Prop :=
  Relation.ReflTransGen (BsdStep A) (A.start mem)

theorem BsdArena.mapping_mod (A : BsdArena) : A.mapping % 16 = 0 := by
  have hdvd : 16 ∣ A.page.bytes := Nat.dvd_of_mod_eq_zero A.page.bytes_mod
  exact Nat.mod_eq_zero_of_dvd (hdvd.trans (Nat.dvd_of_mod_eq_zero A.paged))

/-- A reference that may be passed to free and realloc: one to a live block, and where
the mapping is aligned any that was returned. -/
def BsdState.Usable (A : BsdRegion) (s : BsdState) (ref : Shmref) : Prop :=
  s.Returned ref ∧ (A.mapping % 16 = 0 ∨ ∃ u ∈ s.live, Names ref u = true)

/-- The size is put into a bucket whose size is an int, or into none. -/
def Served (P : PageSize) (size : ℕ) : Prop :=
  size ≤ P.capacity maxBucket ∨ P.capacity (NBUCKETS - 1) < size

theorem served_of_le (P : PageSize) {size : ℕ} (h : size ≤ 2 ^ 30) : Served P size :=
  .inl (P.le_capacity_maxBucket h)

/-- The calls on an arena wherever it is mapped, with the sizes that are served. -/
def BsdCall (A : BsdRegion) : BsdState → BsdState → Prop :=
  BsdMove (Served A.page) (BsdState.Usable A) A

def BsdRegion.Reachable (A : BsdRegion) (mem : Mem) : BsdState → Prop :=
  Relation.ReflTransGen (BsdCall A) (A.start mem)

/-- The offsets on the free list of a bucket, for a list of free cells. -/
def onList (avail : List Cell) (bucket : ℕ) : List ℕ :=
  (avail.filter (·.bucket = bucket)).map Cell.off

/-- What every state of a run has. `avail` are the free cells, those of one
bucket in the order of its list. -/
structure BsdInv (A : BsdRegion) (s : BsdState) (avail : List Cell) : Prop where
  amd : s.heap.md.amd = ⟨A.arena, A.lo, A.hi, 15⟩
  classes : Classes A.page s.heap.md
  core : s.heap.md.mycore + s.heap.md.coreResid = A.hi
  tiles : Tiles A.lo s.heap.md.mycore (s.carved.map (Cell.extent A.page))
  cell : ∀ c ∈ s.carved, 1 ≤ c.bucket ∧ c.bucket ≤ maxBucket ∧ c.off % 16 = A.lo % 16
  coreAligned : s.heap.md.mycore % 16 = A.lo % 16
  split : (avail ++ s.live.map User.cell).Perm s.carved
  linked : ∀ b, Linked s.heap.mem (s.heap.md.nextf b) (onList avail b)
  header : ∀ u ∈ s.live, load 8 s.heap.mem u.cell.off = OV_MAGIDX u.cell.bucket
  nmalloc : ∀ b, s.heap.md.nmalloc b = s.live.countP (·.cell.bucket = b)
  fits : ∀ u ∈ s.live, u.len ≤ A.page.capacity u.cell.bucket
  ever : ∀ r ∈ s.ever, r.dtShmid = A.arena.dtShmid ∧
    ∃ c ∈ s.carved, r.dtOffset = c.off + 16 ∧ r.dtLength ≤ A.page.capacity c.bucket

namespace BsdInv

variable {A : BsdRegion} {s : BsdState} {avail : List Cell}

theorem start (A : BsdRegion) (mem : Mem) : BsdInv A (A.start mem) [] := by
  obtain ⟨hle, -, -, -⟩ := A.bounds
  have hmd := A.init_eq
  have hcore : A.md₀.mycore = A.lo := by rw [hmd]
  refine
    { amd := by simp only [BsdRegion.start, hmd]
      classes := by
        simp only [BsdRegion.start, hmd]
        exact ⟨rfl, rfl, rfl, rfl⟩
      core := by
        simp only [BsdRegion.start, hmd]
        omega
      tiles := hcore.symm
      cell := fun c hc => absurd hc List.not_mem_nil
      coreAligned := by
        simp only [BsdRegion.start, hcore]
      split := .nil
      linked := fun b => by
        simp only [BsdRegion.start, hmd]
        exact .nil
      header := fun u hu => absurd hu List.not_mem_nil
      nmalloc := fun b => by simp [BsdRegion.start, hmd]
      fits := fun u hu => absurd hu List.not_mem_nil
      ever := fun r hr => absurd hr List.not_mem_nil }

theorem ordered (h : BsdInv A s avail) :
    Ordered A.lo s.heap.md.mycore (s.carved.map (Cell.extent A.page)) := h.tiles.ordered

theorem carved_nodup (h : BsdInv A s avail) : s.carved.Nodup :=
  h.ordered.nodup fun c hc => by
    have hlen := A.page.blockLen_ge (h.cell c hc).1
    unfold Cell.extent
    simp only
    omega

theorem apart (h : BsdInv A s avail) {c d : Cell} (hc : c ∈ s.carved) (hd : d ∈ s.carved)
    (hne : c ≠ d) : c.off + A.page.blockLen c.bucket ≤ d.off ∨
      d.off + A.page.blockLen d.bucket ≤ c.off :=
  h.ordered.apart hc hd hne

/-- The first words of two cells do not overlap. -/
theorem word_apart (h : BsdInv A s avail) {c d : Cell} (hc : c ∈ s.carved) (hd : d ∈ s.carved)
    (hne : c ≠ d) : c.off + 8 ≤ d.off ∨ d.off + 8 ≤ c.off := by
  have hlenc := A.page.blockLen_ge (h.cell c hc).1
  have hlend := A.page.blockLen_ge (h.cell d hd).1
  have := h.apart hc hd hne
  omega

theorem cell_inside (h : BsdInv A s avail) {c : Cell} (hc : c ∈ s.carved) :
    A.lo ≤ c.off ∧ c.off + A.page.blockLen c.bucket ≤ s.heap.md.mycore :=
  h.ordered.inside (List.mem_map_of_mem hc)

theorem avail_carved (h : BsdInv A s avail) {c : Cell} (hc : c ∈ avail) : c ∈ s.carved :=
  h.split.mem_iff.mp (List.mem_append_left _ hc)

theorem live_carved (h : BsdInv A s avail) {u : User} (hu : u ∈ s.live) : u.cell ∈ s.carved :=
  h.split.mem_iff.mp (List.mem_append_right _ (List.mem_map_of_mem hu))

theorem cells_nodup (h : BsdInv A s avail) : (avail ++ s.live.map User.cell).Nodup :=
  h.split.nodup_iff.mpr h.carved_nodup

/-- A free cell is nobody's. -/
theorem avail_ne_live (h : BsdInv A s avail) {c : Cell} (hc : c ∈ avail) {u : User}
    (hu : u ∈ s.live) : c ≠ u.cell :=
  (List.nodup_append.mp h.cells_nodup).2.2 c hc u.cell (List.mem_map_of_mem hu)

/-- Two cells at one offset are the same. -/
theorem cell_eq (h : BsdInv A s avail) {c d : Cell} (hc : c ∈ s.carved) (hd : d ∈ s.carved)
    (hoff : c.off = d.off) : c = d := by
  by_contra hne
  have := h.word_apart hc hd hne
  omega

theorem count_le (h : BsdInv A s avail) : s.carved.length < 2 ^ 59 := by
  have hlen := h.ordered.length_le (k := 32) fun e he => by
    obtain ⟨c, hc, rfl⟩ := List.mem_map.mp he
    exact A.page.blockLen_ge (h.cell c hc).1
  have hcore := h.core
  have hseg := A.segment
  obtain ⟨-, hhi, -, -⟩ := A.bounds
  rw [List.length_map] at hlen
  omega

theorem mem_onList {c : Cell} (hc : c ∈ avail) : c.off ∈ onList avail c.bucket :=
  List.mem_map_of_mem (List.mem_filter.mpr ⟨hc, by simp⟩)

theorem onList_mem {b x : ℕ} (hx : x ∈ onList avail b) : ⟨x, b⟩ ∈ avail := by
  obtain ⟨c, hc, rfl⟩ := List.mem_map.mp hx
  obtain ⟨hmem, hb⟩ := List.mem_filter.mp hc
  obtain rfl : c.bucket = b := by simpa using hb
  exact hmem

/-- The lists survive a write that leaves the free cells' links alone. -/
theorem linked_frame (h : BsdInv A s avail) {mem : Mem} {a n : ℕ}
    (ho : OnlyAt s.heap.mem mem a n) (hd : ∀ c ∈ avail, c.off + 8 ≤ a ∨ a + n ≤ c.off) (b : ℕ) :
    Linked mem (s.heap.md.nextf b) (onList avail b) := by
  apply (h.linked b).congr
  intro y hy
  exact load_of_onlyAt ho (hd _ (onList_mem hy))

/-- Users may write to the data of their cells at will. -/
theorem data_inv (h : BsdInv A s avail) {u : User} (hu : u ∈ s.live) {mem : Mem} {a n : ℕ}
    (ho : OnlyAt s.heap.mem mem a n) (ha : u.cell.off + 16 ≤ a)
    (hn : a + n ≤ u.cell.off + A.page.blockLen u.cell.bucket) :
    BsdInv A { s with heap := { s.heap with mem := mem } } avail := by
  have hword (c : Cell) (hc : c ∈ s.carved) : c.off + 8 ≤ a ∨ a + n ≤ c.off := by
    by_cases hcu : c = u.cell
    · subst hcu
      omega
    · have hlen := A.page.blockLen_ge (h.cell c hc).1
      have := h.apart hc (h.live_carved hu) hcu
      omega
  exact { h with
    linked := h.linked_frame ho fun c hc => hword c (h.avail_carved hc)
    header := fun v hv => by
      rw [← h.header v hv]
      exact load_of_onlyAt ho (hword _ (h.live_carved hv)) }

/-- The heap after bsd_morecore has cut cells for a bucket. -/
def carvedHeap (A : BsdRegion) (dtrs : Dtrs) (h : BsdHeap) (b : ℕ) : BsdHeap where
  md := { h.md with
    mycore := h.md.mycore + A.page.amount b
    coreResid := h.md.coreResid - A.page.amount b
    nextf := Function.update h.md.nextf b h.md.mycore }
  mem := linkBlocks dtrs A.arena.dtShmid (2 ^ (b + 4)) (A.page.count b - 1) h.mem h.md.mycore
    ((dtrs.shmmap A.arena.dtShmid).mapping + h.md.mycore)

theorem bsdMorecore_eq (h : BsdInv A s avail) {dtrs : Dtrs}
    (hd : Attached A.dtrs₀ dtrs A.arena.dtShmid) {b : ℕ} (hlo : 1 ≤ b) (hhi : b ≤ maxBucket) :
    bsdMorecore dtrs s.heap b =
      if s.heap.md.coreResid < A.page.amount b then s.heap else carvedHeap A dtrs s.heap b := by
  have hself : s.heap.md.amd.self = A.arena := by rw [h.amd]
  have hcore := h.core
  have hseg := A.segment
  obtain ⟨-, hend, -, -⟩ := A.bounds
  have heq := h.classes.bsdMorecore_eq dtrs s.heap.mem hlo hhi
    (by rw [hself]; exact hd.count) (by rw [hself, hd.size]; omega)
    (by rw [hself, hd.size]; exact hseg)
  rw [hself] at heq
  exact heq

/-- The links of the new cells are all that bsd_morecore writes. -/
theorem carved_links (h : BsdInv A s avail) (dtrs : Dtrs) {b : ℕ} (hlo : 1 ≤ b)
    (hfit : A.page.amount b ≤ s.heap.md.coreResid) :
    Linked (carvedHeap A dtrs s.heap b).mem s.heap.md.mycore
        ((A.page.carve s.heap.md.mycore b).map Cell.off) ∧
      OnlyAt s.heap.mem (carvedHeap A dtrs s.heap b).mem s.heap.md.mycore (A.page.amount b) := by
  obtain ⟨hle, hhi, -, hpos⟩ := A.bounds
  have hcore := h.core
  have hbase := h.ordered.le
  have hseg := A.segment
  have hmul := count_mul_le A.page b
  have hpow : 2 ^ 5 ≤ 2 ^ (b + 4) := Nat.pow_le_pow_right (by norm_num) (by omega)
  have hsz : 8 ≤ 2 ^ (b + 4) := by omega
  have hcur : s.heap.md.mycore ≠ 0 := by omega
  have hspec := linkBlocks_spec dtrs A.arena.dtShmid hsz b (A.page.count b - 1) s.heap.mem hcur
    (by omega)
  rw [← carve_eq] at hspec
  exact ⟨hspec.1, hspec.2.mono le_rfl (by omega)⟩

theorem onList_append (l l' : List Cell) (b : ℕ) :
    onList (l ++ l') b = onList l b ++ onList l' b := by
  simp [onList]

/-- All cells of a list are of one bucket. -/
theorem onList_of_bucket {l : List Cell} {b : ℕ} (hl : ∀ c ∈ l, c.bucket = b) (b' : ℕ) :
    onList l b' = if b' = b then l.map Cell.off else [] := by
  unfold onList
  split
  · rename_i heq
    rw [List.filter_eq_self.mpr fun c hc => by simp [hl c hc, heq]]
  · rename_i hne
    rw [List.filter_eq_nil_iff.mpr fun c hc => by simpa [hl c hc] using fun he => hne he.symm]
    rfl

/-- New cells for a bucket whose list has run empty. -/
theorem carve_inv (h : BsdInv A s avail) (dtrs : Dtrs) {b : ℕ} (hlo : 1 ≤ b)
    (hhi : b ≤ maxBucket) (hempty : s.heap.md.nextf b = 0)
    (hfit : A.page.amount b ≤ s.heap.md.coreResid) :
    BsdInv A { s with
        heap := carvedHeap A dtrs s.heap b
        carved := s.carved ++ A.page.carve s.heap.md.mycore b }
      (A.page.carve s.heap.md.mycore b ++ avail) := by
  obtain ⟨hlink, honly⟩ := h.carved_links dtrs hlo hfit
  have hbucket (c : Cell) (hc : c ∈ A.page.carve s.heap.md.mycore b) : c.bucket = b :=
    (mem_cells hc).1
  have hold (c : Cell) (hc : c ∈ s.carved) :
      c.off + 8 ≤ s.heap.md.mycore ∨ s.heap.md.mycore + A.page.amount b ≤ c.off := by
    have hin := (h.cell_inside hc).2
    have hlen := A.page.blockLen_ge (h.cell c hc).1
    omega
  have hnil : onList avail b = [] := by
    have hb := h.linked b
    rw [hempty] at hb
    exact hb.eq_nil
  exact
    { amd := h.amd
      classes := ⟨h.classes.oversize, h.classes.minbucket, h.classes.pagesz,
        h.classes.pagebucket⟩
      core := by
        have hcore := h.core
        simp only [carvedHeap]
        omega
      tiles := by
        rw [List.map_append]
        exact h.tiles.append (tiles_cells A.page b s.heap.md.mycore _)
      cell := by
        intro c hc
        rcases List.mem_append.mp hc with hc | hc
        · exact h.cell c hc
        · obtain ⟨hb, hge, hdvd⟩ := mem_cells hc
          have hal := h.coreAligned
          have hmod : (c.off - s.heap.md.mycore) % 16 = 0 := Nat.mod_eq_zero_of_dvd
            ((Nat.dvd_of_mod_eq_zero (A.page.blockLen_mod b)).trans hdvd)
          refine ⟨by omega, by omega, by omega⟩
      coreAligned := by
        have hal := h.coreAligned
        have hmod : A.page.amount b % 16 = 0 := Nat.mod_eq_zero_of_dvd
          ((Nat.dvd_of_mod_eq_zero (A.page.blockLen_mod b)).mul_left _)
        simp only [carvedHeap]
        omega
      split := by
        rw [List.append_assoc]
        exact (List.perm_append_comm).trans (h.split.append_right _)
      linked := by
        intro b'
        rw [onList_append, onList_of_bucket hbucket]
        by_cases hb : b' = b
        · subst hb
          rw [if_pos rfl, hnil, List.append_nil]
          simp only [carvedHeap, Function.update_self]
          exact hlink
        · rw [if_neg hb, List.nil_append]
          simp only [carvedHeap, Function.update_of_ne hb]
          exact h.linked_frame honly (fun c hc => hold c (h.avail_carved hc)) b'
      header := by
        intro u hu
        rw [← h.header u hu]
        exact load_of_onlyAt honly (hold _ (h.live_carved hu))
      nmalloc := h.nmalloc
      fits := h.fits
      ever := by
        intro r hr
        obtain ⟨hid, c, hc, hrest⟩ := h.ever r hr
        exact ⟨hid, c, List.mem_append_left _ hc, hrest⟩ }

/-- The heap after the first cell of a free list was handed out. -/
def takenHeap (h : BsdHeap) (b x : ℕ) : BsdHeap where
  md := { h.md with
    nextf := Function.update h.md.nextf b (load 8 h.mem x)
    nmalloc := Function.update h.md.nmalloc b (h.md.nmalloc b + 1) }
  mem := store 8 h.mem x (OV_MAGIDX b)

/-- The first cell on a list. -/
theorem head_avail (h : BsdInv A s avail) {b x : ℕ} (hx : s.heap.md.nextf b = x) (hne : x ≠ 0) :
    ⟨x, b⟩ ∈ avail ∧ Linked s.heap.mem (load 8 s.heap.mem x) (onList (avail.erase ⟨x, b⟩) b) := by
  have hlist := h.linked b
  rw [hx] at hlist
  obtain ⟨rest, hrest, hlinked⟩ := hlist.eq_cons hne
  have hmem : x ∈ onList avail b := by simp [hrest]
  refine ⟨onList_mem hmem, ?_⟩
  have herase : onList (avail.erase ⟨x, b⟩) b = rest := by
    unfold onList at hrest ⊢
    rw [← List.erase_filter]
    obtain ⟨c, cs, hcs, hoff, hmap⟩ := List.map_eq_cons_iff.mp hrest
    have hbucket : c.bucket = b := by
      have hc : c ∈ avail.filter (·.bucket = b) := by simp [hcs]
      simpa using (List.mem_filter.mp hc).2
    obtain rfl : c = ⟨x, b⟩ := by
      rw [← hoff, ← hbucket]
    rw [hcs, List.erase_cons_head, hmap]
  rw [herase]
  exact hlinked

theorem OV_MAGIDX_lt (b : ℕ) : OV_MAGIDX b < 2 ^ 64 := by
  unfold OV_MAGIDX MAGIC
  omega

/-- The first cell of a list goes to a user who asked for `size` bytes. -/
theorem take_inv (h : BsdInv A s avail) {b x size : ℕ} (hx : s.heap.md.nextf b = x)
    (hne : x ≠ 0) (hsize : size ≤ A.page.capacity b) :
    BsdInv A
      { heap := takenHeap s.heap b x
        carved := s.carved
        live := s.live ++ [⟨⟨x, b⟩, size⟩]
        ever := s.ever ++ [⟨A.arena.dtShmid, x + 16, size⟩] } (avail.erase ⟨x, b⟩) := by
  obtain ⟨hmem, htail⟩ := h.head_avail hx hne
  have hcarved := h.avail_carved hmem
  have honly := onlyAt_store 8 s.heap.mem x (OV_MAGIDX b)
  have hrest (c : Cell) (hc : c ∈ avail.erase ⟨x, b⟩) : c.off + 8 ≤ x ∨ x + 8 ≤ c.off := by
    have hnodup := (List.nodup_append.mp h.cells_nodup).1
    obtain ⟨hcne, hc⟩ := (hnodup.mem_erase_iff).mp hc
    exact h.word_apart (h.avail_carved hc) hcarved hcne
  exact
    { amd := h.amd
      classes := ⟨h.classes.oversize, h.classes.minbucket, h.classes.pagesz,
        h.classes.pagebucket⟩
      core := h.core
      tiles := h.tiles
      cell := h.cell
      coreAligned := h.coreAligned
      split := by
        have hperm := (List.perm_cons_erase hmem).append_right (s.live.map User.cell)
        refine (List.Perm.trans ?_ hperm.symm).trans h.split
        rw [List.map_append, ← List.append_assoc]
        exact List.perm_append_comm
      linked := by
        intro b'
        by_cases hb : b' = b
        · subst hb
          simp only [takenHeap, Function.update_self]
          exact htail.congr fun y hy => load_of_onlyAt honly (hrest _ (onList_mem hy))
        · have hsame : onList (avail.erase ⟨x, b⟩) b' = onList avail b' := by
            unfold onList
            rw [← List.erase_filter, List.erase_of_not_mem]
            simp [Ne.symm hb]
          have hlist := h.linked b'
          rw [← hsame] at hlist
          simp only [takenHeap, Function.update_of_ne hb]
          exact hlist.congr fun y hy => load_of_onlyAt honly (hrest _ (onList_mem hy))
      header := by
        intro u hu
        rcases List.mem_append.mp hu with hu | hu
        · have hune := h.avail_ne_live hmem hu
          rw [← h.header u hu]
          exact load_of_onlyAt honly (h.word_apart (h.live_carved hu) hcarved hune.symm)
        · obtain rfl := List.mem_singleton.mp hu
          exact load_store_self _ _ (by simpa using OV_MAGIDX_lt b)
      nmalloc := by
        intro b'
        simp only [takenHeap, List.countP_append, List.countP_singleton]
        by_cases hb : b' = b
        · subst hb
          simp [h.nmalloc]
        · simp [hb, Ne.symm hb, h.nmalloc]
      fits := by
        intro u hu
        rcases List.mem_append.mp hu with hu | hu
        · exact h.fits u hu
        · obtain rfl := List.mem_singleton.mp hu
          exact hsize
      ever := by
        intro r hr
        rcases List.mem_append.mp hr with hr | hr
        · exact h.ever r hr
        · obtain rfl := List.mem_singleton.mp hr
          exact ⟨rfl, ⟨x, b⟩, hcarved, rfl, hsize⟩ }

theorem nextf_lt (h : BsdInv A s avail) (b : ℕ) : s.heap.md.nextf b < 2 ^ 64 := by
  by_cases hz : s.heap.md.nextf b = 0
  · rw [hz]
    norm_num
  · have hcarved := h.avail_carved (h.head_avail rfl hz).1
    have hin := (h.cell_inside hcarved).2
    have hcore := h.core
    have hseg := A.segment
    obtain ⟨-, hhi, -, -⟩ := A.bounds
    simp only at hin
    omega

/-- The heap after a cell was put back on its list. -/
def releasedHeap (h : BsdHeap) (c : Cell) : BsdHeap where
  md := { h.md with
    nextf := Function.update h.md.nextf c.bucket c.off
    nmalloc := Function.update h.md.nmalloc c.bucket (h.md.nmalloc c.bucket - 1) }
  mem := store 8 h.mem c.off (h.md.nextf c.bucket)

/-- A user's cell goes back to the front of its list. -/
theorem release_inv (h : BsdInv A s avail) {u : User} (hu : u ∈ s.live) {ref : Shmref}
    (href : ref.dtOffset = u.cell.off + 16) :
    BsdInv A (freeState s ref (releasedHeap s.heap u.cell)) (u.cell :: avail) := by
  have hcarved := h.live_carved hu
  have hname : Names ref u = true := by simp [Names, href]
  obtain ⟨v, l₁, l₂, -, hv, hlive, herase⟩ := List.exists_of_eraseP hu hname
  have hvmem : v ∈ s.live := by simp [hlive]
  have hcell : v.cell = u.cell := by
    apply h.cell_eq (h.live_carved hvmem) hcarved
    simp only [Names, href, beq_iff_eq] at hv
    omega
  have honly := onlyAt_store 8 s.heap.mem u.cell.off (s.heap.md.nextf u.cell.bucket)
  have hfree (c : Cell) (hc : c ∈ avail) : c.off + 8 ≤ u.cell.off ∨ u.cell.off + 8 ≤ c.off :=
    h.word_apart (h.avail_carved hc) hcarved (h.avail_ne_live hc hu)
  have hothers (w : User) (hw : w ∈ l₁ ++ l₂) : w ∈ s.live ∧ w.cell ≠ u.cell := by
    have hnodup := (List.nodup_append.mp h.cells_nodup).2.1
    rw [hlive, List.map_append, List.map_cons, List.perm_middle.nodup_iff, List.nodup_cons,
      ← List.map_append] at hnodup
    constructor
    · rw [hlive]
      simp only [List.mem_append, List.mem_cons] at hw ⊢
      tauto
    · rintro heq
      exact hnodup.1 (hcell ▸ heq ▸ List.mem_map_of_mem hw)
  unfold freeState
  rw [herase]
  exact
    { amd := h.amd
      classes := ⟨h.classes.oversize, h.classes.minbucket, h.classes.pagesz,
        h.classes.pagebucket⟩
      core := h.core
      tiles := h.tiles
      cell := h.cell
      coreAligned := h.coreAligned
      split := by
        refine List.Perm.trans ?_ h.split
        rw [hlive, ← hcell, List.map_append, List.map_append, List.map_cons, List.cons_append,
          ← List.append_assoc, ← List.append_assoc]
        exact List.perm_middle.symm
      linked := by
        intro b'
        by_cases hb : b' = u.cell.bucket
        · have hcons : onList (u.cell :: avail) b' = u.cell.off :: onList avail b' := by
            simp [onList, hb]
          have hpos : u.cell.off ≠ 0 := by
            have hin := (h.cell_inside hcarved).1
            obtain ⟨-, -, -, hlo⟩ := A.bounds
            omega
          rw [hcons, hb]
          simp only [releasedHeap, Function.update_self]
          exact (h.linked u.cell.bucket).push (h.nextf_lt _) hpos fun z hz =>
            hfree _ (onList_mem hz)
        · have hskip : onList (u.cell :: avail) b' = onList avail b' := by
            simp [onList, Ne.symm hb]
          rw [hskip]
          simp only [releasedHeap, Function.update_of_ne hb]
          exact h.linked_frame honly hfree b'
      header := by
        intro w hw
        obtain ⟨hmem, hne⟩ := hothers w hw
        rw [← h.header w hmem]
        exact load_of_onlyAt honly (h.word_apart (h.live_carved hmem) hcarved hne)
      nmalloc := by
        intro b'
        have hcount := h.nmalloc b'
        rw [hlive] at hcount
        simp only [releasedHeap, List.countP_append, List.countP_cons, hcell] at hcount ⊢
        by_cases hb : b' = u.cell.bucket
        · subst hb
          simp only [Function.update_self, decide_true, if_true] at hcount ⊢
          omega
        · simpa [hb, Ne.symm hb] using hcount
      fits := fun w hw => h.fits w (hothers w hw).1
      ever := h.ever }

/-- The heap once bsd_malloc has made sure of its list, if it could. -/
def refilled (dtrs : Dtrs) (h : BsdHeap) (b : ℕ) : BsdHeap :=
  if h.md.nextf b = 0 then bsdMorecore dtrs h b else h

/-- bsd_malloc has cells cut only if its list is empty and the core has room. -/
theorem refilled_cases (h : BsdInv A s avail) {dtrs : Dtrs}
    (hd : Attached A.dtrs₀ dtrs A.arena.dtShmid) {b : ℕ} (hlo : 1 ≤ b) (hhi : b ≤ maxBucket) :
    (refilled dtrs s.heap b = s.heap ∧
        (s.heap.md.nextf b = 0 → s.heap.md.coreResid < A.page.amount b)) ∨
      (s.heap.md.nextf b = 0 ∧ A.page.amount b ≤ s.heap.md.coreResid ∧
        refilled dtrs s.heap b = carvedHeap A dtrs s.heap b) := by
  unfold refilled
  by_cases hempty : s.heap.md.nextf b = 0
  · rw [if_pos hempty, h.bsdMorecore_eq hd hlo hhi]
    by_cases hfull : s.heap.md.coreResid < A.page.amount b
    · rw [if_pos hfull]
      exact .inl ⟨rfl, fun _ => hfull⟩
    · rw [if_neg hfull]
      exact .inr ⟨hempty, not_lt.mp hfull, rfl⟩
  · rw [if_neg hempty]
    exact .inl ⟨rfl, fun hz => absurd hz hempty⟩

theorem refill_inv (h : BsdInv A s avail) {dtrs : Dtrs}
    (hd : Attached A.dtrs₀ dtrs A.arena.dtShmid) {b : ℕ} (hlo : 1 ≤ b) (hhi : b ≤ maxBucket) :
    ∃ avail', BsdInv A { s with
      heap := refilled dtrs s.heap b
      carved := s.carved ++ newCells A.page s.heap.md (refilled dtrs s.heap b).md b } avail' := by
  rcases h.refilled_cases hd hlo hhi with ⟨heq, -⟩ | ⟨hempty, hroom, heq⟩
  · rw [heq]
    refine ⟨avail, ?_⟩
    simpa [newCells] using h
  · have hpos : 0 < A.page.amount b := Nat.mul_pos (A.page.count_pos b)
      (by have := A.page.blockLen_ge hlo; omega)
    have hcells : newCells A.page s.heap.md (carvedHeap A dtrs s.heap b).md b =
        A.page.carve s.heap.md.mycore b := by
      unfold newCells carvedHeap
      exact if_neg (by simp only; omega)
    rw [heq, hcells]
    exact ⟨_, h.carve_inv dtrs hlo hhi hempty hroom⟩

/-- Cutting new cells writes to what was the core only. -/
theorem refill_frame (h : BsdInv A s avail) {dtrs : Dtrs}
    (hd : Attached A.dtrs₀ dtrs A.arena.dtShmid) {b : ℕ} (hlo : 1 ≤ b) (hhi : b ≤ maxBucket) :
    s.heap.md.mycore ≤ (refilled dtrs s.heap b).md.mycore ∧
      ∀ y, y < s.heap.md.mycore ∨ (refilled dtrs s.heap b).md.mycore ≤ y →
        (refilled dtrs s.heap b).mem y = s.heap.mem y := by
  rcases h.refilled_cases hd hlo hhi with ⟨heq, -⟩ | ⟨-, hroom, heq⟩
  · rw [heq]
    exact ⟨le_rfl, fun _ _ => rfl⟩
  · rw [heq]
    exact ⟨Nat.le_add_right _ _, (h.carved_links dtrs hlo hroom).2⟩

/-- With room in the core the list is not empty after that. -/
theorem refilled_nextf (h : BsdInv A s avail) {dtrs : Dtrs}
    (hd : Attached A.dtrs₀ dtrs A.arena.dtShmid) {b : ℕ} (hlo : 1 ≤ b) (hhi : b ≤ maxBucket)
    (hz : (refilled dtrs s.heap b).md.nextf b = 0) :
    refilled dtrs s.heap b = s.heap ∧ s.heap.md.nextf b = 0 ∧
      s.heap.md.coreResid < A.page.amount b := by
  rcases h.refilled_cases hd hlo hhi with ⟨heq, hfull⟩ | ⟨-, -, heq⟩
  · rw [heq] at hz
    exact ⟨heq, hz, hfull hz⟩
  · have hcore : (carvedHeap A dtrs s.heap b).md.nextf b = s.heap.md.mycore :=
      Function.update_self ..
    have hbase := h.ordered.le
    obtain ⟨-, -, -, hpos⟩ := A.bounds
    rw [heq, hcore] at hz
    omega

theorem nmalloc_le (h : BsdInv A s avail) (b : ℕ) : s.heap.md.nmalloc b < 2 ^ 59 := by
  have hlen := h.split.length_eq
  have hcount := h.count_le
  have hle : s.live.countP (·.cell.bucket = b) ≤ s.live.length := List.countP_le_length
  rw [List.length_append, List.length_map] at hlen
  rw [h.nmalloc]
  omega

/-- The second half of bsd_malloc: hand out the first cell of the list. -/
theorem bsdMalloc_eq {dtrs : Dtrs} {h : BsdHeap} {b size : ℕ} {s' : BsdState} {avail' : List Cell}
    (hbucket : sizeBucket h.md size = some b) (hs : s'.heap = refilled dtrs h b)
    (hinv : BsdInv A s' avail') (hd : Attached A.dtrs₀ dtrs A.arena.dtShmid) :
    bsdMalloc dtrs h size =
      if s'.heap.md.nextf b = 0 then (none, s'.heap)
      else (some ((dtrs.shmmap A.arena.dtShmid).mapping + (s'.heap.md.nextf b + 16),
          ⟨A.arena.dtShmid, s'.heap.md.nextf b + 16, size⟩),
        takenHeap s'.heap b (s'.heap.md.nextf b)) := by
  have hself : s'.heap.md.amd.self = A.arena := by rw [hinv.amd]
  have hrefill : (if h.md.nextf b = 0 then bsdMorecore dtrs h b else h) = s'.heap := hs.symm
  unfold bsdMalloc
  simp only [hbucket, hrefill, hself, hinv.classes.oversize]
  by_cases hz : s'.heap.md.nextf b = 0
  · rw [if_pos hz, if_pos hz]
  have hcarved := hinv.avail_carved (hinv.head_avail rfl hz).1
  have hlen := A.page.blockLen_ge (hinv.cell _ hcarved).1
  have hin := (hinv.cell_inside hcarved).2
  have hcore := hinv.core
  have hseg := A.segment
  have hsize := hd.size
  have hcount := hinv.nmalloc_le b
  obtain ⟨-, hhi, -, -⟩ := A.bounds
  simp only at hlen hin
  have hptr : _ → _ → _ → _ → shmref2ptr dtrs ⟨A.arena.dtShmid, s'.heap.md.nextf b, 16⟩ 16 = _ :=
    shmref2ptr_eq_some
  simp only at hptr
  rw [if_neg hz, if_neg hz, hptr hd.count (by omega) (by omega) le_rfl]
  simp only [ptrOffset_mapping_add]
  rw [wrap64_of_lt (by omega), wrap64_of_lt (by omega)]
  simp only [takenHeap, Nat.add_assoc, hinv.classes.oversize]

/-- The state after the cell of bucket `b` at `x` was handed out. -/
def mallocedState (A : BsdRegion) (s : BsdState) (size x b : ℕ) (heap : BsdHeap) : BsdState where
  heap := heap
  carved := s.carved ++ newCells A.page s.heap.md heap.md b
  live := s.live ++ [⟨⟨x, b⟩, size⟩]
  ever := s.ever ++ [⟨A.arena.dtShmid, x + 16, size⟩]

/-- The two outcomes of a request that bucket `b` serves: the core cannot hold
its blocks, or a cell of the bucket at `x` that was nobody's goes to the user. -/
inductive MallocCase (A : BsdRegion) (s : BsdState) (dtrs : Dtrs) (size b : ℕ) : Prop
  | fail (hcall : bsdMalloc dtrs s.heap size = (none, s.heap)) (hempty : s.heap.md.nextf b = 0)
      (hcore : s.heap.md.coreResid < A.page.amount b)
  | ok (x : ℕ) (heap : BsdHeap) (avail : List Cell)
      (hcall : bsdMalloc dtrs s.heap size =
        (some ((dtrs.shmmap A.arena.dtShmid).mapping + (x + 16),
          ⟨A.arena.dtShmid, x + 16, size⟩), heap))
      (hinv : BsdInv A (mallocedState A s size x b heap) avail)
      (hcore : s.heap.md.mycore ≤ heap.md.mycore)
      (hframe : ∀ y, y < x ∨ x + 8 ≤ y → y < s.heap.md.mycore ∨ heap.md.mycore ≤ y →
        heap.mem y = s.heap.mem y)

theorem malloc_cases (h : BsdInv A s avail) {dtrs : Dtrs}
    (hd : Attached A.dtrs₀ dtrs A.arena.dtShmid) {size b : ℕ}
    (hbucket : sizeBucket s.heap.md size = some b) (hhi : b ≤ maxBucket) :
    MallocCase A s dtrs size b := by
  obtain ⟨hlo, -, hfits, -⟩ := (h.classes.sizeBucket_iff size b).mp hbucket
  obtain ⟨avail₁, h₁⟩ := h.refill_inv hd hlo hhi
  have hcall := bsdMalloc_eq hbucket rfl h₁ hd
  simp only at hcall
  by_cases hz : (refilled dtrs s.heap b).md.nextf b = 0
  · obtain ⟨hsame, hempty, hcore⟩ := h.refilled_nextf hd hlo hhi hz
    rw [if_pos hz, hsame] at hcall
    exact .fail hcall hempty hcore
  · rw [if_neg hz] at hcall
    obtain ⟨hcore, hframe⟩ := h.refill_frame hd hlo hhi
    refine .ok _ _ _ hcall (h₁.take_inv rfl hz hfits) hcore ?_
    intro y hy hy'
    exact (onlyAt_store 8 _ _ _ y hy).trans (hframe y hy')

/-- The new cell is apart from the cells that others have, so they are kept. -/
theorem MallocCase.kept (h : BsdInv A s avail) {size b x : ℕ} {heap : BsdHeap} {avail₁ : List Cell}
    (hinv : BsdInv A (mallocedState A s size x b heap) avail₁)
    (hframe : ∀ y, y < x ∨ x + 8 ≤ y → y < s.heap.md.mycore ∨ heap.md.mycore ≤ y →
      heap.mem y = s.heap.mem y) {u : User} (hu : u ∈ s.live) :
    (u.cell.off + A.page.blockLen u.cell.bucket ≤ x ∨ x + A.page.blockLen b ≤ u.cell.off) ∧
      Agree s.heap.mem heap.mem u.cell.off (A.page.blockLen u.cell.bucket) := by
  have hold : u ∈ s.live ++ [⟨⟨x, b⟩, size⟩] := List.mem_append_left _ hu
  have hnew : (⟨⟨x, b⟩, size⟩ : User) ∈ s.live ++ [⟨⟨x, b⟩, size⟩] :=
    List.mem_append_right _ (List.mem_singleton.mpr rfl)
  have hne : u.cell ≠ ⟨x, b⟩ := by
    have hnodup := (List.nodup_append.mp hinv.cells_nodup).2.1
    simp only [mallocedState, List.map_append, List.map_cons, List.map_nil] at hnodup
    exact (List.nodup_append.mp hnodup).2.2 _ (List.mem_map_of_mem hu) _ (by simp)
  have hap := hinv.apart (hinv.live_carved hold) (hinv.live_carved hnew) hne
  have hlen := A.page.blockLen_ge (hinv.cell _ (hinv.live_carved hnew)).1
  have hin := (h.cell_inside (h.live_carved hu)).2
  simp only at hap hlen
  refine ⟨hap, fun y hy hy' => hframe y (by omega) (by omega)⟩

/-- bsd_malloc returns a new cell of a sufficient bucket or NULL, and leaves
the cells of users alone. -/
theorem malloc_spec (h : BsdInv A s avail) {dtrs : Dtrs}
    (hd : Attached A.dtrs₀ dtrs A.arena.dtShmid) {size : ℕ}
    (hsize : size ≤ A.page.capacity maxBucket) :
    ∃ res heap avail', bsdMalloc dtrs s.heap size = (res, heap) ∧
      BsdInv A (mallocState A.page s size res heap) avail' := by
  obtain ⟨b, hbucket, -, hhi, -⟩ := h.classes.sizeBucket_spec hsize
  cases h.malloc_cases hd hbucket hhi with
  | fail hcall =>
    refine ⟨none, s.heap, avail, hcall, ?_⟩
    simpa [mallocState, newCells] using h
  | ok x heap avail₁ hcall hinv =>
    refine ⟨_, heap, avail₁, hcall, ?_⟩
    simpa [mallocState, mallocedState, hbucket] using hinv

/-- On an aligned mapping the first word of a free cell does not look like the magic
number. -/
theorem avail_magic (h : BsdInv A s avail) (hmap : A.mapping % 16 = 0) {c : Cell}
    (hc : c ∈ avail) : OV_MAGIC (load 8 s.heap.mem c.off) ≠ MAGIC := by
  obtain ⟨-, -, hlo, -⟩ := A.bounds
  have hmod : load 8 s.heap.mem c.off % 16 = 0 := by
    rcases (h.linked c.bucket).next_mem (mem_onList hc) with hz | hnext
    · rw [hz]
    · have hcell := (h.cell _ (h.avail_carved (onList_mem hnext))).2.2
      simp only at hcell
      omega
  unfold OV_MAGIC MAGIC
  omega

theorem OV_MAGIDX_magic (b : ℕ) : OV_MAGIC (OV_MAGIDX b) = MAGIC := by
  unfold OV_MAGIC OV_MAGIDX MAGIC
  omega

theorem OV_MAGIDX_index {b : ℕ} (hb : b ≤ maxBucket) : OV_INDEX (OV_MAGIDX b) = b := by
  unfold maxBucket at hb
  unfold OV_INDEX OV_MAGIDX MAGIC
  omega

/-- A reference that was ever returned names a cell. -/
theorem returned_cell (h : BsdInv A s avail) {ref : Shmref} (href : s.Returned ref) :
    ref.dtShmid = A.arena.dtShmid ∧ ∃ c ∈ s.carved, ref.dtOffset = c.off + 16 ∧
      ref.dtLength ≤ A.page.capacity c.bucket := by
  obtain ⟨r, hr, hid, hoff, hlen⟩ := href
  obtain ⟨hid', c, hc, hoff', hlen'⟩ := h.ever r hr
  exact ⟨hid.trans hid', c, hc, hoff.trans hoff', hlen.trans hlen'⟩

/-- A cell is free or somebody's. -/
theorem avail_or_live (h : BsdInv A s avail) {c : Cell} (hc : c ∈ s.carved) :
    c ∈ avail ∨ ∃ u ∈ s.live, u.cell = c := by
  rcases List.mem_append.mp (h.split.mem_iff.mpr hc) with hc | hc
  · exact .inl hc
  · exact .inr (List.mem_map.mp hc)

/-- The reference passes the check for overhead room and leads to the first
word of its cell. -/
theorem named_spec (h : BsdInv A s avail) {dtrs : Dtrs}
    (hd : Attached A.dtrs₀ dtrs A.arena.dtShmid) {ref : Shmref} {c : Cell} (hc : c ∈ s.carved)
    (hid : ref.dtShmid = A.arena.dtShmid) (hoff : ref.dtOffset = c.off + 16)
    (hlen : ref.dtLength ≤ A.page.capacity c.bucket) :
    shmref2ptr dtrs ref 0 = some ((dtrs.shmmap A.arena.dtShmid).mapping + (c.off + 16)) ∧
      ¬ ref.dtOffset < wrap64 (s.heap.md.amd.minUoffset + s.heap.md.oversize) ∧
      ptrOffset dtrs ref.dtShmid
        ((dtrs.shmmap A.arena.dtShmid).mapping + (c.off + 16) - s.heap.md.oversize) = c.off := by
  obtain ⟨hin, hin'⟩ := h.cell_inside hc
  have hblock := A.page.blockLen_ge (h.cell c hc).1
  have hcore := h.core
  have hseg := A.segment
  have hsize := hd.size
  have hcount := hd.count
  obtain ⟨-, hhi, -, -⟩ := A.bounds
  unfold PageSize.capacity at hlen
  have hptr : _ → _ → _ → _ → shmref2ptr dtrs ref 0 = _ := shmref2ptr_eq_some
  rw [hid, hoff] at hptr
  refine ⟨hptr hcount (by omega) (by omega) (by omega), ?_, ?_⟩
  · rw [h.amd, h.classes.oversize, hoff]
    simp only
    rw [wrap64_of_lt (by omega)]
    omega
  · unfold ptrOffset
    rw [h.classes.oversize, hid]
    omega

/-- Freeing a cell that is on a free list changes nothing. -/
theorem bsdFree_avail (h : BsdInv A s avail) (hmap : A.mapping % 16 = 0) {dtrs : Dtrs}
    (hd : Attached A.dtrs₀ dtrs A.arena.dtShmid) {ref : Shmref} {c : Cell} (hc : c ∈ avail)
    (hid : ref.dtShmid = A.arena.dtShmid) (hoff : ref.dtOffset = c.off + 16)
    (hlen : ref.dtLength ≤ A.page.capacity c.bucket) :
    bsdFree dtrs s.heap ref = some s.heap := by
  obtain ⟨hptr, hroom, hov⟩ := h.named_spec hd (h.avail_carved hc) hid hoff hlen
  unfold bsdFree
  simp only [hroom, if_false, hptr, Option.map_some, hov, h.avail_magic hmap hc, ne_eq,
    not_false_eq_true, if_true]

/-- Freeing a user's cell puts it back on its list. -/
theorem bsdFree_live (h : BsdInv A s avail) {dtrs : Dtrs}
    (hd : Attached A.dtrs₀ dtrs A.arena.dtShmid) {ref : Shmref} {u : User} (hu : u ∈ s.live)
    (hid : ref.dtShmid = A.arena.dtShmid) (hoff : ref.dtOffset = u.cell.off + 16)
    (hlen : ref.dtLength ≤ A.page.capacity u.cell.bucket) :
    bsdFree dtrs s.heap ref = some (releasedHeap s.heap u.cell) := by
  have hcarved := h.live_carved hu
  obtain ⟨hptr, hroom, hov⟩ := h.named_spec hd hcarved hid hoff hlen
  obtain ⟨-, hmax, -⟩ := h.cell _ hcarved
  have hbuckets : ¬ NBUCKETS ≤ u.cell.bucket := by
    unfold maxBucket at hmax
    unfold NBUCKETS
    omega
  have hcur : sub64 ref.dtOffset s.heap.md.oversize = u.cell.off := by
    have hin := (h.cell_inside hcarved).2
    have hblock := A.page.blockLen_ge (h.cell _ hcarved).1
    have hcore := h.core
    have hseg := A.segment
    obtain ⟨-, hhi, -, -⟩ := A.bounds
    rw [h.classes.oversize, sub64_of_le (by omega) (by omega)]
    omega
  have hcount : sub64 (s.heap.md.nmalloc u.cell.bucket) 1 =
      s.heap.md.nmalloc u.cell.bucket - 1 := by
    have hlt := h.nmalloc_le u.cell.bucket
    have hpos : 0 < s.live.countP (·.cell.bucket = u.cell.bucket) :=
      List.countP_pos_iff.mpr ⟨u, hu, by simp⟩
    have heq := h.nmalloc u.cell.bucket
    exact sub64_of_le (by omega) (by omega)
  unfold bsdFree
  simp only [hroom, if_false, hptr, Option.map_some, hov, h.header u hu, OV_MAGIDX_magic,
    OV_MAGIDX_index hmax, ne_eq, not_true_eq_false, hbuckets, hcur, hcount]
  rfl

/-- Nobody has the cell that a reference to a free one names. -/
theorem no_user (h : BsdInv A s avail) {ref : Shmref} {c : Cell} (hc : c ∈ avail)
    (hoff : ref.dtOffset = c.off + 16) : ∀ u ∈ s.live, Names ref u = false := by
  intro u hu
  have hne := h.avail_ne_live hc hu
  have hap := h.word_apart (h.avail_carved hc) (h.live_carved hu) hne
  simp only [Names, hoff, beq_eq_false_iff_ne, ne_eq]
  omega

/-- A reference that may be passed names a live cell, or a free one on an aligned
mapping. -/
theorem usable_cases (h : BsdInv A s avail) {ref : Shmref} (href : s.Usable A ref) :
    ref.dtShmid = A.arena.dtShmid ∧
      ((A.mapping % 16 = 0 ∧ ∃ c ∈ avail, ref.dtOffset = c.off + 16 ∧
        ref.dtLength ≤ A.page.capacity c.bucket) ∨
      ∃ u ∈ s.live, ref.dtOffset = u.cell.off + 16 ∧
        ref.dtLength ≤ A.page.capacity u.cell.bucket) := by
  obtain ⟨hret, hlive⟩ := href
  obtain ⟨hid, c, hc, hoff, hlen⟩ := h.returned_cell hret
  refine ⟨hid, ?_⟩
  rcases h.avail_or_live hc with hav | ⟨u, hu, rfl⟩
  · rcases hlive with hmap | ⟨u, hu, hname⟩
    · exact .inl ⟨hmap, c, hav, hoff, hlen⟩
    · rw [h.no_user hav hoff u hu] at hname
      simp at hname
  · exact .inr ⟨u, hu, hoff, hlen⟩

/-- bsd_free takes every such reference. -/
theorem free_spec (h : BsdInv A s avail) {dtrs : Dtrs}
    (hd : Attached A.dtrs₀ dtrs A.arena.dtShmid) {ref : Shmref} (href : s.Usable A ref) :
    ∃ heap avail', bsdFree dtrs s.heap ref = some heap ∧
      BsdInv A (freeState s ref heap) avail' := by
  obtain ⟨hid, ⟨hmap, c, hav, hoff, hlen⟩ | ⟨u, hu, hoff, hlen⟩⟩ := h.usable_cases href
  · refine ⟨s.heap, avail, h.bsdFree_avail hmap hd hav hid hoff hlen, ?_⟩
    have hsame : s.live.eraseP (Names ref) = s.live :=
      List.eraseP_of_forall_not fun u hu => by simp [h.no_user hav hoff u hu]
    unfold freeState
    rw [hsame]
    exact h
  · exact ⟨_, _, h.bsdFree_live hd hu hid hoff hlen, h.release_inv hu hoff⟩

/-- A realloc that keeps the block only changes what its user asked for. -/
theorem relabel_inv (h : BsdInv A s avail) {u : User} (hu : u ∈ s.live) {ref : Shmref}
    (hid : ref.dtShmid = A.arena.dtShmid) (hoff : ref.dtOffset = u.cell.off + 16) {newSize : ℕ}
    (hsize : newSize ≤ A.page.capacity u.cell.bucket) :
    BsdInv A { s with
      live := s.live.map fun u => if Names ref u then { u with len := newSize } else u
      ever := s.ever ++ [⟨ref.dtShmid, ref.dtOffset, newSize⟩] } avail := by
  have hcell : ∀ v : User,
      (if Names ref v then { v with len := newSize } else v).cell = v.cell := by
    intro v
    split <;> rfl
  have hcells : (s.live.map fun u => if Names ref u then { u with len := newSize } else u).map
      User.cell = s.live.map User.cell := by
    rw [List.map_map]
    exact List.map_congr_left fun v _ => hcell v
  exact { h with
    split := by
      simp only [hcells]
      exact h.split
    header := by
      intro v hv
      obtain ⟨w, hw, rfl⟩ := List.mem_map.mp hv
      rw [hcell]
      exact h.header w hw
    nmalloc := by
      intro b
      rw [h.nmalloc, List.countP_map]
      apply List.countP_congr
      intro v _
      simp [hcell]
    fits := by
      intro v hv
      obtain ⟨w, hw, rfl⟩ := List.mem_map.mp hv
      rw [hcell]
      split
      · rename_i hname
        have hwu : w.cell = u.cell := by
          apply h.cell_eq (h.live_carved hw) (h.live_carved hu)
          simp only [Names, hoff, beq_iff_eq] at hname
          omega
        rw [hwu]
        exact hsize
      · exact h.fits w hw
    ever := by
      intro r hr
      rcases List.mem_append.mp hr with hr | hr
      · exact h.ever r hr
      · obtain rfl := List.mem_singleton.mp hr
        exact ⟨hid, u.cell, h.live_carved hu, hoff, hsize⟩ }

/-- A realloc of a cell that is on a free list returns NULL. -/
theorem bsdRealloc_avail (h : BsdInv A s avail) (hmap : A.mapping % 16 = 0) {dtrs : Dtrs}
    (hd : Attached A.dtrs₀ dtrs A.arena.dtShmid) {ref : Shmref} {c : Cell} (hc : c ∈ avail)
    (hid : ref.dtShmid = A.arena.dtShmid) (hoff : ref.dtOffset = c.off + 16)
    (hlen : ref.dtLength ≤ A.page.capacity c.bucket) (newSize : ℕ) :
    bsdRealloc dtrs s.heap ref newSize = some (none, s.heap) := by
  obtain ⟨hptr, hroom, hov⟩ := h.named_spec hd (h.avail_carved hc) hid hoff hlen
  unfold bsdRealloc
  simp only [hroom, if_false, hptr, hov, h.avail_magic hmap hc, ne_eq, not_false_eq_true, if_true]

/-- The two ways through bsd_realloc for a user's cell. -/
theorem bsdRealloc_live (h : BsdInv A s avail) {dtrs : Dtrs}
    (hd : Attached A.dtrs₀ dtrs A.arena.dtShmid) {ref : Shmref} {u : User} (hu : u ∈ s.live)
    (hid : ref.dtShmid = A.arena.dtShmid) (hoff : ref.dtOffset = u.cell.off + 16)
    (hlen : ref.dtLength ≤ A.page.capacity u.cell.bucket) (newSize : ℕ) :
    bsdRealloc dtrs s.heap ref newSize =
      if sizeBucket s.heap.md newSize = some u.cell.bucket then
        some (some ((dtrs.shmmap A.arena.dtShmid).mapping + (u.cell.off + 16),
          ⟨A.arena.dtShmid, u.cell.off + 16, newSize⟩), s.heap)
      else
        match bsdMalloc dtrs s.heap newSize with
        | (none, h) => some (none, h)
        | (some (newptr, newref), h) =>
          (bsdFree dtrs { h with
            mem := memcpy h.mem (ptrOffset dtrs A.arena.dtShmid newptr) (u.cell.off + 16)
              (min newSize (A.page.capacity u.cell.bucket)) } ref).map fun h =>
            (some (newptr, newref), h) := by
  have hcarved := h.live_carved hu
  obtain ⟨hptr, hroom, hov⟩ := h.named_spec hd hcarved hid hoff hlen
  obtain ⟨hmin, hmax, -⟩ := h.cell _ hcarved
  have hbuckets : ¬ (u.cell.bucket < s.heap.md.minbucket ∨ NBUCKETS ≤ u.cell.bucket) := by
    rw [h.classes.minbucket]
    unfold maxBucket at hmax
    unfold NBUCKETS
    omega
  have hcopy : (if newSize < A.page.capacity u.cell.bucket then newSize
      else A.page.capacity u.cell.bucket) = min newSize (A.page.capacity u.cell.bucket) := by
    split <;> omega
  have hkeep := h.classes.keep_iff hmin hmax newSize
  unfold bsdRealloc
  simp only [hroom, if_false, hptr, hov, h.header u hu, OV_MAGIDX_magic, OV_MAGIDX_index hmax,
    ne_eq, not_true_eq_false, hbuckets, hkeep]
  split
  · rw [hid, hoff]
  · rcases bsdMalloc dtrs s.heap newSize with ⟨_ | ⟨newptr, newref⟩, heap⟩
    · rfl
    · simp only [h.classes.userBytes_eq hmin hmax, hcopy, hid, ptrOffset_mapping_add]

/-- The heap in the middle of a realloc: the data are copied to the new cell. -/
def copiedHeap (heap : BsdHeap) (dst src n : ℕ) : BsdHeap :=
  { heap with mem := memcpy heap.mem dst src n }

/-- The ways through bsd_realloc for a user's cell: its bucket is right for the new
size and the block stays; there is no memory; or the data are copied to a new
cell and the old one goes back to its list. -/
inductive ReallocCase (A : BsdRegion) (s : BsdState) (dtrs : Dtrs) (ref : Shmref) (u : User)
    (newSize b : ℕ) : Prop
  | kept (hb : b = u.cell.bucket)
      (hcall : bsdRealloc dtrs s.heap ref newSize =
        some (some ((dtrs.shmmap A.arena.dtShmid).mapping + (u.cell.off + 16),
          ⟨A.arena.dtShmid, u.cell.off + 16, newSize⟩), s.heap))
  | fail (hb : b ≠ u.cell.bucket)
      (hcall : bsdRealloc dtrs s.heap ref newSize = some (none, s.heap))
  | moved (hb : b ≠ u.cell.bucket) (x n : ℕ) (heap : BsdHeap) (avail : List Cell)
      (hn : n = min newSize (A.page.capacity u.cell.bucket))
      (hmalloc : bsdMalloc dtrs s.heap newSize =
        (some ((dtrs.shmmap A.arena.dtShmid).mapping + (x + 16),
          ⟨A.arena.dtShmid, x + 16, newSize⟩), heap))
      (hcall : bsdRealloc dtrs s.heap ref newSize =
        some (some ((dtrs.shmmap A.arena.dtShmid).mapping + (x + 16),
            ⟨A.arena.dtShmid, x + 16, newSize⟩),
          releasedHeap (copiedHeap heap (x + 16) (u.cell.off + 16) n) u.cell))
      (hroom : 16 + n ≤ A.page.blockLen u.cell.bucket ∧ 16 + n ≤ A.page.blockLen b)
      (hapart : ∀ v ∈ s.live, (v.cell.off + A.page.blockLen v.cell.bucket ≤ x ∨
        x + A.page.blockLen b ≤ v.cell.off) ∧
          Agree s.heap.mem heap.mem v.cell.off (A.page.blockLen v.cell.bucket))
      (hcore : s.heap.md.mycore ≤ heap.md.mycore)
      (hframe : ∀ y, y < x ∨ x + 8 ≤ y → y < s.heap.md.mycore ∨ heap.md.mycore ≤ y →
        heap.mem y = s.heap.mem y)
      (hinv : BsdInv A (freeState (mallocedState A s newSize x b heap) ref
        (releasedHeap (copiedHeap heap (x + 16) (u.cell.off + 16) n) u.cell)) (u.cell :: avail))

theorem realloc_cases (h : BsdInv A s avail) {dtrs : Dtrs}
    (hd : Attached A.dtrs₀ dtrs A.arena.dtShmid) {ref : Shmref} {u : User} (hu : u ∈ s.live)
    (hid : ref.dtShmid = A.arena.dtShmid) (hoff : ref.dtOffset = u.cell.off + 16)
    (hlen : ref.dtLength ≤ A.page.capacity u.cell.bucket) {newSize b : ℕ}
    (hbucket : sizeBucket s.heap.md newSize = some b) (hhi : b ≤ maxBucket) :
    ReallocCase A s dtrs ref u newSize b := by
  have hcall := h.bsdRealloc_live hd hu hid hoff hlen newSize
  rw [hbucket] at hcall
  by_cases hsame : b = u.cell.bucket
  · rw [if_pos (congrArg some hsame)] at hcall
    exact .kept hsame hcall
  rw [if_neg fun heq => hsame (Option.some.inj heq)] at hcall
  cases h.malloc_cases hd hbucket hhi with
  | fail hmalloc hempty hcore =>
    rw [hmalloc] at hcall
    exact .fail hsame hcall
  | ok x heap avail₁ hmalloc h₁ hcore hframe =>
    rw [hmalloc] at hcall
    simp only [ptrOffset_mapping_add] at hcall
    obtain ⟨n, hn⟩ : ∃ n, n = min newSize (A.page.capacity u.cell.bucket) := ⟨_, rfl⟩
    rw [← hn] at hcall
    -- after the malloc both cells are live, and the copy stays in the new one
    have hold : u ∈ s.live ++ [⟨⟨x, b⟩, newSize⟩] := List.mem_append_left _ hu
    have hnew : (⟨⟨x, b⟩, newSize⟩ : User) ∈ s.live ++ [⟨⟨x, b⟩, newSize⟩] :=
      List.mem_append_right _ (List.mem_singleton.mpr rfl)
    have hfits := h₁.fits _ hnew
    have hblock := A.page.blockLen_ge (h₁.cell _ (h₁.live_carved hnew)).1
    have hblock' := A.page.blockLen_ge (h₁.cell _ (h₁.live_carved hold)).1
    unfold PageSize.capacity at hfits hn
    simp only at hfits hblock hblock'
    have hcopied := h₁.data_inv hnew (onlyAt_memcpy heap.mem (x + 16) (u.cell.off + 16) n)
      le_rfl (by simp only; omega)
    have hfree := hcopied.bsdFree_live hd hold hid hoff hlen
    refine .moved hsame x n heap avail₁ hn hmalloc ?_ ⟨by omega, by omega⟩
      (fun v hv => MallocCase.kept h h₁ hframe hv) hcore hframe (hcopied.release_inv hold hoff)
    rw [hcall]
    exact congrArg (Option.map _) hfree

/-- The data arrive in the new cell. -/
theorem moved_data (h : BsdInv A s avail) {u : User} (hu : u ∈ s.live) {x n len : ℕ}
    {heap : BsdHeap} (hroom : 16 + n ≤ A.page.blockLen u.cell.bucket ∧ 16 + n ≤ len)
    (hap : u.cell.off + A.page.blockLen u.cell.bucket ≤ x ∨ x + len ≤ u.cell.off)
    (hkept : Agree s.heap.mem heap.mem u.cell.off (A.page.blockLen u.cell.bucket)) {i : ℕ}
    (hi : i < n) :
    (releasedHeap (copiedHeap heap (x + 16) (u.cell.off + 16) n) u.cell).mem (x + 16 + i) =
      s.heap.mem (u.cell.off + 16 + i) := by
  have hblock := A.page.blockLen_ge (h.cell _ (h.live_carved hu)).1
  simp only [releasedHeap, copiedHeap]
  rw [onlyAt_store 8 _ _ _ _ (by omega), memcpy_apply _ hi]
  exact hkept _ (by omega) (by omega)

/-- bsd_realloc of a user's cell returns; what it returns holds the data that
fit into the new size. -/
theorem realloc_spec (h : BsdInv A s avail) {dtrs : Dtrs}
    (hd : Attached A.dtrs₀ dtrs A.arena.dtShmid) {ref : Shmref} {u : User} (hu : u ∈ s.live)
    (hid : ref.dtShmid = A.arena.dtShmid) (hoff : ref.dtOffset = u.cell.off + 16)
    (hlen : ref.dtLength ≤ A.page.capacity u.cell.bucket) {newSize : ℕ}
    (hsize : newSize ≤ A.page.capacity maxBucket) :
    ∃ res heap avail', bsdRealloc dtrs s.heap ref newSize = some (res, heap) ∧
      BsdInv A (reallocState A.page s ref newSize res heap) avail' ∧
      ∀ ptr newref, res = some (ptr, newref) → ∀ i < min u.len newSize,
        heap.mem (newref.dtOffset + i) = s.heap.mem (u.cell.off + 16 + i) := by
  obtain ⟨b, hbucket, -, hhi, hfits⟩ := h.classes.sizeBucket_spec hsize
  cases h.realloc_cases hd hu hid hoff hlen hbucket hhi with
  | kept hb hcall =>
    subst hb
    refine ⟨_, _, avail, hcall, ?_, ?_⟩
    · simp only [reallocState, ← hoff, if_true]
      rw [← hid]
      exact h.relabel_inv hu hid hoff hfits
    · intro ptr newref hres i _
      obtain ⟨-, rfl⟩ := Prod.mk.inj (Option.some.inj hres)
      rfl
  | fail hb hcall =>
    refine ⟨none, s.heap, avail, hcall, ?_, ?_⟩
    · simpa [reallocState, mallocState, newCells] using h
    · intro ptr newref heq
      simp at heq
  | moved hb x n heap avail₁ hn _ hcall hroom hapart hcore hframe hinv =>
    obtain ⟨hap, hkept⟩ := hapart u hu
    have hblock := A.page.blockLen_ge (h.cell _ (h.live_carved hu)).1
    refine ⟨_, _, u.cell :: avail₁, hcall, ?_, ?_⟩
    · have hneq : x + 16 ≠ ref.dtOffset := by omega
      have hcells : newCells A.page s.heap.md
          (releasedHeap (copiedHeap heap (x + 16) (u.cell.off + 16) n) u.cell).md b =
            newCells A.page s.heap.md heap.md b := rfl
      simp only [reallocState, if_neg hneq]
      simpa [mallocState, mallocedState, hbucket, freeState, hcells] using hinv
    · intro ptr newref heq i hi
      obtain ⟨-, rfl⟩ := Prod.mk.inj (Option.some.inj heq)
      have hcap := h.fits u hu
      exact h.moved_data hu hroom hap hkept (by omega)

theorem sizeBucket_none (h : BsdInv A s avail) {size : ℕ}
    (hsize : A.page.capacity (NBUCKETS - 1) < size) : sizeBucket s.heap.md size = none := by
  by_contra hne
  obtain ⟨b, hb⟩ := Option.ne_none_iff_exists'.mp hne
  obtain ⟨-, hlt, hfit, -⟩ := (h.classes.sizeBucket_iff size b).mp hb
  have hle := A.page.capacity_mono (show b ≤ NBUCKETS - 1 by omega)
  omega

/-- A size without a bucket is refused. -/
theorem bsdMalloc_none (h : BsdInv A s avail) (dtrs : Dtrs) {size : ℕ}
    (hsize : A.page.capacity (NBUCKETS - 1) < size) :
    bsdMalloc dtrs s.heap size = (none, s.heap) := by
  unfold bsdMalloc
  rw [h.sizeBucket_none hsize]

/-- Every call and every write of a user keeps the invariant. -/
theorem step (h : BsdInv A s avail) {s' : BsdState} (hs : BsdCall A s s') :
    ∃ avail', BsdInv A s' avail' := by
  have hsame (size : ℕ) : BsdInv A (mallocState A.page s size none s.heap) avail := by
    simpa [mallocState, newCells] using h
  cases hs with
  | malloc dtrs size hd hsize res heap hcall =>
    rcases hsize with hsize | hsize
    · obtain ⟨res', heap', avail', hcall', hinv⟩ := h.malloc_spec hd hsize
      rw [hcall'] at hcall
      obtain ⟨rfl, rfl⟩ := Prod.mk.inj hcall
      exact ⟨avail', hinv⟩
    · rw [h.bsdMalloc_none dtrs hsize] at hcall
      obtain ⟨rfl, rfl⟩ := Prod.mk.inj hcall
      exact ⟨avail, hsame size⟩
  | free dtrs ref hd href heap hcall =>
    obtain ⟨heap', avail', hcall', hinv⟩ := h.free_spec hd href
    rw [hcall'] at hcall
    obtain rfl := Option.some.inj hcall
    exact ⟨avail', hinv⟩
  | realloc dtrs ref newSize hd href hsize res heap hcall =>
    obtain ⟨hid, ⟨hmap, c, hav, hoff, hlen⟩ | ⟨u, hu, hoff, hlen⟩⟩ := h.usable_cases href
    · rw [h.bsdRealloc_avail hmap hd hav hid hoff hlen newSize] at hcall
      obtain ⟨rfl, rfl⟩ := Prod.mk.inj (Option.some.inj hcall)
      exact ⟨avail, hsame newSize⟩
    rcases hsize with hsize | hsize
    · obtain ⟨res', heap', avail', hcall', hinv, -⟩ := h.realloc_spec hd hu hid hoff hlen hsize
      rw [hcall'] at hcall
      obtain ⟨rfl, rfl⟩ := Prod.mk.inj (Option.some.inj hcall)
      exact ⟨avail', hinv⟩
    · rw [h.bsdRealloc_live hd hu hid hoff hlen, h.sizeBucket_none hsize,
        h.bsdMalloc_none dtrs hsize] at hcall
      obtain ⟨rfl, rfl⟩ := Prod.mk.inj (Option.some.inj hcall)
      exact ⟨avail, hsame newSize⟩
  | write u x v hu hlo hhi => exact ⟨avail, h.data_inv hu (onlyAt_update _ x v) hlo hhi⟩

theorem of_reachable {mem : Mem} (h : A.Reachable mem s) : ∃ avail, BsdInv A s avail := by
  induction h with
  | refl => exact ⟨[], start A mem⟩
  | tail _ hs ih =>
    obtain ⟨avail, hinv⟩ := ih
    exact hinv.step hs

end BsdInv

theorem BsdStep.call {A : BsdArena} {s s' : BsdState} (hs : BsdStep A s s') :
    BsdCall A.toBsdRegion s s' :=
  BsdMove.mono (fun _ hsize => served_of_le A.page hsize)
    (fun _ href => ⟨href, .inl A.mapping_mod⟩) hs

theorem BsdArena.Reachable.region {A : BsdArena} {mem : Mem} {s : BsdState}
    (h : A.Reachable mem s) : A.toBsdRegion.Reachable mem s :=
  Relation.ReflTransGen.mono (fun _ _ hs => hs.call) _ _ h

/-- What the allocator guarantees in a state of a run. -/
structure BsdSafe (A : BsdArena) (s : BsdState) : Prop where
  core : s.heap.md.mycore + s.heap.md.coreResid = A.hi
  tiles : Tiles A.lo s.heap.md.mycore (s.carved.map (Cell.extent A.page))
  lists : s.carved.Nodup ∧ ∃ avail, (avail ++ s.live.map User.cell).Perm s.carved ∧
    ∀ b, Linked s.heap.mem (s.heap.md.nextf b) (onList avail b)
  nmalloc : ∀ b, s.heap.md.nmalloc b = s.live.countP (·.cell.bucket = b)
  disjoint : (s.live.map User.extent).Pairwise Extent.Apart
  inside : ∀ u ∈ s.live, u.extent.Inside A.lo A.hi
  aligned : ∀ dtrs, Attached A.dtrs₀ dtrs A.arena.dtShmid → ∀ u ∈ s.live,
    ((dtrs.shmmap A.arena.dtShmid).mapping + u.extent.off) % 16 = 0
  stale : ∀ dtrs, Attached A.dtrs₀ dtrs A.arena.dtShmid → ∀ ref, s.Returned ref →
    (∀ u ∈ s.live, Names ref u = false) → bsdFree dtrs s.heap ref = some s.heap ∧
      ∀ newSize, bsdRealloc dtrs s.heap ref newSize = some (none, s.heap)
  free : ∀ dtrs, Attached A.dtrs₀ dtrs A.arena.dtShmid → ∀ ref, s.Returned ref →
    ∃ heap, bsdFree dtrs s.heap ref = some heap
  realloc : ∀ dtrs, Attached A.dtrs₀ dtrs A.arena.dtShmid → ∀ ref, s.Returned ref →
    ∀ u ∈ s.live, Names ref u = true → ∀ newSize ≤ 2 ^ 30,
    ∃ res heap, bsdRealloc dtrs s.heap ref newSize = some (res, heap) ∧
      ∀ ptr newref, res = some (ptr, newref) → ∀ i < min u.len newSize,
        heap.mem (newref.dtOffset + i) = s.heap.mem (ref.dtOffset + i)

/-- The bytes of two users are apart because their cells are. -/
theorem users_apart {A : BsdRegion} {s : BsdState} {avail : List Cell} (h : BsdInv A s avail) :
    (s.live.map User.extent).Pairwise Extent.Apart := by
  have hcells := (List.nodup_append.mp h.cells_nodup).2.1
  rw [List.pairwise_map]
  refine (List.pairwise_map.mp hcells).imp_of_mem fun {u v} hu hv hne => ?_
  have hap := h.apart (h.live_carved hu) (h.live_carved hv) hne
  have hfu := h.fits u hu
  have hfv := h.fits v hv
  have hbu := A.page.blockLen_ge (h.cell _ (h.live_carved hu)).1
  have hbv := A.page.blockLen_ge (h.cell _ (h.live_carved hv)).1
  unfold PageSize.capacity at hfu hfv
  simp only [Extent.Apart, Extent.stop, User.extent]
  omega

theorem user_inside {A : BsdRegion} {s : BsdState} {avail : List Cell} (h : BsdInv A s avail)
    {u : User} (hu : u ∈ s.live) : u.extent.Inside A.lo A.hi := by
  have hin := h.cell_inside (h.live_carved hu)
  have hfits := h.fits u hu
  have hblock := A.page.blockLen_ge (h.cell _ (h.live_carved hu)).1
  have hcore := h.core
  unfold PageSize.capacity at hfits
  simp only [Extent.Inside, Extent.stop, User.extent]
  omega

/-- Every sequence of calls with references of any age and of writes to live
blocks keeps the bsd allocator safe. -/
theorem bsd_run_safe {A : BsdArena} {mem : Mem} {s : BsdState} (h : A.Reachable mem s) :
    BsdSafe A s := by
  obtain ⟨avail, hinv⟩ := BsdInv.of_reachable h.region
  have hmap := A.mapping_mod
  have huser (u : User) (hu : u ∈ s.live) (ref : Shmref) (hname : Names ref u = true)
      (c : Cell) (hc : c ∈ s.carved) (hoff : ref.dtOffset = c.off + 16) : u.cell = c := by
    apply hinv.cell_eq (hinv.live_carved hu) hc
    simp only [Names, beq_iff_eq] at hname
    omega
  exact {
    core := hinv.core
    tiles := hinv.tiles
    lists := ⟨hinv.carved_nodup, avail, hinv.split, hinv.linked⟩
    nmalloc := hinv.nmalloc
    disjoint := users_apart hinv
    inside := fun u hu => user_inside hinv hu
    aligned := by
      intro dtrs hd u hu
      have hal := (hinv.cell _ (hinv.live_carved hu)).2.2
      have hlo := A.bounds.2.2.1
      have hsame : _ = A.mapping % alignsz := hd.align
      unfold alignsz at hsame
      simp only [User.extent]
      omega
    stale := by
      intro dtrs hd ref href hnone
      obtain ⟨hid, c, hc, hoff, hlen⟩ := hinv.returned_cell href
      rcases hinv.avail_or_live hc with hav | ⟨u, hu, rfl⟩
      · exact ⟨hinv.bsdFree_avail hmap hd hav hid hoff hlen,
          hinv.bsdRealloc_avail hmap hd hav hid hoff hlen⟩
      · have hname := hnone u hu
        simp [Names, hoff] at hname
    free := by
      intro dtrs hd ref href
      obtain ⟨heap, -, hcall, -⟩ := hinv.free_spec hd ⟨href, .inl hmap⟩
      exact ⟨heap, hcall⟩
    realloc := by
      intro dtrs hd ref href u hu hname newSize hsize
      obtain ⟨hid, c, hc, hoff, hlen⟩ := hinv.returned_cell href
      obtain rfl := huser u hu ref hname c hc hoff
      obtain ⟨res, heap, -, hcall, -, hdata⟩ :=
        hinv.realloc_spec hd hu hid hoff hlen (A.page.le_capacity_maxBucket hsize)
      rw [hoff]
      exact ⟨res, heap, hcall, hdata⟩ }

/-- An arena of 32 KiB in a segment of 16 pages. -/
def smallArena : BsdArena where
  page := ⟨12, by norm_num, by norm_num⟩
  dtrs₀ := ⟨1, fun _ => ⟨65536, 0, 65536⟩⟩
  arena := ⟨0, 4096, 32768⟩
  md₀ := ⟨⟨⟨0, 4096, 32768⟩, 5152, 36864, 15⟩, 16, 1, 4096, 8, fun _ => 0, fun _ => 0, 5152, 31712⟩
  init := rfl
  paged := rfl
  segment := by norm_num

/-- A run that allocates a block, frees it, and frees it once more. -/
theorem bsd_run_safe_small :
    ∃ s, smallArena.Reachable (fun _ => 0) s ∧ s.live = [] ∧ s.ever = [⟨0, 5168, 100⟩] ∧
      BsdSafe smallArena s := by
  have hd : Attached smallArena.dtrs₀ smallArena.dtrs₀ smallArena.arena.dtShmid :=
    ⟨by decide, rfl, rfl⟩
  have hmalloc : BsdStep smallArena (smallArena.start fun _ => 0) _ :=
    .malloc _ 100 hd (by norm_num) _ _ rfl
  have hone := Relation.ReflTransGen.refl.tail hmalloc
  obtain ⟨_, hinv⟩ := BsdInv.of_reachable (BsdArena.Reachable.region hone)
  have hfree := hinv.bsdFree_live hd (u := ⟨⟨5152, 3⟩, 100⟩) List.mem_cons_self
    (show (⟨0, 5168, 100⟩ : Shmref).dtShmid = smallArena.arena.dtShmid from rfl) rfl (by decide)
  have htwo := hone.tail
    (.free _ _ hd ⟨⟨0, 5168, 100⟩, List.mem_cons_self, rfl, rfl, le_rfl⟩ _ hfree)
  have hagain := (bsd_run_safe htwo).stale _ hd ⟨0, 5168, 100⟩
    ⟨⟨0, 5168, 100⟩, List.mem_cons_self, rfl, rfl, le_rfl⟩ (fun u hu => absurd hu List.not_mem_nil)
  have hrun := htwo.tail
    (.free _ _ hd ⟨⟨0, 5168, 100⟩, List.mem_cons_self, rfl, rfl, le_rfl⟩ _ hagain.1)
  exact ⟨_, hrun, rfl, rfl, bsd_run_safe hrun⟩

end Dthread.BsdRuns
