import Dthread.BreakRuns

/-!
The sizes of break_malloc over all 64-bit requests. Padding and header are added
to the size before one comparison, so a request of the last 31 sizes wraps to a
total of 0 or of a header alone.
-/
namespace Dthread.BreakSizes

open ByteMemory MachineInts Extents ShmRefs BreakMalloc BreakRuns BreakInv

/-- What a block of `size` bytes that break_malloc gives in `s` is due: its total fits
and is what the break line moves by, and the block is inside the arena, apart from the
live blocks, and from those allocated after it while it is live. The call leaves `s₁`. -/
structure Exact (A : BreakRegion) (s : BreakState) (size : ℕ) (ref : Shmref) (s₁ : BreakState) :
    Prop where
  fits : 16 + (size + padding size) ≤ s.heap.md.amd.self.dtLength - s.heap.md.allocated
  allocated : s₁.heap.md.allocated = s.heap.md.allocated + (16 + (size + padding size))
  inside : A.arena.dtOffset ≤ ref.dtOffset ∧
    ref.dtOffset + size ≤ A.arena.dtOffset + A.arena.dtLength
  live : ∀ b ∈ s.live, b.extent.Apart ⟨ref.dtOffset, size⟩
  later : ∀ s', Relation.ReflTransGen (BreakCall A) s₁ s' →
    (⟨ref.dtOffset - 16, size⟩ : Block) ∈ s'.live → s'.live.length + 1 < 2 ^ 31 →
    ∀ dtrs size' ptr' ref' heap', SizeOk s'.heap.md size' →
    breakMalloc dtrs A.arena s'.heap size' = (some (ptr', ref'), heap') →
    Extent.Apart ⟨ref.dtOffset, size⟩ ⟨ref'.dtOffset, size'⟩

/-- A size does not wrap: what break_malloc returns for it is exact, as called from
dthread_shm_malloc and from break_realloc. -/
structure Unwrapped (A : BreakRegion) (s : BreakState) (dtrs : Dtrs) (size : ℕ) : Prop where
  malloc : ∀ ptr ref heap, breakMalloc dtrs A.arena s.heap size = (some (ptr, ref), heap) →
    Exact A s size ref ⟨heap, s.live ++ [⟨ref.dtOffset - 16, size⟩]⟩
  realloc : ∀ b ∈ s.live, ∀ inref, b.Named A.arena inref →
    inref.dtOffset < s.heap.md.amd.maxUoffset → b.size < size →
    ∀ ptr ref heap, breakRealloc dtrs A.arena s.heap inref size = some (some (ptr, ref), heap) →
    Exact A s size ref ⟨heap, reallocLive s.live b size (some (ptr, ref))⟩

variable {A : BreakRegion} {s : BreakState} {dtrs : Dtrs} {size : ℕ}

theorem sizeOk_iff (md : BreakMd) (hsize : size < 2 ^ 64) :
    SizeOk md size ↔
      size ≤ 2 ^ 64 - 32 ∨ (2 ^ 64 - 16 < size ∧ md.amd.self.dtLength - md.allocated < 16) := by
  have hpad := add_padding_mod size
  have hlt := padding_lt size
  unfold alignsz at hpad hlt
  unfold SizeOk
  omega

/-- A block that is given stays apart from what is allocated while it is live. -/
theorem later_apart {s₁ s' : BreakState} (h : BreakInv A s₁)
    (hrun : Relation.ReflTransGen (BreakCall A) s₁ s') {b : Block} (hb : b ∈ s'.live)
    (hcount : s'.live.length + 1 < 2 ^ 31) (hsize : SizeOk s'.heap.md size) {ptr : ℕ}
    {ref : Shmref} {heap : BreakHeap}
    (hcall : breakMalloc dtrs A.arena s'.heap size = (some (ptr, ref), heap)) :
    Extent.Apart ⟨b.off, b.size⟩ ⟨ref.dtOffset, size⟩ := by
  have hinv := h.run hrun
  rw [hinv.breakMalloc_eq dtrs hsize hcount] at hcall
  split at hcall
  · obtain ⟨hres, -⟩ := Prod.mk.inj hcall
    obtain ⟨-, rfl⟩ := Prod.mk.inj (Option.some.inj hres)
    have hin := (hinv.extent_inside hb).2
    left
    simp only [Extent.stop, nextBlock, Block.off] at hin ⊢
    omega
  · simp at hcall

/-- The block behind the break line is exact, in every state that has it live and the
break line behind it. -/
theorem exact_next (h : BreakInv A s) {s₁ : BreakState} (h₁ : BreakInv A s₁)
    (hfit : s.heap.md.allocated + (16 + (size + padding size)) ≤ A.arena.dtLength)
    (halloc : s₁.heap.md.allocated = s.heap.md.allocated + (16 + (size + padding size))) :
    Exact A s size ⟨A.arena.dtShmid, (nextBlock A s size).off, size⟩ s₁ where
  fits := by
    rw [h.md_eq]
    simp only
    omega
  allocated := halloc
  inside := by
    simp only [nextBlock, Block.off]
    omega
  live := by
    intro b hb
    have hin := (h.extent_inside hb).2
    left
    simp only [Extent.stop, Block.extent, nextBlock, Block.off] at hin ⊢
    omega
  later := by
    intro s' hrun hb hcount dtrs' size' ptr' ref' heap' hsize' hcall
    exact later_apart h₁ hrun hb hcount hsize' hcall

/-- A size that wraps is granted without a check of its room. -/
theorem wrapped_granted (h : BreakInv A s) (dtrs : Dtrs) (hsize : size < 2 ^ 64)
    (hwrap : ¬ SizeOk s.heap.md size) :
    ∃ ptr ref heap, breakMalloc dtrs A.arena s.heap size = (some (ptr, ref), heap) := by
  obtain ⟨⟨-, hseg, -, -⟩, -⟩ := A.init_spec
  have h64 := A.segment
  have hself : s.heap.md.amd.self = A.arena := by rw [h.md_eq]
  have hhdr : s.heap.md.hdrlen = 16 := by rw [h.md_eq]
  have htotal : wrap64 (size + padding size + 16) ≤ A.arena.dtLength - s.heap.md.allocated := by
    have hpad := add_padding_mod size
    have hlt := padding_lt size
    unfold alignsz at hpad hlt
    unfold SizeOk at hwrap
    rw [hself] at hwrap
    unfold wrap64
    omega
  unfold breakMalloc
  simp only [hself, hhdr]
  rw [sub64_of_le h.bound (by omega), if_pos htotal]
  exact ⟨_, _, _, rfl⟩

/-- In every state of a run, the sizes that do not wrap are those up to 2^64 - 32, and
the last fifteen if there is no room for a header. -/
theorem break_sizes_exact_iff {mem : Mem} (h : A.Reachable mem s)
    (hd : Attached A.dtrs₀ dtrs A.arena.dtShmid) (hcount : s.live.length + 1 < 2 ^ 31)
    (hsize : size < 2 ^ 64) :
    Unwrapped A s dtrs size ↔
      size ≤ 2 ^ 64 - 32 ∨
        (2 ^ 64 - 16 < size ∧ s.heap.md.amd.self.dtLength - s.heap.md.allocated < 16) := by
  have hinv := BreakInv.of_reachable h
  rw [← sizeOk_iff s.heap.md hsize]
  constructor
  · intro hex
    by_contra hwrap
    obtain ⟨ptr, ref, heap, hcall⟩ := wrapped_granted hinv dtrs hsize hwrap
    obtain ⟨⟨-, hseg, -, -⟩, -⟩ := A.init_spec
    have h64 := A.segment
    have hfits := (hex.malloc ptr ref heap hcall).fits
    have hself : s.heap.md.amd.self = A.arena := by rw [hinv.md_eq]
    rw [hself] at hfits
    unfold SizeOk at hwrap
    omega
  · intro hok
    refine ⟨?_, ?_⟩
    · intro ptr ref heap hcall
      rw [hinv.breakMalloc_eq dtrs hok hcount] at hcall
      split at hcall
      · rename_i hfit
        obtain ⟨hres, rfl⟩ := Prod.mk.inj hcall
        obtain ⟨-, rfl⟩ := Prod.mk.inj (Option.some.inj hres)
        exact exact_next hinv (hinv.grown_inv hfit) hfit rfl
      · simp at hcall
    · intro b hb inref href hin hgrow ptr ref heap hcall
      rw [hinv.breakRealloc_eq hd hb href hin hok hcount, if_neg (not_le.mpr hgrow)] at hcall
      have hcall := Option.some.inj hcall
      split at hcall
      · rename_i hfit
        obtain ⟨hres, rfl⟩ := Prod.mk.inj hcall
        obtain ⟨-, rfl⟩ := Prod.mk.inj (Option.some.inj hres)
        rw [hinv.reallocLive_moved hb ptr size]
        exact exact_next hinv (hinv.moved_inv hb hgrow hfit) hfit (moved_allocated hb size)
      · simp at hcall

/-- The bound in a fresh arena of 1 KiB. -/
theorem break_sizes_exact_iff_small :
    Unwrapped smallArena.toBreakRegion (smallArena.start fun _ => 0) smallArena.dtrs₀
        (2 ^ 64 - 32) ∧
      ¬ Unwrapped smallArena.toBreakRegion (smallArena.start fun _ => 0) smallArena.dtrs₀
        (2 ^ 64 - 1) := by
  have hd : Attached smallArena.dtrs₀ smallArena.dtrs₀ smallArena.arena.dtShmid :=
    ⟨by decide, rfl, rfl⟩
  have hrun : smallArena.toBreakRegion.Reachable (fun _ => 0) (smallArena.start fun _ => 0) := .refl
  have hcount : (smallArena.start fun _ => 0).live.length + 1 < 2 ^ 31 := by decide
  constructor
  · exact (break_sizes_exact_iff hrun hd hcount (by norm_num)).mpr (.inl le_rfl)
  · rw [break_sizes_exact_iff hrun hd hcount (by norm_num)]
    decide

/-- A request for 2^64 - 16 bytes in an arena of 1 KiB is granted and moves the break
line by nothing, so the next block is at the same place. -/
theorem wrapped_request_granted :
    ∃ heap, breakMalloc smallArena.dtrs₀ smallArena.arena (smallArena.start fun _ => 0).heap
        (2 ^ 64 - 16) = (some (4256, ⟨0, 160, 2 ^ 64 - 16⟩), heap) ∧
      heap.md.allocated = smallArena.md₀.allocated ∧
      (breakMalloc smallArena.dtrs₀ smallArena.arena heap 100).1 =
        some (4256, ⟨0, 160, 100⟩) := by
  refine ⟨_, rfl, by decide, by decide⟩

end Dthread.BreakSizes
