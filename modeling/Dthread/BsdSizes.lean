import Dthread.BsdRuns

/-!
The size classes of bsd_malloc over all 64-bit sizes. The search for a bucket
doubles a 64-bit amount, while bsd_morecore computes the size of the bucket by a
shift of an int: the two agree up to the last bucket whose size is an int. A
larger request is put into a bucket whose blocks are of another size.
-/
namespace Dthread.BsdSizes

open ByteMemory MachineInts Extents FreeLists ShmRefs BsdMalloc BsdBuckets BsdRuns BsdInv

/-- The shift in BUCKSIZE is one that C defines: its result is an int. -/
def ShiftInRange (b : ℕ) : Prop := (2 : ℤ) ^ (b + 4) < 2 ^ 31

/-- A request that bucket `b` serves as its size class says: the bucket is the
smallest whose blocks are large enough, what bsd_morecore puts on its list are
blocks of at least that size inside the arena, and the request fails only if the
core cannot hold such a block. -/
structure Honoured (A : BsdRegion) (s : BsdState) (dtrs : Dtrs) (size b : ℕ) : Prop where
  bucket : 1 ≤ b ∧ b < NBUCKETS
  shift : ShiftInRange b
  enough : size + 16 ≤ A.page.blockLen b
  smallest : ∀ q, 1 ≤ q → q < b → A.page.blockLen q < size + 16
  blocks : bsdMorecore dtrs s.heap b = s.heap ∨ ∃ cs : List Cell, (∀ c ∈ cs, c.bucket = b) ∧
    Linked (bsdMorecore dtrs s.heap b).mem ((bsdMorecore dtrs s.heap b).md.nextf b)
      (cs.map Cell.off) ∧
    Tiles s.heap.md.mycore (bsdMorecore dtrs s.heap b).md.mycore (cs.map (Cell.extent A.page)) ∧
    A.lo ≤ s.heap.md.mycore ∧ (bsdMorecore dtrs s.heap b).md.mycore ≤ A.hi
  fails : (bsdMalloc dtrs s.heap size).1 = none →
    s.heap.md.nextf b = 0 ∧ s.heap.md.coreResid < A.page.amount b
  usable : ∀ ptr ref, (bsdMalloc dtrs s.heap size).1 = some (ptr, ref) →
    ref.dtLength = size ∧ A.lo + 16 ≤ ref.dtOffset ∧ ref.dtOffset + size ≤ A.hi ∧
      ∀ u ∈ s.live, u.extent.Apart ⟨ref.dtOffset, size⟩

/-- The size classes are honoured for a request: it has no bucket, as the blocks of
the next one would take 2^64 bytes, or it is served by its bucket. -/
def Honours (A : BsdRegion) (s : BsdState) (dtrs : Dtrs) (size : ℕ) : Prop :=
  (sizeBucket s.heap.md size = none ∧ bsdMalloc dtrs s.heap size = (none, s.heap) ∧
    s.heap.md.coreResid < A.page.amount NBUCKETS) ∨
  ∃ b, sizeBucket s.heap.md size = some b ∧ Honoured A s dtrs size b

variable {A : BsdRegion} {s : BsdState} {avail : List Cell} {dtrs : Dtrs} {size b : ℕ}

theorem shiftInRange_iff : ShiftInRange b ↔ b ≤ maxBucket := by
  have hiff : (2 : ℤ) ^ (b + 4) < 2 ^ 31 ↔ b + 4 < 31 := pow_lt_pow_iff_right₀ (by norm_num)
  unfold ShiftInRange maxBucket
  rw [hiff]
  omega

/-- What bsd_morecore puts on a list. -/
theorem morecore_blocks (h : BsdInv A s avail) (hd : Attached A.dtrs₀ dtrs A.arena.dtShmid)
    (hlo : 1 ≤ b) (hhi : b ≤ maxBucket) :
    bsdMorecore dtrs s.heap b = s.heap ∨ ∃ cs : List Cell, (∀ c ∈ cs, c.bucket = b) ∧
      Linked (bsdMorecore dtrs s.heap b).mem ((bsdMorecore dtrs s.heap b).md.nextf b)
        (cs.map Cell.off) ∧
      Tiles s.heap.md.mycore (bsdMorecore dtrs s.heap b).md.mycore (cs.map (Cell.extent A.page)) ∧
      A.lo ≤ s.heap.md.mycore ∧ (bsdMorecore dtrs s.heap b).md.mycore ≤ A.hi := by
  have hcall := h.bsdMorecore_eq hd hlo hhi
  by_cases hfull : s.heap.md.coreResid < A.page.amount b
  · rw [if_pos hfull] at hcall
    exact .inl hcall
  · rw [if_neg hfull] at hcall
    have hcore := h.core
    refine .inr ⟨A.page.carve s.heap.md.mycore b, fun c hc => (mem_cells hc).1, ?_⟩
    rw [hcall]
    refine ⟨?_, tiles_cells A.page b s.heap.md.mycore _, h.ordered.le, ?_⟩
    · have hhead : (carvedHeap A dtrs s.heap b).md.nextf b = s.heap.md.mycore :=
        Function.update_self ..
      rw [hhead]
      exact (h.carved_links dtrs hlo (not_lt.mp hfull)).1
    · simp only [carvedHeap]
      omega

/-- The buckets of int size honour their class. -/
theorem honoured_of_le (h : BsdInv A s avail) (hd : Attached A.dtrs₀ dtrs A.arena.dtShmid)
    (hbucket : sizeBucket s.heap.md size = some b) (hhi : b ≤ maxBucket) :
    Honoured A s dtrs size b := by
  obtain ⟨hlo, hlast, hfit, hleast⟩ := (h.classes.sizeBucket_iff size b).mp hbucket
  have hlen := A.page.blockLen_ge hlo
  refine ⟨⟨hlo, hlast⟩, shiftInRange_iff.mpr hhi, ?_, ?_, morecore_blocks h hd hlo hhi, ?_, ?_⟩
  · unfold PageSize.capacity at hfit
    omega
  · intro q hq hqb
    have hlt := hleast q hq hqb
    unfold PageSize.capacity at hlt
    omega
  · intro hnull
    cases h.malloc_cases hd hbucket hhi with
    | fail hcall hempty hcore => exact ⟨hempty, hcore⟩
    | ok x heap avail₁ hcall hinv hcore hframe =>
      rw [hcall] at hnull
      simp at hnull
  · intro ptr ref hres
    cases h.malloc_cases hd hbucket hhi with
    | fail hcall hempty hcore =>
      rw [hcall] at hres
      simp at hres
    | ok x heap avail₁ hcall hinv hcore hframe =>
      rw [hcall] at hres
      obtain ⟨-, rfl⟩ := Prod.mk.inj (Option.some.inj hres)
      have hnew : (⟨⟨x, b⟩, size⟩ : User) ∈ (mallocedState A s size x b heap).live := by
        simp [mallocedState]
      have hin := hinv.cell_inside (hinv.live_carved hnew)
      have hend := hinv.core
      unfold PageSize.capacity at hfit
      simp only [mallocedState] at hin hend
      refine ⟨rfl, by simp only; omega, by simp only; omega, ?_⟩
      intro u hu
      have hap := (MallocCase.kept h hinv hframe hu).1
      have hfits := h.fits u hu
      have hblock := A.page.blockLen_ge (h.cell _ (h.live_carved hu)).1
      unfold PageSize.capacity at hfits
      simp only [Extent.Apart, Extent.stop, User.extent]
      omega

/-- In every state of a run whose requests are served, the size classes are
honoured for exactly the sizes that are served. -/
theorem size_classes_honoured_iff {mem : Mem} (h : A.Reachable mem s)
    (hd : Attached A.dtrs₀ dtrs A.arena.dtShmid) (size : ℕ) :
    Honours A s dtrs size ↔
      size ≤ 2 ^ 30 + A.page.bytes - 16 ∨ 2 ^ 63 + A.page.bytes - 16 < size := by
  obtain ⟨avail, hinv⟩ := of_reachable h
  have hupper := A.page.upper
  have hmax : A.page.capacity maxBucket = 2 ^ 30 + A.page.bytes - 16 :=
    A.page.capacity_large (by unfold maxBucket; omega)
  have hlast : A.page.capacity (NBUCKETS - 1) = 2 ^ 63 + A.page.bytes - 16 :=
    A.page.capacity_large (by unfold NBUCKETS; omega)
  rw [← hmax, ← hlast]
  constructor
  · rintro (⟨hnone, -⟩ | ⟨b, hbucket, hb⟩)
    · right
      by_contra hle
      obtain ⟨r, hr, -⟩ := hinv.classes.sizeBucket_of_le (by unfold NBUCKETS; omega)
        (by unfold NBUCKETS; omega) (not_lt.mp hle)
      rw [hnone] at hr
      simp at hr
    · left
      obtain ⟨-, -, hfit, -⟩ := (hinv.classes.sizeBucket_iff size b).mp hbucket
      exact hfit.trans (A.page.capacity_mono (shiftInRange_iff.mp hb.shift))
  · rintro (hsize | hsize)
    · obtain ⟨b, hbucket, -, hhi, -⟩ := hinv.classes.sizeBucket_spec hsize
      exact .inr ⟨b, hbucket, honoured_of_le hinv hd hbucket hhi⟩
    · refine .inl ⟨hinv.sizeBucket_none hsize, hinv.bsdMalloc_none dtrs hsize, ?_⟩
      have hcore := hinv.core
      have hseg := A.segment
      obtain ⟨-, hhi, -, -⟩ := A.bounds
      rw [A.page.amount_eq, if_neg (by unfold NBUCKETS; omega)]
      unfold NBUCKETS
      omega

/-- The bounds at 1 GiB, in a fresh arena of 32 KiB. -/
theorem size_classes_honoured_iff_small :
    Honours smallArena.toBsdRegion (smallArena.start fun _ => 0) smallArena.dtrs₀ (2 ^ 30 + 4080) ∧
      ¬ Honours smallArena.toBsdRegion (smallArena.start fun _ => 0) smallArena.dtrs₀
        (2 ^ 30 + 4081) := by
  have hd : Attached smallArena.dtrs₀ smallArena.dtrs₀ smallArena.arena.dtShmid :=
    ⟨by decide, rfl, rfl⟩
  have hrun : smallArena.toBsdRegion.Reachable (fun _ => 0) (smallArena.start fun _ => 0) := .refl
  have hbytes : smallArena.toBsdRegion.page.bytes = 4096 := rfl
  rw [size_classes_honoured_iff hrun hd, size_classes_honoured_iff hrun hd, hbytes]
  norm_num

/-- A request for more than 2 GiB in an arena of 32 KiB: the bucket is 28, its size is
computed as 1, and the request is granted with a block inside the arena. -/
theorem huge_request_granted :
    sizeBucket smallArena.md₀ (2 ^ 31 + 4096) = some 28 ∧ BUCKSIZE 28 = 1 ∧
      (bsdMalloc smallArena.dtrs₀ (smallArena.start fun _ => 0).heap (2 ^ 31 + 4096)).1 =
        some (70704, ⟨0, 5168, 2 ^ 31 + 4096⟩) ∧
      ¬ Honours smallArena.toBsdRegion (smallArena.start fun _ => 0) smallArena.dtrs₀
        (2 ^ 31 + 4096) := by
  have hbucket : sizeBucket (smallArena.start fun _ => 0).heap.md (2 ^ 31 + 4096) = some 28 := by
    decide +kernel
  refine ⟨hbucket, by decide, by decide +kernel, ?_⟩
  rintro (⟨hnone, -⟩ | ⟨b, hb, hon⟩)
  · rw [hbucket] at hnone
    simp at hnone
  · rw [hbucket] at hb
    obtain rfl := Option.some.inj hb
    have hshift := hon.shift
    unfold ShiftInRange at hshift
    omega

end Dthread.BsdSizes
