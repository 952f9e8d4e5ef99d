import Dthread.BsdRuns

/-!
What bsd_realloc does to a live block. It keeps the block in its place exactly if
bsd_malloc would take the bucket that the block is in; otherwise it moves the
data, or fails without a change.
-/
namespace Dthread.BsdRealloc

open ByteMemory FreeLists ShmRefs BsdMalloc BsdBuckets BsdRuns BsdInv

/-- The address is outside a cell. -/
def Outside (P : PageSize) (c : Cell) (y : ℕ) : Prop := y < c.off ∨ c.off + P.blockLen c.bucket ≤ y

/-- A block was moved from the cell `old` to the cell `new`, of the bucket that
bsd_malloc selects. The copy stays within both cells, and beyond them only core
that was cut for the bucket is written. -/
structure Moved (A : BsdRegion) (s : BsdState) (dtrs : Dtrs) (newSize : ℕ) (old new : Cell)
    (heap : BsdHeap) : Prop where
  bucket : sizeBucket s.heap.md newSize = some new.bucket
  apart : old.off + A.page.blockLen old.bucket ≤ new.off ∨
    new.off + A.page.blockLen new.bucket ≤ old.off
  header : load 8 heap.mem new.off = OV_MAGIDX new.bucket
  released : ∃ rest, Linked heap.mem (heap.md.nextf old.bucket) (old.off :: rest)
  copied : ∃ n heap₁, bsdMalloc dtrs s.heap newSize =
      (some ((dtrs.shmmap A.arena.dtShmid).mapping + (new.off + 16),
        ⟨A.arena.dtShmid, new.off + 16, newSize⟩), heap₁) ∧
    heap = releasedHeap (copiedHeap heap₁ (new.off + 16) (old.off + 16) n) old ∧
    16 + n ≤ A.page.blockLen old.bucket ∧ 16 + n ≤ A.page.blockLen new.bucket
  written : ∀ y, Outside A.page old y → Outside A.page new y →
    y < s.heap.md.mycore ∨ heap.md.mycore ≤ y → heap.mem y = s.heap.mem y

/-- What bsd_realloc of the block `u` makes of the heap. -/
structure ReallocDone (A : BsdRegion) (s : BsdState) (dtrs : Dtrs) (ref : Shmref) (u : User)
    (newSize : ℕ) (res : Option (ℕ × Shmref)) (heap : BsdHeap) : Prop where
  inPlace : (∃ newref, res = some ((dtrs.shmmap ref.dtShmid).mapping + ref.dtOffset, newref)) ↔
    sizeBucket s.heap.md newSize = some u.cell.bucket
  kept : sizeBucket s.heap.md newSize = some u.cell.bucket → heap = s.heap ∧
    res = some ((dtrs.shmmap ref.dtShmid).mapping + ref.dtOffset, { ref with dtLength := newSize })
  moved : ∀ ptr newref, res = some (ptr, newref) →
    sizeBucket s.heap.md newSize ≠ some u.cell.bucket → ∃ new : Cell,
      ptr = (dtrs.shmmap A.arena.dtShmid).mapping + (new.off + 16) ∧
      newref = ⟨A.arena.dtShmid, new.off + 16, newSize⟩ ∧ Moved A s dtrs newSize u.cell new heap
  data : ∀ ptr newref, res = some (ptr, newref) → ∀ i < min u.len newSize,
    heap.mem (newref.dtOffset + i) = s.heap.mem (ref.dtOffset + i)
  others : ∀ v ∈ s.live, v.cell ≠ u.cell →
    Agree s.heap.mem heap.mem v.cell.off (A.page.blockLen v.cell.bucket)
  null : res = none → heap = s.heap

variable {A : BsdRegion} {s : BsdState} {avail : List Cell} {dtrs : Dtrs} {ref : Shmref} {u : User}
  {newSize b : ℕ}

theorem done_kept (hid : ref.dtShmid = A.arena.dtShmid)
    (hoff : ref.dtOffset = u.cell.off + 16)
    (hbucket : sizeBucket s.heap.md newSize = some u.cell.bucket) :
    ReallocDone A s dtrs ref u newSize
      (some ((dtrs.shmmap A.arena.dtShmid).mapping + (u.cell.off + 16),
        ⟨A.arena.dtShmid, u.cell.off + 16, newSize⟩)) s.heap where
  inPlace := by
    rw [hid, hoff]
    exact iff_of_true ⟨_, rfl⟩ hbucket
  kept := by
    intro _
    rw [← hid, ← hoff]
    exact ⟨rfl, rfl⟩
  moved := fun ptr newref _ hne => absurd hbucket hne
  data := by
    intro ptr newref hres i _
    obtain ⟨-, rfl⟩ := Prod.mk.inj (Option.some.inj hres)
    rw [hoff]
  others := fun v _ _ => .refl _ _ _
  null := fun _ => rfl

theorem done_fail (hne : sizeBucket s.heap.md newSize ≠ some u.cell.bucket) :
    ReallocDone A s dtrs ref u newSize none s.heap where
  inPlace := by
    refine iff_of_false ?_ hne
    rintro ⟨newref, heq⟩
    simp at heq
  kept := fun hb => absurd hb hne
  moved := by
    intro ptr newref hres
    simp at hres
  data := by
    intro ptr newref hres
    simp at hres
  others := fun v _ _ => .refl _ _ _
  null := fun _ => rfl

section Moved

variable {x n : ℕ} {heap heap' : BsdHeap} {avail' : List Cell}
  (h : BsdInv A s avail) (hu : u ∈ s.live) (hoff : ref.dtOffset = u.cell.off + 16)
  (heap'_eq : heap' = releasedHeap (copiedHeap heap (x + 16) (u.cell.off + 16) n) u.cell)
  (hroom : 16 + n ≤ A.page.blockLen u.cell.bucket ∧ 16 + n ≤ A.page.blockLen b)
  (hapart : ∀ v ∈ s.live, (v.cell.off + A.page.blockLen v.cell.bucket ≤ x ∨
    x + A.page.blockLen b ≤ v.cell.off) ∧
      Agree s.heap.mem heap.mem v.cell.off (A.page.blockLen v.cell.bucket))

include h hu heap'_eq hroom

/-- The copy and the free write to the two cells only. -/
theorem moved_written {y : ℕ} (hy : Outside A.page u.cell y) (hy' : Outside A.page ⟨x, b⟩ y) :
    heap'.mem y = heap.mem y := by
  have hblock := A.page.blockLen_ge (h.cell _ (h.live_carved hu)).1
  unfold Outside at hy hy'
  simp only at hy'
  rw [heap'_eq]
  simp only [releasedHeap, copiedHeap]
  rw [onlyAt_store 8 _ _ _ _ (by omega)]
  exact onlyAt_memcpy _ _ _ _ _ (by omega)

include hapart

theorem moved_others {v : User} (hv : v ∈ s.live) (hne : v.cell ≠ u.cell) :
    Agree s.heap.mem heap'.mem v.cell.off (A.page.blockLen v.cell.bucket) := by
  obtain ⟨hnew, hkept⟩ := hapart v hv
  have hold := h.apart (h.live_carved hv) (h.live_carved hu) hne
  refine hkept.trans fun y hy hy' => moved_written h hu heap'_eq hroom ?_ ?_
  · unfold Outside
    omega
  · unfold Outside
    simp only
    omega

include hoff

/-- The old cell is in front of its free list and the new one is in use. -/
theorem moved_spec (hbucket : sizeBucket s.heap.md newSize = some b)
    (hmalloc : bsdMalloc dtrs s.heap newSize =
      (some ((dtrs.shmmap A.arena.dtShmid).mapping + (x + 16),
        ⟨A.arena.dtShmid, x + 16, newSize⟩), heap))
    (hframe : ∀ y, y < x ∨ x + 8 ≤ y → y < s.heap.md.mycore ∨ heap.md.mycore ≤ y →
      heap.mem y = s.heap.mem y)
    (hinv : BsdInv A (freeState (mallocedState A s newSize x b heap) ref heap')
      (u.cell :: avail')) : Moved A s dtrs newSize u.cell ⟨x, b⟩ heap' where
  bucket := hbucket
  apart := (hapart u hu).1
  header := by
    have hne : ¬ Names ref (⟨⟨x, b⟩, newSize⟩ : User) = true := by
      have hap := (hapart u hu).1
      have hblock := A.page.blockLen_ge (h.cell _ (h.live_carved hu)).1
      simp only [Names, hoff, beq_iff_eq]
      omega
    have hmem : (⟨⟨x, b⟩, newSize⟩ : User) ∈
        (freeState (mallocedState A s newSize x b heap) ref heap').live :=
      (List.mem_eraseP_of_neg hne).mpr (by simp [mallocedState])
    have hheader := hinv.header _ hmem
    exact hheader
  released := by
    have hlist := hinv.linked u.cell.bucket
    have hcons : onList (u.cell :: avail') u.cell.bucket =
        u.cell.off :: onList avail' u.cell.bucket := by simp [onList]
    rw [hcons] at hlist
    exact ⟨_, hlist⟩
  copied := ⟨n, heap, hmalloc, heap'_eq, hroom⟩
  written := by
    intro y hy hy' hcore
    have hcore' : y < s.heap.md.mycore ∨ heap.md.mycore ≤ y := by
      rw [heap'_eq] at hcore
      exact hcore
    rw [moved_written h hu heap'_eq hroom hy hy']
    unfold Outside at hy'
    simp only at hy'
    exact hframe y (by omega) hcore'

end Moved

/-- Every live block can be resized with a reference of any age to it. -/
theorem bsd_realloc_in_class {mem : Mem} (h : A.Reachable mem s)
    (hd : Attached A.dtrs₀ dtrs A.arena.dtShmid) (href : s.Returned ref) (hu : u ∈ s.live)
    (hname : Names ref u = true) (hsize : newSize ≤ 2 ^ 30) :
    ∃ res heap, bsdRealloc dtrs s.heap ref newSize = some (res, heap) ∧
      ReallocDone A s dtrs ref u newSize res heap := by
  obtain ⟨avail, hinv⟩ := of_reachable h
  obtain ⟨hid, c, hc, hoff, hlen⟩ := hinv.returned_cell href
  have hcell : u.cell = c := by
    apply hinv.cell_eq (hinv.live_carved hu) hc
    simp only [Names, beq_iff_eq] at hname
    omega
  subst hcell
  obtain ⟨b, hbucket, -, hhi, -⟩ :=
    hinv.classes.sizeBucket_spec (A.page.le_capacity_maxBucket hsize)
  have hclass (hb : b ≠ u.cell.bucket) : sizeBucket s.heap.md newSize ≠ some u.cell.bucket := by
    rw [hbucket]
    exact fun heq => hb (Option.some.inj heq)
  cases hinv.realloc_cases hd hu hid hoff hlen hbucket hhi with
  | kept hb hcall =>
    rw [hb] at hbucket
    exact ⟨_, _, hcall, done_kept hid hoff hbucket⟩
  | fail hb hcall => exact ⟨_, _, hcall, done_fail (hclass hb)⟩
  | moved hb x n heap avail₁ hn hmalloc hcall hroom hapart hcore hframe hfinal =>
    have hap := (hapart u hu).1
    have hblock := A.page.blockLen_ge (hinv.cell _ (hinv.live_carved hu)).1
    have hmoved := moved_spec hinv hu hoff rfl hroom hapart hbucket hmalloc hframe hfinal
    refine ⟨_, _, hcall, ?_, fun heq => absurd heq (hclass hb), ?_, ?_, ?_, ?_⟩
    · refine iff_of_false ?_ (hclass hb)
      rintro ⟨newref, heq⟩
      obtain ⟨hptr, -⟩ := Prod.mk.inj (Option.some.inj heq)
      rw [hid, hoff] at hptr
      omega
    · intro ptr newref hres _
      obtain ⟨rfl, rfl⟩ := Prod.mk.inj (Option.some.inj hres)
      exact ⟨⟨x, b⟩, rfl, rfl, hmoved⟩
    · intro ptr newref hres i hi
      obtain ⟨-, rfl⟩ := Prod.mk.inj (Option.some.inj hres)
      have hcap := hinv.fits u hu
      rw [hoff]
      exact hinv.moved_data hu hroom hap (hapart u hu).2 (by omega)
    · exact fun v hv hne => moved_others hinv hu rfl hroom hapart hv hne
    · intro hres
      simp at hres

/-- A block of 100 bytes grows to 200 and leaves its bucket. -/
theorem bsd_realloc_in_class_small : ∃ s, smallArena.toBsdRegion.Reachable (fun _ => 0) s ∧
    s.live = [⟨⟨5152, 3⟩, 100⟩] ∧ sizeBucket s.heap.md 200 = some 4 ∧
    ∃ res heap, bsdRealloc smallArena.dtrs₀ s.heap ⟨0, 5168, 100⟩ 200 = some (res, heap) ∧
      ReallocDone smallArena.toBsdRegion s smallArena.dtrs₀ ⟨0, 5168, 100⟩ ⟨⟨5152, 3⟩, 100⟩ 200 res
        heap := by
  have hd : Attached smallArena.dtrs₀ smallArena.dtrs₀ smallArena.arena.dtShmid :=
    ⟨by decide, rfl, rfl⟩
  have hmalloc : BsdStep smallArena (smallArena.start fun _ => 0) _ :=
    .malloc _ 100 hd (by norm_num) _ _ rfl
  have hrun := BsdArena.Reachable.region (Relation.ReflTransGen.refl.tail hmalloc)
  refine ⟨_, hrun, ?_, ?_, bsd_realloc_in_class hrun hd ?_ ?_ ?_ (by norm_num)⟩
  · rfl
  · decide +kernel
  · exact ⟨⟨0, 5168, 100⟩, List.mem_cons_self, rfl, rfl, le_rfl⟩
  · exact List.mem_cons_self
  · rfl

end Dthread.BsdRealloc
