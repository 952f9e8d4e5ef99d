import Dthread.SegmentAvail

/-!
What dthread_shm_new_arena writes. The generic header goes to the start of the
space that the segment gave before the driver checks its length, so the space
has to hold the 64 bytes of the header.
-/
namespace Dthread.ArenaWrites

open ByteMemory MachineInts ShmRefs Segments BreakMalloc BsdMalloc Arenas SegmentAvail

/-- Setting up an arena in a segment with the contents `mem` changes only first_avail of
the segment's metadata and bytes of the range that the segment gave. -/
structure WritesOwn (sys : ArenaSys) (dtrs : Dtrs) (seg : SegMd) (mem : Mem)
    (spinErr shmid : ℕ) (name : String) (size : ℕ) : Prop where
  metadata : ∃ first, (shmNewArena sys dtrs seg mem spinErr shmid name size).seg =
    { seg with firstAvail := first }
  null : (shmsegAlloc dtrs seg spinErr shmid size).1 = none →
    (shmNewArena sys dtrs seg mem spinErr shmid name size).mem = mem
  own : ∀ ptr ref, (shmsegAlloc dtrs seg spinErr shmid size).1 = some (ptr, ref) →
    OnlyAt mem (shmNewArena sys dtrs seg mem spinErr shmid name size).mem ref.dtOffset ref.dtLength
  beyond : ∀ x, seg.endAvail ≤ x →
    (shmNewArena sys dtrs seg mem spinErr shmid name size).mem x = mem x

section Drivers

variable {sys : ArenaSys} {dtrs : Dtrs} {arena : Shmref} {mem : Mem}

/-- break_init and bsd_init check that the arena holds their metadata. -/
theorem init_length {mdBasesize ptr : ℕ}
    (h : shmref2ptr dtrs arena (mdalignSize dtrs arena mdBasesize) = some ptr) :
    mdBasesize ≤ arena.dtLength := by
  have hlen := (shmref2ptr_spec h).2.2.2.1
  unfold mdalignSize at hlen
  omega

theorem breakInit_length {md : BreakMd} (h : breakInit dtrs arena (newArenaMd arena) = some md) :
    80 ≤ arena.dtLength := by
  unfold breakInit at h
  simp only [Option.map_eq_some_iff] at h
  obtain ⟨ptr, hptr, -⟩ := h
  exact init_length hptr

theorem bsdInit_length {md : BsdMd} {pagesz : ℕ}
    (h : bsdInit dtrs arena (newArenaMd arena) pagesz = some md) : 1056 ≤ arena.dtLength := by
  unfold bsdInit at h
  simp only [Option.map_eq_some_iff] at h
  obtain ⟨ptr, hptr, -⟩ := h
  exact init_length hptr

/-- The two drivers write to the arena only. -/
theorem onlyAt_mopsInit {mops : Mops} (h : mops = .brk ∨ mops = .bsd) :
    OnlyAt mem (mopsInit sys dtrs mops arena mem).2 arena.dtOffset arena.dtLength := by
  rcases h with rfl | rfl
  · cases hinit : breakInit dtrs arena (newArenaMd arena) with
    | none =>
      simp only [mopsInit, hinit]
      exact .refl _ _ _
    | some md =>
      have hlen := breakInit_length hinit
      simp only [mopsInit, hinit]
      apply onlyAt_storeFields
      intro f hf
      fin_cases hf <;> simp only <;> omega
  · cases hinit : bsdInit dtrs arena (newArenaMd arena) sys.pagesize with
    | none =>
      simp only [mopsInit, hinit]
      exact .refl _ _ _
    | some md =>
      have hlen := bsdInit_length hinit
      have hset (m : Mem) (i : ℕ) (hi : i + NBUCKETS * 8 ≤ 1056) :
          OnlyAt m (memset m (arena.dtOffset + i) 0 (NBUCKETS * 8)) arena.dtOffset
            arena.dtLength :=
        (onlyAt_memset m _ 0 _).mono (by omega) (by omega)
      have hfields : OnlyAt mem (storeFields mem arena.dtOffset (bsdMdFields md)) arena.dtOffset
          arena.dtLength := by
        apply onlyAt_storeFields
        intro f hf
        fin_cases hf <;> simp only <;> omega
      simp only [mopsInit, hinit]
      refine ((hfields.trans (hset _ 80 (by decide))).trans (hset _ 560 (by decide))).trans ?_
      apply onlyAt_storeFields
      intro f hf
      fin_cases hf <;> simp only <;> omega

/-- An arena that is shorter than the header has no room for a driver. -/
theorem mopsInit_short {mops : Mops} (h : mops = .brk ∨ mops = .bsd)
    (hlen : arena.dtLength < allocMdSize) : (mopsInit sys dtrs mops arena mem).2 = mem := by
  unfold allocMdSize at hlen
  rcases h with rfl | rfl
  · cases hinit : breakInit dtrs arena (newArenaMd arena) with
    | none => simp only [mopsInit, hinit]
    | some md =>
      have := breakInit_length hinit
      omega
  · cases hinit : bsdInit dtrs arena (newArenaMd arena) sys.pagesize with
    | none => simp only [mopsInit, hinit]
    | some md =>
      have := bsdInit_length hinit
      omega

theorem internal_mops {usrmops : List UserMops} {mopid : ℕ} {mops : Mops}
    (hmopid : mopid < NINT_MOPS) (h : mopid2ops usrmops mopid = some mops) :
    mops = .brk ∨ mops = .bsd := by
  unfold mopid2ops at h
  rw [if_pos hmopid] at h
  have hcase : mopid = 0 ∨ mopid = 1 := by
    have htwo : NINT_MOPS = 2 := rfl
    omega
  rcases hcase with rfl | rfl
  · exact .inl (Option.some.inj h).symm
  · exact .inr (Option.some.inj h).symm

/-- The last byte of the header is that of the lock, whatever was there. -/
theorem header_last (mem : Mem) (off : ℕ) (amd : AllocMd) (mopid unlocked : ℕ) :
    storeFields mem off (allocMdFields amd mopid unlocked) (off + 63) =
      UInt8.ofNat (unlocked / 256 / 256 / 256) := by
  simp only [allocMdFields, storeFields, store]
  exact Function.update_self ..

end Drivers

variable {sys : ArenaSys} {dtrs : Dtrs} {seg : SegMd} {spinErr shmid size mopid : ℕ}
  {name : String}

/-- A driver that is there sets up what the segment gave. -/
theorem shmNewArena_some (mem : Mem) {mops : Mops} {ptr : ℕ} {arena : Shmref} {seg' : SegMd}
    (hsize : size = 0 ∨ sys.pagesize ≤ size) (hmopid : getMopid sys.usrmops name = some mopid)
    (hmops : mopid2ops sys.usrmops mopid = some mops)
    (halloc : shmsegAlloc dtrs seg spinErr shmid size = (some (ptr, arena), seg')) :
    (shmNewArena sys dtrs seg mem spinErr shmid name size).mem =
      (mopsInit sys dtrs mops arena (storeFields mem arena.dtOffset
        (allocMdFields (newArenaMd arena) mopid sys.unlocked))).2 := by
  unfold shmNewArena
  rw [if_neg (by omega)]
  simp only [hmopid, hmops, halloc]

/-- The header is written to an arena that is shorter, and the driver does not touch it. -/
theorem not_writesOwn {mops : Mops} {ptr : ℕ} {arena : Shmref} {seg' : SegMd}
    (hsize : size = 0 ∨ sys.pagesize ≤ size) (hmopid : getMopid sys.usrmops name = some mopid)
    (hmops : mopid2ops sys.usrmops mopid = some mops) (hinternal : mops = .brk ∨ mops = .bsd)
    (halloc : shmsegAlloc dtrs seg spinErr shmid size = (some (ptr, arena), seg'))
    (hshort : arena.dtLength < 64) :
    ∃ mem, ¬ WritesOwn sys dtrs seg mem spinErr shmid name size := by
  -- contents whose byte at the end of the header differs from what is written there
  refine ⟨fun _ => UInt8.ofNat (sys.unlocked / 256 / 256 / 256) + 1, fun hown => ?_⟩
  have hkeep := hown.own ptr arena (by rw [halloc]) (arena.dtOffset + 63) (by omega)
  rw [shmNewArena_some _ hsize hmopid hmops halloc, mopsInit_short hinternal hshort,
    header_last] at hkeep
  revert hkeep
  generalize UInt8.ofNat (sys.unlocked / 256 / 256 / 256) = v
  intro hkeep
  simp at hkeep

/-- An arena that holds the header gets all that is written. -/
theorem writesOwn_of_le (hend : seg.endAvail < 2 ^ 64)
    (hmopid : getMopid sys.usrmops name = some mopid) (hdriver : mopid < NINT_MOPS)
    (hlen : ∀ ptr ref, (shmsegAlloc dtrs seg spinErr shmid size).1 = some (ptr, ref) →
      64 ≤ ref.dtLength) (mem : Mem) : WritesOwn sys dtrs seg mem spinErr shmid name size := by
  rcases shmNewArena_cases sys dtrs seg mem spinErr shmid name size with
    ⟨rv, -, hcall⟩ | ⟨mopid', mops, ptr, arena, seg', hid, hmops, halloc, hcall⟩
  · refine ⟨⟨seg.firstAvail, ?_⟩, ?_, ?_, ?_⟩
    · rw [hcall]
    · intro _
      rw [hcall]
    · intro ptr ref _
      rw [hcall]
      exact .refl _ _ _
    · intro x _
      rw [hcall]
  · obtain rfl : mopid' = mopid := Option.some.inj (hid.symm.trans hmopid)
    have hroom := hlen ptr arena (by rw [halloc])
    have hheader : OnlyAt mem (storeFields mem arena.dtOffset
        (allocMdFields (newArenaMd arena) mopid' sys.unlocked)) arena.dtOffset arena.dtLength := by
      apply onlyAt_storeFields
      intro f hf
      fin_cases hf <;> simp only <;> omega
    have hinit (m : Mem) : OnlyAt m (mopsInit sys dtrs mops arena m).2 arena.dtOffset
        arena.dtLength := onlyAt_mopsInit (internal_mops hdriver hmops)
    have hown := hheader.trans (hinit _)
    rcases shmsegAlloc_cases dtrs spinErr shmid size hend with hnull | ⟨total, -, -, hle, hgot⟩
    · rw [halloc] at hnull
      simp at hnull
    rw [halloc] at hgot
    obtain ⟨hres, rfl⟩ := Prod.mk.inj hgot
    obtain ⟨-, rfl⟩ := Prod.mk.inj (Option.some.inj hres)
    refine ⟨⟨_, by rw [hcall]⟩, ?_, ?_, ?_⟩
    · intro hnull
      rw [halloc] at hnull
      simp at hnull
    · intro ptr' ref href
      rw [halloc] at href
      obtain ⟨-, rfl⟩ := Prod.mk.inj (Option.some.inj href)
      rw [hcall]
      exact hown
    · intro x hx
      rw [hcall]
      apply hown
      simp only
      omega

/-- The segment gives less than the header takes only to a request for the rest of its
space. -/
theorem granted_length_iff (hend : seg.endAvail < 2 ^ 64) (hpage : 64 ≤ sys.pagesize)
    (hsize : size = 0 ∨ sys.pagesize ≤ size) (hlt : size < 2 ^ 64) :
    (∀ ptr ref, (shmsegAlloc dtrs seg spinErr shmid size).1 = some (ptr, ref) →
        64 ≤ ref.dtLength) ↔
      (Serves dtrs seg spinErr shmid → size = 0 ∨ 2 ^ 64 - 16 < size →
        64 ≤ seg.endAvail - seg.firstAvail) := by
  by_cases hserves : Serves dtrs seg spinErr shmid
  swap
  · rw [shmsegAlloc_of_not_serves size hserves]
    simp [hserves]
  have hpad := add_padding_mod size
  have hpadlt := padding_lt size
  unfold alignsz at hpad hpadlt
  rw [shmsegAlloc_of_serves size hserves hend]
  by_cases hrest : size = 0 ∨ 2 ^ 64 - 16 < size
  · have htotal : wrap64 (size + padding size) = 0 := by
      unfold wrap64
      omega
    simp only [htotal, Nat.not_lt_zero, if_false, grant, if_true, hserves, hrest, true_implies]
    constructor
    · exact fun hlen => hlen _ _ rfl
    · intro hleft ptr ref hgot
      obtain ⟨-, rfl⟩ := Prod.mk.inj (Option.some.inj hgot)
      exact hleft
  · have htotal : wrap64 (size + padding size) = size + padding size := wrap64_of_lt (by omega)
    simp only [hrest, false_implies, implies_true, iff_true]
    intro ptr ref hgot
    split at hgot
    · simp at hgot
    · obtain ⟨-, rfl⟩ := Prod.mk.inj (Option.some.inj hgot)
      simp only [grant, htotal]
      rw [if_neg (by omega)]
      omega

/-- For the break and bsd drivers, setting up an arena stays within its own memory, on
every contents of the segment, except that a request for the rest of the space, with size
0 or one of the last fifteen sizes, finds less than the 64 bytes of the header left. -/
theorem new_arena_writes_own_iff (hend : seg.endAvail < 2 ^ 64)
    (hmopid : getMopid sys.usrmops name = some mopid) (hdriver : mopid < NINT_MOPS)
    (hpage : 64 ≤ sys.pagesize) (hsize : size = 0 ∨ sys.pagesize ≤ size) (hlt : size < 2 ^ 64) :
    (∀ mem, WritesOwn sys dtrs seg mem spinErr shmid name size) ↔
      (Serves dtrs seg spinErr shmid → size = 0 ∨ 2 ^ 64 - 16 < size →
        64 ≤ seg.endAvail - seg.firstAvail) := by
  rw [← granted_length_iff hend hpage hsize hlt]
  constructor
  · intro hown ptr ref hgot
    by_contra hshort
    obtain ⟨mops, hmops⟩ : ∃ mops, mopid2ops sys.usrmops mopid = some mops := by
      unfold mopid2ops
      rw [if_pos hdriver]
      exact ⟨_, by rw [List.getElem?_eq_getElem hdriver]; rfl⟩
    have halloc : shmsegAlloc dtrs seg spinErr shmid size =
      (some (ptr, ref), (shmsegAlloc dtrs seg spinErr shmid size).2) := Prod.ext hgot rfl
    obtain ⟨mem, hmem⟩ := not_writesOwn hsize hmopid hmops (internal_mops hdriver hmops) halloc
      (not_le.mp hshort)
    exact hmem (hown mem)
  · intro hlen mem
    exact writesOwn_of_le hend hmopid hdriver hlen mem

/-- A bsd arena over the six pages that are left, and over 48 bytes that are left. -/
theorem new_arena_writes_own_iff_small :
    (∀ mem, WritesOwn ⟨4096, [], 1⟩ smallDtrs smallMd mem 0 0 "bsd" 0) ∧
      ¬ ∀ mem, WritesOwn ⟨4096, [], 1⟩ smallDtrs { smallMd with firstAvail := 32720 } mem 0 0
        "bsd" 0 := by
  have hmopid : getMopid [] "bsd" = some 1 := by decide
  constructor
  · refine (new_arena_writes_own_iff (by decide) hmopid (by decide) (by decide) (.inl rfl)
      (by decide)).mpr ?_
    intro _ _
    decide
  · rw [new_arena_writes_own_iff (by decide) hmopid (by decide) (by decide) (.inl rfl) (by decide)]
    intro hlen
    have hserves : Serves smallDtrs { smallMd with firstAvail := 32720 } 0 0 :=
      ⟨by decide, by decide, rfl, by decide, by decide⟩
    exact absurd (hlen hserves (.inl rfl)) (by decide)

/-- With 16 bytes left, the request for an arena fails, and it has written behind the end
of the segment. -/
theorem header_behind_segment :
    (shmsegAlloc smallDtrs { smallMd with firstAvail := 32752 } 0 0 0).1 =
        some (98288, ⟨0, 32752, 16⟩) ∧
      (shmNewArena ⟨4096, [], 1⟩ smallDtrs { smallMd with firstAvail := 32752 } (fun _ => 0) 0 0
        "break" 0).rv = ReqMsg.ENOMEM ∧
      (shmNewArena ⟨4096, [], 1⟩ smallDtrs { smallMd with firstAvail := 32752 } (fun _ => 0) 0 0
        "break" 0).mem 32768 = 240 := by
  refine ⟨by decide, ?_, ?_⟩
  · decide +kernel
  · decide +kernel

end Dthread.ArenaWrites
