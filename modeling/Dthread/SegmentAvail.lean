import Dthread.Arenas

/-!
What a segment says it has and what it gives. The allocator pads a size in 64
bits and takes a total of zero for a request of all the rest, so a size of the
last fifteen that wraps to zero is granted whatever is left.
-/
namespace Dthread.SegmentAvail

open ByteMemory MachineInts ShmRefs Segments Arenas

/-- The allocator gives `want` bytes exactly if they are there, as dthread_shm_segavail
has said with `got`, and an arena is never shorter than what was asked for. -/
structure Agrees (dtrs : Dtrs) (md : SegMd) (shmid : ℕ) (got : Shmref) (want : ℕ) : Prop where
  granted : 0 < want →
    ((shmsegAlloc dtrs md 0 shmid want).1.isSome ↔ want + padding want ≤ got.dtLength)
  exact : 0 < want → ∀ ptr ref, (shmsegAlloc dtrs md 0 shmid want).1 = some (ptr, ref) →
    ref = ⟨shmid, got.dtOffset, want + padding want⟩
  rest : want = 0 → ((shmsegAlloc dtrs md 0 shmid want).1.isSome ↔ got.dtLength ≠ 0) ∧
    ∀ ptr ref, (shmsegAlloc dtrs md 0 shmid want).1 = some (ptr, ref) → ref = got
  arena : ∀ sys mem name, (shmNewArena sys dtrs md mem 0 shmid name want).rv = 0 →
    ∃ ref, (shmNewArena sys dtrs md mem 0 shmid name want).arena = some ref ∧ want ≤ ref.dtLength

variable {dtrs : Dtrs} {md : SegMd} {shmid want : ℕ} {got : Shmref}

theorem shmSegavail_ok (hfirst : md.firstAvail ≤ md.endAvail)
    (hend : md.endAvail ≤ (dtrs.shmmap shmid).size) (hsize : (dtrs.shmmap shmid).size < 2 ^ 64)
    (h : shmSegavail dtrs md shmid = .ok got) :
    shmid < dtrs.nshmsrc ∧ md.segMdMagic = DTHREAD_SEG_MD_MAGIC ∧
      got = ⟨shmid, md.firstAvail, md.endAvail - md.firstAvail⟩ := by
  unfold shmSegavail at h
  split at h
  · simp at h
  next hid =>
  split at h
  · simp at h
  next hmagic =>
  rw [if_neg (by omega), sub64_of_le hfirst (by omega)] at h
  exact ⟨not_le.mp hid, not_not.mp hmagic, (Except.ok.inj h).symm⟩

/-- An arena is what the segment gave. -/
theorem newArena_length {sys : ArenaSys} {mem : Mem} {name : String}
    (hrv : (shmNewArena sys dtrs md mem 0 shmid name want).rv = 0) :
    ∃ ptr ref, (shmsegAlloc dtrs md 0 shmid want).1 = some (ptr, ref) ∧
      (shmNewArena sys dtrs md mem 0 shmid name want).arena = some ref := by
  rcases shmNewArena_cases sys dtrs md mem 0 shmid name want with
    ⟨rv, hne, hcall⟩ | ⟨_, _, ptr, ref, _, -, -, halloc, hcall⟩
  · rw [hcall] at hrv
    exact absurd hrv hne
  · exact ⟨ptr, ref, by rw [halloc], by rw [hcall]⟩

/-- What the allocator gives, if it gives anything, has the length of the request or is
all the rest. -/
theorem grant_eq (left : ℕ) (hwant : want ≤ 2 ^ 64 - 16) :
    grant left want = if want = 0 then left else want + padding want := by
  have hpad := add_padding_mod want
  have hlt := padding_lt want
  unfold alignsz at hpad hlt
  unfold grant
  rw [wrap64_of_lt (by omega)]
  by_cases hzero : want = 0
  · subst hzero
    rfl
  · rw [if_neg (by omega), if_neg hzero]

/-- A size that does not wrap is given exactly if it is there. -/
theorem agrees_of_le (ptr₀ : ℕ) (hwant : want ≤ 2 ^ 64 - 16) (hoff : got.dtShmid = shmid)
    (hres : (shmsegAlloc dtrs md 0 shmid want).1 =
      if got.dtLength = 0 ∨ got.dtLength < want + padding want then none
      else some (ptr₀, ⟨shmid, got.dtOffset, grant got.dtLength want⟩)) :
    Agrees dtrs md shmid got want := by
  have hgrant := grant_eq got.dtLength hwant
  have href (ptr : ℕ) (ref : Shmref)
      (hsome : (shmsegAlloc dtrs md 0 shmid want).1 = some (ptr, ref)) :
      ref = ⟨shmid, got.dtOffset, grant got.dtLength want⟩ := by
    rw [hres] at hsome
    split at hsome
    · simp at hsome
    · exact (Prod.mk.inj (Option.some.inj hsome)).2.symm
  refine ⟨?_, ?_, ?_, ?_⟩
  · intro hpos
    rw [hres]
    split
    · simp only [Option.isSome_none, Bool.false_eq_true, false_iff]
      omega
    · simp only [Option.isSome_some, true_iff]
      omega
  · intro hpos ptr ref hsome
    rw [href ptr ref hsome, hgrant, if_neg (by omega)]
  · rintro rfl
    refine ⟨?_, ?_⟩
    · rw [hres]
      have hzero : 0 + padding 0 = 0 := rfl
      split
      · simp only [Option.isSome_none, Bool.false_eq_true, false_iff]
        omega
      · simp only [Option.isSome_some, true_iff]
        omega
    · intro ptr ref hsome
      rw [href ptr ref hsome, hgrant, if_pos rfl, ← hoff]
  · intro sys mem name hrv
    obtain ⟨ptr, ref, hsome, harena⟩ := newArena_length hrv
    refine ⟨ref, harena, ?_⟩
    rw [href ptr ref hsome, hgrant]
    simp only
    split <;> omega

/-- Where nothing is left, nothing is given. -/
theorem agrees_of_empty (hempty : got.dtLength = 0)
    (hres : (shmsegAlloc dtrs md 0 shmid want).1 = none) : Agrees dtrs md shmid got want := by
  refine ⟨?_, ?_, ?_, ?_⟩
  · intro hpos
    rw [hres, hempty]
    simp only [Option.isSome_none, Bool.false_eq_true, false_iff]
    omega
  · intro hpos ptr ref hsome
    rw [hres] at hsome
    simp at hsome
  · intro _
    rw [hres, hempty]
    simp
  · intro sys mem name hrv
    obtain ⟨ptr, ref, hsome, -⟩ := newArena_length hrv
    rw [hres] at hsome
    simp at hsome

/-- In every state of a segment, the allocator agrees with dthread_shm_segavail on
exactly the sizes that do not wrap, and on all sizes if nothing is left. -/
theorem alloc_agrees_iff (hfirst : md.firstAvail ≤ md.endAvail)
    (hend : md.endAvail ≤ (dtrs.shmmap shmid).size) (hsize : (dtrs.shmmap shmid).size < 2 ^ 64)
    (hgot : shmSegavail dtrs md shmid = .ok got) (hwant : want < 2 ^ 64) :
    Agrees dtrs md shmid got want ↔ want ≤ 2 ^ 64 - 16 ∨ got.dtLength = 0 := by
  obtain ⟨hid, hmagic, rfl⟩ := shmSegavail_ok hfirst hend hsize hgot
  have hcall := shmsegAlloc_eq want hid hmagic hfirst hend hsize
  have hpad := add_padding_mod want
  have hlt := padding_lt want
  unfold alignsz at hpad hlt
  constructor
  · intro hag
    by_contra hwrap
    simp only at hwrap
    have htotal : wrap64 (want + padding want) = 0 := by
      unfold wrap64
      omega
    have hgranted := (hag.granted (by omega)).mp
    rw [hcall, htotal, if_neg (by omega)] at hgranted
    have hle := hgranted rfl
    simp only at hle
    omega
  · rintro (hwant | hempty)
    · refine agrees_of_le ((dtrs.shmmap shmid).mapping + md.firstAvail) hwant rfl ?_
      rw [hcall, wrap64_of_lt (by omega)]
      by_cases hnull : md.firstAvail = md.endAvail ∨
          md.endAvail - md.firstAvail < want + padding want
      · rw [if_pos hnull, if_pos (by simp only; omega)]
      · rw [if_neg hnull, if_neg (by simp only; omega)]
    · refine agrees_of_empty hempty ?_
      simp only at hempty
      rw [hcall, if_pos (by omega)]

/-- A segment of eight pages with six left. -/
def smallDtrs : Dtrs := ⟨1, fun _ => ⟨65536, 4096, 32768⟩⟩

def smallMd : SegMd := ⟨DTHREAD_SEG_MD_MAGIC, ⟨0, 0, 32768⟩, 2, 0, 8192, 32768⟩

/-- The last size that does not wrap, and the first that does. -/
theorem alloc_agrees_iff_small :
    Agrees smallDtrs smallMd 0 ⟨0, 8192, 24576⟩ (2 ^ 64 - 16) ∧
      ¬ Agrees smallDtrs smallMd 0 ⟨0, 8192, 24576⟩ (2 ^ 64 - 15) := by
  have hiff (want : ℕ) (hwant : want < 2 ^ 64) :
      Agrees smallDtrs smallMd 0 ⟨0, 8192, 24576⟩ want ↔ want ≤ 2 ^ 64 - 16 ∨ 24576 = 0 :=
    alloc_agrees_iff (by decide) (by decide) (by decide) rfl hwant
  constructor
  · exact (hiff _ (by norm_num)).mpr (.inl le_rfl)
  · rw [hiff _ (by norm_num)]
    norm_num

/-- A size that wraps gets the six pages that are left, also as an arena. -/
theorem wrapped_want_granted :
    shmSegavail smallDtrs smallMd 0 = .ok ⟨0, 8192, 24576⟩ ∧
      (shmsegAlloc smallDtrs smallMd 0 0 (2 ^ 64 - 15)).1 = some (73728, ⟨0, 8192, 24576⟩) ∧
      (shmNewArena ⟨4096, [], 1⟩ smallDtrs smallMd (fun _ => 0) 0 0 "break" (2 ^ 64 - 15)).rv = 0 ∧
      (shmNewArena ⟨4096, [], 1⟩ smallDtrs smallMd (fun _ => 0) 0 0 "break" (2 ^ 64 - 15)).arena =
        some ⟨0, 8192, 24576⟩ := by
  refine ⟨rfl, by decide, ?_, ?_⟩
  · decide +kernel
  · decide +kernel

end Dthread.SegmentAvail
