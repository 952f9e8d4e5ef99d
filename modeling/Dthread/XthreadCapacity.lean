import Dthread.Xthread

/-!
How much an application can allocate with xthread_malloc. dthread_mapping_size
counts one thread table and one page of overhead; the ranks, the headers and
the padding take what they take. The capacity is kept exactly if that fits.
-/
namespace Dthread.XthreadCapacity

open MachineInts ShmRefs Segments BreakMalloc Arenas Bootstrap Xthread

/-- A run of a configuration with one memory source: the ranks have established its
segment, which mmap has put on a page boundary. -/
structure XthreadJob where
  pageSize : ℕ
  config : XthreadConfig
  src : XthreadShmsrc
  seg : Shmsrc
  wsize : ℕ
  dtrs : ℕ → Dtrs
  md₀ : SegMd
  unlocked : ℕ
  page : alignsz ∣ pageSize ∧ pageSize < 2 ^ 64
  source : config.shmsrcs = [src]
  accepted : xthreadRun pageSize config = .ok ⟨[seg], config.maxThreads⟩
  established : ∃ hint sys,
    establish pageSize seg 0 hint true sys = .ok ((dtrs 0).shmmap 0, md₀)
  mapped : pageSize ∣ ((dtrs 0).shmmap 0).mapping ∧ ((dtrs 0).shmmap 0).mapping < 2 ^ 64
  ranks : 0 < wsize
  attached : ∀ r < wsize, 0 < (dtrs r).nshmsrc ∧
    ((dtrs r).shmmap 0).size = ((dtrs 0).shmmap 0).size

namespace XthreadJob

variable (job : XthreadJob)

theorem threads : 0 < job.config.maxThreads ∧ job.config.maxThreads < 2 ^ 31 := by
  obtain ⟨hpos, hlt, -⟩ := xthreadRun_ok job.source job.accepted
  exact ⟨hpos, hlt⟩

/-- The size that was computed for segment 0, and what it does count. -/
theorem seg_spec : job.seg.dtReserveFront = 0 ∧ job.seg.dtReserveBack = 0 ∧
    0 < job.pageSize ∧ job.seg.dtMmsize < 2 ^ 64 ∧
    job.src.applicationBytes + job.pageSize + job.config.maxThreads * gtabSize + job.pageSize ≤
      job.seg.dtMmsize := by
  obtain ⟨-, -, -, flags, size, hshms, hsize⟩ := xthreadRun_ok job.source job.accepted
  obtain ⟨hseg, -⟩ := List.cons.inj hshms
  obtain ⟨hpage, hlt, -, hle⟩ := dthreadMappingSize_ok job.page.2 hsize
  rw [hseg]
  exact ⟨rfl, rfl, hpage, hlt, hle⟩

/-- Without reserves the metadata are in the first page, and all the rest is free. -/
theorem md₀_spec : job.md₀.segMdMagic = DTHREAD_SEG_MD_MAGIC ∧
    job.md₀.firstAvail = job.pageSize ∧ job.md₀.endAvail = job.seg.dtMmsize ∧
    job.pageSize < job.seg.dtMmsize ∧ ((job.dtrs 0).shmmap 0).size = job.seg.dtMmsize := by
  obtain ⟨hfront, hback, -, hlt, hle⟩ := job.seg_spec
  obtain ⟨hint, sys, hestablish⟩ := job.established
  obtain ⟨-, -, hoffset, hsize, hmd⟩ := establish_ok hestablish
  obtain ⟨hmd, hroom⟩ := hmd rfl
  have hzero : ((job.dtrs 0).shmmap 0).mdOffset = 0 := by
    have hrem := Nat.mod_eq_zero_of_dvd job.mapped.1
    have hmapping := job.mapped.2
    rw [hoffset]
    unfold mdOffset
    simp only [hfront, Nat.add_zero, wrap64_of_lt hmapping, hrem, if_true]
    rw [sub64_of_le le_rfl hmapping, Nat.sub_self]
  have hfirst : job.md₀.firstAvail = job.pageSize := by
    rw [hmd, hzero]
    exact (wrap64_of_lt (by omega)).trans (Nat.zero_add _)
  have hend : job.md₀.endAvail = job.seg.dtMmsize := by
    rw [hmd]
    unfold initMd
    rw [hback]
    exact (sub64_of_le (Nat.zero_le _) hlt).trans (Nat.sub_zero _)
  refine ⟨by rw [hmd]; rfl, hfirst, hend, by omega, hsize⟩

/-- The startup of the job's ranks. -/
def boot : BootJob where
  wsize := job.wsize
  maxthreads := job.config.maxThreads
  dtrs := job.dtrs
  md₀ := job.md₀
  ranks := job.ranks
  threads := job.threads
  mapped := job.attached
  magic := job.md₀_spec.1
  room := by
    obtain ⟨-, hfirst, hend, hlt, -⟩ := job.md₀_spec
    omega
  inside := by
    obtain ⟨-, -, hend, -, hsize⟩ := job.md₀_spec
    omega
  size := by
    have hlt := job.seg_spec.2.2.2.1
    have hsize := job.md₀_spec.2.2.2.2
    omega

/-- The process of rank 0; xthread_run passes no drivers. -/
def sys : ArenaSys := ⟨job.pageSize, [], job.unlocked⟩

/-- The application gets its arena, and its calls of xthread_malloc all succeed. -/
def Served (s : BootSys) (daSrc : ℕ) (sizes : List ℕ) : Prop :=
  ∃ arena st, applicationArena job.sys (job.dtrs 0) s.md s.mem daSrc = .ok (arena, st) ∧
    ∀ res ∈ xthreadMallocs (job.dtrs 0) arena st sizes, res ≠ none

/-- No rank fails in the startup, and once rank 0 is through it the application's
requests are served. -/
def Kept (sizes : List ℕ) : Prop :=
  ∀ mem s, job.boot.Run mem s → job.boot.Alive s ∧
    ∀ daSrc gtab, s.rank 0 = .ready daSrc gtab → job.Served s daSrc sizes

/-- What the segment has to hold: its metadata page, a bootstrap of every rank, the
arena's metadata and all the blocks. -/
def needed (sizes : List ℕ) : ℕ :=
  job.pageSize + job.wsize * (round16 shmrefSize + round16 (job.config.maxThreads * gtabSize)) +
    breakMdSize + (sizes.map blockSize).sum

end XthreadJob

section Capacity

variable {job : XthreadJob} {s : BootSys} {sizes : List ℕ}

theorem share_eq (job : XthreadJob) : job.boot.share =
    round16 shmrefSize + round16 (job.config.maxThreads * gtabSize) := by
  have hsize := gtsize_eq job.boot
  unfold BootJob.share
  rw [hsize]
  rfl

theorem alignsz_dvd_round16 (n : ℕ) : alignsz ∣ round16 n :=
  Nat.dvd_of_mod_eq_zero (add_padding_mod n)

theorem alignsz_dvd_spent (boot : BootJob) (p : Startup) : alignsz ∣ boot.spent p := by
  have hshare : alignsz ∣ boot.share := (alignsz_dvd_round16 _).add (alignsz_dvd_round16 _)
  cases p with
  | established => exact dvd_zero _
  | failed => exact dvd_zero _
  | arena ptr defarena => exact alignsz_dvd_round16 _
  | arenaCleared defarena => exact alignsz_dvd_round16 _
  | _ => exact hshare

/-- What the application finds depends on the break of segment 0 only. -/
theorem served_iff (hinv : BootInv job.boot s) (halive : job.boot.Alive s)
    (hsum : sizes.sum ≤ job.src.applicationBytes) (daSrc : ℕ) :
    job.Served s daSrc sizes ↔
      s.md.firstAvail + breakMdSize + (sizes.map blockSize).sum ≤ job.seg.dtMmsize := by
  obtain ⟨-, -, -, hlt, hle⟩ := job.seg_spec
  obtain ⟨-, hfirst₀, hend₀, -, hsize⟩ := job.md₀_spec
  have hend : s.md.endAvail = job.seg.dtMmsize := hinv.intact.endAvail.trans hend₀
  have hfirst : s.md.firstAvail ≤ s.md.endAvail := by
    rw [hinv.intact.endAvail]
    exact hinv.intact.firstAvail
  have halign : alignsz ∣ s.md.firstAvail := by
    rw [hinv.spent halive]
    have hpage : alignsz ∣ job.boot.md₀.firstAvail := by
      show alignsz ∣ job.md₀.firstAvail
      rw [hfirst₀]
      exact job.page.1
    exact hpage.add (Finset.dvd_sum fun r _ => alignsz_dvd_spent job.boot (s.rank r))
  have hsizes : ∀ size ∈ sizes, size + 31 < 2 ^ 64 := by
    intro size hmem
    have hone := List.single_le_sum (fun _ _ => Nat.zero_le _) size hmem
    have hthreads := job.threads.1
    unfold gtabSize argretSize at hle
    omega
  have husr : job.sys.usrmops = [] := rfl
  unfold XthreadJob.Served
  rcases applicationArena_cases husr (job.attached 0 job.ranks).1 hinv.intact.magic hfirst
    (hend.trans hsize.symm) (by omega) (job.page.1.trans job.mapped.1) halign s.mem daSrc with
    ⟨hroom, h, harena, hself, hhdr, hallocated⟩ | ⟨hfull, e, herror⟩
  · unfold breakMdSize at hroom
    have hptr : shmref2ptr (job.dtrs 0) ⟨0, s.md.firstAvail, s.md.endAvail - s.md.firstAvail⟩
        allocMdSize = some (((job.dtrs 0).shmmap 0).mapping + s.md.firstAvail) := by
      refine shmref2ptr_eq_some (job.attached 0 job.ranks).1 ?_ ?_ ?_
      · show s.md.firstAvail < ((job.dtrs 0).shmmap 0).size
        omega
      · show s.md.firstAvail + (s.md.endAvail - s.md.firstAvail) ≤ ((job.dtrs 0).shmmap 0).size
        omega
      · show 64 ≤ s.md.endAvail - s.md.firstAvail
        omega
    have hserved := xthreadMallocs_served hptr hself hhdr
      (show s.md.endAvail - s.md.firstAvail < 2 ^ 64 by omega)
      (show h.md.allocated ≤ s.md.endAvail - s.md.firstAvail by
        rw [hallocated]; unfold breakMdSize; omega) hsizes
    rw [hallocated] at hserved
    have hfits : breakMdSize + (sizes.map blockSize).sum ≤ s.md.endAvail - s.md.firstAvail ↔
        s.md.firstAvail + breakMdSize + (sizes.map blockSize).sum ≤ job.seg.dtMmsize := by
      omega
    rw [harena, ← hfits, ← hserved]
    constructor
    · rintro ⟨arena, st, hok, hall⟩
      obtain ⟨rfl, rfl⟩ := Prod.mk.inj (Except.ok.inj hok)
      exact hall
    · intro hall
      exact ⟨_, _, rfl, hall⟩
  · rw [herror]
    constructor
    · rintro ⟨arena, st, hok, -⟩
      cases hok
    · omega

/-- The promise of application_bytes is kept exactly if the segment holds, besides the
metadata, a bootstrap of every rank and every block with its header and padding. -/
theorem capacity_kept_iff (hsum : sizes.sum ≤ job.src.applicationBytes) :
    job.Kept sizes ↔ job.needed sizes ≤ job.seg.dtMmsize := by
  obtain ⟨-, hfirst, hend, -, -⟩ := job.md₀_spec
  have hshare := share_eq job
  unfold XthreadJob.needed
  rw [← hshare]
  constructor
  · intro hkept
    have hstart : job.boot.Run (fun _ => 0) (job.boot.start fun _ => 0) := .refl
    obtain ⟨s, hrun, hfinal⟩ := exists_end hstart
    obtain ⟨halive, hserved⟩ := hkept _ s hrun
    have hdone : job.boot.Done s := hfinal.resolve_right (not_not.mpr halive)
    obtain ⟨daSrc, gtab, hready⟩ := hdone 0 job.ranks
    have hinv := BootInv.of_run hrun
    have hroom := (served_iff hinv halive hsum daSrc).mp (hserved daSrc gtab hready)
    rw [hinv.firstAvail_done hdone] at hroom
    show job.pageSize + job.boot.wsize * job.boot.share + breakMdSize +
      (sizes.map blockSize).sum ≤ job.seg.dtMmsize
    rw [← hfirst]
    exact hroom
  · intro hneeded mem s hrun
    have hroom : job.boot.md₀.firstAvail + job.boot.wsize * job.boot.share ≤
        job.boot.md₀.endAvail := by
      show job.md₀.firstAvail + job.wsize * job.boot.share ≤ job.md₀.endAvail
      omega
    have halive := alive_of_run hrun hroom
    have hinv := BootInv.of_run hrun
    refine ⟨halive, fun daSrc gtab _ => (served_iff hinv halive hsum daSrc).mpr ?_⟩
    have hspent : s.md.firstAvail ≤ job.md₀.firstAvail + job.wsize * job.boot.share := by
      rw [hinv.spent halive]
      exact Nat.add_le_add_left (sum_spent_le job.boot s.rank) _
    omega

end Capacity

/-- 23 threads and 4096 bytes for the application, in a file of four pages. -/
def smallJob (wsize : ℕ) (h : 0 < wsize) : XthreadJob where
  pageSize := 4096
  config := ⟨[⟨some "work", some 1⟩], [⟨some "shared", .file, 0, 4096⟩], 23⟩
  src := ⟨some "shared", .file, 0, 4096⟩
  seg := ⟨DTHREAD_SRC_FILE, 0, 16384, 0, 0, 0⟩
  wsize := wsize
  dtrs := fun r => ⟨1, fun _ => ⟨65536 * (r + 1), 0, 16384⟩⟩
  md₀ := initMd 4096 ⟨DTHREAD_SRC_FILE, 0, 16384, 0, 0, 0⟩ 0 0
  unlocked := 0
  page := by decide
  source := rfl
  accepted := rfl
  established := ⟨0, ⟨0, .ok 16384, 0, fun _ => .ok 65536, 0, ⟨0, ⟨0, 0, 0⟩, 0, 0, 0, 0⟩⟩, rfl⟩
  mapped := by decide
  ranks := h
  attached := fun _ _ => ⟨Nat.one_pos, rfl⟩

theorem capacity_kept_iff_alone : (smallJob 1 Nat.one_pos).Kept [4096] :=
  (capacity_kept_iff (by decide)).mpr (by decide)

/-- With a second rank one request for all of application_bytes gets NULL. -/
theorem whole_capacity_refused : [4096].sum ≤ (smallJob 2 Nat.two_pos).src.applicationBytes ∧
    (∃ s arena st, (smallJob 2 Nat.two_pos).boot.Run (fun _ => 0) s ∧
      s.rank 0 = .ready 69632 69664 ∧
      applicationArena (smallJob 2 Nat.two_pos).sys ((smallJob 2 Nat.two_pos).dtrs 0) s.md s.mem
        69632 = .ok (arena, st) ∧
      xthreadMallocs ((smallJob 2 Nat.two_pos).dtrs 0) arena st [4096] = [none]) ∧
    ¬ (smallJob 2 Nat.two_pos).Kept [4096] := by
  let job := smallJob 2 Nat.two_pos
  have hcalls : (job.boot.exec [0, 0, 0, 0, 1, 1, 1, 1, 0, 0, 1, 1] (job.boot.start fun _ => 0)).map
      (fun s => (s.rank 0, (applicationArena job.sys (job.dtrs 0) s.md s.mem 69632).toOption.map
        fun a => (xthreadMallocs (job.dtrs 0) a.1 a.2 [4096]).map Option.isSome)) =
      some (.ready 69632 69664, some [false]) := by
    decide +kernel
  obtain ⟨s, hexec, hstate⟩ := Option.map_eq_some_iff.mp hcalls
  obtain ⟨hready, hmallocs⟩ := Prod.mk.inj hstate
  have hrun : job.boot.Run (fun _ => 0) s := BootJob.Run.exec .refl (by decide) hexec
  obtain ⟨⟨arena, st⟩, harena, hmallocs⟩ := Option.map_eq_some_iff.mp hmallocs
  have harena : applicationArena job.sys (job.dtrs 0) s.md s.mem 69632 = .ok (arena, st) := by
    cases hres : applicationArena job.sys (job.dtrs 0) s.md s.mem 69632 with
    | error e =>
      rw [hres] at harena
      cases harena
    | ok a =>
      rw [hres] at harena
      exact congrArg Except.ok (Option.some.inj harena)
  have hnull : xthreadMallocs (job.dtrs 0) arena st [4096] = [none] := by
    obtain ⟨res, hone, hres⟩ := List.map_eq_singleton_iff.mp hmallocs
    rw [hone, Option.isNone_iff_eq_none.mp (Option.isSome_eq_false_iff.mp hres)]
  refine ⟨by decide, ⟨s, arena, st, hrun, hready, harena, hnull⟩, fun hkept => ?_⟩
  obtain ⟨arena', st', harena', hserved⟩ := (hkept _ s hrun).2 _ _ hready
  obtain ⟨rfl, rfl⟩ := Prod.mk.inj (Except.ok.inj (harena.symm.trans harena'))
  exact hserved none (hnull ▸ List.mem_singleton_self none) rfl

end Dthread.XthreadCapacity
