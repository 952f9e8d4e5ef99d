import Mathlib.Algebra.BigOperators.Group.Finset.Basic
import Mathlib.Logic.Relation
import Dthread.ByteMemory
import Dthread.Segments

/-!
The part of dthread_run in which the ranks get their shared tables (dt_init.c).
Every rank runs dthread_shm_bootstrap on segment 0; then rank 0 broadcasts what
it got, and the ranks use that. A step is a step of one rank between two
accesses to the segment, in any order among the ranks.
-/
namespace Dthread.Bootstrap

open ByteMemory MachineInts ShmRefs Segments

/-- sizeof(dthread_shmref_t). -/
def shmrefSize : ℕ := 24

/-- sizeof(dthread_argret_t): two words and a union of DTHREAD_INLINE_SIZE bytes. -/
def argretSize : ℕ := 4 + 4 + 64

/-- sizeof(dthread_gtab_t): eight words and two argrets. -/
def gtabSize : ℕ := 8 * 4 + 2 * argretSize

/-- What a size takes in a segment. -/
def round16 (n : ℕ) : ℕ := n + padding n

/-- dthread_shm_bootstrap_t. -/
structure Shmboot where
  bootDefarena : Shmref
  bootGtab : Shmref
deriving DecidableEq, Repr

/-- Where a rank is in dthread_run, with what it holds there. -/
inductive Startup
  | established
  | arena (ptr : ℕ) (defarena : Shmref)
  | arenaCleared (defarena : Shmref)
  | table (ptr : ℕ) (defarena gtab : Shmref)
  | booted (boot : Shmboot)
  | synced (boot : Shmboot)
  | ready (daSrc gtab : ℕ)
  | failed
deriving DecidableEq, Repr

/-- A job whose segment 0 is established on all ranks. -/
structure BootJob where
  wsize : ℕ
  maxthreads : ℕ
  dtrs : ℕ → Dtrs
  md₀ : SegMd
  ranks : 0 < wsize
  threads : 0 < maxthreads ∧ maxthreads < 2 ^ 31
  mapped : ∀ r < wsize, 0 < (dtrs r).nshmsrc ∧
    ((dtrs r).shmmap 0).size = ((dtrs 0).shmmap 0).size
  magic : md₀.segMdMagic = DTHREAD_SEG_MD_MAGIC
  room : md₀.firstAvail < md₀.endAvail
  inside : md₀.endAvail ≤ ((dtrs 0).shmmap 0).size
  size : ((dtrs 0).shmmap 0).size < 2 ^ 64

/-- Segment 0, the ranks, and what rank 0 has broadcast. -/
structure BootSys where
  md : SegMd
  mem : Mem
  rank : ℕ → Startup
  bcast : Option Shmboot

namespace BootSys

def set (s : BootSys) (r : ℕ) (p : Startup) : BootSys :=
  { s with rank := Function.update s.rank r p }

/-- Take `n` bytes from the front of the free space. -/
def take (s : BootSys) (n : ℕ) : BootSys :=
  { s with md := { s.md with firstAvail := s.md.firstAvail + n } }

def clear (s : BootSys) (off n : ℕ) : BootSys := { s with mem := memset s.mem off 0 n }

@[simp] theorem set_rank (s : BootSys) (r : ℕ) (p : Startup) :
    (s.set r p).rank = Function.update s.rank r p := rfl

@[simp] theorem set_md (s : BootSys) (r : ℕ) (p : Startup) : (s.set r p).md = s.md := rfl

end BootSys

namespace BootJob

variable (job : BootJob)

/-- The bytes of the global thread table. -/
def gtsize : ℕ := wrap64 (job.maxthreads * gtabSize)

def mapping (r : ℕ) : ℕ := ((job.dtrs r).shmmap 0).mapping

def start (mem : Mem) : BootSys := ⟨job.md₀, mem, fun _ => .established, none⟩

/-- The next step of a rank; `none` if it waits for the broadcast or has left this part.
Without memory for the default arena's reference it writes through a null pointer,
without memory for the table and on an unusable reference it aborts the job. -/
def rankStep (s : BootSys) (r : ℕ) : Option BootSys :=
  match s.rank r with
  | .established =>
    match shmsegAlloc (job.dtrs r) s.md 0 0 shmrefSize with
    | (none, _) => some (s.set r .failed)
    | (some (ptr, ref), md) => some ({ s with md := md }.set r (.arena ptr ref))
  | .arena ptr defarena =>
    some ((s.clear (ptrOffset (job.dtrs r) 0 ptr) shmrefSize).set r (.arenaCleared defarena))
  | .arenaCleared defarena =>
    match shmsegAlloc (job.dtrs r) s.md 0 0 job.gtsize with
    | (none, _) => some (s.set r .failed)
    | (some (ptr, ref), md) => some ({ s with md := md }.set r (.table ptr defarena ref))
  | .table ptr defarena gtab =>
    some ((s.clear (ptrOffset (job.dtrs r) 0 ptr) job.gtsize).set r (.booted ⟨defarena, gtab⟩))
  | .booted boot =>
    if r = 0 then some ({ s with bcast := some boot }.set r (.synced boot))
    else s.bcast.map fun boot => s.set r (.synced boot)
  | .synced boot =>
    match shmref2ptr (job.dtrs r) boot.bootDefarena 0, shmref2ptr (job.dtrs r) boot.bootGtab 0 with
    | some daSrc, some gtab => some (s.set r (.ready daSrc gtab))
    | _, _ => some (s.set r .failed)
  | .ready _ _ => none
  | .failed => none

/-- Some rank makes its next step. -/
def Step (s s' : BootSys) : Prop := ∃ r < job.wsize, job.rankStep s r = some s'

def Run (mem : Mem) : BootSys → Prop := Relation.ReflTransGen job.Step (job.start mem)

/-- The state after steps of these ranks. -/
def exec : List ℕ → BootSys → Option BootSys
  | [], s => some s
  | r :: rs, s => (job.rankStep s r).bind (exec rs)

/-- All ranks are through. -/
def Done (s : BootSys) : Prop := ∀ r < job.wsize, ∃ daSrc gtab, s.rank r = .ready daSrc gtab

/-- What one bootstrap takes from the segment. -/
def share : ℕ := round16 shmrefSize + round16 job.gtsize

/-- What a rank has taken from the segment so far. -/
def spent : Startup → ℕ
  | .established => 0
  | .arena _ _ => round16 shmrefSize
  | .arenaCleared _ => round16 shmrefSize
  | .failed => 0
  | _ => job.share

end BootJob

/-- The steps that `rankStep` makes on an intact segment. -/
inductive RankStep (job : BootJob) (s : BootSys) (r : ℕ) : BootSys → Prop
  | noArena (hrank : s.rank r = .established)
      (hfull : job.md₀.endAvail < s.md.firstAvail + round16 shmrefSize) :
      RankStep job s r (s.set r .failed)
  | takeArena (hrank : s.rank r = .established)
      (hroom : s.md.firstAvail + round16 shmrefSize ≤ job.md₀.endAvail) :
      RankStep job s r ((s.take (round16 shmrefSize)).set r
        (.arena (job.mapping r + s.md.firstAvail) ⟨0, s.md.firstAvail, round16 shmrefSize⟩))
  | clearArena {ptr : ℕ} {defarena : Shmref} (hrank : s.rank r = .arena ptr defarena) :
      RankStep job s r ((s.clear (ptr - job.mapping r) shmrefSize).set r (.arenaCleared defarena))
  | noTable {defarena : Shmref} (hrank : s.rank r = .arenaCleared defarena)
      (hfull : job.md₀.endAvail < s.md.firstAvail + round16 job.gtsize) :
      RankStep job s r (s.set r .failed)
  | takeTable {defarena : Shmref} (hrank : s.rank r = .arenaCleared defarena)
      (hroom : s.md.firstAvail + round16 job.gtsize ≤ job.md₀.endAvail) :
      RankStep job s r ((s.take (round16 job.gtsize)).set r
        (.table (job.mapping r + s.md.firstAvail) defarena
          ⟨0, s.md.firstAvail, round16 job.gtsize⟩))
  | clearTable {ptr : ℕ} {defarena gtab : Shmref} (hrank : s.rank r = .table ptr defarena gtab) :
      RankStep job s r ((s.clear (ptr - job.mapping r) job.gtsize).set r
        (.booted ⟨defarena, gtab⟩))
  | bcast {boot : Shmboot} (hrank : s.rank r = .booted boot) (hroot : r = 0) :
      RankStep job s r ({ s with bcast := some boot }.set r (.synced boot))
  | receive {boot boot' : Shmboot} (hrank : s.rank r = .booted boot') (hroot : r ≠ 0)
      (hbcast : s.bcast = some boot) : RankStep job s r (s.set r (.synced boot))
  | resolve {boot : Shmboot} {daSrc gtab : ℕ} (hrank : s.rank r = .synced boot)
      (harena : shmref2ptr (job.dtrs r) boot.bootDefarena 0 = some daSrc)
      (htable : shmref2ptr (job.dtrs r) boot.bootGtab 0 = some gtab) :
      RankStep job s r (s.set r (.ready daSrc gtab))
  | unusable {boot : Shmboot} (hrank : s.rank r = .synced boot)
      (hnull : shmref2ptr (job.dtrs r) boot.bootDefarena 0 = none ∨
        shmref2ptr (job.dtrs r) boot.bootGtab 0 = none) :
      RankStep job s r (s.set r .failed)

/-- The metadata of segment 0 as all ranks leave it. -/
structure Intact (job : BootJob) (md : SegMd) : Prop where
  magic : md.segMdMagic = DTHREAD_SEG_MD_MAGIC
  endAvail : md.endAvail = job.md₀.endAvail
  firstAvail : md.firstAvail ≤ job.md₀.endAvail

section Steps

variable {job : BootJob} {s s' : BootSys} {r : ℕ}

theorem gtsize_eq (job : BootJob) : job.gtsize = job.maxthreads * gtabSize := by
  have hthreads := job.threads.2
  unfold BootJob.gtsize gtabSize argretSize
  exact wrap64_of_lt (by omega)

theorem gtsize_pos (job : BootJob) : 0 < job.gtsize := by
  have hthreads := job.threads.1
  rw [gtsize_eq]
  unfold gtabSize argretSize
  omega

theorem gtsize_lt (job : BootJob) : job.gtsize < 2 ^ 63 := by
  have hthreads := job.threads.2
  rw [gtsize_eq]
  unfold gtabSize argretSize
  omega

theorem le_round16 (n : ℕ) : n ≤ round16 n := Nat.le_add_right _ _

theorem Intact.alloc {md : SegMd} (h : Intact job md) (hr : r < job.wsize) {want : ℕ}
    (hpos : 0 < want) (hlt : want < 2 ^ 63) :
    shmsegAlloc (job.dtrs r) md 0 0 want =
      if job.md₀.endAvail < md.firstAvail + round16 want then (none, md)
      else (some (job.mapping r + md.firstAvail, ⟨0, md.firstAvail, round16 want⟩),
        { md with firstAvail := md.firstAvail + round16 want }) := by
  obtain ⟨hcount, hsize⟩ := job.mapped r hr
  have hinside := job.inside
  have hend := h.endAvail
  have hfirst := h.firstAvail
  have hpad := padding_lt want
  have hwrap : wrap64 (want + padding want) = round16 want := by
    unfold alignsz at hpad
    exact wrap64_of_lt (by omega)
  have hround : 0 < round16 want := hpos.trans_le (le_round16 want)
  rw [shmsegAlloc_eq want hcount h.magic (by omega) (by omega) (by have := job.size; omega)]
  unfold grant
  rw [hwrap, if_neg (by omega : round16 want ≠ 0)]
  by_cases hfull : job.md₀.endAvail < md.firstAvail + round16 want
  · rw [if_pos (by omega), if_pos hfull]
  · rw [if_neg (by omega), if_neg hfull]
    rfl

theorem RankStep.of_rankStep (hmd : Intact job s.md) (hr : r < job.wsize)
    (h : job.rankStep s r = some s') : RankStep job s r s' := by
  unfold BootJob.rankStep at h
  split at h
  next hrank =>
    rw [hmd.alloc hr (by decide) (by decide)] at h
    by_cases hfull : job.md₀.endAvail < s.md.firstAvail + round16 shmrefSize
    · rw [if_pos hfull] at h
      obtain rfl := Option.some.inj h
      exact .noArena hrank hfull
    · rw [if_neg hfull] at h
      obtain rfl := Option.some.inj h
      exact .takeArena hrank (by omega)
  next ptr defarena hrank =>
    obtain rfl := Option.some.inj h
    exact .clearArena hrank
  next defarena hrank =>
    rw [hmd.alloc hr (gtsize_pos job) (gtsize_lt job)] at h
    by_cases hfull : job.md₀.endAvail < s.md.firstAvail + round16 job.gtsize
    · rw [if_pos hfull] at h
      obtain rfl := Option.some.inj h
      exact .noTable hrank hfull
    · rw [if_neg hfull] at h
      obtain rfl := Option.some.inj h
      exact .takeTable hrank (by omega)
  next ptr defarena gtab hrank =>
    obtain rfl := Option.some.inj h
    exact .clearTable hrank
  next boot hrank =>
    split at h
    next hroot =>
      obtain rfl := Option.some.inj h
      exact .bcast hrank hroot
    next hroot =>
      obtain ⟨boot', hbcast, rfl⟩ := Option.map_eq_some_iff.mp h
      exact .receive hrank hroot hbcast
  next boot hrank =>
    split at h
    next daSrc gtab harena htable =>
      obtain rfl := Option.some.inj h
      exact .resolve hrank harena htable
    next hnull =>
      obtain rfl := Option.some.inj h
      refine .unusable hrank ?_
      by_contra hboth
      obtain ⟨harena, htable⟩ := not_or.mp hboth
      obtain ⟨daSrc, harena⟩ := Option.ne_none_iff_exists'.mp harena
      obtain ⟨gtab, htable⟩ := Option.ne_none_iff_exists'.mp htable
      exact hnull daSrc gtab harena htable
  · simp at h
  · simp at h

/-- A sum over the ranks changes with the one that steps. -/
theorem sum_update {n : ℕ} (w : Startup → ℕ) (rank : ℕ → Startup) (p : Startup) (hr : r < n) :
    ∑ i ∈ Finset.range n, w (Function.update rank r p i) + w (rank r) =
      ∑ i ∈ Finset.range n, w (rank i) + w p := by
  have hmem : r ∈ Finset.range n := Finset.mem_range.mpr hr
  have hrest : ∑ i ∈ (Finset.range n).erase r, w (Function.update rank r p i) =
      ∑ i ∈ (Finset.range n).erase r, w (rank i) := by
    refine Finset.sum_congr rfl fun i hi => ?_
    rw [Function.update_of_ne (Finset.ne_of_mem_erase hi)]
  rw [← Finset.add_sum_erase _ (fun i => w (rank i)) hmem,
    ← Finset.add_sum_erase _ (fun i => w (Function.update rank r p i)) hmem, hrest,
    Function.update_self]
  omega

end Steps

/-- The `n` bytes behind the offset are zero. -/
def Zero (mem : Mem) (off n : ℕ) : Prop := ∀ x, off ≤ x → x < off + n → mem x = 0

theorem Zero.memset {mem : Mem} {off n : ℕ} (h : Zero mem off n) (off' n' : ℕ) :
    Zero (memset mem off' 0 n') off n := by
  intro x hlo hhi
  have hx := h x hlo hhi
  unfold ByteMemory.memset
  split
  · rfl
  · exact hx

theorem zero_memset (mem : Mem) (off n : ℕ) : Zero (memset mem off 0 n) off n :=
  fun _ hlo hhi => if_pos ⟨hlo, hhi⟩

/-- The reference is to a block of segment 0. -/
structure Placed (job : BootJob) (ref : Shmref) : Prop where
  shmid : ref.dtShmid = 0
  length : 0 < ref.dtLength
  inside : ref.dtOffset + ref.dtLength ≤ job.md₀.endAvail

/-- What a bootstrap gave is in segment 0 and was zeroed. -/
structure Cleared (job : BootJob) (mem : Mem) (ref : Shmref) (n : ℕ) : Prop extends
    Placed job ref where
  zero : Zero mem ref.dtOffset n

structure BootOk (job : BootJob) (mem : Mem) (boot : Shmboot) : Prop where
  arena : Cleared job mem boot.bootDefarena shmrefSize
  table : Cleared job mem boot.bootGtab job.gtsize

/-- What a rank's place in the startup code says about the memory and the broadcast. -/
def PhaseOk (job : BootJob) (mem : Mem) (bcast : Option Shmboot) (r : ℕ) : Startup → Prop
  | .established => True
  | .arena ptr defarena => ptr = job.mapping r + defarena.dtOffset ∧ Placed job defarena
  | .arenaCleared defarena => Cleared job mem defarena shmrefSize
  | .table ptr defarena gtab => Cleared job mem defarena shmrefSize ∧
      ptr = job.mapping r + gtab.dtOffset ∧ Placed job gtab
  | .booted boot => BootOk job mem boot
  | .synced boot => bcast = some boot
  | .ready daSrc gtab => ∃ boot, bcast = some boot ∧
      daSrc = job.mapping r + boot.bootDefarena.dtOffset ∧
      gtab = job.mapping r + boot.bootGtab.dtOffset
  | .failed => True

/-- The rank has not come to the broadcast. -/
def Startup.Early : Startup → Prop
  | .synced _ => False
  | .ready _ _ => False
  | .failed => False
  | _ => True

/-- No rank has aborted the job. -/
def BootJob.Alive (job : BootJob) (s : BootSys) : Prop := ∀ r < job.wsize, s.rank r ≠ .failed

structure BootInv (job : BootJob) (s : BootSys) : Prop where
  intact : Intact job s.md
  phase : ∀ r < job.wsize, PhaseOk job s.mem s.bcast r (s.rank r)
  bcast : ∀ boot, s.bcast = some boot → BootOk job s.mem boot
  root : (s.rank 0).Early → s.bcast = none
  spent : job.Alive s →
    s.md.firstAvail = job.md₀.firstAvail + ∑ r ∈ Finset.range job.wsize, job.spent (s.rank r)

section Invariant

variable {job : BootJob} {s s' : BootSys} {r : ℕ} {mem : Mem}

theorem Cleared.memset {ref : Shmref} {n : ℕ} (h : Cleared job mem ref n) (off' n' : ℕ) :
    Cleared job (memset mem off' 0 n') ref n :=
  ⟨h.toPlaced, h.zero.memset off' n'⟩

theorem BootOk.memset {boot : Shmboot} (h : BootOk job mem boot) (off' n' : ℕ) :
    BootOk job (memset mem off' 0 n') boot :=
  ⟨h.arena.memset off' n', h.table.memset off' n'⟩

/-- All that the ranks write is zero, so a write does not disturb the others. -/
theorem PhaseOk.memset {bcast : Option Shmboot} {p : Startup} (h : PhaseOk job mem bcast r p)
    (off' n' : ℕ) : PhaseOk job (memset mem off' 0 n') bcast r p := by
  cases p with
  | arenaCleared defarena => exact Cleared.memset h off' n'
  | table ptr defarena gtab => exact ⟨h.1.memset off' n', h.2⟩
  | booted boot => exact BootOk.memset h off' n'
  | _ => exact h

/-- Nor does the broadcast, which is the first. -/
theorem PhaseOk.bcast {p : Startup} (boot : Shmboot) (h : PhaseOk job mem none r p) :
    PhaseOk job mem (some boot) r p := by
  cases p with
  | synced boot' => cases h
  | ready daSrc gtab =>
    obtain ⟨boot', hnone, -⟩ := h
    cases hnone
  | _ => exact h

theorem BootJob.Alive.of_set {p : Startup} (h : job.Alive (s.set r p)) (hr : r < job.wsize)
    (hrank : s.rank r ≠ .failed) : job.Alive s ∧ p ≠ .failed := by
  constructor
  · intro i hi
    by_cases hir : i = r
    · rw [hir]
      exact hrank
    · have hother := h i hi
      rwa [BootSys.set_rank, Function.update_of_ne hir] at hother
  · have hself := h r hr
    rwa [BootSys.set_rank, Function.update_self] at hself

/-- A rank moves on, after what it did to the segment and the broadcast. -/
theorem BootInv.moved {t : BootSys} {p : Startup} (h : BootInv job s) (hr : r < job.wsize)
    (hranks : t.rank = s.rank) (hold : s.rank r ≠ .failed) (hintact : Intact job t.md)
    (hphases : ∀ i < job.wsize, PhaseOk job t.mem t.bcast i (s.rank i))
    (hp : PhaseOk job t.mem t.bcast r p)
    (hbcast : ∀ boot, t.bcast = some boot → BootOk job t.mem boot)
    (hroot : t.bcast = s.bcast ∧ (p.Early → (s.rank r).Early) ∨ r = 0 ∧ ¬ p.Early)
    (hspent : p ≠ .failed → t.md.firstAvail + job.spent (s.rank r) =
      s.md.firstAvail + job.spent p) : BootInv job (t.set r p) := by
  refine ⟨hintact, ?_, hbcast, ?_, ?_⟩
  · intro i hi
    rw [BootSys.set_rank, hranks]
    by_cases hir : i = r
    · subst hir
      rw [Function.update_self]
      exact hp
    · rw [Function.update_of_ne hir]
      exact hphases i hi
  · rw [BootSys.set_rank, hranks]
    intro hearly
    rcases hroot with ⟨hsame, hkeep⟩ | ⟨rfl, hlate⟩
    · refine hsame.trans (h.root ?_)
      by_cases hzero : 0 = r
      · subst hzero
        rw [Function.update_self] at hearly
        exact hkeep hearly
      · rwa [Function.update_of_ne hzero] at hearly
    · rw [Function.update_self] at hearly
      exact absurd hearly hlate
  · intro halive
    have halive' : job.Alive (s.set r p) := by
      intro i hi
      have hi' := halive i hi
      rwa [BootSys.set_rank, hranks] at hi'
    obtain ⟨halive, hp⟩ := halive'.of_set hr hold
    have hold := h.spent halive
    have hnew := hspent hp
    have hsum := sum_update job.spent s.rank p hr
    rw [BootSys.set_md, BootSys.set_rank, hranks]
    omega

theorem BootInv.start (job : BootJob) (mem : Mem) : BootInv job (job.start mem) where
  intact := ⟨job.magic, rfl, job.room.le⟩
  phase := fun _ _ => trivial
  bcast := fun _ h => by cases h
  root := fun _ => rfl
  spent := fun _ => by simp [BootJob.start, BootJob.spent]

theorem Intact.take {md : SegMd} (h : Intact job md) {n : ℕ}
    (hroom : md.firstAvail + n ≤ job.md₀.endAvail) :
    Intact job { md with firstAvail := md.firstAvail + n } :=
  ⟨h.magic, h.endAvail, hroom⟩

/-- Every step keeps the invariant. -/
theorem BootInv.step (h : BootInv job s) (hr : r < job.wsize) (hstep : RankStep job s r s') :
    BootInv job s' := by
  have hphase := h.phase r hr
  cases hstep with
  | noArena hrank hfull =>
    exact h.moved hr rfl (by simp [hrank]) h.intact h.phase trivial h.bcast
      (.inl ⟨rfl, False.elim⟩) (fun hne => absurd rfl hne)
  | takeArena hrank hroom =>
    refine h.moved hr rfl (by simp [hrank]) (h.intact.take hroom) h.phase ?_ h.bcast
      (.inl ⟨rfl, fun _ => by simp [hrank, Startup.Early]⟩) (fun _ => ?_)
    · exact ⟨rfl, rfl, (by decide : 0 < round16 shmrefSize), hroom⟩
    · rw [hrank]
      rfl
  | @clearArena ptr defarena hrank =>
    rw [hrank] at hphase
    obtain ⟨hptr, hplaced⟩ := hphase
    refine h.moved hr rfl (by simp [hrank]) h.intact
      (fun i hi => (h.phase i hi).memset _ _) ?_ (fun boot hboot => (h.bcast boot hboot).memset _ _)
      (.inl ⟨rfl, fun _ => by simp [hrank, Startup.Early]⟩) (fun _ => ?_)
    · have hoff : ptr - job.mapping r = defarena.dtOffset := by omega
      refine ⟨hplaced, ?_⟩
      rw [hoff]
      exact zero_memset _ _ _
    · rw [hrank]
      rfl
  | noTable hrank hfull =>
    exact h.moved hr rfl (by simp [hrank]) h.intact h.phase trivial h.bcast
      (.inl ⟨rfl, False.elim⟩) (fun hne => absurd rfl hne)
  | takeTable hrank hroom =>
    rw [hrank] at hphase
    refine h.moved hr rfl (by simp [hrank]) (h.intact.take hroom) h.phase ?_ h.bcast
      (.inl ⟨rfl, fun _ => by simp [hrank, Startup.Early]⟩) (fun _ => ?_)
    · exact ⟨hphase, rfl, rfl, (gtsize_pos job).trans_le (le_round16 _), hroom⟩
    · rw [hrank]
      simp only [BootSys.take, BootJob.spent, BootJob.share]
      omega
  | @clearTable ptr defarena gtab hrank =>
    rw [hrank] at hphase
    obtain ⟨hcleared, hptr, hplaced⟩ := hphase
    refine h.moved hr rfl (by simp [hrank]) h.intact
      (fun i hi => (h.phase i hi).memset _ _) ?_ (fun boot hboot => (h.bcast boot hboot).memset _ _)
      (.inl ⟨rfl, fun _ => by simp [hrank, Startup.Early]⟩) (fun _ => ?_)
    · have hoff : ptr - job.mapping r = gtab.dtOffset := by omega
      refine ⟨hcleared.memset _ _, hplaced, ?_⟩
      rw [hoff]
      exact zero_memset _ _ _
    · rw [hrank]
      rfl
  | @bcast boot hrank hroot =>
    subst hroot
    have hnone : s.bcast = none := h.root (by simp [hrank, Startup.Early])
    have hphases : ∀ i < job.wsize, PhaseOk job s.mem (some boot) i (s.rank i) := by
      intro i hi
      have hi' := h.phase i hi
      rw [hnone] at hi'
      exact hi'.bcast boot
    rw [hrank] at hphase
    refine h.moved hr rfl (by simp [hrank]) h.intact hphases rfl ?_
      (.inr ⟨rfl, id⟩) (fun _ => by rw [hrank]; rfl)
    intro boot' hboot
    obtain rfl := Option.some.inj hboot
    exact hphase
  | receive hrank hroot hbcast =>
    exact h.moved hr rfl (by simp [hrank]) h.intact h.phase hbcast h.bcast
      (.inl ⟨rfl, False.elim⟩) (fun _ => by rw [hrank]; rfl)
  | @resolve boot daSrc gtab hrank harena htable =>
    rw [hrank] at hphase
    obtain ⟨-, -, -, -, harena⟩ := shmref2ptr_spec harena
    obtain ⟨-, -, -, -, htable⟩ := shmref2ptr_spec htable
    have hboot := h.bcast boot hphase
    rw [hboot.arena.shmid] at harena
    rw [hboot.table.shmid] at htable
    exact h.moved hr rfl (by simp [hrank]) h.intact h.phase ⟨boot, hphase, harena, htable⟩ h.bcast
      (.inl ⟨rfl, False.elim⟩) (fun _ => by rw [hrank]; rfl)
  | unusable hrank hnull =>
    exact h.moved hr rfl (by simp [hrank]) h.intact h.phase trivial h.bcast
      (.inl ⟨rfl, False.elim⟩) (fun hne => absurd rfl hne)

theorem BootJob.Run.exec {rs : List ℕ} (hrun : job.Run mem s) (hrs : ∀ r ∈ rs, r < job.wsize)
    (hexec : job.exec rs s = some s') : job.Run mem s' := by
  induction rs generalizing s with
  | nil =>
    obtain rfl := Option.some.inj hexec
    exact hrun
  | cons r rs ih =>
    obtain ⟨t, hstep, hrest⟩ := Option.bind_eq_some_iff.mp hexec
    have hr : r < job.wsize := hrs r List.mem_cons_self
    exact ih (hrun.tail ⟨r, hr, hstep⟩) (fun i hi => hrs i (List.mem_cons_of_mem r hi)) hrest

theorem BootInv.of_run (hrun : job.Run mem s) : BootInv job s := by
  induction hrun with
  | refl => exact .start job mem
  | tail _ hstep ih =>
    obtain ⟨r, hr, hstep⟩ := hstep
    exact ih.step hr (.of_rankStep ih.intact hr hstep)

end Invariant

/-- Every rank that is through uses the same two blocks of segment 0, and they are zero. -/
def Shared (job : BootJob) (s : BootSys) : Prop :=
  ∃ arenaOff tableOff, ∀ r < job.wsize, ∀ daSrc gtab, s.rank r = .ready daSrc gtab →
    daSrc = job.mapping r + arenaOff ∧ Zero s.mem arenaOff shmrefSize ∧
    gtab = job.mapping r + tableOff ∧ Zero s.mem tableOff (job.maxthreads * gtabSize)

/-- What the comments promise of the startup: one bootstrap, shared by all ranks. -/
def OneBootstrap (job : BootJob) (s : BootSys) : Prop :=
  Shared job s ∧ (job.Done s → s.md.firstAvail =
    job.md₀.firstAvail + (round16 shmrefSize + round16 (job.maxthreads * gtabSize)))

section Result

variable {job : BootJob} {s : BootSys} {mem : Mem}

theorem BootJob.Done.alive (h : job.Done s) : job.Alive s := by
  intro r hr
  obtain ⟨daSrc, gtab, hrank⟩ := h r hr
  simp [hrank]

theorem BootInv.shared (h : BootInv job s) : Shared job s := by
  cases hbcast : s.bcast with
  | none =>
    refine ⟨0, 0, fun r hr daSrc gtab hrank => ?_⟩
    have hphase := h.phase r hr
    rw [hrank, hbcast] at hphase
    obtain ⟨boot, hnone, -⟩ := hphase
    cases hnone
  | some boot =>
    have hboot := h.bcast boot hbcast
    refine ⟨boot.bootDefarena.dtOffset, boot.bootGtab.dtOffset, fun r hr daSrc gtab hrank => ?_⟩
    have hphase := h.phase r hr
    rw [hrank, hbcast] at hphase
    obtain ⟨boot', hsame, harena, htable⟩ := hphase
    obtain rfl := Option.some.inj hsame
    have hzero := hboot.table.zero
    rw [gtsize_eq] at hzero
    exact ⟨harena, hboot.arena.zero, htable, hzero⟩

/-- Every rank bootstraps: the segment loses one share for each. -/
theorem BootInv.firstAvail_done (h : BootInv job s) (hdone : job.Done s) :
    s.md.firstAvail = job.md₀.firstAvail + job.wsize * job.share := by
  have hsum : ∑ r ∈ Finset.range job.wsize, job.spent (s.rank r) =
      ∑ _r ∈ Finset.range job.wsize, job.share := by
    refine Finset.sum_congr rfl fun r hr => ?_
    obtain ⟨daSrc, gtab, hrank⟩ := hdone r (Finset.mem_range.mp hr)
    rw [hrank]
    rfl
  rw [h.spent hdone.alive, hsum, Finset.sum_const, Finset.card_range, smul_eq_mul]

theorem share_pos (job : BootJob) : 0 < job.share :=
  Nat.add_pos_left (by decide) _

theorem spent_le (job : BootJob) (p : Startup) : job.spent p ≤ job.share := by
  cases p with
  | established => exact Nat.zero_le _
  | failed => exact Nat.zero_le _
  | arena ptr defarena => exact Nat.le_add_right _ _
  | arenaCleared defarena => exact Nat.le_add_right _ _
  | _ => exact le_rfl

theorem sum_spent_le (job : BootJob) (rank : ℕ → Startup) :
    ∑ r ∈ Finset.range job.wsize, job.spent (rank r) ≤ job.wsize * job.share := by
  have hle := Finset.sum_le_card_nsmul (Finset.range job.wsize) (fun r => job.spent (rank r))
    job.share fun r _ => spent_le job (rank r)
  rwa [Finset.card_range, smul_eq_mul] at hle

/-- While nobody has failed, a rank that has not taken all its share finds it, if the
segment has room for all the shares. -/
theorem BootInv.room {r n : ℕ} (h : BootInv job s) (halive : job.Alive s) (hr : r < job.wsize)
    (hroom : job.md₀.firstAvail + job.wsize * job.share ≤ job.md₀.endAvail)
    (hn : job.spent (s.rank r) + n ≤ job.share) :
    s.md.firstAvail + n ≤ job.md₀.endAvail := by
  have hspent := h.spent halive
  have hsum := sum_update job.spent s.rank (.ready 0 0) hr
  have hle := sum_spent_le job (Function.update s.rank r (.ready 0 0))
  have hready : job.spent (.ready 0 0) = job.share := rfl
  omega

theorem Placed.resolves {ref : Shmref} (h : Placed job ref) {r : ℕ} (hr : r < job.wsize) :
    shmref2ptr (job.dtrs r) ref 0 ≠ none := by
  obtain ⟨hcount, hsize⟩ := job.mapped r hr
  have hinside := job.inside
  have hlength := h.length
  have hend := h.inside
  have hid := h.shmid
  rw [shmref2ptr_eq_some (by omega) (by rw [hid]; omega) (by rw [hid]; omega) (Nat.zero_le _)]
  simp

theorem BootJob.Alive.set {r : ℕ} {p : Startup} (h : job.Alive s) (hp : p ≠ .failed) :
    job.Alive (s.set r p) := by
  intro i hi
  rw [BootSys.set_rank]
  by_cases hir : i = r
  · rw [hir, Function.update_self]
    exact hp
  · rw [Function.update_of_ne hir]
    exact h i hi

theorem BootInv.alive_step {s' : BootSys} {r : ℕ} (h : BootInv job s) (halive : job.Alive s)
    (hr : r < job.wsize)
    (hroom : job.md₀.firstAvail + job.wsize * job.share ≤ job.md₀.endAvail)
    (hstep : RankStep job s r s') : job.Alive s' := by
  have hphase := h.phase r hr
  cases hstep with
  | noArena hrank hfull =>
    have hfits := h.room halive hr hroom (n := round16 shmrefSize)
      (by rw [hrank]; exact (Nat.zero_add _).trans_le (Nat.le_add_right _ _))
    omega
  | noTable hrank hfull =>
    have hfits := h.room halive hr hroom (n := round16 job.gtsize) (by rw [hrank]; exact le_rfl)
    omega
  | unusable hrank hnull =>
    rw [hrank] at hphase
    have hboot := h.bcast _ hphase
    rcases hnull with harena | htable
    · exact absurd harena (hboot.arena.resolves hr)
    · exact absurd htable (hboot.table.resolves hr)
  | takeArena => exact BootJob.Alive.set halive (by simp)
  | clearArena => exact BootJob.Alive.set halive (by simp)
  | takeTable => exact BootJob.Alive.set halive (by simp)
  | clearTable => exact BootJob.Alive.set halive (by simp)
  | bcast => exact BootJob.Alive.set halive (by simp)
  | receive => exact BootJob.Alive.set halive (by simp)
  | resolve => exact BootJob.Alive.set halive (by simp)

/-- With room for a share of every rank, no rank fails. -/
theorem alive_of_run (hrun : job.Run mem s)
    (hroom : job.md₀.firstAvail + job.wsize * job.share ≤ job.md₀.endAvail) : job.Alive s := by
  induction hrun with
  | refl => exact fun r hr => by simp [BootJob.start]
  | tail hrun hstep ih =>
    obtain ⟨r, hr, hstep⟩ := hstep
    have hinv := BootInv.of_run hrun
    exact hinv.alive_step ih hr hroom (.of_rankStep hinv.intact hr hstep)

/-- The steps that a rank has before it. -/
def Startup.togo : Startup → ℕ
  | .established => 6
  | .arena _ _ => 5
  | .arenaCleared _ => 4
  | .table _ _ _ => 3
  | .booted _ => 2
  | .synced _ => 1
  | .ready _ _ => 0
  | .failed => 0

theorem RankStep.togo_lt {s' : BootSys} {r : ℕ} (hstep : RankStep job s r s')
    (hr : r < job.wsize) :
    ∑ i ∈ Finset.range job.wsize, (s'.rank i).togo <
      ∑ i ∈ Finset.range job.wsize, (s.rank i).togo := by
  obtain ⟨p, hranks, hlt⟩ : ∃ p, s'.rank = Function.update s.rank r p ∧
      p.togo < (s.rank r).togo := by
    cases hstep <;> exact ⟨_, rfl, by simp [‹s.rank r = _›, Startup.togo]⟩
  have hsum := sum_update Startup.togo s.rank p hr
  rw [hranks]
  omega

/-- Only a rank that waits for the broadcast cannot step. -/
theorem rankStep_none {r : ℕ} (h : job.rankStep s r = none) :
    (∃ daSrc gtab, s.rank r = .ready daSrc gtab) ∨ s.rank r = .failed ∨
      r ≠ 0 ∧ s.bcast = none := by
  unfold BootJob.rankStep at h
  split at h
  · split at h <;> simp at h
  · simp at h
  · split at h <;> simp at h
  · simp at h
  · split at h
    · simp at h
    next hroot => exact .inr (.inr ⟨hroot, Option.map_eq_none_iff.mp h⟩)
  · split at h <;> simp at h
  next daSrc gtab hrank => exact .inl ⟨daSrc, gtab, hrank⟩
  next hrank => exact .inr (.inl hrank)

/-- The startup does not get stuck. -/
theorem BootInv.progress (h : BootInv job s) (halive : job.Alive s) (hdone : ¬ job.Done s) :
    ∃ r < job.wsize, ∃ s', job.rankStep s r = some s' := by
  by_contra hstuck
  have hnone : ∀ r < job.wsize, job.rankStep s r = none := by
    intro r hr
    by_contra hsome
    obtain ⟨s', hstep⟩ := Option.ne_none_iff_exists'.mp hsome
    exact hstuck ⟨r, hr, s', hstep⟩
  have hroot : s.bcast ≠ none := by
    rcases rankStep_none (hnone 0 job.ranks) with ⟨daSrc, gtab, hrank⟩ | hfailed | ⟨hne, -⟩
    · have hphase := h.phase 0 job.ranks
      rw [hrank] at hphase
      obtain ⟨boot, hbcast, -⟩ := hphase
      simp [hbcast]
    · exact absurd hfailed (halive 0 job.ranks)
    · exact absurd rfl hne
  refine hdone fun r hr => ?_
  rcases rankStep_none (hnone r hr) with hready | hfailed | ⟨-, hwait⟩
  · exact hready
  · exact absurd hfailed (halive r hr)
  · exact absurd hwait hroot

/-- So some run comes to an end, good or bad. -/
theorem exists_end (hrun : job.Run mem s) :
    ∃ s', job.Run mem s' ∧ (job.Done s' ∨ ¬ job.Alive s') := by
  induction hn : ∑ i ∈ Finset.range job.wsize, (s.rank i).togo using
    Nat.strong_induction_on generalizing s with
  | _ n ih =>
    by_cases halive : job.Alive s
    · by_cases hdone : job.Done s
      · exact ⟨s, hrun, .inl hdone⟩
      · have hinv := BootInv.of_run hrun
        obtain ⟨r, hr, s', hstep⟩ := hinv.progress halive hdone
        have hlt := (RankStep.of_rankStep hinv.intact hr hstep).togo_lt hr
        exact ih _ (hn ▸ hlt) (hrun.tail ⟨r, hr, hstep⟩) rfl
    · exact ⟨s, hrun, .inr halive⟩

/-- The tables are always shared and zeroed, but they cost one share only on one rank. -/
theorem one_bootstrap_iff (hrun : job.Run mem s) :
    OneBootstrap job s ↔ (job.Done s → job.wsize = 1) := by
  have hinv := BootInv.of_run hrun
  have hpos := share_pos job
  have hshare : round16 shmrefSize + round16 (job.maxthreads * gtabSize) = job.share := by
    rw [← gtsize_eq]
    rfl
  unfold OneBootstrap
  rw [hshare]
  constructor
  · rintro ⟨-, honce⟩ hdone
    have hcost := honce hdone
    rw [hinv.firstAvail_done hdone] at hcost
    have hmul : job.wsize * job.share = 1 * job.share := by omega
    exact Nat.eq_of_mul_eq_mul_right hpos hmul
  · intro hone
    refine ⟨hinv.shared, fun hdone => ?_⟩
    rw [hinv.firstAvail_done hdone, hone hdone, one_mul]

end Result

/-- A segment of two pages and a table of one thread. -/
def smallJob (wsize : ℕ) (h : 0 < wsize) : BootJob where
  wsize := wsize
  maxthreads := 1
  dtrs := fun r => ⟨1, fun _ => ⟨65536 * (r + 1), 0, 8192⟩⟩
  md₀ := initMd 4096 ⟨DTHREAD_SRC_FILE, 0, 8192, 0, 0, 0⟩ 0 0
  ranks := h
  threads := by decide
  mapped := fun _ _ => ⟨Nat.one_pos, rfl⟩
  magic := rfl
  room := by decide
  inside := by decide
  size := by decide

theorem one_bootstrap_iff_alone :
    ∃ s, (smallJob 1 Nat.one_pos).Done s ∧ OneBootstrap (smallJob 1 Nat.one_pos) s := by
  let job := smallJob 1 Nat.one_pos
  have hrank : (job.exec [0, 0, 0, 0, 0, 0] (job.start fun _ => 1)).map (fun s => s.rank 0) =
      some (.ready 69632 69664) := by
    decide +kernel
  obtain ⟨s, hexec, hready⟩ := Option.map_eq_some_iff.mp hrank
  have hrun : job.Run (fun _ => 1) s := BootJob.Run.exec .refl (by decide) hexec
  refine ⟨s, fun r hr => ?_, (one_bootstrap_iff hrun).mpr fun _ => rfl⟩
  obtain rfl := Nat.lt_one_iff.mp hr
  exact ⟨_, _, hready⟩

/-- Two ranks take two shares: the second one's blocks are never used. -/
theorem two_bootstraps : ∃ s, (smallJob 2 Nat.two_pos).Run (fun _ => 1) s ∧
    (smallJob 2 Nat.two_pos).Done s ∧ s.md.firstAvail = 4096 + 2 * (32 + 176) ∧
    ¬ OneBootstrap (smallJob 2 Nat.two_pos) s := by
  let job := smallJob 2 Nat.two_pos
  have hranks : (job.exec [0, 1, 1, 0, 0, 1, 1, 0, 0, 1, 0, 1] (job.start fun _ => 1)).map
      (fun s => (s.md.firstAvail, s.rank 0, s.rank 1)) =
      some (4096 + 2 * (32 + 176), .ready 69632 69696, .ready 135168 135232) := by
    decide +kernel
  obtain ⟨s, hexec, hstate⟩ := Option.map_eq_some_iff.mp hranks
  obtain ⟨hfirst, hstate⟩ := Prod.mk.inj hstate
  obtain ⟨hroot, hother⟩ := Prod.mk.inj hstate
  have hrun : job.Run (fun _ => 1) s := BootJob.Run.exec .refl (by decide) hexec
  have hdone : job.Done s := by
    intro r hr
    have htwo : r < 2 := hr
    obtain rfl | rfl : r = 0 ∨ r = 1 := by omega
    · exact ⟨_, _, hroot⟩
    · exact ⟨_, _, hother⟩
  refine ⟨s, hrun, hdone, hfirst, fun honce => ?_⟩
  have hone := honce.2 hdone
  rw [hfirst] at hone
  revert hone
  decide

end Dthread.Bootstrap
