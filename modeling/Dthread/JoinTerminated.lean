import Dthread.JobSystem
import Dthread.TableWrites

/-!
A JOIN and the TERMINATED of the thread it names reach rank 0 in either order.
With the JOIN first a JOINWAIT is kept and answered when the thread ends; with
the TERMINATED first the thread is a zombie and the JOIN is answered at once.
-/
namespace Dthread.JoinTerminated

open ReqMsg Queuing ManagerTables ManagerHandlers ManagerEffects ManagerOutcomes
open JobSystem TableWrites

/-- No allocation to come fails. -/
def AllocsSucceed (q : Dtq) : Prop := ∀ ok ∈ q.mallocs, ok = true

/-- A thread that was started, can be joined and has not been waited for, at a
manager of rank 0 that is not draining. -/
structure Joinable (job : Job) (v : View) (thread : DThread) : Prop where
  rank0 : v.mgr.mpiRank = 0
  valid : dt2gtab job v.gtab thread = some thread.dtIndex
  attached : (v.gtab thread.dtIndex).detached = false
  running : (v.gtab thread.dtIndex).terminated.needFinalstate = true
  unwaited : joinwaitSearch v thread = none
  allocs : AllocsSucceed v.dtq
  sending : v.dtq.mpisqDraindown = .init

structure IsJoin (mqe : Mqe) (thread : DThread) : Prop where
  body : mqe.frame.body = .join thread
  len : mqe.frame.body.size ≤ mqe.frame.flen

/-- The TERMINATED of a thread, which carries a final state. -/
structure IsTerminated (mqe : Mqe) (thread : DThread) (fin : LtState) : Prop where
  body : mqe.frame.body = .terminated thread fin
  len : mqe.frame.flen = mqe.frame.body.size
  final : fin.needFinalstate = false

/-- The thread is gone and the joiner was told its return value. -/
structure Joined (v v' : View) (thread : DThread) (fin : LtState) (join : Mqe) : Prop where
  gtab : v'.gtab = freeGtab (zombieGtab v.gtab thread fin) thread.dtIndex
  threadsAlloc : v'.mgr.threadsAlloc = v.mgr.threadsAlloc - 1
  threadsRunning : v'.mgr.threadsRunning = v.mgr.threadsRunning - 1
  rpending : v'.mgr.rpending = v.mgr.rpending
  posted : v'.dtq.accepted.map toPost = v.dtq.accepted.map toPost ++
    [(join.peer, .of join.frame.xidseq (.joined 0 (v.gtab thread.dtIndex).ret))]

theorem reqAlloc_succeeds {q : Dtq} (h : AllocsSucceed q) :
    ∃ n q', dtqReqAlloc q = (some n, q') ∧ SameTraffic q q' := by
  have hs := sameTraffic_reqAlloc q
  rcases halloc : dtqReqAlloc q with ⟨_ | n, q'⟩
  · unfold dtqReqAlloc at halloc
    split at halloc
    · simp at halloc
    · have hok : q.mallocs.headD true = true := by
        cases hmallocs : q.mallocs with
        | nil => rfl
        | cons ok rest => exact h ok (hmallocs ▸ List.mem_cons_self)
      rw [malloc_eq, hok] at halloc
      simp at halloc
  · rw [halloc] at hs
    exact ⟨n, q', rfl, hs⟩

section Handlers

variable {job : Job} {v : View} {thread : DThread} {fin : LtState} {join term : Mqe}

theorem processMqe_join (hrank : v.mgr.mpiRank = 0) (h : IsJoin join thread) (err : ℕ) :
    processMqe job v join err = some (joinThread job v join thread) := by
  have hhdr := join.frame.body.headerSize_le_size
  have hlen := h.len
  unfold processMqe
  simp only
  rw [if_neg (by omega), if_neg (by simp [hrank]), h.body]
  rw [h.body] at hlen
  simp only [if_pos hlen]

theorem processMqe_terminated (hrank : v.mgr.mpiRank = 0) (h : IsTerminated term thread fin)
    (hlt : thread.dtIndex < job.nmaxthread) (hseq : (v.gtab thread.dtIndex).seq = thread.dtSeq)
    (err : ℕ) :
    processMqe job v term err = some ((terminatedThread job v thread fin).setDtq
      (dtqRecvRelease (terminatedThread job v thread fin).dtq term.addr)) := by
  have hhdr := term.frame.body.headerSize_le_size
  have hlen := h.len
  have hfin : fin ≠ .running := by
    rintro rfl
    exact absurd h.final (by decide)
  unfold processMqe
  simp only
  rw [if_neg (by omega), if_neg (by simp [hrank]), h.body]
  simp only [terminatedMsg]
  rw [if_neg (by simp [hlen]), if_neg (by simp [hseq]; omega), if_neg hfin]

theorem joinThread_waits (join : Mqe) (h : Joinable job v thread) :
    ∃ n q, SameTraffic v.dtq q ∧ joinThread job v join thread =
      (v.setDtq (dtqRecvRelease q join.addr)).setMgr { v.mgr with
        rpending := v.mgr.rpending ++
          [joinwaitRequest n join.peer join.frame.xidseq thread] } := by
  obtain ⟨n, q, hq, hs⟩ := reqAlloc_succeeds h.allocs
  refine ⟨n, q, hs, ?_⟩
  unfold joinThread
  simp only [h.valid, h.attached, h.running, h.unwaited, hq]
  rfl

theorem joinThread_zombie (join : Mqe)
    (hvalid : dt2gtab job v.gtab thread = some thread.dtIndex)
    (hdet : (v.gtab thread.dtIndex).detached = false)
    (hfin : (v.gtab thread.dtIndex).terminated.needFinalstate = false) :
    Effect v (joinThread job v join thread) (freeMgr v.mgr v.gtab thread.dtIndex)
      (freeGtab v.gtab thread.dtIndex)
      [(join.peer, .of join.frame.xidseq (.joined 0 (v.gtab thread.dtIndex).ret))] := by
  have heff := ((Effect.refl v).send (join.recycle join.frame.xidseq
    (.joined 0 (v.gtab thread.dtIndex).ret))).gtabFree thread.dtIndex
  unfold joinThread
  simp only [hvalid, hdet, hfin]
  exact heff

end Handlers

section Orders

variable {job : Job} {v : View} {thread : DThread} {fin : LtState} {join term : Mqe}

/-- The JOINWAIT is the only one for the thread. -/
theorem joinwait_appended (h : joinwaitSearch v thread = none) (n peer xidseq : ℕ) :
    (v.mgr.rpending ++ [joinwaitRequest n peer xidseq thread]).find? (joinwaitMatch thread) =
        some (joinwaitRequest n peer xidseq thread) ∧
      (v.mgr.rpending ++ [joinwaitRequest n peer xidseq thread]).eraseP (joinwaitMatch thread) =
        v.mgr.rpending := by
  have hmatch : joinwaitMatch thread (joinwaitRequest n peer xidseq thread) = true := by
    simp [joinwaitMatch, joinwaitRequest]
  have hnone : ∀ rqe ∈ v.mgr.rpending, ¬ joinwaitMatch thread rqe = true := List.find?_eq_none.mp h
  constructor
  · rw [List.find?_append, List.find?_eq_none.mpr hnone, List.find?_cons_of_pos hmatch]
    rfl
  · rw [List.eraseP_append_right _ hnone, List.eraseP_cons_of_pos hmatch, List.append_nil]

/-- The JOIN comes first. -/
theorem joined_of_join_first (h : Joinable job v thread) (hj : IsJoin join thread)
    (ht : IsTerminated term thread fin) (err err' : ℕ) :
    ∃ v₁ v₂, processMqe job v join err = some v₁ ∧ processMqe job v₁ term err' = some v₂ ∧
      Joined v v₂ thread fin join := by
  obtain ⟨hlt, halloc, hseq⟩ := dt2gtab_valid.mp h.valid
  obtain ⟨n, q, hs, hjoin⟩ := joinThread_waits join h
  obtain ⟨hfind, herase⟩ := joinwait_appended h.unwaited n join.peer join.frame.xidseq
  -- the view with the JOINWAIT, where the buffer of the JOIN is free for the answer
  generalize hw : (v.setDtq (dtqRecvRelease q join.addr)).setMgr { v.mgr with
    rpending := v.mgr.rpending ++ [joinwaitRequest n join.peer join.frame.xidseq thread] } = w
    at hjoin
  have hgtab : w.gtab = v.gtab := by rw [← hw]; rfl
  have hmgr : w.mgr = { v.mgr with rpending := v.mgr.rpending ++
      [joinwaitRequest n join.peer join.frame.xidseq thread] } := by rw [← hw]; rfl
  have hdtq : w.dtq = dtqRecvRelease q join.addr := by rw [← hw]; rfl
  have hsearch : joinwaitSearch w thread =
      some (joinwaitRequest n join.peer join.frame.xidseq thread) := by
    rw [joinwaitSearch, hmgr]
    exact hfind
  have hmqe : dtqMqeAlloc w.dtq = (some join.addr, q) := by rw [hdtq]; rfl
  have hdet : (w.gtab thread.dtIndex).detached = false := by rw [hgtab]; exact h.attached
  have heff := (terminatedThread_joined job fin hdet hsearch hmqe).recvRelease term.addr
  have hrank : w.mgr.mpiRank = 0 := by rw [hmgr]; exact h.rank0
  have hterm := processMqe_terminated (v := w) hrank ht hlt (hgtab ▸ hseq) err'
  refine ⟨w, _, ?_, hterm, ?_⟩
  · rw [processMqe_join h.rank0 hj, hjoin]
  · rw [hgtab] at heff
    refine ⟨heff.gtab, ?_, ?_, ?_, ?_⟩
    · rw [heff.mgr, hmgr]
      simp [freeMgr, releaseMgr, dropWaiter, halloc]
    · rw [heff.mgr, hmgr]
      simp [freeMgr, releaseMgr]
    · rw [heff.mgr, hmgr]
      exact herase
    · have hposted := heff.posted
      have hdrain : w.dtq.mpisqDraindown = .init := by
        rw [hdtq]
        exact hs.draindown.trans h.sending
      have hacc : w.dtq.accepted = v.dtq.accepted := by
        rw [hdtq]
        exact hs.accepted
      rw [if_pos hdrain, hacc] at hposted
      exact hposted

/-- The TERMINATED comes first. -/
theorem joined_of_terminated_first (h : Joinable job v thread) (hj : IsJoin join thread)
    (ht : IsTerminated term thread fin) (err err' : ℕ) :
    ∃ v₁ v₂, processMqe job v term err' = some v₁ ∧ processMqe job v₁ join err = some v₂ ∧
      Joined v v₂ thread fin join := by
  obtain ⟨hlt, halloc, hseq⟩ := dt2gtab_valid.mp h.valid
  have hterm := processMqe_terminated h.rank0 ht hlt hseq err'
  have hzombie := (terminatedThread_zombie job fin h.attached h.unwaited).recvRelease
    term.addr
  generalize (terminatedThread job v thread fin).setDtq
    (dtqRecvRelease (terminatedThread job v thread fin).dtq term.addr) = w at hterm hzombie
  have hentry : w.gtab thread.dtIndex =
      { v.gtab thread.dtIndex with terminated := fin, hasLtab := false } := by
    rw [hzombie.gtab, zombieGtab, Function.update_self]
  have hvalid : dt2gtab job w.gtab thread = some thread.dtIndex := by
    rw [dt2gtab_valid, hentry]
    exact ⟨hlt, halloc, hseq⟩
  have hdet : (w.gtab thread.dtIndex).detached = false := by rw [hentry]; exact h.attached
  have hfin : (w.gtab thread.dtIndex).terminated.needFinalstate = false := by
    rw [hentry]
    exact ht.final
  have heff := joinThread_zombie join hvalid hdet hfin
  have hrank : w.mgr.mpiRank = 0 := by rw [hzombie.mgr]; exact h.rank0
  refine ⟨w, _, hterm, processMqe_join hrank hj err, ?_, ?_, ?_, ?_, ?_⟩
  · rw [heff.gtab, hzombie.gtab]
  · rw [heff.mgr, hzombie.mgr]
    simp [freeMgr, hentry, halloc]
  · rw [heff.mgr, hzombie.mgr]
    simp [freeMgr]
  · rw [heff.mgr, hzombie.mgr]
    simp [freeMgr]
  · have hposted := heff.posted
    have hdrain : w.dtq.mpisqDraindown = .init := hzombie.draindown.trans h.sending
    have hold := hzombie.posted
    rw [if_pos h.sending, List.append_nil] at hold
    have hret : (w.gtab thread.dtIndex).ret = (v.gtab thread.dtIndex).ret := by rw [hentry]
    rw [if_pos hdrain, hold, hret] at hposted
    exact hposted

end Orders

/-- Rank 0 ends in the same tables, counters and pending requests, with the same
single JOINED sent, whichever of a JOIN and the TERMINATED of its thread it
handles first. -/
theorem join_terminated_commute (job : Job) (v : View) (thread : DThread) (fin : LtState)
    (join term : Mqe) (err err' : ℕ) (h : Joinable job v thread) (hj : IsJoin join thread)
    (ht : IsTerminated term thread fin) :
    ∃ v₁ v₁₂ v₂ v₂₁,
      (processMqe job v join err = some v₁ ∧ processMqe job v₁ term err' = some v₁₂) ∧
      (processMqe job v term err' = some v₂ ∧ processMqe job v₂ join err = some v₂₁) ∧
      v₁₂.gtab = v₂₁.gtab ∧ v₁₂.mgr.threadsAlloc = v₂₁.mgr.threadsAlloc ∧
      v₁₂.mgr.threadsRunning = v₂₁.mgr.threadsRunning ∧
      v₁₂.mgr.rpending = v₂₁.mgr.rpending ∧
      v₁₂.dtq.accepted.map toPost = v.dtq.accepted.map toPost ++
        [(join.peer, .of join.frame.xidseq (.joined 0 (v.gtab thread.dtIndex).ret))] ∧
      v₂₁.dtq.accepted.map toPost = v.dtq.accepted.map toPost ++
        [(join.peer, .of join.frame.xidseq (.joined 0 (v.gtab thread.dtIndex).ret))] := by
  obtain ⟨v₁, v₁₂, hj₁, ht₁, hfirst⟩ := joined_of_join_first h hj ht err err'
  obtain ⟨v₂, v₂₁, ht₂, hj₂, hsecond⟩ := joined_of_terminated_first h hj ht err err'
  refine ⟨v₁, v₁₂, v₂, v₂₁, ⟨hj₁, ht₁⟩, ⟨ht₂, hj₂⟩, ?_, ?_, ?_, ?_, hfirst.posted, hsecond.posted⟩
  · rw [hfirst.gtab, hsecond.gtab]
  · rw [hfirst.threadsAlloc, hsecond.threadsAlloc]
  · rw [hfirst.threadsRunning, hsecond.threadsRunning]
  · rw [hfirst.rpending, hsecond.rpending]

/-- The main thread of a new job, its JOIN from rank 1 and its TERMINATED. -/
theorem join_terminated_commute_app0 :
    ∃ v₁₂ v₂₁ : View, v₁₂.gtab = v₂₁.gtab ∧
      v₁₂.dtq.accepted.map toPost = [(1, .of 5 (.joined 0 nodata))] ∧
      v₂₁.dtq.accepted.map toPost = [(1, .of 5 (.joined 0 nodata))] := by
  obtain ⟨v₁, v₁₂, v₂, v₂₁, -, -, hgtab, -, -, -, hposted, hposted'⟩ := join_terminated_commute
    twoRanks (mgrStartapp twoRanks ⟨mgrInit twoRanks 0, fun _ => .zero, dtqInit⟩) ⟨0, 2⟩ .returned
    ⟨0, 1, .of 5 (.join ⟨0, 2⟩)⟩ ⟨1, 0, .of 0 (.terminated ⟨0, 2⟩ .returned)⟩ 0 0
    ⟨rfl, rfl, rfl, rfl, rfl, fun _ hmem => absurd hmem List.not_mem_nil, rfl⟩
    ⟨rfl, by decide⟩ ⟨rfl, rfl, rfl⟩
  exact ⟨v₁₂, v₂₁, hgtab, hposted, hposted'⟩

end Dthread.JoinTerminated
