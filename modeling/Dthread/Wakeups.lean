import Dthread.SendDrain

/-!
The threads of one rank around dtqlock: application threads, the MPI thread and
the manager, which blocks on the condition variable mgr_notify. Every section
under the lock is one step. A wait gives up the lock and blocks in one step,
may end without a signal, and takes the lock again when it ends.
-/
namespace Dthread.Wakeups

open ReqMsg Queuing SendDrain

/-- Where the manager is: outside the lock, in broadcast_shutdown after the
draindown, waiting in dtq_notifywait, or past its main loop. -/
inductive MgrPc where
  | running
  | shutdown
  | blocked (timed signaled : Bool)
  | left
deriving DecidableEq, Repr

/-- pthread_cond_signal: without a waiter it has no effect. -/
def MgrPc.signal : MgrPc → MgrPc
  | .blocked timed _ => .blocked timed true
  | pc => pc

structure Threads where
  sends : Sends
  mgr : MgrPc
  draining : Bool

namespace Threads

def init : Threads := ⟨.init, .running, false⟩

def q (s : Threads) : Dtq := s.sends.q

def setDtq (s : Threads) (q : Dtq) : Threads := { s with sends := { s.sends with q := q } }

def notify (s : Threads) (cond : Bool) : Threads :=
  if cond then { s with mgr := s.mgr.signal } else s

/-- dtq_req_enqueue with its notification. -/
def reqEnqueue (s : Threads) (req : Request) : Threads :=
  (s.setDtq (dtqReqEnqueue s.q req)).notify (wasEmpty s.q)

def recvEnqueue (s : Threads) (mqe : Mqe) : Threads :=
  (s.setDtq (dtqRecvEnqueue s.q mqe)).notify (wasEmpty s.q)

def sendRelease (s : Threads) (mqe : Mqe) : Threads :=
  { s with sends := s.sends.release mqe }.notify (dtqSendRelease s.q mqe.addr).1

/-- dtq_send_enqueue notifies when it queues on the receive queue. -/
def sendEnqueue (rank : ℕ) (s : Threads) (mqe : Mqe) : Threads :=
  { s with sends := s.sends.enqueue rank mqe }.notify
    (decide (s.q.mpisqDraindown = DrainState.init) && decide (mqe.peer = rank) && wasEmpty s.q)

/-- dtq_notifywait takes one message and one request, if there are any. -/
def takeWork (s : Threads) : Threads :=
  { s.setDtq (dtqReqDequeue (dtqRecvDequeue s.q).2).2 with mgr := .running }

def notifywait (s : Threads) : Threads :=
  if wasEmpty s.q then { s with mgr := .blocked (s.q.notifytimelimit ≠ 0) false }
  else s.takeWork

end Threads

/-- The operations on the free lists. -/
inductive FreeListCall (q : Dtq) : Dtq → Prop
  | reqAlloc : FreeListCall q (dtqReqAlloc q).2
  | reqRelease (n : ℕ) : FreeListCall q { q with reqfree := n :: q.reqfree }
  | mqeAlloc : FreeListCall q (dtqMqeAlloc q).2
  | mqeUnalloc (addr : ℕ) : FreeListCall q (dtqMqeUnalloc q addr)
  | recvRelease (addr : ℕ) : FreeListCall q (dtqRecvRelease q addr)

/-- What a section leaves as it is when it does not queue anything. -/
structure SameWork (q q' : Dtq) : Prop where
  mpirecvq : q'.mpirecvq = q.mpirecvq
  mgrreqq : q'.mgrreqq = q.mgrreqq
  draindown : q'.mpisqDraindown = q.mpisqDraindown
  limit : q'.notifytimelimit = q.notifytimelimit

theorem sameWork_freeLists {q q' : Dtq} (h : FreeListCall q q') : SameWork q q' := by
  cases h with
  | reqAlloc =>
    obtain ⟨free, n, ms, hq⟩ := reqAlloc_queues q
    rw [hq]
    exact ⟨rfl, rfl, rfl, rfl⟩
  | mqeAlloc =>
    obtain ⟨free, n, ms, hq⟩ := mqeAlloc_queues q
    rw [hq]
    exact ⟨rfl, rfl, rfl, rfl⟩
  | reqRelease n => exact ⟨rfl, rfl, rfl, rfl⟩
  | mqeUnalloc addr => exact ⟨rfl, rfl, rfl, rfl⟩
  | recvRelease addr => exact ⟨rfl, rfl, rfl, rfl⟩

theorem sameSends_freeLists {q q' : Dtq} (h : FreeListCall q q') : SameSends q q' := by
  cases h with
  | reqAlloc => exact sameSends_reqAlloc q
  | mqeAlloc => exact sameSends_mqeAlloc q
  | reqRelease n => exact ⟨rfl, rfl, rfl, rfl, rfl⟩
  | mqeUnalloc addr => exact ⟨rfl, rfl, rfl, rfl, rfl⟩
  | recvRelease addr => exact ⟨rfl, rfl, rfl, rfl, rfl⟩

inductive Step (rank : ℕ) (s : Threads) : Threads → Prop
  -- an application thread
  | reqEnqueue (req : Request) : Step rank s (s.reqEnqueue req)
  -- the MPI thread
  | recvEnqueue (mqe : Mqe) : Step rank s (s.recvEnqueue mqe)
  | sendDequeue : Step rank s { s with sends := s.sends.dequeue }
  | sendRelease (mqe : Mqe) (h : mqe ∈ s.sends.sending) : Step rank s (s.sendRelease mqe)
  -- the MPI thread and the manager
  | freeLists (q : Dtq) (h : FreeListCall s.q q) : Step rank s (s.setDtq q)
  -- the manager
  | sendEnqueue (mqe : Mqe) (h : s.mgr = .running) : Step rank s (s.sendEnqueue rank mqe)
  | draindown (h : s.mgr = .running) :
      Step rank s { s with sends := s.sends.draindown, mgr := .shutdown }
  | timelimit (h : s.mgr = .shutdown) :
      Step rank s { s.setDtq (dtqNotifytimelimit s.q 10) with mgr := .running, draining := true }
  | notifywait (h : s.mgr = .running) : Step rank s s.notifywait
  | wake (timed signaled : Bool) (h : s.mgr = .blocked timed signaled) : Step rank s s.takeWork
  | leave (h : s.mgr = .running) (hl : leavesLoop s.draining s.q = true) :
      Step rank s { s with mgr := .left }

def Reachable (rank : ℕ) (s : Threads) : Prop :=
  Relation.ReflTransGen (Step rank) Threads.init s

variable {rank : ℕ} {s s' : Threads}

theorem notify_q (s : Threads) (cond : Bool) : (s.notify cond).q = s.q := by
  cases cond <;> rfl

theorem notify_sends (s : Threads) (cond : Bool) : (s.notify cond).sends = s.sends := by
  cases cond <;> rfl

/-- A blocked manager after a notification was blocked before it, and if it is
not signaled there was none. -/
theorem blocked_of_notify {cond timed signaled : Bool}
    (h : (s.notify cond).mgr = .blocked timed signaled) :
    (∃ sig, s.mgr = .blocked timed sig) ∧
      (signaled = false → cond = false ∧ s.mgr = .blocked timed false) := by
  cases cond with
  | false => exact ⟨⟨signaled, h⟩, fun hs => ⟨rfl, by rw [← hs]; exact h⟩⟩
  | true =>
    change s.mgr.signal = _ at h
    cases hm : s.mgr with
    | blocked timed' sig' =>
      rw [hm] at h
      cases h
      exact ⟨⟨sig', rfl⟩, fun hs => by simp at hs⟩
    | running => simp [hm, MgrPc.signal] at h
    | shutdown => simp [hm, MgrPc.signal] at h
    | left => simp [hm, MgrPc.signal] at h

theorem shutdown_of_notify {cond : Bool} (h : s.mgr = .shutdown) :
    (s.notify cond).mgr = .shutdown := by
  cases cond with
  | false => exact h
  | true =>
    change s.mgr.signal = _
    rw [h]
    rfl

theorem wasEmpty_iff (q : Dtq) : wasEmpty q = true ↔ q.mpirecvq = [] ∧ q.mgrreqq = [] := by
  simp [wasEmpty]

/-- While the manager waits without a time limit no draindown has started, and
it waits without a signal only while it has nothing to do. -/
structure WakeOk (s : Threads) : Prop where
  idle : s.mgr = .blocked false false → wasEmpty s.q = true
  untimed : ∀ signaled, s.mgr = .blocked false signaled → s.q.mpisqDraindown = .init
  limit : s.q.mpisqDraindown ≠ .init → s.q.notifytimelimit ≠ 0 ∨ s.mgr = .shutdown

namespace WakeOk

theorem init : WakeOk Threads.init :=
  ⟨nofun, nofun, fun h => absurd rfl h⟩

/-- A thread other than the manager runs a section that keeps the draindown
state started or not started, and notifies if the queues stop being empty. -/
theorem sharedSection (h : WakeOk s) (cond : Bool) {t : Threads} (hmgr : t.mgr = s.mgr)
    (hlimit : t.q.notifytimelimit = s.q.notifytimelimit)
    (hdd : t.q.mpisqDraindown = .init ↔ s.q.mpisqDraindown = .init)
    (hempty : wasEmpty s.q = true → cond = false → wasEmpty t.q = true) :
    WakeOk (t.notify cond) := by
  refine ⟨?_, ?_, ?_⟩
  · intro hb
    obtain ⟨hcond, hb'⟩ := (blocked_of_notify hb).2 rfl
    rw [notify_q]
    exact hempty (h.idle (hmgr ▸ hb')) hcond
  · intro signaled hb
    obtain ⟨sig, hb'⟩ := (blocked_of_notify hb).1
    rw [notify_q, hdd]
    exact h.untimed sig (hmgr ▸ hb')
  · intro hne
    rw [notify_q] at hne ⊢
    rw [hlimit]
    rcases h.limit (fun he => hne (hdd.mpr he)) with hl | hs
    · exact Or.inl hl
    · exact Or.inr (shutdown_of_notify (hmgr.trans hs))

/-- The manager gets on outside broadcast_shutdown and is not blocked. -/
theorem mgrRuns {t : Threads} (h : WakeOk s) (hs : s.mgr ≠ .shutdown)
    (hmgr : ∀ timed signaled, t.mgr ≠ .blocked timed signaled)
    (hlimit : t.q.notifytimelimit = s.q.notifytimelimit)
    (hdd : t.q.mpisqDraindown = s.q.mpisqDraindown) : WakeOk t := by
  refine ⟨fun hb => absurd hb (hmgr _ _), fun _ hb => absurd hb (hmgr _ _), ?_⟩
  intro hne
  rw [hdd] at hne
  rcases h.limit hne with hl | hsd
  · exact Or.inl (by rwa [hlimit])
  · exact absurd hsd hs

theorem takeWork (h : WakeOk s) (hs : s.mgr ≠ .shutdown) : WakeOk s.takeWork := by
  have hrecv : (dtqRecvDequeue s.q).2.notifytimelimit = s.q.notifytimelimit ∧
      (dtqRecvDequeue s.q).2.mpisqDraindown = s.q.mpisqDraindown := by
    unfold dtqRecvDequeue
    split <;> exact ⟨rfl, rfl⟩
  have hreq (q : Dtq) : (dtqReqDequeue q).2.notifytimelimit = q.notifytimelimit ∧
      (dtqReqDequeue q).2.mpisqDraindown = q.mpisqDraindown := by
    unfold dtqReqDequeue
    split <;> exact ⟨rfl, rfl⟩
  refine h.mgrRuns hs nofun ?_ ?_
  · exact (hreq _).1.trans hrecv.1
  · exact (hreq _).2.trans hrecv.2

theorem notifywait (h : WakeOk s) (hs : s.mgr = .running) : WakeOk s.notifywait := by
  have hns : s.mgr ≠ .shutdown := by rw [hs]; nofun
  unfold Threads.notifywait
  split
  next hempty =>
    -- the wait is untimed only if the time limit is unset, hence no draindown
    have hdd : s.q.notifytimelimit = 0 → s.q.mpisqDraindown = .init := by
      intro hl
      by_contra hne
      rcases h.limit hne with hl' | hsd
      · exact hl' hl
      · exact hns hsd
    refine ⟨fun _ => hempty, ?_, ?_⟩
    · intro signaled hb
      refine hdd ?_
      simpa using (MgrPc.blocked.inj hb).1
    · intro hne
      exact Or.inl (fun hl => hne (hdd hl))
  next => exact h.takeWork hns

theorem same {t : Threads} (h : WakeOk s) (hmgr : t.mgr = s.mgr) (hm : SameWork s.q t.q) :
    WakeOk t := by
  refine h.sharedSection false hmgr hm.limit (by rw [hm.draindown]) ?_
  intro hempty _
  rw [wasEmpty_iff] at hempty ⊢
  exact ⟨hm.mpirecvq.trans hempty.1, hm.mgrreqq.trans hempty.2⟩

theorem sendDequeue (h : WakeOk s) : WakeOk { s with sends := s.sends.dequeue } := by
  have hm : SameWork s.q s.sends.dequeue.q := by
    rcases hq : s.sends.q.mpisendq with _ | ⟨mqe, rest⟩
    · simp only [Sends.dequeue, dtqSendDequeue, hq]
      exact ⟨rfl, rfl, rfl, rfl⟩
    · simp only [Sends.dequeue, dtqSendDequeue, hq]
      exact ⟨rfl, rfl, rfl, rfl⟩
  exact h.same rfl hm

theorem sendRelease (h : WakeOk s) (mqe : Mqe) : WakeOk (s.sendRelease mqe) := by
  refine h.sharedSection _ (t := { s with sends := s.sends.release mqe }) rfl ?_ ?_ ?_
  · simp only [Threads.q, Sends.release, dtqSendRelease]
    split <;> rfl
  · change (s.sends.release mqe).q.mpisqDraindown = .init ↔ s.sends.q.mpisqDraindown = .init
    rw [release_draindown]
    split
    next hdrained => simp [hdrained.1]
    next => rfl
  · intro hempty _
    rw [wasEmpty_iff] at hempty ⊢
    simp only [Threads.q, Sends.release, dtqSendRelease]
    split <;> exact hempty

theorem sendEnqueue (h : WakeOk s) (mqe : Mqe) : WakeOk (s.sendEnqueue rank mqe) := by
  refine h.sharedSection _ (t := { s with sends := s.sends.enqueue rank mqe }) rfl ?_ ?_ ?_
  · simp only [Threads.q, Sends.enqueue, dtqSendEnqueue]
    split
    · rfl
    · split <;> rfl
  · change (s.sends.enqueue rank mqe).q.mpisqDraindown = .init ↔ _
    rw [enqueue_draindown]
    rfl
  · intro hempty hcond
    rw [hempty, Bool.and_true, Bool.and_eq_false_iff, decide_eq_false_iff_not,
      decide_eq_false_iff_not] at hcond
    change wasEmpty (dtqSendEnqueue rank s.q mqe).2 = true
    unfold dtqSendEnqueue
    rcases hcond with hdd | hpeer
    · rwa [if_pos hdd]
    · rw [if_neg hpeer]
      split <;> exact hempty

theorem step (h : WakeOk s) (hs : Step rank s s') : WakeOk s' := by
  cases hs with
  | reqEnqueue req =>
    refine h.sharedSection _ (t := s.setDtq (dtqReqEnqueue s.q req)) rfl rfl Iff.rfl ?_
    intro hempty hcond
    rw [hempty] at hcond
    cases hcond
  | recvEnqueue mqe =>
    refine h.sharedSection _ (t := s.setDtq (dtqRecvEnqueue s.q mqe)) rfl rfl Iff.rfl ?_
    intro hempty hcond
    rw [hempty] at hcond
    cases hcond
  | sendDequeue => exact h.sendDequeue
  | sendRelease mqe hmem => exact h.sendRelease mqe
  | freeLists q hq => exact h.same rfl (sameWork_freeLists hq)
  | sendEnqueue mqe hrun => exact h.sendEnqueue mqe
  | draindown hrun =>
    exact ⟨nofun, nofun, fun _ => Or.inr rfl⟩
  | timelimit hshut =>
    exact ⟨nofun, nofun, fun _ => Or.inl (Nat.succ_ne_zero 9)⟩
  | notifywait hrun => exact h.notifywait hrun
  | wake timed signaled hb => exact h.takeWork (by rw [hb]; nofun)
  | leave hrun hl =>
    exact h.mgrRuns (by rw [hrun]; nofun) nofun rfl rfl

end WakeOk

theorem reachable_wakeOk (h : Reachable rank s) : WakeOk s := by
  induction h with
  | refl => exact WakeOk.init
  | tail _ hs ih => exact ih.step hs

/-- A manager that waits without a time limit and was not signaled has no work
and has not been asked to drain. -/
theorem blocked_idle (h : Reachable rank s) (hb : s.mgr = .blocked false false) :
    s.q.mpirecvq = [] ∧ s.q.mgrreqq = [] ∧ s.q.mpisqDraindown = .init := by
  have hok := reachable_wakeOk h
  obtain ⟨hrecv, hreq⟩ := (wasEmpty_iff s.q).mp (hok.idle hb)
  exact ⟨hrecv, hreq, hok.untimed false hb⟩

/-- The request of the thread in slot 0 for a RETCLEAN. -/
def retclean : Request :=
  ⟨.ltab 0, 0, .retclean, none, 0, 0, ⟨0, 0⟩, .zero, ⟨⟨0, 0⟩, 0, 0⟩, ⟨0, 0⟩⟩

/-- The manager goes to sleep, a thread queues a request and wakes it, and the manager has
taken the request when it goes to sleep again. -/
theorem blocked_idle_served : ∃ s, Reachable 0 s ∧
    (Threads.init.notifywait.reqEnqueue retclean).mgr = .blocked false true ∧
    (Threads.init.notifywait.reqEnqueue retclean).q.mgrreqq = [retclean] ∧
    s = (Threads.init.notifywait.reqEnqueue retclean).takeWork.notifywait ∧
    s.mgr = .blocked false false ∧ s.q.mgrreqq = [] := by
  have hsleep : Reachable 0 Threads.init.notifywait := .single (.notifywait rfl)
  have hwoken : Reachable 0 (Threads.init.notifywait.reqEnqueue retclean).takeWork :=
    (hsleep.tail (.reqEnqueue retclean)).tail (.wake false true rfl)
  have hagain := hwoken.tail (.notifywait rfl)
  exact ⟨_, hagain, rfl, rfl, rfl, rfl, (blocked_idle hagain rfl).2.1⟩

/-- Every section is one operation of the send side, or none of them. -/
theorem step_sends (h : Step rank s s') : SendDrain.Step rank s.sends s'.sends := by
  have hwork : SameSends s.q s.takeWork.q :=
    (sameSends_recvDequeue s.q).trans (sameSends_reqDequeue (dtqRecvDequeue s.q).2)
  cases h with
  | reqEnqueue req =>
    rw [Threads.reqEnqueue, notify_sends]
    exact .other _ ⟨rfl, rfl, rfl, rfl, rfl⟩
  | recvEnqueue mqe =>
    rw [Threads.recvEnqueue, notify_sends]
    exact .other _ ⟨rfl, rfl, rfl, rfl, rfl⟩
  | sendDequeue => exact .dequeue
  | sendRelease mqe hmem =>
    rw [Threads.sendRelease, notify_sends]
    exact .release mqe hmem
  | freeLists q hq => exact .other q (sameSends_freeLists hq)
  | sendEnqueue mqe hrun =>
    rw [Threads.sendEnqueue, notify_sends]
    exact .enqueue mqe
  | draindown hrun => exact .draindown
  | timelimit hshut => exact .other _ ⟨rfl, rfl, rfl, rfl, rfl⟩
  | notifywait hrun =>
    unfold Threads.notifywait
    split
    · exact .other _ ⟨rfl, rfl, rfl, rfl, rfl⟩
    · exact .other _ hwork
  | wake timed signaled hb => exact .other _ hwork
  | leave hrun hl => exact .other _ ⟨rfl, rfl, rfl, rfl, rfl⟩

theorem Reachable.run (h : Reachable rank s) : Run rank s.sends := by
  induction h with
  | refl => exact .refl
  | tail _ hs ih => exact ih.tail (step_sends hs)

theorem left_of_notify {cond : Bool} (h : (s.notify cond).mgr = .left) : s.mgr = .left := by
  cases cond with
  | false => exact h
  | true =>
    change s.mgr.signal = _ at h
    cases hm : s.mgr <;> simp [hm, MgrPc.signal] at h ⊢

/-- The manager gets past its main loop only by leaving it. -/
theorem left_of_step (h : Step rank s s') (hl : s'.mgr = .left) :
    s.mgr = .left ∨ leavesLoop s.draining s.q = true ∧ s'.sends = s.sends := by
  cases h with
  | reqEnqueue req =>
    have hleft := left_of_notify hl
    exact Or.inl hleft
  | recvEnqueue mqe =>
    have hleft := left_of_notify hl
    exact Or.inl hleft
  | sendDequeue => exact Or.inl hl
  | sendRelease mqe hmem =>
    have hleft := left_of_notify hl
    exact Or.inl hleft
  | freeLists q hq => exact Or.inl hl
  | sendEnqueue mqe hrun =>
    have hleft := left_of_notify hl
    exact Or.inl hleft
  | draindown hrun => cases hl
  | timelimit hshut => cases hl
  | notifywait hrun =>
    unfold Threads.notifywait at hl
    split at hl <;> cases hl
  | wake timed signaled hb => cases hl
  | leave hrun hleave => exact Or.inr ⟨hleave, rfl⟩

theorem left_drained (h : Reachable rank s) (hl : s.mgr = .left) :
    s.q.mpisqDraindown = .drained := by
  induction h with
  | refl => cases hl
  | @tail s s' hr hs ih =>
    rcases left_of_step hs hl with hleft | ⟨hleave, hsame⟩
    · -- drained is the last state of the draindown
      have hmoves := (Reachable.run hr).counted.drainMoves (step_sends hs)
      have hdr : s.sends.q.mpisqDraindown = .drained := ih hleft
      rcases hmoves with hsame | ⟨hinit, -⟩ | ⟨hdraining, -⟩ | ⟨hinit, -⟩
      · exact hsame.trans hdr
      · rw [hdr] at hinit
        cases hinit
      · rw [hdr] at hdraining
        cases hdraining
      · rw [hdr] at hinit
        cases hinit
    · simp only [leavesLoop, Bool.and_eq_true, beq_iff_eq] at hleave
      change s'.sends.q.mpisqDraindown = _
      rw [hsame]
      exact hleave.2

/-- When the manager is past its main loop, MPI has completed every message
that it accepted for another rank. -/
theorem left_completed (h : Reachable rank s) (hl : s.mgr = .left) :
    (toOthers rank s.q : Multiset Mqe) = s.sends.released := by
  have hc := h.run.counted
  have hnone := (hc.drained_iff.mp (left_drained h hl)).2
  rw [hc.outstanding_eq] at hnone
  exact hc.accounted.trans (by rw [hnone, zero_add])

end Dthread.Wakeups
