import Mathlib.Data.Multiset.Basic
import Mathlib.Logic.Relation
import Dthread.Queuing

/-!
The send side of the queues under any interleaving of its operations, and the
draindown at the end of a job. The messages that the MPI thread has dequeued
and not yet released are kept beside the queues, and those it has released as
a history.
-/
namespace Dthread.SendDrain

open ReqMsg Queuing

structure Sends where
  q : Dtq
  sending : List Mqe
  released : List Mqe
  requested : Bool

namespace Sends

def init : Sends := ⟨dtqInit, [], [], false⟩

def enqueue (rank : ℕ) (s : Sends) (mqe : Mqe) : Sends :=
  { s with q := (dtqSendEnqueue rank s.q mqe).2 }

def dequeue (s : Sends) : Sends :=
  match dtqSendDequeue s.q with
  | (some mqe, q) => { s with q := q, sending := s.sending ++ [mqe] }
  | (none, q) => { s with q := q }

def release (s : Sends) (mqe : Mqe) : Sends :=
  { s with
    q := (dtqSendRelease s.q mqe.addr).2
    sending := s.sending.erase mqe
    released := s.released ++ [mqe] }

def draindown (s : Sends) : Sends :=
  { s with q := dtqSendDraindown s.q, requested := true }

end Sends

/-- The operations of dt_queuing.c that are not about sends leave this alone. -/
structure SameSends (q q' : Dtq) : Prop where
  mpisendq : q'.mpisendq = q.mpisendq
  mpisqlen : q'.mpisqlen = q.mpisqlen
  mpindequeuedsends : q'.mpindequeuedsends = q.mpindequeuedsends
  draindown : q'.mpisqDraindown = q.mpisqDraindown
  accepted : q'.accepted = q.accepted

theorem SameSends.trans {q q' q'' : Dtq} (h : SameSends q q') (h' : SameSends q' q'') :
    SameSends q q'' :=
  ⟨h'.mpisendq.trans h.mpisendq, h'.mpisqlen.trans h.mpisqlen,
    h'.mpindequeuedsends.trans h.mpindequeuedsends, h'.draindown.trans h.draindown,
    h'.accepted.trans h.accepted⟩

theorem sameSends_reqAlloc (q : Dtq) : SameSends q (dtqReqAlloc q).2 := by
  obtain ⟨free, n, ms, hq⟩ := reqAlloc_queues q
  rw [hq]
  exact ⟨rfl, rfl, rfl, rfl, rfl⟩

theorem sameSends_mqeAlloc (q : Dtq) : SameSends q (dtqMqeAlloc q).2 := by
  obtain ⟨free, n, ms, hq⟩ := mqeAlloc_queues q
  rw [hq]
  exact ⟨rfl, rfl, rfl, rfl, rfl⟩

theorem sameSends_reqDequeue (q : Dtq) : SameSends q (dtqReqDequeue q).2 := by
  unfold dtqReqDequeue
  split <;> exact ⟨rfl, rfl, rfl, rfl, rfl⟩

theorem sameSends_recvDequeue (q : Dtq) : SameSends q (dtqRecvDequeue q).2 := by
  unfold dtqRecvDequeue
  split <;> exact ⟨rfl, rfl, rfl, rfl, rfl⟩

/-- One operation on the queues. A message is released only after it was
dequeued, and once. -/
inductive Step (rank : ℕ) (s : Sends) : Sends → Prop
  | enqueue (mqe : Mqe) : Step rank s (s.enqueue rank mqe)
  | dequeue : Step rank s s.dequeue
  | release (mqe : Mqe) (h : mqe ∈ s.sending) : Step rank s (s.release mqe)
  | draindown : Step rank s s.draindown
  | other (q : Dtq) (h : SameSends s.q q) : Step rank s { s with q := q }

def Run (rank : ℕ) (s : Sends) : Prop := Relation.ReflTransGen (Step rank) Sends.init s

/-- The accepted messages that go to other ranks. -/
def toOthers (rank : ℕ) (q : Dtq) : List Mqe := q.accepted.filter fun mqe => mqe.peer ≠ rank

/-- The accepted messages to other ranks that MPI has not completed. -/
def outstanding (rank : ℕ) (s : Sends) : Multiset Mqe :=
  (toOthers rank s.q : Multiset Mqe) - (s.released : Multiset Mqe)

/-- The condition on which mgr_main leaves its loop. -/
def leavesLoop (draining : Bool) (q : Dtq) : Bool :=
  draining && dtqSendDrainstate q == .drained

/-- The draindown state that the requests so far and the outstanding messages
call for. -/
def drainOf (s : Sends) : DrainState :=
  if s.requested then
    if s.q.mpisendq = [] ∧ s.sending = [] then .drained else .draining
  else .init

structure Counted (rank : ℕ) (s : Sends) : Prop where
  mpisqlen : s.q.mpisqlen = s.q.mpisendq.length
  dequeued : s.q.mpindequeuedsends = s.sending.length
  drain : s.q.mpisqDraindown = drainOf s
  accounted : (toOthers rank s.q : Multiset Mqe) = s.q.mpisendq + s.sending + s.released

variable {rank : ℕ} {s s' : Sends}

theorem counted_init (rank : ℕ) : Counted rank Sends.init :=
  ⟨rfl, rfl, rfl, rfl⟩

section Release

variable (s) (mqe : Mqe)

theorem release_mpisendq : (s.release mqe).q.mpisendq = s.q.mpisendq := by
  simp only [Sends.release, dtqSendRelease]
  split <;> rfl

theorem release_mpisqlen : (s.release mqe).q.mpisqlen = s.q.mpisqlen := by
  simp only [Sends.release, dtqSendRelease]
  split <;> rfl

theorem release_mpindequeuedsends :
    (s.release mqe).q.mpindequeuedsends = s.q.mpindequeuedsends - 1 := by
  simp only [Sends.release, dtqSendRelease]
  split <;> rfl

theorem release_accepted : (s.release mqe).q.accepted = s.q.accepted := by
  simp only [Sends.release, dtqSendRelease]
  split <;> rfl

theorem release_draindown : (s.release mqe).q.mpisqDraindown =
    if s.q.mpisqDraindown ≠ .init ∧ s.q.mpisqlen = 0 ∧ s.q.mpindequeuedsends - 1 = 0 then
      .drained
    else s.q.mpisqDraindown := by
  simp only [Sends.release, dtqSendRelease]
  split <;> rfl

end Release

namespace Counted

theorem draindown_init_iff (h : Counted rank s) :
    s.q.mpisqDraindown = .init ↔ s.requested = false := by
  rw [h.drain, drainOf]
  cases s.requested with
  | false => simp
  | true => simp; split <;> simp

theorem enqueue (h : Counted rank s) (mqe : Mqe) : Counted rank (s.enqueue rank mqe) := by
  by_cases hdd : s.q.mpisqDraindown = .init
  · by_cases hpeer : mqe.peer = rank
    · -- a message to the own rank does not touch the send queue
      have he : s.enqueue rank mqe = { s with q := { s.q with
          mpirecvq := s.q.mpirecvq ++ [mqe], accepted := s.q.accepted ++ [mqe] } } := by
        simp [Sends.enqueue, dtqSendEnqueue, hdd, hpeer]
      rw [he]
      refine ⟨h.mpisqlen, h.dequeued, h.drain, ?_⟩
      rw [← h.accounted]
      simp [toOthers, hpeer]
    · have he : s.enqueue rank mqe = { s with q := { s.q with
          mpisendq := s.q.mpisendq ++ [mqe], mpisqlen := s.q.mpisqlen + 1,
          accepted := s.q.accepted ++ [mqe] } } := by
        simp [Sends.enqueue, dtqSendEnqueue, hdd, hpeer]
      have hreq := h.draindown_init_iff.mp hdd
      rw [he]
      refine ⟨by simp [h.mpisqlen], h.dequeued, by simp [hdd, drainOf, hreq], ?_⟩
      have hacc := h.accounted
      have ht : toOthers rank { s.q with
          mpisendq := s.q.mpisendq ++ [mqe], mpisqlen := s.q.mpisqlen + 1,
          accepted := s.q.accepted ++ [mqe] } = toOthers rank s.q ++ [mqe] := by
        simp [toOthers, hpeer]
      rw [ht, ← Multiset.coe_add, ← Multiset.coe_add, hacc]
      abel
  · have he : s.enqueue rank mqe = s := by
      rw [Sends.enqueue, sendEnqueue_draining rank s.q mqe hdd]
    rwa [he]

theorem dequeue (h : Counted rank s) : Counted rank s.dequeue := by
  rcases hq : s.q.mpisendq with _ | ⟨mqe, rest⟩
  · have he : s.dequeue = s := by simp [Sends.dequeue, dtqSendDequeue, hq]
    rwa [he]
  · have he : s.dequeue = { s with
        q := { s.q with mpisendq := rest, mpisqlen := s.q.mpisqlen - 1,
                        mpindequeuedsends := s.q.mpindequeuedsends + 1 },
        sending := s.sending ++ [mqe] } := by
      simp [Sends.dequeue, dtqSendDequeue, hq]
    have hlen := h.mpisqlen
    have hacc := h.accounted
    rw [hq] at hlen hacc
    rw [he]
    refine ⟨by simp [hlen], by simp [h.dequeued], ?_, ?_⟩
    · rw [h.drain]
      simp [drainOf, hq]
    · change (toOthers rank s.q : Multiset Mqe) = _
      rw [hacc, ← Multiset.coe_add, ← Multiset.cons_coe, ← Multiset.singleton_add]
      change _ = (rest : Multiset Mqe) + (s.sending + ([mqe] : List Mqe)) + s.released
      rw [Multiset.coe_singleton]
      abel

theorem release (h : Counted rank s) {mqe : Mqe} (hmem : mqe ∈ s.sending) :
    Counted rank (s.release mqe) := by
  have hlen : (s.sending.erase mqe).length = s.sending.length - 1 :=
    List.length_erase_of_mem hmem
  have hpos : 0 < s.sending.length := List.length_pos_of_mem hmem
  refine ⟨?_, ?_, ?_, ?_⟩
  · rw [release_mpisqlen, release_mpisendq]
    exact h.mpisqlen
  · rw [release_mpindequeuedsends, h.dequeued]
    change (s.sending.length : ℤ) - 1 = ((s.sending.erase mqe).length : ℕ)
    omega
  · have hnil : s.sending.erase mqe = [] ↔ s.q.mpindequeuedsends - 1 = 0 := by
      rw [← List.length_eq_zero_iff, hlen, h.dequeued]
      omega
    have hsq : s.q.mpisendq = [] ↔ s.q.mpisqlen = 0 := by
      rw [h.mpisqlen, ← List.length_eq_zero_iff]
      omega
    simp only [release_draindown, ← hnil, ← hsq, drainOf, release_mpisendq]
    change _ = if s.requested = true then
      if s.q.mpisendq = [] ∧ s.sending.erase mqe = [] then DrainState.drained else .draining
      else .init
    cases hreq : s.requested with
    | false => simp [h.draindown_init_iff.mpr hreq]
    | true =>
      -- before the release the message itself was outstanding
      have hdd : s.q.mpisqDraindown = .draining := by
        rw [h.drain, drainOf]
        simp [hreq, List.ne_nil_of_mem hmem]
      simp [hdd]
  · have hmulti : (s.sending : Multiset Mqe) = {mqe} + (s.sending.erase mqe : Multiset Mqe) := by
      rw [Multiset.singleton_add, ← Multiset.coe_erase, Multiset.cons_erase hmem]
    rw [toOthers, release_accepted, release_mpisendq, ← toOthers, h.accounted, hmulti]
    change _ = (s.q.mpisendq : Multiset Mqe) + (s.sending.erase mqe) +
      (s.released ++ [mqe] : List Mqe)
    rw [← Multiset.coe_add, Multiset.coe_singleton]
    abel

theorem draindown_eq (h : Counted rank s) : s.draindown.q.mpisqDraindown =
    if s.q.mpisendq = [] ∧ s.sending = [] then .drained else .draining := by
  have hsum : s.q.mpisqlen + s.q.mpindequeuedsends = 0 ↔
      s.q.mpisendq = [] ∧ s.sending = [] := by
    rw [h.mpisqlen, h.dequeued, ← List.length_eq_zero_iff, ← List.length_eq_zero_iff]
    omega
  by_cases hempty : s.q.mpisendq = [] ∧ s.sending = []
  · rw [if_pos hempty]
    simp [Sends.draindown, dtqSendDraindown, hsum.mpr hempty]
  · rw [if_neg hempty]
    exact if_pos (fun hzero => hempty (hsum.mp hzero))

theorem draindown (h : Counted rank s) : Counted rank s.draindown := by
  refine ⟨h.mpisqlen, h.dequeued, ?_, h.accounted⟩
  change s.draindown.q.mpisqDraindown =
    if s.q.mpisendq = [] ∧ s.sending = [] then .drained else .draining
  exact h.draindown_eq

theorem other (h : Counted rank s) {q : Dtq} (hq : SameSends s.q q) :
    Counted rank { s with q := q } := by
  refine ⟨?_, ?_, ?_, ?_⟩
  · rw [hq.mpisqlen, hq.mpisendq, h.mpisqlen]
  · rw [hq.mpindequeuedsends, h.dequeued]
  · rw [hq.draindown, h.drain, drainOf, drainOf, hq.mpisendq]
  · rw [toOthers, hq.accepted, hq.mpisendq, ← toOthers, h.accounted]

theorem step (h : Counted rank s) (hs : Step rank s s') : Counted rank s' := by
  cases hs with
  | enqueue mqe => exact h.enqueue mqe
  | dequeue => exact h.dequeue
  | release mqe hmem => exact h.release hmem
  | draindown => exact h.draindown
  | other q hq => exact h.other hq

theorem outstanding_eq (h : Counted rank s) :
    outstanding rank s = s.q.mpisendq + s.sending := by
  rw [outstanding, h.accounted, add_tsub_cancel_right]

/-- Drained means that a draindown was requested and nothing is left to send. -/
theorem drained_iff (h : Counted rank s) :
    dtqSendDrainstate s.q = .drained ↔ s.requested = true ∧ outstanding rank s = 0 := by
  rw [h.outstanding_eq, dtqSendDrainstate, h.drain, drainOf, add_eq_zero,
    Multiset.coe_eq_zero, Multiset.coe_eq_zero]
  cases s.requested with
  | false => simp
  | true =>
    simp only [if_true, true_and]
    split <;> simp_all

end Counted

theorem Run.counted (h : Run rank s) : Counted rank s := by
  induction h with
  | refl => exact counted_init rank
  | tail _ hs ih => exact ih.step hs

/-- The moves of the draindown state. -/
def DrainMoves (d d' : DrainState) : Prop :=
  d' = d ∨ d = .init ∧ d' = .draining ∨ d = .draining ∧ d' = .drained ∨
    d = .init ∧ d' = .drained

theorem enqueue_draindown (rank : ℕ) (s : Sends) (mqe : Mqe) :
    (s.enqueue rank mqe).q.mpisqDraindown = s.q.mpisqDraindown := by
  simp only [Sends.enqueue, dtqSendEnqueue]
  split
  · rfl
  · split <;> rfl

theorem dequeue_draindown (s : Sends) : s.dequeue.q.mpisqDraindown = s.q.mpisqDraindown := by
  simp only [Sends.dequeue, dtqSendDequeue]
  cases s.q.mpisendq <;> rfl

theorem Counted.drainMoves (h : Counted rank s) (hs : Step rank s s') :
    DrainMoves s.q.mpisqDraindown s'.q.mpisqDraindown := by
  cases hs with
  | enqueue mqe => exact Or.inl (enqueue_draindown rank s mqe)
  | dequeue => exact Or.inl (dequeue_draindown s)
  | release mqe hmem =>
    rw [release_draindown]
    split
    next hdrained =>
      have hdd : s.q.mpisqDraindown = .draining := by
        have hreq : s.requested ≠ false := fun hf => hdrained.1 (h.draindown_init_iff.mpr hf)
        rw [h.drain, drainOf]
        simp [Bool.eq_true_of_not_eq_false hreq, List.ne_nil_of_mem hmem]
      exact Or.inr (Or.inr (Or.inl ⟨hdd, rfl⟩))
    next => exact Or.inl rfl
  | draindown =>
    rw [h.draindown_eq, h.drain, drainOf]
    unfold DrainMoves
    cases s.requested with
    | false => split <;> simp
    | true => simp
  | other q hq => exact Or.inl hq.draindown

/-- The send side of the queues after any interleaving of its operations. The
last part is about the manager: when it leaves its main loop, MPI has completed
every message that was accepted for another rank. -/
theorem draindown_sound (h : Run rank s) :
    s.q.mpisqlen = s.q.mpisendq.length ∧ s.q.mpindequeuedsends = s.sending.length ∧
      (∀ s', Step rank s s' → DrainMoves s.q.mpisqDraindown s'.q.mpisqDraindown) ∧
      (dtqSendDrainstate s.q ≠ .init →
        ∀ mqe, dtqSendEnqueue rank s.q mqe = (some mqe, s.q)) ∧
      (dtqSendDrainstate s.q = .drained ↔ s.requested = true ∧ outstanding rank s = 0) ∧
      ∀ draining, leavesLoop draining s.q = true →
        (toOthers rank s.q : Multiset Mqe) = s.released := by
  have hc := h.counted
  refine ⟨hc.mpisqlen, hc.dequeued, fun s' hs => hc.drainMoves hs, ?_, hc.drained_iff, ?_⟩
  · intro hdd mqe
    exact sendEnqueue_draining rank s.q mqe hdd
  · intro draining hleave
    have hdrained : dtqSendDrainstate s.q = .drained := by
      simp only [leavesLoop, Bool.and_eq_true, beq_iff_eq] at hleave
      exact hleave.2
    have hnone := (hc.drained_iff.mp hdrained).2
    rw [hc.outstanding_eq] at hnone
    rw [hc.accounted, hnone, zero_add]

/-- A message for rank 1, to rank 0's queues. -/
def toRankOne : Mqe := ⟨0, 1, .of 0 .bcastshutdown⟩

/-- Its way through the queues with a draindown in between. -/
theorem draindown_sound_drained :
    Run 0 (((Sends.init.enqueue 0 toRankOne).draindown.dequeue).release toRankOne) ∧
      leavesLoop true
        (((Sends.init.enqueue 0 toRankOne).draindown.dequeue).release toRankOne).q = true ∧
      (toOthers 0 (((Sends.init.enqueue 0 toRankOne).draindown.dequeue).release toRankOne).q :
        Multiset Mqe) = ([toRankOne] : List Mqe) := by
  have hrun : Run 0 (((Sends.init.enqueue 0 toRankOne).draindown.dequeue).release toRankOne) :=
    (((Relation.ReflTransGen.single (.enqueue toRankOne)).tail .draindown).tail .dequeue).tail
      (.release toRankOne (by decide))
  obtain ⟨-, -, -, -, -, hdone⟩ := draindown_sound hrun
  exact ⟨hrun, by decide, hdone true (by decide)⟩

end Dthread.SendDrain
