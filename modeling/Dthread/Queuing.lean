import Dthread.ReqMsg

/-!
The queues between the threads of one rank (dt_queuing.c). Every operation is
one critical section of dtqlock. Buffers and internal requests are recycled
through free lists and allocated when these are empty; `mallocs` holds the
outcomes of the allocations to come, and an exhausted list means success.
`accepted` is a history variable: the sends that were taken, in order.
-/
namespace Dthread.Queuing

open ReqMsg

/-- DTQ_DD_* -/
inductive DrainState where
  | init | draining | drained
deriving DecidableEq, Repr

structure Dtq where
  mgrreqq : List Request
  reqfree : List ℕ
  nreq : ℕ
  mpisendq : List Mqe
  mpisqlen : ℤ
  mpindequeuedsends : ℤ
  mpisqDraindown : DrainState
  mpirecvq : List Mqe
  mqefree : List ℕ
  nmqe : ℕ
  notifytimelimit : ℕ
  mallocs : List Bool
  accepted : List Mqe

/-- dtq_init -/
def dtqInit : Dtq :=
  { mgrreqq := [], reqfree := [], nreq := 0, mpisendq := [], mpisqlen := 0,
    mpindequeuedsends := 0, mpisqDraindown := .init, mpirecvq := [], mqefree := [],
    nmqe := 0, notifytimelimit := 0, mallocs := [], accepted := [] }

def malloc (q : Dtq) : Bool × Dtq :=
  match q.mallocs with
  | [] => (true, q)
  | ok :: rest => (ok, { q with mallocs := rest })

def dtqNotifytimelimit (q : Dtq) (newval : ℕ) : Dtq := { q with notifytimelimit := newval }

/-- Take an internal request from the free list, or allocate one. -/
def dtqReqAlloc (q : Dtq) : Option ℕ × Dtq :=
  match q.reqfree with
  | n :: rest => (some n, { q with reqfree := rest })
  | [] =>
    match malloc q with
    | (true, q) => (some q.nreq, { q with nreq := q.nreq + 1 })
    | (false, q) => (none, q)

def dtqReqEnqueue (q : Dtq) (req : Request) : Dtq :=
  { q with mgrreqq := q.mgrreqq ++ [req] }

def dtqReqDequeue (q : Dtq) : Option Request × Dtq :=
  match q.mgrreqq with
  | req :: rest => (some req, { q with mgrreqq := rest })
  | [] => (none, q)

def dtqMqeAlloc (q : Dtq) : Option ℕ × Dtq :=
  match q.mqefree with
  | a :: rest => (some a, { q with mqefree := rest })
  | [] =>
    match malloc q with
    | (true, q) => (some q.nmqe, { q with nmqe := q.nmqe + 1 })
    | (false, q) => (none, q)

def dtqMqeUnalloc (q : Dtq) (addr : ℕ) : Dtq := { q with mqefree := addr :: q.mqefree }

def dtqRecvRelease (q : Dtq) (addr : ℕ) : Dtq := { q with mqefree := addr :: q.mqefree }

/-- Queue a message, directly on the receive queue when it is for this rank.
While draining it is handed back. -/
def dtqSendEnqueue (rank : ℕ) (q : Dtq) (mqe : Mqe) : Option Mqe × Dtq :=
  if q.mpisqDraindown ≠ .init then (some mqe, q)
  else if mqe.peer = rank then
    (none, { q with mpirecvq := q.mpirecvq ++ [mqe], accepted := q.accepted ++ [mqe] })
  else
    (none, { q with mpisendq := q.mpisendq ++ [mqe], mpisqlen := q.mpisqlen + 1,
                    accepted := q.accepted ++ [mqe] })

def dtqSendDraindown (q : Dtq) : Dtq :=
  { q with mpisqDraindown :=
      if q.mpisqlen + q.mpindequeuedsends ≠ 0 then .draining else .drained }

def dtqSendDrainstate (q : Dtq) : DrainState := q.mpisqDraindown

/-- Take the first message to send; it is outstanding until it is released. -/
def dtqSendDequeue (q : Dtq) : Option Mqe × Dtq :=
  match q.mpisendq with
  | mqe :: rest =>
    (some mqe, { q with mpisendq := rest, mpisqlen := q.mpisqlen - 1,
                        mpindequeuedsends := q.mpindequeuedsends + 1 })
  | [] => (none, q)

/-- Recycle a message that was sent, and whether that completed a draindown. -/
def dtqSendRelease (q : Dtq) (addr : ℕ) : Bool × Dtq :=
  let q := { q with mpindequeuedsends := q.mpindequeuedsends - 1, mqefree := addr :: q.mqefree }
  let justDrained := q.mpisqDraindown ≠ .init ∧ q.mpisqlen = 0 ∧ q.mpindequeuedsends = 0
  (justDrained, if justDrained then { q with mpisqDraindown := .drained } else q)

/-- Whether the manager has nothing to do (was_empty). -/
def wasEmpty (q : Dtq) : Bool := q.mpirecvq.isEmpty && q.mgrreqq.isEmpty

def dtqRecvEnqueue (q : Dtq) (mqe : Mqe) : Dtq := { q with mpirecvq := q.mpirecvq ++ [mqe] }

def dtqRecvDequeue (q : Dtq) : Option Mqe × Dtq :=
  match q.mpirecvq with
  | mqe :: rest => (some mqe, { q with mpirecvq := rest })
  | [] => (none, q)

theorem malloc_eq (q : Dtq) :
    malloc q = (q.mallocs.headD true, { q with mallocs := q.mallocs.tail }) := by
  obtain ⟨_, _, _, _, _, _, _, _, _, _, _, mallocs, _⟩ := q
  cases mallocs <;> rfl

theorem reqAlloc_some {q q' : Dtq} {n : ℕ} (h : dtqReqAlloc q = (some n, q')) :
    (∃ rest, q.reqfree = n :: rest ∧ q' = { q with reqfree := rest }) ∨
      n = q.nreq ∧ q' = { q with nreq := q.nreq + 1, mallocs := q.mallocs.tail } := by
  unfold dtqReqAlloc at h
  split at h
  · rename_i n' rest hfree
    obtain ⟨rfl, rfl⟩ : n' = n ∧ _ = q' := by simpa using h
    exact Or.inl ⟨rest, hfree, rfl⟩
  · rw [malloc_eq] at h
    cases hm : q.mallocs.headD true with
    | true =>
      simp only [hm, Prod.mk.injEq, Option.some.injEq] at h
      exact Or.inr ⟨h.1.symm, h.2.symm⟩
    | false =>
      simp only [hm, Prod.mk.injEq, reduceCtorEq, false_and] at h

theorem reqAlloc_none {q q' : Dtq} (h : dtqReqAlloc q = (none, q')) :
    q' = { q with mallocs := q.mallocs.tail } := by
  unfold dtqReqAlloc at h
  split at h
  · simp at h
  · rw [malloc_eq] at h
    cases hm : q.mallocs.headD true with
    | true => simp only [hm, Prod.mk.injEq, reduceCtorEq, false_and] at h
    | false =>
      simp only [hm, Prod.mk.injEq, true_and] at h
      exact h.symm

theorem mqeAlloc_some {q q' : Dtq} {addr : ℕ} (h : dtqMqeAlloc q = (some addr, q')) :
    (∃ rest, q.mqefree = addr :: rest ∧ q' = { q with mqefree := rest }) ∨
      addr = q.nmqe ∧ q' = { q with nmqe := q.nmqe + 1, mallocs := q.mallocs.tail } := by
  unfold dtqMqeAlloc at h
  split at h
  · rename_i addr' rest hfree
    obtain ⟨rfl, rfl⟩ : addr' = addr ∧ _ = q' := by simpa using h
    exact Or.inl ⟨rest, hfree, rfl⟩
  · rw [malloc_eq] at h
    cases hm : q.mallocs.headD true with
    | true =>
      simp only [hm, Prod.mk.injEq, Option.some.injEq] at h
      exact Or.inr ⟨h.1.symm, h.2.symm⟩
    | false =>
      simp only [hm, Prod.mk.injEq, reduceCtorEq, false_and] at h

theorem mqeAlloc_none {q q' : Dtq} (h : dtqMqeAlloc q = (none, q')) :
    q' = { q with mallocs := q.mallocs.tail } := by
  unfold dtqMqeAlloc at h
  split at h
  · simp at h
  · rw [malloc_eq] at h
    cases hm : q.mallocs.headD true with
    | true => simp only [hm, Prod.mk.injEq, reduceCtorEq, false_and] at h
    | false =>
      simp only [hm, Prod.mk.injEq, true_and] at h
      exact h.symm

theorem reqAlloc_queues (q : Dtq) : ∃ free n ms,
    (dtqReqAlloc q).2 = { q with reqfree := free, nreq := n, mallocs := ms } := by
  rcases h : dtqReqAlloc q with ⟨_ | n, q'⟩
  · exact ⟨_, _, _, reqAlloc_none h⟩
  · rcases reqAlloc_some h with ⟨rest, -, hq⟩ | ⟨-, hq⟩
    · exact ⟨_, _, _, hq⟩
    · exact ⟨_, _, _, hq⟩

theorem mqeAlloc_queues (q : Dtq) : ∃ free n ms,
    (dtqMqeAlloc q).2 = { q with mqefree := free, nmqe := n, mallocs := ms } := by
  rcases h : dtqMqeAlloc q with ⟨_ | addr, q'⟩
  · exact ⟨_, _, _, mqeAlloc_none h⟩
  · rcases mqeAlloc_some h with ⟨rest, -, hq⟩ | ⟨-, hq⟩
    · exact ⟨_, _, _, hq⟩
    · exact ⟨_, _, _, hq⟩

theorem reqDequeue_some {q q' : Dtq} {req : Request} (h : dtqReqDequeue q = (some req, q')) :
    ∃ rest, q.mgrreqq = req :: rest ∧ q' = { q with mgrreqq := rest } := by
  unfold dtqReqDequeue at h
  split at h
  · rename_i req' rest hcons
    simp only [Prod.mk.injEq, Option.some.injEq] at h
    obtain ⟨rfl, rfl⟩ := h
    exact ⟨rest, hcons, rfl⟩
  · simp at h

/-- What the managers can tell apart in the queues. Free lists and allocation
counts are not part of it. -/
structure SameTraffic (q q' : Dtq) : Prop where
  mgrreqq : q'.mgrreqq = q.mgrreqq
  draindown : q'.mpisqDraindown = q.mpisqDraindown
  accepted : q'.accepted = q.accepted
  mallocs : q.mallocs = [] → q'.mallocs = []

namespace SameTraffic

theorem refl (q : Dtq) : SameTraffic q q := ⟨rfl, rfl, rfl, id⟩

theorem trans {q q' q'' : Dtq} (h : SameTraffic q q') (h' : SameTraffic q' q'') :
    SameTraffic q q'' :=
  ⟨h'.mgrreqq.trans h.mgrreqq, h'.draindown.trans h.draindown,
    h'.accepted.trans h.accepted, fun hm => h'.mallocs (h.mallocs hm)⟩

end SameTraffic

theorem sameTraffic_reqAlloc (q : Dtq) : SameTraffic q (dtqReqAlloc q).2 := by
  rcases h : dtqReqAlloc q with ⟨_ | n, q'⟩
  · rw [reqAlloc_none h]
    exact ⟨rfl, rfl, rfl, fun hm => by simp [hm]⟩
  · rcases reqAlloc_some h with ⟨rest, -, rfl⟩ | ⟨-, rfl⟩
    · exact ⟨rfl, rfl, rfl, id⟩
    · exact ⟨rfl, rfl, rfl, fun hm => by simp [hm]⟩

theorem sameTraffic_mqeAlloc (q : Dtq) : SameTraffic q (dtqMqeAlloc q).2 := by
  rcases h : dtqMqeAlloc q with ⟨_ | addr, q'⟩
  · rw [mqeAlloc_none h]
    exact ⟨rfl, rfl, rfl, fun hm => by simp [hm]⟩
  · rcases mqeAlloc_some h with ⟨rest, -, rfl⟩ | ⟨-, rfl⟩
    · exact ⟨rfl, rfl, rfl, id⟩
    · exact ⟨rfl, rfl, rfl, fun hm => by simp [hm]⟩

theorem sameTraffic_mqeUnalloc (q : Dtq) (addr : ℕ) : SameTraffic q (dtqMqeUnalloc q addr) :=
  ⟨rfl, rfl, rfl, id⟩

theorem sameTraffic_recvRelease (q : Dtq) (addr : ℕ) : SameTraffic q (dtqRecvRelease q addr) :=
  ⟨rfl, rfl, rfl, id⟩

/-- With no failing allocation ahead, a request is always obtained. -/
theorem reqAlloc_eq_some (q : Dtq) (h : q.mallocs = []) :
    ∃ n q', dtqReqAlloc q = (some n, q') ∧ SameTraffic q q' := by
  have hs := sameTraffic_reqAlloc q
  unfold dtqReqAlloc malloc at hs ⊢
  split at hs
  · exact ⟨_, _, rfl, hs⟩
  · simp only [h] at hs ⊢
    exact ⟨_, _, rfl, hs⟩

theorem mqeAlloc_eq_some (q : Dtq) (h : q.mallocs = []) :
    ∃ a q', dtqMqeAlloc q = (some a, q') ∧ SameTraffic q q' := by
  have hs := sameTraffic_mqeAlloc q
  unfold dtqMqeAlloc malloc at hs ⊢
  split at hs
  · exact ⟨_, _, rfl, hs⟩
  · simp only [h] at hs ⊢
    exact ⟨_, _, rfl, hs⟩

/-- A send that was taken: the message is the last accepted one. -/
structure Sent (q q' : Dtq) (mqe : Mqe) : Prop where
  mgrreqq : q'.mgrreqq = q.mgrreqq
  draindown : q'.mpisqDraindown = q.mpisqDraindown
  accepted : q'.accepted = q.accepted ++ [mqe]
  mallocs : q'.mallocs = q.mallocs

/-- Only the queue of the destination grows. -/
theorem sendEnqueue_taken (rank : ℕ) (q : Dtq) (mqe : Mqe) (h : q.mpisqDraindown = .init) :
    ∃ sendq recvq len, dtqSendEnqueue rank q mqe = (none, { q with
      mpisendq := sendq, mpirecvq := recvq, mpisqlen := len
      accepted := q.accepted ++ [mqe] }) := by
  unfold dtqSendEnqueue
  rw [if_neg (not_not.mpr h)]
  split
  · exact ⟨_, _, _, rfl⟩
  · exact ⟨_, _, _, rfl⟩

theorem sendEnqueue_init (rank : ℕ) (q : Dtq) (mqe : Mqe) (h : q.mpisqDraindown = .init) :
    ∃ q', dtqSendEnqueue rank q mqe = (none, q') ∧ Sent q q' mqe := by
  obtain ⟨sendq, recvq, len, hq⟩ := sendEnqueue_taken rank q mqe h
  exact ⟨_, hq, rfl, rfl, rfl, rfl⟩

theorem sendEnqueue_draining (rank : ℕ) (q : Dtq) (mqe : Mqe) (h : q.mpisqDraindown ≠ .init) :
    dtqSendEnqueue rank q mqe = (some mqe, q) := by
  unfold dtqSendEnqueue
  rw [if_pos h]

end Dthread.Queuing
