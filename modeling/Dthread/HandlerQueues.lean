import Dthread.ManagerOutcomes
import Dthread.AppThreads

/-!
What a handler makes of the queues. Two ranks with the same tables and pending
requests, of which one has messages in its queues and other buffers on its free
list, behave alike: the handlers return in the same cases, change the tables in
the same way and send the same messages, and a message that is sent goes to the
end of the send queue or, if it is for the rank itself, of the receive queue.
-/
namespace Dthread.HandlerQueues

open ReqMsg Queuing ManagerTables ManagerHandlers ManagerEffects ManagerOutcomes AppThreads

/-- A request up to the address of the buffer it carries. -/
def plain (rqe : Request) : Request :=
  { rqe with mqe := rqe.mqe.map fun mqe => { mqe with addr := 0 } }

/-- What a rank had in its queues, and the requests it has taken out of them
and not handled yet. -/
structure Before where
  rank : ℕ
  sendq : List Post
  recvq : List Post
  held : List Request

/-- The counters of a send queue, and what the draindown says of them. -/
structure Counts (mpisendq : List Mqe) (mpisqlen mpindequeuedsends : ℤ) (dd : DrainState) :
    Prop where
  len : mpisqlen = mpisendq.length
  out : 0 ≤ mpindequeuedsends
  drained : dd = .drained → mpisendq = [] ∧ mpindequeuedsends = 0
  draining : dd = .draining → ¬ (mpisendq = [] ∧ mpindequeuedsends = 0)

/-- Queues `q` next to ones from which no request was taken and that hold no
messages but the ones sent since `start`. -/
structure Alike (start : Before) (q q' : Dtq) : Prop where
  mgrreqq : q'.mgrreqq.map plain = start.held.map plain ++ q.mgrreqq.map plain
  reqfree : q'.reqfree = q.reqfree
  nreq : q'.nreq = q.nreq
  drain : q'.mpisqDraindown = .init ↔ q.mpisqDraindown = .init
  mallocs : q.mallocs = []
  mallocs' : q'.mallocs = []
  sends : q.mpisendq.map toPost = start.sendq ++ (q'.accepted.map toPost).filter (·.1 ≠ start.rank)
  recvs : q.mpirecvq.map toPost = start.recvq ++ (q'.accepted.map toPost).filter (·.1 = start.rank)
  counts : Counts q.mpisendq q.mpisqlen q.mpindequeuedsends q.mpisqDraindown

/-- The same tables, and queues that are alike. -/
def Like (start : Before) (v w : View) : Prop :=
  ∃ q, w = v.setDtq q ∧ Alike start v.dtq q ∧ v.mgr.mpiRank = start.rank

/-- Two calls that return in the same cases, with results that are alike. -/
inductive LikeOpt (start : Before) : Option View → Option View → Prop
  | none : LikeOpt start none none
  | some {v w : View} (h : Like start v w) :
      LikeOpt start (some v) (some w)

variable {start : Before} {job : Job} {v w : View} {q q' : Dtq}

namespace Alike

theorem mqeUnalloc (h : Alike start q q') (a a' : ℕ) :
    Alike start (dtqMqeUnalloc q a) (dtqMqeUnalloc q' a') := by
  obtain ⟨hreqs, hfree, hn, hdrain, hm, hm', hsends, hrecvs, hcounts⟩ := h
  exact ⟨hreqs, hfree, hn, hdrain, hm, hm', hsends, hrecvs, hcounts⟩

theorem recvRelease (h : Alike start q q') (a a' : ℕ) :
    Alike start (dtqRecvRelease q a) (dtqRecvRelease q' a') :=
  h.mqeUnalloc a a'

theorem mqeAlloc (h : Alike start q q') :
    ∃ a a' q₁ q₁', dtqMqeAlloc q = (some a, q₁) ∧ dtqMqeAlloc q' = (some a', q₁') ∧
      Alike start q₁ q₁' := by
  obtain ⟨a, q₁, ha, hs⟩ := mqeAlloc_eq_some q h.mallocs
  obtain ⟨a', q₁', ha', hs'⟩ := mqeAlloc_eq_some q' h.mallocs'
  obtain ⟨free, n, ms, hq⟩ := mqeAlloc_queues q
  obtain ⟨free', n', ms', hq'⟩ := mqeAlloc_queues q'
  rw [ha] at hq
  rw [ha'] at hq'
  simp only at hq hq'
  refine ⟨a, a', q₁, q₁', ha, ha', ?_⟩
  have hms := hs.mallocs h.mallocs
  have hms' := hs'.mallocs h.mallocs'
  subst hq hq'
  exact ⟨h.mgrreqq, h.reqfree, h.nreq, h.drain, hms, hms', h.sends, h.recvs, h.counts⟩

theorem reqAlloc (h : Alike start q q') :
    ∃ n q₁ q₁', dtqReqAlloc q = (some n, q₁) ∧ dtqReqAlloc q' = (some n, q₁') ∧
      Alike start q₁ q₁' := by
  cases hfree : q.reqfree with
  | nil =>
    have hfree' := h.reqfree.trans hfree
    refine ⟨q.nreq, { q with nreq := q.nreq + 1 }, { q' with nreq := q'.nreq + 1 }, ?_, ?_, ?_⟩
    · simp [dtqReqAlloc, malloc, hfree, h.mallocs]
    · simp [dtqReqAlloc, malloc, hfree', h.mallocs', h.nreq]
    · exact ⟨h.mgrreqq, h.reqfree, congrArg (· + 1) h.nreq, h.drain, h.mallocs, h.mallocs',
        h.sends, h.recvs, h.counts⟩
  | cons n rest =>
    have hfree' := h.reqfree.trans hfree
    refine ⟨n, { q with reqfree := rest }, { q' with reqfree := rest }, ?_, ?_, ?_⟩
    · simp [dtqReqAlloc, hfree]
    · simp [dtqReqAlloc, hfree']
    · exact ⟨h.mgrreqq, rfl, h.nreq, h.drain, h.mallocs, h.mallocs', h.sends, h.recvs,
        h.counts⟩

/-- Both ranks take the message, or both hand it back. -/
theorem sendEnqueue (h : Alike start q q') {mqe mqe' : Mqe}
    (hpost : toPost mqe' = toPost mqe) :
    (∃ q₁ q₁', dtqSendEnqueue start.rank q mqe = (none, q₁) ∧
      dtqSendEnqueue start.rank q' mqe' = (none, q₁') ∧ Alike start q₁ q₁') ∨
    dtqSendEnqueue start.rank q mqe = (some mqe, q) ∧
      dtqSendEnqueue start.rank q' mqe' = (some mqe', q') := by
  have hpeer : mqe'.peer = mqe.peer := congrArg Prod.fst hpost
  have hframe : mqe'.frame = mqe.frame := congrArg Prod.snd hpost
  unfold dtqSendEnqueue
  by_cases hinit : q.mpisqDraindown = .init
  · have hinit' := h.drain.mpr hinit
    left
    simp only [hinit, hinit', ne_eq, not_true, if_false, hpeer]
    by_cases hself : mqe.peer = start.rank
    · simp only [hself, if_true]
      refine ⟨_, _, rfl, rfl, ?_⟩
      refine ⟨h.mgrreqq, h.reqfree, h.nreq, Iff.rfl, h.mallocs, h.mallocs', ?_, ?_,
        ⟨h.counts.len, h.counts.out, by simp, by simp⟩⟩
      · simp [h.sends, toPost, hpeer, hself]
      · simp [h.recvs, toPost, hpeer, hframe, hself]
    · simp only [hself, if_false]
      refine ⟨_, _, rfl, rfl, ?_⟩
      refine ⟨h.mgrreqq, h.reqfree, h.nreq, Iff.rfl, h.mallocs, h.mallocs', ?_, ?_,
        ⟨?_, h.counts.out, by simp, by simp⟩⟩
      · simp [h.sends, toPost, hpeer, hframe, hself]
      · simp [h.recvs, toPost, hpeer, hself]
      · simp [h.counts.len]
  · have hinit' : q'.mpisqDraindown ≠ .init := fun hc => hinit (h.drain.mp hc)
    right
    simp [hinit, hinit']

theorem reqEnqueue (h : Alike start q q') {rqe rqe' : Request}
    (hplain : plain rqe' = plain rqe) :
    Alike start (dtqReqEnqueue q rqe) (dtqReqEnqueue q' rqe') := by
  refine ⟨?_, h.reqfree, h.nreq, h.drain, h.mallocs, h.mallocs', h.sends, h.recvs, h.counts⟩
  simp [dtqReqEnqueue, h.mgrreqq, hplain]

theorem reqRelease (h : Alike start q q') (n : ℕ) :
    Alike start { q with reqfree := n :: q.reqfree }
      { q' with reqfree := n :: q'.reqfree } :=
  ⟨h.mgrreqq, congrArg (n :: ·) h.reqfree, h.nreq, h.drain, h.mallocs, h.mallocs', h.sends,
    h.recvs, h.counts⟩

theorem sendDraindown (h : Alike start q q') (limit : ℕ) :
    Alike start (dtqNotifytimelimit (dtqSendDraindown q) limit)
      (dtqNotifytimelimit (dtqSendDraindown q') limit) := by
  have hdrains (q : Dtq) : (dtqSendDraindown q).mpisqDraindown ≠ .init := by
    unfold dtqSendDraindown
    simp only
    split <;> simp
  refine ⟨h.mgrreqq, h.reqfree, h.nreq, ?_, h.mallocs, h.mallocs', h.sends, h.recvs,
    ⟨h.counts.len, h.counts.out, ?_, ?_⟩⟩
  · exact iff_of_false (hdrains q') (hdrains q)
  · intro hdrained
    have hzero : q.mpisqlen + q.mpindequeuedsends = 0 := by
      by_contra hne
      simp [dtqNotifytimelimit, dtqSendDraindown, hne] at hdrained
    have hlen := h.counts.len
    have hout := h.counts.out
    have hnil : q.mpisendq.length = 0 := by omega
    have hnone : q.mpindequeuedsends = 0 := by omega
    exact ⟨List.eq_nil_of_length_eq_zero hnil, hnone⟩
  · rintro hdraining ⟨hnil, hnone⟩
    have hlen : q.mpisqlen = 0 := by
      rw [h.counts.len]
      exact congrArg (fun l : List Mqe => (l.length : ℤ)) hnil
    have hsum : q.mpisqlen + q.mpindequeuedsends = 0 := by
      rw [hlen, zero_add]
      exact hnone
    simp [dtqNotifytimelimit, dtqSendDraindown, hsum] at hdraining

end Alike

namespace Like

theorem of_alike (h : Alike start v.dtq q) (hrank : v.mgr.mpiRank = start.rank) :
    Like start v (v.setDtq q) :=
  ⟨q, rfl, h, hrank⟩

theorem setMgr (h : Like start v w) (m : Mgr) (hm : m.mpiRank = start.rank) :
    Like start (v.setMgr m) (w.setMgr m) := by
  obtain ⟨q, rfl, hq, -⟩ := h
  exact ⟨q, rfl, hq, hm⟩

theorem setGtab (h : Like start v w) (i : ℕ) (gt : Gtab) :
    Like start (v.setGtab i gt) (w.setGtab i gt) := by
  obtain ⟨q, rfl, hq, hrank⟩ := h
  exact ⟨q, rfl, hq, hrank⟩

/-- The tables change and the queues stay. -/
theorem tables (h : Like start v w) (m : Mgr) (gt : ℕ → Gtab) (hm : m.mpiRank = start.rank) :
    Like start ⟨m, gt, v.dtq⟩ ⟨m, gt, w.dtq⟩ := by
  obtain ⟨q, rfl, hq, -⟩ := h
  exact ⟨q, rfl, hq, hm⟩

theorem queues (h : Like start v w) (hq : Alike start q q') :
    Like start (v.setDtq q) (w.setDtq q') := by
  obtain ⟨q₁, rfl, -, hrank⟩ := h
  exact ⟨q', rfl, hq, hrank⟩

theorem mgr (h : Like start v w) : w.mgr = v.mgr := by
  obtain ⟨q, rfl, -⟩ := h
  rfl

theorem gtab (h : Like start v w) : w.gtab = v.gtab := by
  obtain ⟨q, rfl, -⟩ := h
  rfl

theorem alike (h : Like start v w) : Alike start v.dtq w.dtq := by
  obtain ⟨q, rfl, hq, -⟩ := h
  exact hq

theorem rank_eq (h : Like start v w) : v.mgr.mpiRank = start.rank := by
  obtain ⟨q, -, -, hrank⟩ := h
  exact hrank

/-- The end of most handlers. -/
theorem send (h : Like start v w) {mqe mqe' : Mqe} (hpost : toPost mqe' = toPost mqe) :
    Like start (sendOrUnalloc v mqe) (sendOrUnalloc w mqe') := by
  unfold sendOrUnalloc
  rw [h.mgr, h.rank_eq]
  rcases h.alike.sendEnqueue hpost with ⟨q₁, q₁', he, he', hq⟩ | ⟨he, he'⟩
  · rw [he, he']
    exact h.queues hq
  · rw [he, he']
    exact h.queues (h.alike.mqeUnalloc _ _)

theorem recvRelease (h : Like start v w) (a a' : ℕ) :
    Like start (v.setDtq (dtqRecvRelease v.dtq a))
      (w.setDtq (dtqRecvRelease w.dtq a')) :=
  h.queues (h.alike.recvRelease a a')

/-- A request is released with its results. -/
theorem reqRelease (h : Like start v w) (rqe : Request) (notify : Bool) :
    Like start (dtqReqRelease v rqe notify) (dtqReqRelease w rqe notify) := by
  unfold dtqReqRelease
  rw [h.mgr]
  cases rqe.addr with
  | internal n => exact h.queues (h.alike.reqRelease n)
  | ltab l => exact h.setMgr _ h.rank_eq

theorem gtabFree (h : Like start v w) (i : ℕ) :
    Like start (gtabFree v i) (gtabFree w i) := by
  rw [gtabFree_eq, gtabFree_eq, h.mgr, h.gtab]
  exact h.tables _ _ h.rank_eq

theorem ltabFree (h : Like start v w) (l : ℕ) :
    Like start (ltabFree v l) (ltabFree w l) := by
  rw [ltabFree_eq, ltabFree_eq, h.mgr]
  exact h.setMgr _ h.rank_eq

theorem retCleanup (h : Like start v w) (i : ℕ) :
    Like start (detachedRetCleanup job v i) (detachedRetCleanup job w i) := by
  unfold detachedRetCleanup
  rw [h.mgr, h.gtab]
  simp only
  split
  · exact h
  · split
    · exact h
    · apply setGtab
      apply h.setMgr
      exact h.rank_eq

theorem joinwaitEnd (h : Like start v w) (rqe : Request) :
    Like start (joinwaitEndRelease v rqe) (joinwaitEndRelease w rqe) := by
  unfold joinwaitEndRelease
  obtain ⟨a, a', q₁, q₁', he, he', hq⟩ := h.alike.mqeAlloc
  rw [he, he', h.gtab]
  split
  · exact h.reqRelease rqe true
  · apply reqRelease
    apply (h.queues hq).send
    rfl

theorem joinwaitRemove (h : Like start v w) (thread : DThread) :
    Like start (joinwaitRemove v thread) (joinwaitRemove w thread) := by
  unfold ManagerTables.joinwaitRemove
  rw [h.mgr]
  exact h.setMgr _ h.rank_eq

theorem joinwaitSearch (h : Like start v w) (thread : DThread) :
    joinwaitSearch w thread = joinwaitSearch v thread := by
  unfold ManagerTables.joinwaitSearch
  rw [h.mgr]

theorem createdError (h : Like start v w) (mqe : Mqe) (a' errstatus : ℕ) :
    Like start (sendCreatedError job v mqe errstatus)
      (sendCreatedError job w { mqe with addr := a' } errstatus) := by
  unfold sendCreatedError
  obtain ⟨b, b', q₁, q₁', he, he', hq⟩ := h.alike.mqeAlloc
  rw [he, he']
  apply (h.queues hq).send
  rfl

theorem getFreeSeq (job : Job) (h : Like start v w) (op : Op) :
    getFreeSeq job v op = none ∧ getFreeSeq job w op = none ∨
    ∃ x v₁ w₁, getFreeSeq job v op = some (x, v₁) ∧ getFreeSeq job w op = some (x, w₁) ∧
      Like start v₁ w₁ := by
  unfold ManagerTables.getFreeSeq
  rw [h.mgr]
  cases getFreeSeqLoop job v.mgr.mpiRank v.mgr.rpending op (2 ^ 32) v.mgr.seqsrc with
  | none => exact .inl ⟨rfl, rfl⟩
  | some found =>
    refine .inr ⟨found.1, _, _, rfl, rfl, ?_⟩
    apply h.setMgr
    exact h.rank_eq

theorem gtabAlloc (job : Job) (h : Like start v w) (r dispIdx : ℕ) (arg : Argret) :
    gtabAlloc job v r dispIdx arg = none ∧ gtabAlloc job w r dispIdx arg = none ∨
    ∃ o v₁ w₁, gtabAlloc job v r dispIdx arg = some (o, v₁) ∧
      gtabAlloc job w r dispIdx arg = some (o, w₁) ∧ Like start v₁ w₁ := by
  unfold ManagerTables.gtabAlloc
  rw [h.mgr, h.gtab]
  split
  · exact .inr ⟨_, _, _, rfl, rfl, h⟩
  · cases slotScan (fun p => (v.gtab p).allocated) job.nmaxthread v.mgr.lastSlot job.nmaxthread
      v.mgr.lastSlot with
    | none => exact .inl ⟨rfl, rfl⟩
    | some o =>
      cases o with
      | none => exact .inr ⟨_, _, _, rfl, rfl, h⟩
      | some p =>
        simp only
        rcases h.getFreeSeq job .none with ⟨he, he'⟩ | ⟨x, v₁, w₁, he, he', h₁⟩
        · rw [he, he']
          exact .inl ⟨rfl, rfl⟩
        · rw [he, he']
          simp only [Option.map_some]
          refine .inr ⟨_, _, _, rfl, rfl, ?_⟩
          rw [h₁.mgr, h₁.gtab]
          apply (h₁.setGtab _ _).setMgr
          exact h₁.rank_eq

theorem ltabAlloc (job : Job) (h : Like start v w) (thread : DThread) :
    ltabAlloc job v thread = none ∧ ltabAlloc job w thread = none ∨
    ∃ o v₁ w₁, ltabAlloc job v thread = some (o, v₁) ∧ ltabAlloc job w thread = some (o, w₁) ∧
      Like start v₁ w₁ := by
  have hinstall (p : ℕ) : Like start (ltabInstall v thread p) (ltabInstall w thread p) := by
    unfold ltabInstall
    rw [h.mgr]
    apply h.setMgr
    exact h.rank_eq
  unfold ManagerTables.ltabAlloc
  rw [h.mgr]
  split
  · exact .inr ⟨_, _, _, rfl, rfl, h⟩
  · split
    · exact .inr ⟨_, _, _, rfl, rfl, hinstall 0⟩
    · cases slotScan (fun p => (v.mgr.ltab p).pthState != .none) job.nmaxthread
        v.mgr.ltabLastslot job.nmaxthread v.mgr.ltabLastslot with
      | none => exact .inl ⟨rfl, rfl⟩
      | some o =>
        cases o with
        | none => exact .inr ⟨_, _, _, rfl, rfl, h⟩
        | some p => exact .inr ⟨_, _, _, rfl, rfl, hinstall p⟩

theorem createStart (h : Like start v w) (mqe : Mqe) (attrs : Attr)
    (a' target n addr addr' gidx : ℕ) :
    LikeOpt start (createStart job v mqe attrs target n addr gidx)
      (createStart job w { mqe with addr := a' } attrs target n addr' gidx) := by
  unfold ManagerHandlers.createStart
  rcases h.getFreeSeq job .start with ⟨he, he'⟩ | ⟨x, v₁, w₁, he, he', h₁⟩
  · rw [he, he']
    exact .none
  · rw [he, he']
    simp only [Option.map_some]
    refine .some ?_
    rw [h₁.mgr, h₁.gtab, h₁.rank_eq]
    have hpost : toPost ⟨addr', target, .of x (.start ⟨gidx, (v₁.gtab gidx).seq⟩
        (startAttrs attrs))⟩ = toPost ⟨addr, target, .of x (.start ⟨gidx, (v₁.gtab gidx).seq⟩
        (startAttrs attrs))⟩ := rfl
    rcases h₁.alike.sendEnqueue hpost with ⟨q₁, q₁', hs, hs', hq⟩ | ⟨hs, hs'⟩
    · rw [hs, hs']
      apply (h₁.queues hq).setMgr
      rfl
    · rw [hs, hs']
      simp only
      apply createdError
      apply gtabFree
      apply queues
      · apply reqRelease
        exact h₁.queues h₁.alike
      · apply Alike.mqeUnalloc
        exact ((h₁.queues h₁.alike).reqRelease _ false).alike

theorem createThread (h : Like start v w) (mqe : Mqe) (attrs : Attr) (a' dispIdx : ℕ)
    (arg : Argret) :
    LikeOpt start (createThread job v mqe attrs dispIdx arg)
      (createThread job w { mqe with addr := a' } attrs dispIdx arg) := by
  unfold ManagerHandlers.createThread
  rw [h.mgr]
  split
  · exact .some (h.createdError mqe a' EINVAL)
  · split
    · exact .some (h.createdError mqe a' EAGAIN)
    · simp only
      have hnext : Like start
          (v.setMgr { v.mgr with nextRank := (v.mgr.nextRank + 1) % job.wsize })
          (w.setMgr { v.mgr with nextRank := (v.mgr.nextRank + 1) % job.wsize }) := by
        apply h.setMgr
        exact h.rank_eq
      obtain ⟨n, q₁, q₁', hr, hr', hq₁⟩ := hnext.alike.reqAlloc
      rw [hr, hr']
      obtain ⟨b, b', q₂, q₂', hb, hb', hq₂⟩ := hq₁.mqeAlloc
      simp only [hb, hb']
      rcases (hnext.queues hq₂).gtabAlloc job v.mgr.nextRank dispIdx arg with
        ⟨he, he'⟩ | ⟨o, v₁, w₁, he, he', h₁⟩
      · rw [he, he']
        exact .none
      · rw [he, he']
        cases o with
        | none =>
          refine .some ?_
          apply createdError
          apply queues
          · exact h₁.reqRelease _ false
          · apply Alike.mqeUnalloc
            exact (h₁.reqRelease _ false).alike
        | some gidx => exact h₁.createStart mqe attrs a' v.mgr.nextRank n b b' gidx

theorem startThread (h : Like start v w) (mqe : Mqe) (thread : DThread)
    (a' pthreadErr : ℕ) :
    LikeOpt start (startThread job v mqe thread pthreadErr)
      (startThread job w { mqe with addr := a' } thread pthreadErr) := by
  unfold ManagerHandlers.startThread
  obtain ⟨b, b', q₁, q₁', he, he', hq⟩ := h.alike.mqeAlloc
  rw [he, he']
  simp only
  have h₁ := h.queues hq
  have hgtab : (w.setDtq q₁').gtab = (v.setDtq q₁).gtab := h₁.gtab
  rw [hgtab]
  split
  · refine .some ?_
    apply h₁.send
    rfl
  · rcases h₁.ltabAlloc job thread with ⟨ha, ha'⟩ | ⟨o, v₂, w₂, ha, ha', h₂⟩
    · rw [ha, ha']
      exact .none
    · rw [ha, ha']
      cases o with
      | none => exact .none
      | some lidx =>
        simp only
        split
        · refine .some ?_
          rw [h₂.mgr]
          apply send
          · apply h₂.setMgr
            exact h₂.rank_eq
          · rfl
        · refine .some ?_
          apply (h₂.ltabFree lidx).send
          rfl

theorem detachThread (h : Like start v w) (mqe : Mqe) (thread : DThread) (a' : ℕ) :
    Like start (detachThread job v mqe thread)
      (detachThread job w { mqe with addr := a' } thread) := by
  unfold ManagerHandlers.detachThread
  rw [h.gtab]
  cases dt2gtab job v.gtab thread with
  | none =>
    apply h.send
    rfl
  | some i =>
    simp only
    have h₁ := h.setGtab i { v.gtab i with detached := true }
    rw [h₁.joinwaitSearch thread]
    have h₂ : Like start _ _ := (h₁.joinwaitRemove thread).send
      (show toPost (({ mqe with addr := a' } : Mqe).recycle mqe.frame.xidseq (.detached 0)) =
        toPost (mqe.recycle mqe.frame.xidseq (.detached 0)) from rfl)
    cases ManagerTables.joinwaitSearch (v.setGtab i { v.gtab i with detached := true }) thread with
    | none => exact h₂
    | some rqe => exact h₂.joinwaitEnd _

theorem cancelThread (h : Like start v w) (mqe : Mqe) (thread : DThread) (a' : ℕ) :
    Like start (cancelThread job v mqe thread)
      (cancelThread job w { mqe with addr := a' } thread) := by
  unfold ManagerHandlers.cancelThread
  rw [h.gtab, h.mgr]
  cases dt2gtab job v.gtab thread with
  | none =>
    apply h.send
    rfl
  | some i =>
    simp only
    split
    · apply h.send
      rfl
    · split
      · apply send
        · apply h.setMgr
          exact h.rank_eq
        · rfl
      · apply h.send
        rfl

theorem joinThread (h : Like start v w) (mqe : Mqe) (thread : DThread) (a' : ℕ) :
    Like start (joinThread job v mqe thread)
      (joinThread job w { mqe with addr := a' } thread) := by
  unfold ManagerHandlers.joinThread
  rw [h.gtab, h.joinwaitSearch, h.mgr]
  cases dt2gtab job v.gtab thread with
  | none =>
    apply h.send
    rfl
  | some i =>
    simp only
    split
    · apply h.send
      rfl
    · split
      · apply gtabFree
        apply h.send
        rfl
      · cases ManagerTables.joinwaitSearch v thread with
        | some rqe =>
          apply h.send
          rfl
        | none =>
          obtain ⟨n, q₁, q₁', he, he', hq⟩ := h.alike.reqAlloc
          simp only [he, he']
          apply (h.queues (hq.recvRelease _ _)).setMgr
          exact h.rank_eq

theorem terminatedThread (h : Like start v w) (thread : DThread) (fin : LtState) :
    Like start (terminatedThread job v thread fin)
      (terminatedThread job w thread fin) := by
  unfold ManagerHandlers.terminatedThread
  simp only
  rw [h.gtab, h.mgr]
  have h₁ := (h.setGtab thread.dtIndex { v.gtab thread.dtIndex with
    terminated := fin, hasLtab := false }).setMgr
    { v.mgr with threadsRunning := v.mgr.threadsRunning - 1 } h.rank_eq
  have h₂ := h₁.joinwaitRemove thread
  rw [h₁.joinwaitSearch thread, h₂.gtab]
  cases ManagerTables.joinwaitSearch ((v.setGtab thread.dtIndex { v.gtab thread.dtIndex with
      terminated := fin, hasLtab := false }).setMgr
      { v.mgr with threadsRunning := v.mgr.threadsRunning - 1 }) thread with
  | none =>
    simp only [Option.isSome_none, Bool.false_eq_true, or_false]
    split
    · exact (h₂.retCleanup _).gtabFree _
    · exact h₂
  | some rqe =>
    simp only [Option.isSome_some, or_true, if_true]
    split
    · exact ((h₂.joinwaitEnd _).retCleanup _).gtabFree _
    · exact (h₂.joinwaitEnd _).gtabFree _

/-- Both ranks find the request of a reply, or neither does. -/
theorem pendingMsgreq (h : Like start v w) (mqe : Mqe) (a' : ℕ) (op : Op) :
    findPendingMsgreq v mqe op = none ∧ findPendingMsgreq w { mqe with addr := a' } op = none ∨
    ∃ rqe v₁ w₁, findPendingMsgreq v mqe op = some (rqe, v₁) ∧
      findPendingMsgreq w { mqe with addr := a' } op = some (rqe, w₁) ∧
      Like start v₁ w₁ := by
  unfold findPendingMsgreq
  rw [h.mgr]
  simp only
  split
  · exact .inl ⟨rfl, rfl⟩
  · cases findPendingReq v.mgr.rpending op mqe.frame.xidseq with
    | none => exact .inl ⟨rfl, rfl⟩
    | some rqe =>
      refine .inr ⟨rqe, _, _, rfl, rfl, ?_⟩
      apply h.setMgr
      exact h.rank_eq

theorem replyRequest (h : Like start v w) (mqe : Mqe) (a' : ℕ) (op : Op)
    (store : Request → Request) :
    Like start (replyRequest v mqe op store)
      (replyRequest w { mqe with addr := a' } op store) := by
  unfold ManagerHandlers.replyRequest
  rcases h.pendingMsgreq mqe a' op with ⟨he, he'⟩ | ⟨rqe, v₁, w₁, he, he', h₁⟩
  · rw [he, he']
    exact h.recvRelease _ _
  · rw [he, he']
    exact (h₁.reqRelease _ true).recvRelease _ _

theorem startedReply (h : Like start v w) (mqe : Mqe) (a' errstatus : ℕ) :
    Like start (startedReply v mqe errstatus)
      (startedReply w { mqe with addr := a' } errstatus) := by
  unfold ManagerHandlers.startedReply
  rcases h.pendingMsgreq mqe a' .start with ⟨he, he'⟩ | ⟨rqe, v₁, w₁, he, he', h₁⟩
  · rw [he, he']
    exact h.recvRelease _ _
  · rw [he, he']
    simp only
    rw [h₁.mgr]
    have h₂ := h₁.setMgr { v₁.mgr with threadsStarting := v₁.mgr.threadsStarting - 1 } h₁.rank_eq
    apply reqRelease
    apply send
    · split
      · rw [h₂.mgr]
        apply h₂.setMgr
        exact h₁.rank_eq
      · exact h₂.gtabFree _
    · rfl

theorem terminatedMsg (h : Like start v w) (mqe : Mqe) (thread : DThread)
    (fin : LtState) (a' : ℕ) :
    Like start (terminatedMsg job v mqe thread fin)
      (terminatedMsg job w { mqe with addr := a' } thread fin) := by
  unfold ManagerHandlers.terminatedMsg
  rw [h.gtab]
  apply recvRelease
  simp only
  split
  · exact h
  · split
    · exact h
    · split
      · exact h
      · exact h.terminatedThread thread fin

theorem broadcastTo (h : Like start v w) (child : ℕ) :
    Like start (broadcastTo v child) (broadcastTo w child) := by
  unfold ManagerHandlers.broadcastTo
  obtain ⟨b, b', q₁, q₁', he, he', hq⟩ := h.alike.mqeAlloc
  rw [he, he']
  apply (h.queues hq).send
  rfl

theorem broadcastShutdown (h : Like start v w) :
    Like start (broadcastShutdown job v) (broadcastShutdown job w) := by
  have hfold (l : List ℕ) : ∀ {v w : View}, Like start v w →
      Like start (l.foldl ManagerHandlers.broadcastTo v)
        (l.foldl ManagerHandlers.broadcastTo w) := by
    induction l with
    | nil => exact fun h => h
    | cons child l ih => exact fun h => ih (h.broadcastTo child)
  unfold ManagerHandlers.broadcastShutdown
  rw [h.mgr]
  have h₁ := hfold (binaryRouter 0 job.wsize v.mgr.mpiRank) h
  simp only
  rw [h₁.mgr]
  apply (h₁.queues (h₁.alike.sendDraindown 10)).setMgr
  exact h₁.rank_eq

end Like

theorem LikeOpt.exists_some {o : Option View} (h : LikeOpt start (Option.some v) o) :
    ∃ w, o = Option.some w ∧ Like start v w := by
  cases h with
  | some h => exact ⟨_, rfl, h⟩

theorem LikeOpt.isSome_eq {o o' : Option View} (h : LikeOpt start o o') :
    o.isSome = o'.isSome := by
  cases h <;> rfl

theorem LikeOpt.map {o o' : Option View} {f g : View → View} (h : LikeOpt start o o')
    (hf : ∀ v w, Like start v w → Like start (f v) (g w)) :
    LikeOpt start (o.map f) (o'.map g) := by
  cases h with
  | none => exact .none
  | some h => exact .some (hf _ _ h)

/-- A message is handled alike, wherever its buffer lies. -/
theorem processMqe_like (h : Like start v w) (mqe : Mqe) (a' pthreadErr : ℕ) :
    LikeOpt start (processMqe job v mqe pthreadErr)
      (processMqe job w { mqe with addr := a' } pthreadErr) := by
  have hrelease (v w : View) (h : Like start v w) :
      Like start (v.setDtq (dtqRecvRelease v.dtq mqe.addr))
        (w.setDtq (dtqRecvRelease w.dtq a')) := h.recvRelease _ _
  unfold processMqe
  rw [h.mgr]
  simp only
  split
  · exact .some (hrelease v w h)
  · split
    · exact .some (hrelease v w h)
    · cases mqe.frame.body with
      | create attrs dispIdx arg =>
        simp only
        split
        · exact (h.createThread mqe attrs a' dispIdx arg).map hrelease
        · exact .some (hrelease v w h)
      | created errstatus newthread => exact .some (h.replyRequest mqe a' .create _)
      | start thread attrs =>
        simp only
        split
        · exact (h.startThread mqe thread a' pthreadErr).map hrelease
        · exact .some (hrelease v w h)
      | started errstatus => exact .some (h.startedReply mqe a' errstatus)
      | detach thread =>
        simp only
        split
        · exact .some (h.detachThread mqe thread a')
        · exact .some h
      | detached errstatus => exact .some (h.replyRequest mqe a' .detach _)
      | cancel thread =>
        simp only
        split
        · exact .some (h.cancelThread mqe thread a')
        · exact .some h
      | canceled errstatus => exact .some (h.replyRequest mqe a' .cancel _)
      | join thread =>
        simp only
        split
        · exact .some (h.joinThread mqe thread a')
        · exact .some (hrelease v w h)
      | joined errstatus ret => exact .some (h.replyRequest mqe a' .join _)
      | terminated thread fin => exact .some (h.terminatedMsg mqe thread fin a')
      | bcastshutdown => exact .some (hrelease _ _ h.broadcastShutdown)
      | other code => exact .some (hrelease v w h)

theorem eq_of_plain {rqe rqe' : Request} (h : plain rqe' = plain rqe) :
    rqe' = { rqe with mqe := rqe'.mqe } ∧
      rqe'.mqe.map (fun mqe => { mqe with addr := 0 }) =
        rqe.mqe.map (fun mqe => { mqe with addr := 0 }) := by
  obtain ⟨addr, peer, op, mqe, xid, err, new, ret, cre, wait⟩ := rqe
  obtain ⟨addr', peer', op', mqe', xid', err', new', ret', cre', wait'⟩ := rqe'
  simp only [plain, Request.mk.injEq] at h ⊢
  tauto

theorem forwardReq_like (h : Like start v w) {rqe rqe' : Request}
    (hplain : plain rqe' = plain rqe) :
    LikeOpt start (forwardReq job v rqe) (forwardReq job w rqe') := by
  obtain ⟨heq, hmqe⟩ := eq_of_plain hplain
  rw [heq]
  unfold forwardReq
  rcases h.getFreeSeq job rqe.reqop with ⟨he, he'⟩ | ⟨x, v₁, w₁, he, he', h₁⟩
  · rw [he, he']
    exact .none
  · rw [he, he']
    cases hm : rqe.mqe with
    | none =>
      have hm' : rqe'.mqe = none := by simpa [hm] using hmqe
      rw [hm']
      exact .none
    | some mqe =>
      obtain ⟨mqe', hm', haddr⟩ : ∃ mqe', rqe'.mqe = some mqe' ∧
          ({ mqe' with addr := 0 } : Mqe) = { mqe with addr := 0 } := by
        simpa [hm] using hmqe
      obtain ⟨a, peer, frame⟩ := mqe
      obtain ⟨a', peer', frame'⟩ := mqe'
      obtain ⟨rfl, rfl⟩ : peer' = peer ∧ frame' = frame := by simpa using haddr
      rw [hm']
      simp only
      have hpost : toPost ⟨a', peer', { frame' with xidseq := x }⟩ =
          toPost ⟨a, peer', { frame' with xidseq := x }⟩ := rfl
      rw [h₁.mgr, h₁.rank_eq]
      rcases h₁.alike.sendEnqueue hpost with ⟨q₁, q₁', hq, hq', hqs⟩ | ⟨hq, hq'⟩
      · rw [hq, hq']
        apply LikeOpt.some
        apply (h₁.queues hqs).setMgr
        rfl
      · rw [hq, hq']
        exact .some ((h₁.queues (h₁.alike.mqeUnalloc _ _)).reqRelease
          { rqe with mqe := none, xidseq := x, reqerror := EIO } true)

theorem retcleanReq_like (h : Like start v w) (rqe : Request) (l : ℕ) :
    Like start (retcleanReq v rqe l) (retcleanReq w rqe l) := by
  unfold retcleanReq
  obtain ⟨a, a', q₁, q₁', he, he', hq⟩ := h.alike.mqeAlloc
  rw [he, he']
  simp only
  have h₁ := h.queues hq
  rw [h₁.mgr, h₁.gtab]
  apply Like.reqRelease
  apply Like.ltabFree
  apply Like.send
  · split
    · exact h₁.setGtab _ _
    · exact h₁
  · rfl

/-- A request is handled alike, wherever the buffer of its message lies. -/
theorem processReq_like (h : Like start v w) {rqe rqe' : Request}
    (hplain : plain rqe' = plain rqe) :
    LikeOpt start (processReq job v rqe) (processReq job w rqe') := by
  obtain ⟨heq, -⟩ := eq_of_plain hplain
  have hrelease (v w : View) (h : Like start v w) (notify : Bool) :
      Like start (dtqReqRelease v rqe notify) (dtqReqRelease w rqe' notify) := by
    rw [heq]
    exact h.reqRelease rqe notify
  have haddr : rqe'.addr = rqe.addr := by rw [heq]
  have hop : rqe'.reqop = rqe.reqop := by rw [heq]
  have hret (l : ℕ) : retcleanReq w rqe' l = retcleanReq w rqe l := by rw [heq]; rfl
  unfold processReq
  rw [haddr, hop, h.mgr]
  cases rqe.addr with
  | internal n => exact .some (hrelease v w h true)
  | ltab l =>
    simp only
    split
    · exact .some (hrelease v w h true)
    · cases rqe.reqop with
      | create | detach | cancel | join => exact forwardReq_like h hplain
      | retclean =>
        rw [hret]
        exact .some (retcleanReq_like h rqe l)
      | app0Ret =>
        refine .some (hrelease _ _ ?_ false)
        split
        · exact h
        · exact h.broadcastShutdown
      | _ => exact .some (hrelease v w h true)

theorem Like.setLtab (h : Like start v w) (l : ℕ) (lt : Ltab) :
    Like start (v.setMgr (v.mgr.setLtab l lt)) (w.setMgr (w.mgr.setLtab l lt)) := by
  rw [h.mgr]
  apply h.setMgr
  exact h.rank_eq

/-- A thread that may have to write its table entry. -/
theorem Like.setGtab_if (h : Like start v w) (c : Prop) [Decidable c] (i : ℕ)
    (gt : Gtab) :
    Like start (if c then v.setGtab i gt else v) (if c then w.setGtab i gt else w) := by
  split
  · exact h.setGtab i gt
  · exact h

/-- A thread changes its local entry and queues a request. -/
theorem Like.enqueue (h : Like start v w) (hq : Alike start q q') (l : ℕ)
    (lt : Ltab) {rqe rqe' : Request} (hplain : plain rqe' = plain rqe) :
    Like start ((v.setMgr (v.mgr.setLtab l lt)).setDtq (dtqReqEnqueue q rqe))
      ((w.setMgr (w.mgr.setLtab l lt)).setDtq (dtqReqEnqueue q' rqe')) :=
  (h.setLtab l lt).queues (hq.reqEnqueue hplain)

theorem retcleanRequest_like (h : Like start v w) (l : ℕ) (fin : LtState) :
    Like start (retcleanRequest v l fin) (retcleanRequest w l fin) := by
  unfold retcleanRequest retcleanMark
  rw [h.mgr, h.gtab]
  exact (h.setGtab_if _ _ _).enqueue (h.setGtab_if _ _ _).alike _ _ rfl

theorem appReturn_like (h : Like start v w) (l : ℕ) (ret : Argret) :
    Like start (appReturn job v l ret) (appReturn job w l ret) := by
  unfold appReturn
  rw [h.mgr, h.gtab]
  exact (h.setGtab_if _ _ _).setLtab l _

theorem dthreadcleanup_like (h : Like start v w) (l : ℕ) (returned : Bool)
    (encoded : Option Argret) : Like start (dthreadcleanup job v l returned encoded)
      (dthreadcleanup job w l returned encoded) := by
  unfold dthreadcleanup
  rw [h.mgr, h.gtab]
  simp only
  split
  · cases encoded with
    | some ret => exact retcleanRequest_like (h.setGtab _ _) l .returned
    | none => exact retcleanRequest_like (h.setGtab _ _) l .canceled
  · exact retcleanRequest_like h l _

theorem postRequest_like (h : Like start v w) (l peer : ℕ) (body : Body) :
    Like start (postRequest v l peer body) (postRequest w l peer body) := by
  unfold postRequest
  obtain ⟨a, a', q₁, q₁', he, he', hq⟩ := h.alike.mqeAlloc
  rw [he, he', h.mgr]
  have h₁ := h.enqueue hq l { v.mgr.ltab l with reqstate := .busy, reqerror := 0 }
    (show plain (threadRequest l peer body.op (some ⟨a', peer, .of 0 body⟩)) =
      plain (threadRequest l peer body.op (some ⟨a, peer, .of 0 body⟩)) from rfl)
  rwa [h.mgr] at h₁

/-- A thread takes the same step next to either queue. -/
theorem appStep_like {l : ℕ} {v' : View} (h : Like start v w)
    (hs : AppStep job l v v') : ∃ w', AppStep job l w w' ∧ Like start v' w' := by
  have hrank := h.rank_eq
  obtain ⟨q, rfl, hq, -⟩ := h
  have h : Like start v (v.setDtq q) := .of_alike hq hrank
  cases hs with
  | wrapBad hpc hbad => exact ⟨_, .wrapBad hpc hbad, h.setMgr _ hrank⟩
  | wrapFail hpc hlt hseq => exact ⟨_, .wrapFail hpc hlt hseq, retcleanRequest_like h l _⟩
  | publish hpc hlt hseq hdisp =>
    exact ⟨_, .publish hpc hlt hseq hdisp, (h.setGtab _ _).setMgr _ hrank⟩
  | post body peer hpc hidle hpeer =>
    exact ⟨_, .post body peer hpc hidle hpeer, postRequest_like h l peer body⟩
  | collect hpc hdone => exact ⟨_, .collect hpc hdone, h.setMgr _ hrank⟩
  | exit nativeExit encoded hpc hidle hseq =>
    exact ⟨_, .exit nativeExit encoded hpc hidle hseq, (h.setGtab _ _).setMgr _ hrank⟩
  | exited hpc => exact ⟨_, .exited hpc, h.setMgr _ hrank⟩
  | appReturn ret hpc hidle hdisp =>
    exact ⟨_, .appReturn ret hpc hidle hdisp, appReturn_like h l ret⟩
  | tearDown hpc hidle => exact ⟨_, .tearDown hpc hidle, h.setMgr _ hrank⟩
  | cleanup returned encoded hpc =>
    exact ⟨_, .cleanup returned encoded hpc, dthreadcleanup_like h l returned encoded⟩
  | app0Return hpc hidle hdisp =>
    exact ⟨_, .app0Return hpc hidle hdisp, h.enqueue h.alike l _ rfl⟩

end Dthread.HandlerQueues
