import Dthread.ManagerEffects

/-!
Inversion of process_mqe and process_req: every way through a handler, with
the guards that select it and the state it leaves. Allocations succeed here;
a rank that is draining is covered, since an effect drops its messages then.
-/
namespace Dthread.ManagerOutcomes

open ReqMsg Queuing ManagerTables ManagerHandlers ManagerEffects

/-- The operation whose pending request a reply answers. -/
def replyTo : Body → Option Op
  | .created .. => some .create
  | .detached .. => some .detach
  | .canceled .. => some .cancel
  | .joined .. => some .join
  | _ => none

/-- Why process_mqe discards a frame. -/
inductive Dropped (job : Job) (v : View) (mqe : Mqe) : Prop
  | runt (h : mqe.frame.flen < mqe.frame.body.size)
  | wrongRank (h : v.mgr.mpiRank ≠ 0) (h0 : rank0Only mqe.frame.body.op = true)
  | unmatchedReply (op : Op) (hop : replyTo mqe.frame.body = some op)
      (h : findPendingReq v.mgr.rpending op mqe.frame.xidseq = none)
  | unmatchedStarted (e : ℕ) (hb : mqe.frame.body = .started e)
      (h : findPendingReq v.mgr.rpending .start mqe.frame.xidseq = none)
  | badTerminated (thread : DThread) (fin : LtState)
      (hb : mqe.frame.body = .terminated thread fin)
      (h : mqe.frame.flen ≠ mqe.frame.body.size ∨ job.nmaxthread ≤ thread.dtIndex ∨
        (v.gtab thread.dtIndex).seq ≠ thread.dtSeq ∨ fin = .running)
  | unknown (code : ℕ) (hb : mqe.frame.body = .other code)

/-- The entry of a thread whose end was reported. -/
def zombieGtab (gt : ℕ → Gtab) (thread : DThread) (fin : LtState) : ℕ → Gtab :=
  Function.update gt thread.dtIndex
    { gt thread.dtIndex with terminated := fin, hasLtab := false }

def cleanupMgr (job : Job) (m : Mgr) (gt : Gtab) : Mgr :=
  { m with procFree :=
      if gt.dispIdx < 1 ∨ job.ndsps ≤ gt.dispIdx ∨ (job.dsps gt.dispIdx).dtRetproc = false then
        m.procFree
      else m.procFree ++ [gt.ret] }

def cleanupGtab (job : Job) (gt : ℕ → Gtab) (i : ℕ) : ℕ → Gtab :=
  if (gt i).dispIdx < 1 ∨ job.ndsps ≤ (gt i).dispIdx ∨
      (job.dsps (gt i).dispIdx).dtRetproc = false then gt
  else Function.update gt i
    { gt i with ret := { (gt i).ret with dtArgretType := DTHREAD_NODATA } }

def dropWaiter (m : Mgr) (thread : DThread) : Mgr :=
  { m with rpending := m.rpending.eraseP (joinwaitMatch thread) }

def dropPending (m : Mgr) (op : Op) (xidseq : ℕ) : Mgr :=
  { m with rpending := m.rpending.eraseP (pendingMatch op xidseq) }

def joinedPost (rqe : Request) (ret : Argret) : Post :=
  (rqe.reqpeer, .of rqe.xidseq (.joined rqe.reqerror (if rqe.reqerror = 0 then ret else nodata)))

theorem joinedPost_of_error {rqe : Request} (h : rqe.reqerror ≠ 0) (ret : Argret) :
    joinedPost rqe ret = joinedPost rqe nodata := by
  simp [joinedPost, h]

/-- The manager after start_thread installed a thread in slot `l`. -/
def startedMgr (m : Mgr) (thread : DThread) (l : ℕ) : Mgr :=
  { m.setLtab l { m.ltab l with
      gtabIdx := thread.dtIndex, seq := thread.dtSeq, pthState := .starting, pc := .starting } with
    ltabAlloc := m.ltabAlloc + 1
    ltabLastslot := l }

/-- The manager after start_thread gave slot `l` back. -/
def unstartedMgr (m : Mgr) (thread : DThread) (l : ℕ) : Mgr :=
  { m.setLtab l { m.ltab l with
      gtabIdx := thread.dtIndex, seq := 0, pthState := .none, pc := .none } with
    ltabLastslot := l }

/-- The manager after create_thread drew its numbers for slot `gidx`. -/
def createMgr (job : Job) (m : Mgr) (gidx xidseq : ℕ) : Mgr :=
  { m with
    nextRank := (m.nextRank + 1) % job.wsize
    seqsrc := seqNext job m.mpiRank xidseq
    lastSlot := gidx }

inductive MqeOutcome (job : Job) (v : View) (mqe : Mqe) :
    Mgr → (ℕ → Gtab) → List Post → Prop
  | drop (h : Dropped job v mqe) : MqeOutcome job v mqe v.mgr v.gtab []
  | createErr (attrs : Attr) (dispIdx : ℕ) (arg : Argret) (e next : ℕ)
      (hb : mqe.frame.body = .create attrs dispIdx arg) (he : e ≠ 0)
      (hnext : next = v.mgr.nextRank ∨ next = (v.mgr.nextRank + 1) % job.wsize) :
      MqeOutcome job v mqe { v.mgr with nextRank := next } v.gtab
        [(mqe.peer, .of mqe.frame.xidseq (.created e ⟨job.nmaxthread + 1, 0⟩))]
  | createOk (attrs : Attr) (dispIdx : ℕ) (arg : Argret) (n gidx xidseq : ℕ)
      (hb : mqe.frame.body = .create attrs dispIdx arg)
      (hdisp : dispIdx ≠ 0 ∧ dispIdx < job.ndsps)
      (hroom : v.mgr.threadsAlloc < job.nmaxthread)
      (hfree : (v.gtab gidx).allocated = false) (hlt : gidx < job.nmaxthread)
      (hxid : findPendingReq v.mgr.rpending .start xidseq = none)
      (hd : v.dtq.mpisqDraindown = .init) :
      MqeOutcome job v mqe
        { createMgr job v.mgr gidx xidseq with
          threadsAlloc := v.mgr.threadsAlloc + 1
          threadsStarting := v.mgr.threadsStarting + 1
          rpending := v.mgr.rpending ++ [startRequest n v.mgr.nextRank xidseq
            ⟨⟨gidx, v.mgr.seqsrc⟩, mqe.peer, mqe.frame.xidseq⟩] }
        (Function.update v.gtab gidx
          (gtabInit v.mgr.nextRank v.mgr.seqsrc dispIdx arg (v.gtab gidx)))
        [(v.mgr.nextRank, .of xidseq (.start ⟨gidx, v.mgr.seqsrc⟩ (startAttrs attrs)))]
  | createDrain (attrs : Attr) (dispIdx : ℕ) (arg : Argret) (gidx xidseq : ℕ)
      (hb : mqe.frame.body = .create attrs dispIdx arg)
      (hfree : (v.gtab gidx).allocated = false) (hlt : gidx < job.nmaxthread)
      (hd : v.dtq.mpisqDraindown ≠ .init) :
      MqeOutcome job v mqe (createMgr job v.mgr gidx xidseq)
        (Function.update v.gtab gidx
          { gtabInit v.mgr.nextRank v.mgr.seqsrc dispIdx arg (v.gtab gidx) with
            allocated := false, seq := 0, hasLtab := false })
        [(mqe.peer, .of mqe.frame.xidseq (.created EIO ⟨job.nmaxthread + 1, 0⟩))]
  | startInvalid (thread : DThread) (attrs : Attr) (hb : mqe.frame.body = .start thread attrs)
      (h : startInvalid job v.gtab thread) :
      MqeOutcome job v mqe v.mgr v.gtab [(0, .of mqe.frame.xidseq (.started EINVAL))]
  | startOk (thread : DThread) (attrs : Attr) (l : ℕ)
      (hb : mqe.frame.body = .start thread attrs) (h : ¬ startInvalid job v.gtab thread)
      (hfree : (v.mgr.ltab l).pthState = .none ∨ l = 0 ∧ v.mgr.ltabAlloc = 0)
      (hlt : l < job.nmaxthread) :
      MqeOutcome job v mqe (startedMgr v.mgr thread l) v.gtab
        [(0, .of mqe.frame.xidseq (.started 0))]
  | startFail (thread : DThread) (attrs : Attr) (l e : ℕ)
      (hb : mqe.frame.body = .start thread attrs) (h : ¬ startInvalid job v.gtab thread)
      (hfree : (v.mgr.ltab l).pthState = .none ∨ l = 0 ∧ v.mgr.ltabAlloc = 0)
      (hlt : l < job.nmaxthread) (he : e ≠ 0) :
      MqeOutcome job v mqe (unstartedMgr v.mgr thread l) v.gtab
        [(0, .of mqe.frame.xidseq (.started e))]
  | detachNone (thread : DThread) (hb : mqe.frame.body = .detach thread)
      (h : dt2gtab job v.gtab thread = none) :
      MqeOutcome job v mqe v.mgr v.gtab [(mqe.peer, .of mqe.frame.xidseq (.detached ESRCH))]
  | detachPlain (thread : DThread) (hb : mqe.frame.body = .detach thread)
      (h : dt2gtab job v.gtab thread = some thread.dtIndex)
      (hw : joinwaitSearch v thread = none) :
      MqeOutcome job v mqe v.mgr
        (Function.update v.gtab thread.dtIndex
          { v.gtab thread.dtIndex with detached := true })
        [(mqe.peer, .of mqe.frame.xidseq (.detached 0))]
  | detachWait (thread : DThread) (rqe : Request) (hb : mqe.frame.body = .detach thread)
      (h : dt2gtab job v.gtab thread = some thread.dtIndex)
      (hw : joinwaitSearch v thread = some rqe) :
      MqeOutcome job v mqe
        (releaseMgr (dropWaiter v.mgr thread) { rqe with reqerror := EINVAL } true)
        (Function.update v.gtab thread.dtIndex
          { v.gtab thread.dtIndex with detached := true })
        [(mqe.peer, .of mqe.frame.xidseq (.detached 0)),
          joinedPost { rqe with reqerror := EINVAL } nodata]
  | cancelErr (thread : DThread) (e : ℕ) (hb : mqe.frame.body = .cancel thread) (he : e ≠ 0)
      (h : dt2gtab job v.gtab thread = none ∨ (v.gtab thread.dtIndex).rank ≠ v.mgr.mpiRank) :
      MqeOutcome job v mqe v.mgr v.gtab [(mqe.peer, .of mqe.frame.xidseq (.canceled e))]
  | cancelMiss (thread : DThread) (hb : mqe.frame.body = .cancel thread)
      (h : dt2gtab job v.gtab thread = some thread.dtIndex) :
      MqeOutcome job v mqe v.mgr v.gtab [(mqe.peer, .of mqe.frame.xidseq (.canceled 0))]
  | cancelHit (thread : DThread) (l : ℕ) (hb : mqe.frame.body = .cancel thread)
      (h : dt2gtab job v.gtab thread = some thread.dtIndex)
      (hl : l = (v.gtab thread.dtIndex).ltabIdx)
      (hhas : (v.gtab thread.dtIndex).hasLtab = true) (hlt : l < job.nmaxthread)
      (hseq : (v.mgr.ltab l).seq = (v.gtab thread.dtIndex).seq) :
      MqeOutcome job v mqe (v.mgr.setLtab l (cancelLtab (v.mgr.ltab l))) v.gtab
        [(mqe.peer, .of mqe.frame.xidseq (.canceled 0))]
  | joinErr (thread : DThread) (e : ℕ) (hb : mqe.frame.body = .join thread)
      (h : dt2gtab job v.gtab thread = none ∧ e = ESRCH ∨
        dt2gtab job v.gtab thread = some thread.dtIndex ∧ e = EINVAL ∧
          ((v.gtab thread.dtIndex).detached = true ∨ ∃ rqe, joinwaitSearch v thread = some rqe)) :
      MqeOutcome job v mqe v.mgr v.gtab [(mqe.peer, .of mqe.frame.xidseq (.joined e nodata))]
  | joinZombie (thread : DThread) (hb : mqe.frame.body = .join thread)
      (h : dt2gtab job v.gtab thread = some thread.dtIndex)
      (hdet : (v.gtab thread.dtIndex).detached = false)
      (hz : (v.gtab thread.dtIndex).terminated.needFinalstate = false) :
      MqeOutcome job v mqe (freeMgr v.mgr v.gtab thread.dtIndex)
        (freeGtab v.gtab thread.dtIndex)
        [(mqe.peer, .of mqe.frame.xidseq (.joined 0 (v.gtab thread.dtIndex).ret))]
  | joinWait (thread : DThread) (n : ℕ) (hb : mqe.frame.body = .join thread)
      (h : dt2gtab job v.gtab thread = some thread.dtIndex)
      (hdet : (v.gtab thread.dtIndex).detached = false)
      (hz : (v.gtab thread.dtIndex).terminated.needFinalstate = true)
      (hw : joinwaitSearch v thread = none) :
      MqeOutcome job v mqe { v.mgr with rpending := v.mgr.rpending ++
        [joinwaitRequest n mqe.peer mqe.frame.xidseq thread] } v.gtab []
  | terminatedZombie (thread : DThread) (fin : LtState)
      (hb : mqe.frame.body = .terminated thread fin)
      (hlen : mqe.frame.flen = mqe.frame.body.size) (hlt : thread.dtIndex < job.nmaxthread)
      (hseq : (v.gtab thread.dtIndex).seq = thread.dtSeq) (hfin : fin ≠ .running)
      (hdet : (v.gtab thread.dtIndex).detached = false)
      (hw : joinwaitSearch v thread = none) :
      MqeOutcome job v mqe { v.mgr with threadsRunning := v.mgr.threadsRunning - 1 }
        (zombieGtab v.gtab thread fin) []
  | terminatedDetached (thread : DThread) (fin : LtState)
      (hb : mqe.frame.body = .terminated thread fin)
      (hlen : mqe.frame.flen = mqe.frame.body.size) (hlt : thread.dtIndex < job.nmaxthread)
      (hseq : (v.gtab thread.dtIndex).seq = thread.dtSeq) (hfin : fin ≠ .running)
      (hdet : (v.gtab thread.dtIndex).detached = true)
      (hw : joinwaitSearch v thread = none) :
      MqeOutcome job v mqe
        (freeMgr (cleanupMgr job { v.mgr with threadsRunning := v.mgr.threadsRunning - 1 }
          (v.gtab thread.dtIndex)) v.gtab thread.dtIndex)
        (freeGtab (cleanupGtab job (zombieGtab v.gtab thread fin) thread.dtIndex)
          thread.dtIndex) []
  | terminatedJoined (thread : DThread) (fin : LtState) (rqe : Request)
      (hb : mqe.frame.body = .terminated thread fin)
      (hlen : mqe.frame.flen = mqe.frame.body.size) (hlt : thread.dtIndex < job.nmaxthread)
      (hseq : (v.gtab thread.dtIndex).seq = thread.dtSeq) (hfin : fin ≠ .running)
      (hdet : (v.gtab thread.dtIndex).detached = false)
      (hw : joinwaitSearch v thread = some rqe) :
      MqeOutcome job v mqe
        (freeMgr (releaseMgr
          { dropWaiter v.mgr thread with threadsRunning := v.mgr.threadsRunning - 1 } rqe true)
          v.gtab thread.dtIndex)
        (freeGtab (zombieGtab v.gtab thread fin) thread.dtIndex)
        [joinedPost rqe (v.gtab thread.dtIndex).ret]
  | terminatedDetachedJoined (thread : DThread) (fin : LtState) (rqe : Request)
      (hb : mqe.frame.body = .terminated thread fin)
      (hlen : mqe.frame.flen = mqe.frame.body.size) (hlt : thread.dtIndex < job.nmaxthread)
      (hseq : (v.gtab thread.dtIndex).seq = thread.dtSeq) (hfin : fin ≠ .running)
      (hdet : (v.gtab thread.dtIndex).detached = true)
      (hw : joinwaitSearch v thread = some rqe) :
      MqeOutcome job v mqe
        (freeMgr (cleanupMgr job (releaseMgr
          { dropWaiter v.mgr thread with threadsRunning := v.mgr.threadsRunning - 1 }
          { rqe with reqerror := EINVAL } true) (v.gtab thread.dtIndex)) v.gtab thread.dtIndex)
        (freeGtab (cleanupGtab job (zombieGtab v.gtab thread fin) thread.dtIndex)
          thread.dtIndex)
        [joinedPost { rqe with reqerror := EINVAL } nodata]
  | startedOk (rqe : Request) (hb : mqe.frame.body = .started 0)
      (h : findPendingReq v.mgr.rpending .start mqe.frame.xidseq = some rqe) :
      MqeOutcome job v mqe
        (releaseMgr { dropPending v.mgr .start mqe.frame.xidseq with
          threadsStarting := v.mgr.threadsStarting - 1
          threadsRunning := v.mgr.threadsRunning + 1 } rqe false)
        v.gtab
        [(rqe.creinfo.cPeer, .of rqe.creinfo.cXidseq (.created 0 rqe.creinfo.cThread))]
  | startedErr (rqe : Request) (e : ℕ) (hb : mqe.frame.body = .started e) (he : e ≠ 0)
      (h : findPendingReq v.mgr.rpending .start mqe.frame.xidseq = some rqe) :
      MqeOutcome job v mqe
        (releaseMgr (freeMgr { dropPending v.mgr .start mqe.frame.xidseq with
          threadsStarting := v.mgr.threadsStarting - 1 } v.gtab rqe.creinfo.cThread.dtIndex)
          rqe false)
        (freeGtab v.gtab rqe.creinfo.cThread.dtIndex)
        [(rqe.creinfo.cPeer, .of rqe.creinfo.cXidseq (.created e ⟨0, 0⟩))]
  | reply (op : Op) (rqe rqe' : Request) (hop : replyTo mqe.frame.body = some op)
      (h : findPendingReq v.mgr.rpending op mqe.frame.xidseq = some rqe)
      (haddr : rqe'.addr = rqe.addr) :
      MqeOutcome job v mqe (releaseMgr (dropPending v.mgr op mqe.frame.xidseq) rqe' true)
        v.gtab []

theorem sendCreatedError_effect (job : Job) {v v' : View} {m : Mgr} {gt : ℕ → Gtab}
    {out : List Post} (mqe : Mqe) (e : ℕ) (hm : v.dtq.mallocs = [])
    (h : Effect v v' m gt out) :
    Effect v (sendCreatedError job v' mqe e) m gt
      (out ++ [(mqe.peer, .of mqe.frame.xidseq (.created e ⟨job.nmaxthread + 1, 0⟩))]) := by
  obtain ⟨a, q, hq, hs⟩ := mqeAlloc_eq_some v'.dtq (h.mallocs hm)
  unfold sendCreatedError
  rw [hq]
  exact (h.setDtq hs).send _

theorem createStart_outcome (job : Job) (v w v' : View) (mqe : Mqe) (attrs : Attr)
    (dispIdx : ℕ) (arg : Argret) (n addr gidx : ℕ)
    (hb : mqe.frame.body = .create attrs dispIdx arg)
    (hdisp : dispIdx ≠ 0 ∧ dispIdx < job.ndsps) (hroom : v.mgr.threadsAlloc < job.nmaxthread)
    (hm : v.dtq.mallocs = [])
    (hfree : (v.gtab gidx).allocated = false) (hlt : gidx < job.nmaxthread)
    (hw : Effect v w
      { v.mgr with
        nextRank := (v.mgr.nextRank + 1) % job.wsize
        seqsrc := seqNext job v.mgr.mpiRank v.mgr.seqsrc
        threadsAlloc := v.mgr.threadsAlloc + 1
        lastSlot := gidx }
      (Function.update v.gtab gidx
        (gtabInit v.mgr.nextRank v.mgr.seqsrc dispIdx arg (v.gtab gidx))) [])
    (h : createStart job w mqe attrs v.mgr.nextRank n addr gidx = some v') :
    ∃ m gt out, MqeOutcome job v mqe m gt out ∧ Effect v v' m gt out := by
  unfold createStart at h
  simp only [Option.map_eq_some_iff, Prod.exists] at h
  obtain ⟨xidseq, w', hseq, rfl⟩ := h
  obtain ⟨hxid, rfl⟩ := getFreeSeq_some job w .start hseq
  obtain ⟨wm, wg, wq⟩ := w
  obtain ⟨rfl, rfl, hreqq, hdrain, hposted, hmallocs⟩ := hw
  have hxid' : findPendingReq v.mgr.rpending .start xidseq = none :=
    hxid.resolve_left (by simp)
  have hgseq : (Function.update v.gtab gidx
      (gtabInit v.mgr.nextRank v.mgr.seqsrc dispIdx arg (v.gtab gidx)) gidx).seq =
      v.mgr.seqsrc := by
    simp [gtabInit]
  by_cases hd : v.dtq.mpisqDraindown = .init
  · refine ⟨_, _, _, .createOk attrs dispIdx arg n gidx xidseq hb hdisp hroom hfree hlt hxid' hd,
      ?_⟩
    obtain ⟨q, hq, hs⟩ := sendEnqueue_init v.mgr.mpiRank wq
      ⟨addr, v.mgr.nextRank, .of xidseq (.start ⟨gidx, v.mgr.seqsrc⟩ (startAttrs attrs))⟩
      (hdrain.trans hd)
    simp only [View.setMgr, hgseq, hq]
    refine ⟨rfl, rfl, hs.mgrreqq.trans hreqq, hs.draindown.trans hdrain, ?_, ?_⟩
    · simp only [hd, if_true, List.append_nil] at hposted
      simp only [View.setDtq, hs.accepted, List.map_append, hposted, hd, if_true,
        List.map_cons, List.map_nil, toPost]
    · intro hm'
      exact hs.mallocs.trans (hmallocs hm')
  · refine ⟨_, _, _, .createDrain attrs dispIdx arg gidx xidseq hb hfree hlt hd, ?_⟩
    simp only [View.setMgr, hgseq]
    rw [sendEnqueue_draining _ wq _ (fun hc => hd (hdrain.symm.trans hc))]
    have heff := sendCreatedError_effect job mqe EIO hm
      (((((⟨rfl, rfl, hreqq, hdrain, hposted, hmallocs⟩ : Effect v ⟨_, _, wq⟩ _ _ []).setMgr
        (createMgr job { v.mgr with threadsAlloc := v.mgr.threadsAlloc + 1 } gidx
          xidseq)).reqRelease (startRequest n v.mgr.nextRank xidseq
            ⟨⟨gidx, v.mgr.seqsrc⟩, mqe.peer, mqe.frame.xidseq⟩) false).mqeUnalloc
              addr).gtabFree gidx)
    have hmgr : freeMgr (releaseMgr
        (createMgr job { v.mgr with threadsAlloc := v.mgr.threadsAlloc + 1 } gidx xidseq)
        (startRequest n v.mgr.nextRank xidseq
          ⟨⟨gidx, v.mgr.seqsrc⟩, mqe.peer, mqe.frame.xidseq⟩) false)
        (Function.update v.gtab gidx
          (gtabInit v.mgr.nextRank v.mgr.seqsrc dispIdx arg (v.gtab gidx))) gidx =
        createMgr job v.mgr gidx xidseq := by
      simp [freeMgr, releaseMgr, releaseLtab, startRequest, internalRequest, gtabInit, createMgr]
    have hgt : freeGtab (Function.update v.gtab gidx
        (gtabInit v.mgr.nextRank v.mgr.seqsrc dispIdx arg (v.gtab gidx))) gidx =
        Function.update v.gtab gidx
          { gtabInit v.mgr.nextRank v.mgr.seqsrc dispIdx arg (v.gtab gidx) with
            allocated := false, seq := 0, hasLtab := false } := by
      simp [freeGtab, gtabInit]
    rw [hmgr, hgt] at heff
    exact heff

theorem createThread_outcome (job : Job) (v v' : View) (mqe : Mqe) (attrs : Attr)
    (dispIdx : ℕ) (arg : Argret) (hb : mqe.frame.body = .create attrs dispIdx arg)
    (hm : v.dtq.mallocs = []) (h : createThread job v mqe attrs dispIdx arg = some v') :
    ∃ m gt out, MqeOutcome job v mqe m gt out ∧ Effect v v' m gt out := by
  have hfail (w : View) (e next : ℕ) (he : e ≠ 0)
      (hnext : next = v.mgr.nextRank ∨ next = (v.mgr.nextRank + 1) % job.wsize)
      (hw : Effect v w { v.mgr with nextRank := next } v.gtab []) :
      ∃ m gt out, MqeOutcome job v mqe m gt out ∧
        Effect v (sendCreatedError job w mqe e) m gt out :=
    ⟨_, _, _, .createErr attrs dispIdx arg e next hb he hnext,
      sendCreatedError_effect job mqe e hm hw⟩
  unfold createThread at h
  split at h
  · obtain rfl : _ = v' := by simpa using h
    exact hfail v EINVAL _ (by decide) (.inl rfl) (.refl v)
  rename_i hdisp
  split at h
  · obtain rfl : _ = v' := by simpa using h
    exact hfail v EAGAIN _ (by decide) (.inl rfl) (.refl v)
  rename_i hroom
  have hnext : Effect v (v.setMgr { v.mgr with nextRank := (v.mgr.nextRank + 1) % job.wsize })
      { v.mgr with nextRank := (v.mgr.nextRank + 1) % job.wsize } v.gtab [] :=
    (Effect.refl v).setMgr _
  obtain ⟨n, q, hq, hs⟩ := reqAlloc_eq_some v.dtq hm
  obtain ⟨addr, q', hq', hs'⟩ := mqeAlloc_eq_some q (hs.mallocs hm)
  simp only [View.setMgr, hq, hq'] at h
  have hw := hnext.setDtq (hs.trans hs')
  split at h
  · simp at h
  · rename_i w hfull
    obtain rfl := gtabAlloc_full _ _ _ _ _ _ hfull
    obtain rfl : _ = v' := by simpa using h
    exact hfail _ ENOMEM _ (by decide) (.inr rfl)
      ((hw.reqRelease (internalRequest n) false).mqeUnalloc addr)
  · rename_i gidx w htaken
    obtain ⟨hfree, hlt, rfl⟩ := gtabAlloc_taken _ _ _ _ _ _ _ htaken
    refine createStart_outcome job v _ v' mqe attrs dispIdx arg n addr gidx hb (by omega)
      (by omega) hm hfree hlt ?_ h
    exact ⟨rfl, rfl, hw.mgrreqq, hw.draindown, hw.posted, hw.mallocs⟩

theorem startThread_outcome (job : Job) (v v' : View) (mqe : Mqe) (thread : DThread)
    (attrs : Attr) (err : ℕ) (hb : mqe.frame.body = .start thread attrs)
    (hm : v.dtq.mallocs = []) (h : startThread job v mqe thread err = some v') :
    ∃ m gt out, MqeOutcome job v mqe m gt out ∧ Effect v v' m gt out := by
  unfold startThread at h
  obtain ⟨addr, q, hq, hs⟩ := mqeAlloc_eq_some v.dtq hm
  simp only [hq] at h
  have hw := (Effect.refl v).setDtq hs
  split at h
  · rename_i hinv
    obtain rfl : _ = v' := by simpa using h
    exact ⟨_, _, _, .startInvalid thread attrs hb hinv, hw.send _⟩
  rename_i hvalid
  split at h
  · simp at h
  · simp at h
  · rename_i l w htaken
    obtain ⟨hfree, hlt, rfl⟩ := ltabAlloc_taken _ _ _ _ _ htaken
    split at h
    · obtain rfl : _ = v' := by simpa using h
      refine ⟨_, _, _, .startOk thread attrs l hb hvalid hfree hlt, ?_⟩
      have hmgr : startedMgr v.mgr thread l = (ltabInstall (v.setDtq q) thread l).mgr.setLtab l
          { (ltabInstall (v.setDtq q) thread l).mgr.ltab l with pc := .starting } := by
        simp [startedMgr, ltabInstall, Mgr.setLtab, View.setMgr, View.setDtq]
      rw [hmgr]
      exact (hw.setMgr _).send _
    · rename_i herr
      obtain rfl : _ = v' := by simpa using h
      refine ⟨_, _, _, .startFail thread attrs l err hb hvalid hfree hlt herr, ?_⟩
      have hmgr : unstartedMgr v.mgr thread l =
          freeLtabMgr (ltabInstall (v.setDtq q) thread l).mgr l := by
        simp [unstartedMgr, freeLtabMgr, freeLtab, ltabInstall, Mgr.setLtab, View.setMgr,
          View.setDtq]
      rw [hmgr]
      exact ((hw.setMgr _).ltabFree l).send _

theorem dt2gtab_eq (job : Job) (gt : ℕ → Gtab) (thread : DThread) {i : ℕ}
    (h : dt2gtab job gt thread = some i) : i = thread.dtIndex := by
  unfold dt2gtab at h
  split at h
  · simp at h
  · split at h
    · simp at h
    · simpa using h.symm

theorem joinwaitSearch_spec {v : View} {thread : DThread} {rqe : Request}
    (h : joinwaitSearch v thread = some rqe) :
    rqe.reqop = .joinwait ∧ rqe.waitthread = thread := by
  have hmatch := List.find?_some h
  simpa [joinwaitMatch] using hmatch

/-- A JOINWAIT is answered with its own error, or with the entry's value. -/
theorem joinwaitEndRelease_sent {v w : View} {m : Mgr} {gt : ℕ → Gtab} {out : List Post}
    (rqe : Request) (hop : rqe.reqop = .joinwait) {addr : ℕ} {q : Dtq}
    (hq : dtqMqeAlloc w.dtq = (some addr, q)) (h : Effect v w m gt out) :
    Effect v (joinwaitEndRelease w rqe) (releaseMgr m rqe true) gt
      (out ++ [joinedPost rqe (gt rqe.waitthread.dtIndex).ret]) := by
  have hs := sameTraffic_mqeAlloc w.dtq
  rw [hq] at hs
  obtain rfl := h.gtab
  unfold joinwaitEndRelease
  rw [if_neg (not_not.mpr hop), hq]
  exact ((h.setDtq hs).send _).reqRelease rqe true

theorem joinwaitEndRelease_effect {v w : View} {m : Mgr} {gt : ℕ → Gtab} {out : List Post}
    (rqe : Request) (hop : rqe.reqop = .joinwait) (hm : v.dtq.mallocs = [])
    (h : Effect v w m gt out) :
    Effect v (joinwaitEndRelease w rqe) (releaseMgr m rqe true) gt
      (out ++ [joinedPost rqe (gt rqe.waitthread.dtIndex).ret]) := by
  obtain ⟨addr, q, hq, -⟩ := mqeAlloc_eq_some w.dtq (h.mallocs hm)
  exact joinwaitEndRelease_sent rqe hop hq h

theorem joinwaitRemove_of_none {v : View} {thread : DThread}
    (h : joinwaitSearch v thread = none) : joinwaitRemove v thread = v := by
  have hfree : v.mgr.rpending.eraseP (joinwaitMatch thread) = v.mgr.rpending :=
    List.eraseP_of_forall_not (List.find?_eq_none.mp h)
  unfold joinwaitRemove
  rw [hfree]
  rfl

theorem detachThread_outcome (job : Job) (v : View) (mqe : Mqe) (thread : DThread)
    (hb : mqe.frame.body = .detach thread) (hm : v.dtq.mallocs = []) :
    ∃ m gt out, MqeOutcome job v mqe m gt out ∧
      Effect v (detachThread job v mqe thread) m gt out := by
  unfold detachThread
  cases h : dt2gtab job v.gtab thread with
  | none => exact ⟨_, _, _, .detachNone thread hb h, (Effect.refl v).send _⟩
  | some i =>
    obtain rfl := dt2gtab_eq _ _ _ h
    have hset := (Effect.refl v).setGtab thread.dtIndex
      { v.gtab thread.dtIndex with detached := true }
    have hsearch : joinwaitSearch (v.setGtab thread.dtIndex
        { v.gtab thread.dtIndex with detached := true }) thread = joinwaitSearch v thread := rfl
    cases hw : joinwaitSearch v thread with
    | none =>
      refine ⟨_, _, _, .detachPlain thread hb h hw, ?_⟩
      simp only [hsearch, hw, joinwaitRemove_of_none (hsearch.trans hw)]
      exact hset.send _
    | some rqe =>
      refine ⟨_, _, _, .detachWait thread rqe hb h hw, ?_⟩
      simp only [hsearch, hw]
      exact joinwaitEndRelease_effect { rqe with reqerror := EINVAL } (joinwaitSearch_spec hw).1
        hm ((hset.setMgr _).send _)

theorem cancelThread_outcome (job : Job) (v : View) (mqe : Mqe) (thread : DThread)
    (hb : mqe.frame.body = .cancel thread) :
    ∃ m gt out, MqeOutcome job v mqe m gt out ∧
      Effect v (cancelThread job v mqe thread) m gt out := by
  unfold cancelThread
  cases h : dt2gtab job v.gtab thread with
  | none =>
    exact ⟨_, _, _, .cancelErr thread ESRCH hb (by decide) (.inl h), (Effect.refl v).send _⟩
  | some i =>
    obtain rfl := dt2gtab_eq _ _ _ h
    simp only
    split
    · rename_i hrank
      exact ⟨_, _, _, .cancelErr thread EINVAL hb (by decide) (.inr hrank),
        (Effect.refl v).send _⟩
    · split
      · rename_i hhit
        exact ⟨_, _, _, .cancelHit thread _ hb h rfl hhit.1 hhit.2.1 hhit.2.2,
          ((Effect.refl v).setMgr _).send _⟩
      · exact ⟨_, _, _, .cancelMiss thread hb h, (Effect.refl v).send _⟩

theorem joinThread_outcome (job : Job) (v : View) (mqe : Mqe) (thread : DThread)
    (hb : mqe.frame.body = .join thread) (hm : v.dtq.mallocs = []) :
    ∃ m gt out, MqeOutcome job v mqe m gt out ∧
      Effect v (joinThread job v mqe thread) m gt out := by
  unfold joinThread
  cases h : dt2gtab job v.gtab thread with
  | none =>
    exact ⟨_, _, _, .joinErr thread ESRCH hb (.inl ⟨h, rfl⟩), (Effect.refl v).send _⟩
  | some i =>
    obtain rfl := dt2gtab_eq _ _ _ h
    simp only
    split
    · rename_i hdet
      exact ⟨_, _, _, .joinErr thread EINVAL hb (.inr ⟨h, rfl, .inl hdet⟩),
        (Effect.refl v).send _⟩
    rename_i hdet
    split
    · rename_i hz
      exact ⟨_, _, _, .joinZombie thread hb h (by simpa using hdet) hz,
        ((Effect.refl v).send _).gtabFree _⟩
    rename_i hz
    cases hw : joinwaitSearch v thread with
    | some rqe =>
      exact ⟨_, _, _, .joinErr thread EINVAL hb (.inr ⟨h, rfl, .inr ⟨rqe, hw⟩⟩),
        (Effect.refl v).send _⟩
    | none =>
      obtain ⟨n, q, hq, hs⟩ := reqAlloc_eq_some v.dtq hm
      simp only [hq]
      exact ⟨_, _, _, .joinWait thread n hb h (by simpa using hdet) (by simpa using hz) hw,
        (((Effect.refl v).setDtq hs).recvRelease mqe.addr).setMgr _⟩

theorem detachedRetCleanup_effect (job : Job) {v w : View} {m : Mgr} {gt : ℕ → Gtab}
    {out : List Post} (h : Effect v w m gt out) (i : ℕ) :
    Effect v (detachedRetCleanup job w i) (cleanupMgr job m (gt i)) (cleanupGtab job gt i) out := by
  obtain ⟨rfl, rfl, hq, hd, hp, hm⟩ := h
  unfold detachedRetCleanup
  simp only
  by_cases hdisp : (w.gtab i).dispIdx < 1 ∨ job.ndsps ≤ (w.gtab i).dispIdx
  · have hskip : (w.gtab i).dispIdx < 1 ∨ job.ndsps ≤ (w.gtab i).dispIdx ∨
        (job.dsps (w.gtab i).dispIdx).dtRetproc = false := by tauto
    simp only [cleanupMgr, cleanupGtab, if_pos hdisp, if_pos hskip]
    exact ⟨rfl, rfl, hq, hd, hp, hm⟩
  by_cases hproc : (job.dsps (w.gtab i).dispIdx).dtRetproc = false
  · have hskip : (w.gtab i).dispIdx < 1 ∨ job.ndsps ≤ (w.gtab i).dispIdx ∨
        (job.dsps (w.gtab i).dispIdx).dtRetproc = false := by tauto
    simp only [cleanupMgr, cleanupGtab, if_neg hdisp, if_pos hproc, if_pos hskip]
    exact ⟨rfl, rfl, hq, hd, hp, hm⟩
  · have hrun : ¬ ((w.gtab i).dispIdx < 1 ∨ job.ndsps ≤ (w.gtab i).dispIdx ∨
        (job.dsps (w.gtab i).dispIdx).dtRetproc = false) := by tauto
    simp only [cleanupMgr, cleanupGtab, if_neg hdisp, if_neg hproc, if_neg hrun]
    exact ⟨rfl, rfl, hq, hd, hp, hm⟩

theorem freeMgr_congr (m : Mgr) {gt gt' : ℕ → Gtab} {i : ℕ}
    (h : (gt' i).allocated = (gt i).allocated) : freeMgr m gt' i = freeMgr m gt i := by
  unfold freeMgr
  rw [h]

theorem zombieGtab_allocated (gt : ℕ → Gtab) (thread : DThread) (fin : LtState) (i : ℕ) :
    (zombieGtab gt thread fin i).allocated = (gt i).allocated := by
  unfold zombieGtab
  by_cases hi : i = thread.dtIndex
  · subst hi
    simp
  · simp [hi]

theorem cleanupGtab_allocated (job : Job) (gt : ℕ → Gtab) (i j : ℕ) :
    (cleanupGtab job gt i j).allocated = (gt j).allocated := by
  unfold cleanupGtab
  split
  · rfl
  · by_cases hj : j = i
    · subst hj
      simp
    · simp [hj]

theorem cleanupMgr_zombie (job : Job) (m : Mgr) (gt : ℕ → Gtab) (thread : DThread)
    (fin : LtState) :
    cleanupMgr job m (zombieGtab gt thread fin thread.dtIndex) =
      cleanupMgr job m (gt thread.dtIndex) := by
  simp [cleanupMgr, zombieGtab]

section Terminated

variable (job : Job) {v : View} {thread : DThread} {fin : LtState}

/-- terminated_thread has made the thread a zombie. -/
def endedView (v : View) (thread : DThread) (fin : LtState) : View :=
  (v.setGtab thread.dtIndex { v.gtab thread.dtIndex with
    terminated := fin, hasLtab := false }).setMgr
    { v.mgr with threadsRunning := v.mgr.threadsRunning - 1 }

theorem endedView_effect (v : View) (thread : DThread) (fin : LtState) :
    Effect v (endedView v thread fin) { v.mgr with threadsRunning := v.mgr.threadsRunning - 1 }
      (zombieGtab v.gtab thread fin) [] :=
  ((Effect.refl v).setGtab _ _).setMgr _

theorem endedView_detached (v : View) (thread : DThread) (fin : LtState) :
    ((joinwaitRemove (endedView v thread fin) thread).gtab thread.dtIndex).detached =
      (v.gtab thread.dtIndex).detached := by
  simp [endedView, joinwaitRemove, View.setMgr, View.setGtab]

/-- Nobody waits for the thread. -/
theorem terminatedThread_unwaited (hw : joinwaitSearch v thread = none) :
    terminatedThread job v thread fin =
      if (v.gtab thread.dtIndex).detached then
        gtabFree (detachedRetCleanup job (endedView v thread fin) thread.dtIndex) thread.dtIndex
      else endedView v thread fin := by
  have hwait : joinwaitSearch (endedView v thread fin) thread = none := hw
  have hdet := endedView_detached v thread fin
  unfold terminatedThread
  simp only
  rw [← endedView]
  rw [hdet, hwait, joinwaitRemove_of_none hwait]
  cases hdetached : (v.gtab thread.dtIndex).detached with
  | false => simp
  | true => simp

/-- Somebody waits for the thread. -/
theorem terminatedThread_waited {rqe : Request} (hw : joinwaitSearch v thread = some rqe) :
    terminatedThread job v thread fin =
      if (v.gtab thread.dtIndex).detached then
        gtabFree (detachedRetCleanup job (joinwaitEndRelease
          (joinwaitRemove (endedView v thread fin) thread) { rqe with reqerror := EINVAL })
          thread.dtIndex) thread.dtIndex
      else gtabFree (joinwaitEndRelease (joinwaitRemove (endedView v thread fin) thread) rqe)
        thread.dtIndex := by
  have hwait : joinwaitSearch (endedView v thread fin) thread = some rqe := hw
  have hdet := endedView_detached v thread fin
  unfold terminatedThread
  simp only
  rw [← endedView]
  rw [hdet, hwait]
  cases hdetached : (v.gtab thread.dtIndex).detached with
  | false => simp
  | true => simp

theorem joinwaitRemove_effect (v : View) (thread : DThread) (fin : LtState) :
    Effect v (joinwaitRemove (endedView v thread fin) thread)
      { dropWaiter v.mgr thread with threadsRunning := v.mgr.threadsRunning - 1 }
      (zombieGtab v.gtab thread fin) [] :=
  (endedView_effect v thread fin).setMgr _

theorem freeMgr_zombie (m : Mgr) (gt : ℕ → Gtab) (thread : DThread) (fin : LtState) :
    freeMgr m (zombieGtab gt thread fin) thread.dtIndex = freeMgr m gt thread.dtIndex :=
  freeMgr_congr m (zombieGtab_allocated _ _ _ _)

theorem freeMgr_cleanup (m : Mgr) (gt : ℕ → Gtab) (thread : DThread) (fin : LtState) :
    freeMgr m (cleanupGtab job (zombieGtab gt thread fin) thread.dtIndex) thread.dtIndex =
      freeMgr m gt thread.dtIndex :=
  (freeMgr_congr m (cleanupGtab_allocated _ _ _ _)).trans (freeMgr_zombie m gt thread fin)

/-- The end of a thread that is neither detached nor waited for. -/
theorem terminatedThread_zombie (fin : LtState)
    (hdet : (v.gtab thread.dtIndex).detached = false) (hw : joinwaitSearch v thread = none) :
    Effect v (terminatedThread job v thread fin)
      { v.mgr with threadsRunning := v.mgr.threadsRunning - 1 } (zombieGtab v.gtab thread fin)
      [] := by
  rw [terminatedThread_unwaited job hw, hdet]
  exact endedView_effect v thread fin

/-- The end of a thread that is waited for. -/
theorem terminatedThread_joined (fin : LtState)
    (hdet : (v.gtab thread.dtIndex).detached = false) {rqe : Request}
    (hw : joinwaitSearch v thread = some rqe) {addr : ℕ} {q : Dtq}
    (hq : dtqMqeAlloc v.dtq = (some addr, q)) :
    Effect v (terminatedThread job v thread fin)
      (freeMgr (releaseMgr
        { dropWaiter v.mgr thread with threadsRunning := v.mgr.threadsRunning - 1 } rqe true)
        v.gtab thread.dtIndex)
      (freeGtab (zombieGtab v.gtab thread fin) thread.dtIndex)
      [joinedPost rqe (v.gtab thread.dtIndex).ret] := by
  obtain ⟨hop, hthread⟩ := joinwaitSearch_spec hw
  have hq' : dtqMqeAlloc (joinwaitRemove (endedView v thread fin) thread).dtq = (some addr, q) := hq
  have heff := (joinwaitEndRelease_sent rqe hop hq' (joinwaitRemove_effect v thread fin)).gtabFree
    thread.dtIndex
  have hret : (zombieGtab v.gtab thread fin rqe.waitthread.dtIndex).ret =
      (v.gtab thread.dtIndex).ret := by
    simp [hthread, zombieGtab]
  rw [freeMgr_zombie, hret] at heff
  rw [terminatedThread_waited job hw, hdet]
  exact heff

end Terminated

theorem terminatedThread_outcome (job : Job) (v : View) (mqe : Mqe) (thread : DThread)
    (fin : LtState) (hb : mqe.frame.body = .terminated thread fin)
    (hlen : mqe.frame.flen = mqe.frame.body.size) (hlt : thread.dtIndex < job.nmaxthread)
    (hseq : (v.gtab thread.dtIndex).seq = thread.dtSeq) (hfin : fin ≠ .running)
    (hm : v.dtq.mallocs = []) :
    ∃ m gt out, MqeOutcome job v mqe m gt out ∧
      Effect v (terminatedThread job v thread fin) m gt out := by
  cases hw : joinwaitSearch v thread with
  | none =>
    cases hdet : (v.gtab thread.dtIndex).detached with
    | false =>
      exact ⟨_, _, _, .terminatedZombie thread fin hb hlen hlt hseq hfin hdet hw,
        terminatedThread_zombie job fin hdet hw⟩
    | true =>
      refine ⟨_, _, _, .terminatedDetached thread fin hb hlen hlt hseq hfin hdet hw, ?_⟩
      have heff := (detachedRetCleanup_effect job (endedView_effect v thread fin)
        thread.dtIndex).gtabFree thread.dtIndex
      rw [freeMgr_cleanup, cleanupMgr_zombie] at heff
      rw [terminatedThread_unwaited job hw, hdet]
      exact heff
  | some rqe =>
    cases hdet : (v.gtab thread.dtIndex).detached with
    | false =>
      obtain ⟨addr, q, hq, -⟩ := mqeAlloc_eq_some v.dtq hm
      exact ⟨_, _, _, .terminatedJoined thread fin rqe hb hlen hlt hseq hfin hdet hw,
        terminatedThread_joined job fin hdet hw hq⟩
    | true =>
      refine ⟨_, _, _, .terminatedDetachedJoined thread fin rqe hb hlen hlt hseq hfin hdet hw, ?_⟩
      have heff := (detachedRetCleanup_effect job (joinwaitEndRelease_effect
        { rqe with reqerror := EINVAL } (joinwaitSearch_spec hw).1 hm
        (joinwaitRemove_effect v thread fin)) thread.dtIndex).gtabFree thread.dtIndex
      rw [freeMgr_cleanup, cleanupMgr_zombie, joinedPost_of_error (by simp [EINVAL])] at heff
      rw [terminatedThread_waited job hw, hdet]
      exact heff

theorem terminatedMsg_outcome (job : Job) (v : View) (mqe : Mqe) (thread : DThread)
    (fin : LtState) (hb : mqe.frame.body = .terminated thread fin) (hm : v.dtq.mallocs = []) :
    ∃ m gt out, MqeOutcome job v mqe m gt out ∧
      Effect v (terminatedMsg job v mqe thread fin) m gt out := by
  unfold terminatedMsg
  simp only
  split
  · rename_i hlen
    exact ⟨_, _, _, .drop (.badTerminated thread fin hb (.inl hlen)),
      (Effect.refl v).recvRelease _⟩
  split
  · rename_i hbad
    exact ⟨_, _, _, .drop (.badTerminated thread fin hb (by tauto)),
      (Effect.refl v).recvRelease _⟩
  rename_i hlen hgood
  split
  · rename_i hfin
    exact ⟨_, _, _, .drop (.badTerminated thread fin hb (.inr (.inr (.inr hfin)))),
      (Effect.refl v).recvRelease _⟩
  rename_i hfin
  push Not at hgood
  obtain ⟨m, gt, out, ho, he⟩ :=
    terminatedThread_outcome job v mqe thread fin hb (not_not.mp hlen) hgood.1 hgood.2 hfin hm
  exact ⟨m, gt, out, ho, he.recvRelease _⟩

theorem findPendingMsgreq_eq (v : View) (mqe : Mqe) (op : Op)
    (hlen : mqe.frame.body.size ≤ mqe.frame.flen) :
    findPendingMsgreq v mqe op = (findPendingReq v.mgr.rpending op mqe.frame.xidseq).map
      fun rqe => (rqe, v.setMgr (dropPending v.mgr op mqe.frame.xidseq)) := by
  have hhdr := mqe.frame.body.headerSize_le_size
  unfold findPendingMsgreq
  rw [if_neg (by omega)]
  cases findPendingReq v.mgr.rpending op mqe.frame.xidseq <;> rfl

/-- What a handler that answers a pending request does. -/
theorem replyRequest_outcome (job : Job) (v : View) (mqe : Mqe) (op : Op)
    (store : Request → Request) (hop : replyTo mqe.frame.body = some op)
    (hstore : ∀ rqe, (store rqe).addr = rqe.addr) :
    ∃ m gt out, MqeOutcome job v mqe m gt out ∧
      Effect v (replyRequest v mqe op store) m gt out := by
  unfold replyRequest
  by_cases hlen : mqe.frame.body.size ≤ mqe.frame.flen
  · rw [findPendingMsgreq_eq v mqe op hlen]
    cases h : findPendingReq v.mgr.rpending op mqe.frame.xidseq with
    | none =>
      exact ⟨_, _, _, .drop (.unmatchedReply op hop h), (Effect.refl v).recvRelease _⟩
    | some rqe =>
      exact ⟨_, _, _, .reply op rqe (store rqe) hop h (hstore rqe),
        (((Effect.refl v).setMgr _).reqRelease _ true).recvRelease _⟩
  · have hnone : findPendingMsgreq v mqe op = none := by
      unfold findPendingMsgreq
      rw [if_pos (by omega)]
    rw [hnone]
    exact ⟨_, _, _, .drop (.runt (by omega)), (Effect.refl v).recvRelease _⟩

theorem startedReply_outcome (job : Job) (v : View) (mqe : Mqe) (e : ℕ)
    (hb : mqe.frame.body = .started e) :
    ∃ m gt out, MqeOutcome job v mqe m gt out ∧ Effect v (startedReply v mqe e) m gt out := by
  unfold startedReply
  by_cases hlen : mqe.frame.body.size ≤ mqe.frame.flen
  · rw [findPendingMsgreq_eq v mqe .start hlen]
    cases h : findPendingReq v.mgr.rpending .start mqe.frame.xidseq with
    | none =>
      exact ⟨_, _, _, .drop (.unmatchedStarted e hb h), (Effect.refl v).recvRelease _⟩
    | some rqe =>
      by_cases he : e = 0
      · subst he
        exact ⟨_, _, _, .startedOk rqe hb h,
          (((Effect.refl v).setMgr _).send _).reqRelease rqe false⟩
      · refine ⟨_, _, _, .startedErr rqe e hb he h, ?_⟩
        simp only [Option.map_some, if_neg he]
        exact ((((Effect.refl v).setMgr _).gtabFree _).send _).reqRelease rqe false
  · have hnone : findPendingMsgreq v mqe .start = none := by
      unfold findPendingMsgreq
      rw [if_pos (by omega)]
    rw [hnone]
    exact ⟨_, _, _, .drop (.runt (by omega)), (Effect.refl v).recvRelease _⟩

/-- What broadcast_shutdown does: the children are told and the rank drains. -/
structure Shutdown (job : Job) (v v' : View) : Prop where
  mgr : v'.mgr = { v.mgr with draining := true }
  gtab : v'.gtab = v.gtab
  mgrreqq : v'.dtq.mgrreqq = v.dtq.mgrreqq
  draindown : v'.dtq.mpisqDraindown ≠ .init
  posted : v'.dtq.accepted.map toPost = v.dtq.accepted.map toPost ++
    if v.dtq.mpisqDraindown = .init then
      (binaryRouter 0 job.wsize v.mgr.mpiRank).map fun child => (child, .of 0 .bcastshutdown)
    else []
  mallocs : v.dtq.mallocs = [] → v'.dtq.mallocs = []

theorem broadcastTo_effect {v w : View} {m : Mgr} {gt : ℕ → Gtab} {out : List Post}
    (hm : v.dtq.mallocs = []) (children : List ℕ) (h : Effect v w m gt out) :
    Effect v (children.foldl broadcastTo w) m gt
      (out ++ children.map fun child => (child, .of 0 .bcastshutdown)) := by
  induction children generalizing w out with
  | nil => simpa using h
  | cons child children ih =>
    obtain ⟨addr, q, hq, hs⟩ := mqeAlloc_eq_some w.dtq (h.mallocs hm)
    have hone : Effect v (broadcastTo w child) m gt
        (out ++ [(child, .of 0 .bcastshutdown)]) := by
      unfold broadcastTo
      rw [hq]
      exact (h.setDtq hs).send _
    simpa [List.append_assoc] using ih hone

theorem broadcastShutdown_spec (job : Job) (v : View) (hm : v.dtq.mallocs = []) :
    Shutdown job v (broadcastShutdown job v) := by
  have h := broadcastTo_effect hm (binaryRouter 0 job.wsize v.mgr.mpiRank) (Effect.refl v)
  unfold broadcastShutdown
  generalize (binaryRouter 0 job.wsize v.mgr.mpiRank).foldl broadcastTo v = w at h
  refine ⟨?_, h.gtab, h.mgrreqq, ?_, ?_, h.mallocs⟩
  · simp [View.setMgr, h.mgr]
  · simp only [View.setMgr, View.setDtq, dtqNotifytimelimit, dtqSendDraindown]
    split <;> simp
  · exact h.posted

/-- Every way through process_mqe. -/
theorem processMqe_outcome (job : Job) (v v' : View) (mqe : Mqe) (err : ℕ)
    (hm : v.dtq.mallocs = []) (h : processMqe job v mqe err = some v') :
    (mqe.frame.body = .bcastshutdown ∧ Shutdown job v v') ∨
      ∃ m gt out, MqeOutcome job v mqe m gt out ∧ Effect v v' m gt out := by
  have hdrop (hd : Dropped job v mqe) :
      ∃ m gt out, MqeOutcome job v mqe m gt out ∧
        Effect v (v.setDtq (dtqRecvRelease v.dtq mqe.addr)) m gt out :=
    ⟨_, _, _, .drop hd, (Effect.refl v).recvRelease _⟩
  have hskip (hd : Dropped job v mqe) :
      ∃ m gt out, MqeOutcome job v mqe m gt out ∧ Effect v v m gt out :=
    ⟨_, _, _, .drop hd, Effect.refl v⟩
  have hrelease (w : View) (hw : ∃ m gt out, MqeOutcome job v mqe m gt out ∧ Effect v w m gt out) :
      ∃ m gt out, MqeOutcome job v mqe m gt out ∧
        Effect v (w.setDtq (dtqRecvRelease w.dtq mqe.addr)) m gt out := by
    obtain ⟨m, gt, out, ho, he⟩ := hw
    exact ⟨m, gt, out, ho, he.recvRelease _⟩
  have hhdr := mqe.frame.body.headerSize_le_size
  unfold processMqe at h
  simp only at h
  split at h
  · obtain rfl : _ = v' := by simpa using h
    exact .inr (hdrop (.runt (by omega)))
  split at h
  · rename_i hrank
    obtain rfl : _ = v' := by simpa using h
    exact .inr (hdrop (.wrongRank hrank.1 hrank.2))
  cases hb : mqe.frame.body with
  | create attrs dispIdx arg =>
    simp only [hb] at h
    split at h
    · simp only [Option.map_eq_some_iff] at h
      obtain ⟨w, hw, rfl⟩ := h
      exact .inr (hrelease w (createThread_outcome job v w mqe attrs dispIdx arg hb hm hw))
    · obtain rfl : _ = v' := by simpa using h
      exact .inr (hdrop (.runt (by rw [hb]; omega)))
  | start thread attrs =>
    simp only [hb] at h
    split at h
    · simp only [Option.map_eq_some_iff] at h
      obtain ⟨w, hw, rfl⟩ := h
      exact .inr (hrelease w (startThread_outcome job v w mqe thread attrs err hb hm hw))
    · obtain rfl : _ = v' := by simpa using h
      exact .inr (hdrop (.runt (by rw [hb]; omega)))
  | detach thread =>
    simp only [hb] at h
    split at h
    · obtain rfl : _ = v' := by simpa using h
      exact .inr (detachThread_outcome job v mqe thread hb hm)
    · obtain rfl : v = v' := by simpa using h
      exact .inr (hskip (.runt (by rw [hb]; omega)))
  | cancel thread =>
    simp only [hb] at h
    split at h
    · obtain rfl : _ = v' := by simpa using h
      exact .inr (cancelThread_outcome job v mqe thread hb)
    · obtain rfl : v = v' := by simpa using h
      exact .inr (hskip (.runt (by rw [hb]; omega)))
  | join thread =>
    simp only [hb] at h
    split at h
    · obtain rfl : _ = v' := by simpa using h
      exact .inr (joinThread_outcome job v mqe thread hb hm)
    · obtain rfl : _ = v' := by simpa using h
      exact .inr (hdrop (.runt (by rw [hb]; omega)))
  | created e newthread =>
    simp only [hb, Option.some.injEq] at h
    subst h
    refine .inr (replyRequest_outcome job v mqe .create _ (by rw [hb]; rfl) fun rqe => ?_)
    split <;> rfl
  | started e =>
    simp only [hb, Option.some.injEq] at h
    subst h
    exact .inr (startedReply_outcome job v mqe e hb)
  | detached e =>
    simp only [hb, Option.some.injEq] at h
    subst h
    exact .inr (replyRequest_outcome job v mqe .detach _ (by rw [hb]; rfl) fun rqe => rfl)
  | canceled e =>
    simp only [hb, Option.some.injEq] at h
    subst h
    exact .inr (replyRequest_outcome job v mqe .cancel _ (by rw [hb]; rfl) fun rqe => rfl)
  | joined e joinret =>
    simp only [hb, Option.some.injEq] at h
    subst h
    exact .inr (replyRequest_outcome job v mqe .join _ (by rw [hb]; rfl) fun rqe => rfl)
  | terminated thread fin =>
    simp only [hb, Option.some.injEq] at h
    subst h
    exact .inr (terminatedMsg_outcome job v mqe thread fin hb hm)
  | bcastshutdown =>
    simp only [hb, Option.some.injEq] at h
    subst h
    have hs := broadcastShutdown_spec job v hm
    exact .inl ⟨rfl, hs.mgr, hs.gtab, hs.mgrreqq, hs.draindown, hs.posted, hs.mallocs⟩
  | other code =>
    simp only [hb, Option.some.injEq] at h
    subst h
    exact .inr (hdrop (.unknown code hb))

/-- The operations process_req sends on to another manager. -/
def forwarded : Op → Bool
  | .create | .detach | .cancel | .join => true
  | _ => false

/-- The table after a local thread's end took its entry in slot `l` away. -/
def retcleanGtab (m : Mgr) (gt : ℕ → Gtab) (l : ℕ) : ℕ → Gtab :=
  if (gt (m.ltab l).gtabIdx).hasLtab = true ∧ (gt (m.ltab l).gtabIdx).ltabIdx = l ∧
      (gt (m.ltab l).gtabIdx).seq = (m.ltab l).seq then
    Function.update gt (m.ltab l).gtabIdx { gt (m.ltab l).gtabIdx with hasLtab := false }
  else gt

inductive ReqOutcome (job : Job) (v : View) (rqe : Request) :
    Mgr → (ℕ → Gtab) → List Post → Prop
  | bad (h : ∀ l, rqe.addr = .ltab l → job.nmaxthread ≤ l ∨ (v.mgr.ltab l).reqstate ≠ .busy ∨
      (forwarded rqe.reqop = false ∧ rqe.reqop ≠ .retclean ∧ rqe.reqop ≠ .app0Ret)) :
      ReqOutcome job v rqe (releaseMgr v.mgr rqe true) v.gtab []
  | forward (l : ℕ) (mqe : Mqe) (xidseq : ℕ) (haddr : rqe.addr = .ltab l)
      (hlt : l < job.nmaxthread) (hbusy : (v.mgr.ltab l).reqstate = .busy)
      (hop : forwarded rqe.reqop = true) (hmqe : rqe.mqe = some mqe)
      (hxid : findPendingReq v.mgr.rpending rqe.reqop xidseq = none)
      (hd : v.dtq.mpisqDraindown = .init) :
      ReqOutcome job v rqe
        { v.mgr with
          seqsrc := seqNext job v.mgr.mpiRank xidseq
          rpending := v.mgr.rpending ++ [{ rqe with mqe := none, xidseq := xidseq }] }
        v.gtab [(mqe.peer, { mqe.frame with xidseq := xidseq })]
  | forwardDrain (l xidseq : ℕ) (haddr : rqe.addr = .ltab l) (hlt : l < job.nmaxthread)
      (hbusy : (v.mgr.ltab l).reqstate = .busy) (hop : forwarded rqe.reqop = true)
      (hd : v.dtq.mpisqDraindown ≠ .init) :
      ReqOutcome job v rqe
        (releaseMgr { v.mgr with seqsrc := seqNext job v.mgr.mpiRank xidseq }
          { rqe with mqe := none, xidseq := xidseq, reqerror := EIO } true) v.gtab []
  | retclean (l : ℕ) (haddr : rqe.addr = .ltab l) (hlt : l < job.nmaxthread)
      (hbusy : (v.mgr.ltab l).reqstate = .busy) (hop : rqe.reqop = .retclean) :
      ReqOutcome job v rqe (releaseMgr (freeLtabMgr v.mgr l) rqe false)
        (retcleanGtab v.mgr v.gtab l)
        [(0, .of 0 (.terminated ⟨(v.mgr.ltab l).gtabIdx, (v.mgr.ltab l).seq⟩
          (v.mgr.ltab l).pthState))]
  | app0Other (l : ℕ) (haddr : rqe.addr = .ltab l) (hop : rqe.reqop = .app0Ret)
      (hrank : v.mgr.mpiRank ≠ 0) :
      ReqOutcome job v rqe (releaseMgr v.mgr rqe false) v.gtab []

theorem forwardReq_outcome (job : Job) (v v' : View) (rqe : Request) (l : ℕ)
    (haddr : rqe.addr = .ltab l) (hlt : l < job.nmaxthread)
    (hbusy : (v.mgr.ltab l).reqstate = .busy) (hop : forwarded rqe.reqop = true)
    (h : forwardReq job v rqe = some v') :
    ∃ m gt out, ReqOutcome job v rqe m gt out ∧ Effect v v' m gt out := by
  unfold forwardReq at h
  split at h
  · simp at h
  · simp at h
  · rename_i xidseq w mqe hseq hmqe
    obtain ⟨hxid, rfl⟩ := getFreeSeq_some job v rqe.reqop hseq
    have hfresh : findPendingReq v.mgr.rpending rqe.reqop xidseq = none :=
      hxid.resolve_left fun hnone => by simp [hnone, forwarded] at hop
    by_cases hd : v.dtq.mpisqDraindown = .init
    · refine ⟨_, _, _, .forward l mqe xidseq haddr hlt hbusy hop hmqe hfresh hd, ?_⟩
      obtain ⟨q, hq, hs⟩ := sendEnqueue_init v.mgr.mpiRank v.dtq
        { mqe with frame := { mqe.frame with xidseq := xidseq } } hd
      simp only [View.setMgr, hq, Option.some.injEq] at h
      subst h
      refine ⟨rfl, rfl, hs.mgrreqq, hs.draindown, ?_, fun hm => hs.mallocs.trans hm⟩
      simp only [View.setDtq, hs.accepted, List.map_append, hd, if_true, List.map_cons,
        List.map_nil, toPost]
    · refine ⟨_, _, _, .forwardDrain l xidseq haddr hlt hbusy hop hd, ?_⟩
      simp only [View.setMgr, sendEnqueue_draining _ _ _ hd, Option.some.injEq] at h
      subst h
      exact (((Effect.refl v).setMgr _).mqeUnalloc _).reqRelease _ true

theorem retcleanClear_effect {v w : View} {m : Mgr} {gt : ℕ → Gtab} {out : List Post}
    (h : Effect v w m gt out) (l : ℕ) :
    Effect v
      (if (w.gtab (w.mgr.ltab l).gtabIdx).hasLtab = true ∧
          (w.gtab (w.mgr.ltab l).gtabIdx).ltabIdx = l ∧
          (w.gtab (w.mgr.ltab l).gtabIdx).seq = (w.mgr.ltab l).seq then
        w.setGtab (w.mgr.ltab l).gtabIdx
          { w.gtab (w.mgr.ltab l).gtabIdx with hasLtab := false }
      else w) m (retcleanGtab m gt l) out := by
  obtain ⟨rfl, rfl, hq, hd, hp, hm⟩ := h
  unfold retcleanGtab
  split <;> exact ⟨rfl, rfl, hq, hd, hp, hm⟩

theorem retcleanReq_effect (v : View) (rqe : Request) (l : ℕ) (hm : v.dtq.mallocs = []) :
    Effect v (retcleanReq v rqe l) (releaseMgr (freeLtabMgr v.mgr l) rqe false)
      (retcleanGtab v.mgr v.gtab l)
      [(0, .of 0 (.terminated ⟨(v.mgr.ltab l).gtabIdx, (v.mgr.ltab l).seq⟩
        (v.mgr.ltab l).pthState))] := by
  obtain ⟨addr, q, hq, hs⟩ := mqeAlloc_eq_some v.dtq hm
  have hw := (Effect.refl v).setDtq hs
  unfold retcleanReq
  simp only [hq]
  exact (((retcleanClear_effect hw l).send _).ltabFree l).reqRelease rqe false

/-- Every way through process_req. -/
theorem processReq_outcome (job : Job) (v v' : View) (rqe : Request)
    (hm : v.dtq.mallocs = []) (h : processReq job v rqe = some v') :
    (∃ w l, rqe.reqop = .app0Ret ∧ rqe.addr = .ltab l ∧ v.mgr.mpiRank = 0 ∧
        Shutdown job v w ∧ v' = dtqReqRelease w rqe false) ∨
      ∃ m gt out, ReqOutcome job v rqe m gt out ∧ Effect v v' m gt out := by
  unfold processReq at h
  split at h
  · rename_i n haddr
    obtain rfl : _ = v' := by simpa using h
    exact .inr ⟨_, _, _, .bad (by simp [haddr]), (Effect.refl v).reqRelease rqe true⟩
  rename_i l haddr
  split at h
  · rename_i hbad
    obtain rfl : _ = v' := by simpa using h
    refine .inr ⟨_, _, _, .bad fun l' hl' => ?_, (Effect.refl v).reqRelease rqe true⟩
    obtain rfl : l = l' := by simpa [haddr] using hl'
    tauto
  rename_i hgood
  push Not at hgood
  obtain ⟨hlt, hbusy⟩ := hgood
  split at h
  · rename_i hop
    exact .inr (forwardReq_outcome job v v' rqe l haddr hlt hbusy (by rw [hop]; rfl) h)
  · rename_i hop
    exact .inr (forwardReq_outcome job v v' rqe l haddr hlt hbusy (by rw [hop]; rfl) h)
  · rename_i hop
    exact .inr (forwardReq_outcome job v v' rqe l haddr hlt hbusy (by rw [hop]; rfl) h)
  · rename_i hop
    exact .inr (forwardReq_outcome job v v' rqe l haddr hlt hbusy (by rw [hop]; rfl) h)
  · rename_i hop
    obtain rfl : _ = v' := by simpa using h
    exact .inr ⟨_, _, _, .retclean l haddr hlt hbusy hop, retcleanReq_effect v rqe l hm⟩
  · rename_i hop
    obtain rfl : _ = v' := by simpa using h
    by_cases hrank : v.mgr.mpiRank = 0
    · refine .inl ⟨_, l, hop, haddr, hrank, broadcastShutdown_spec job v hm, ?_⟩
      simp [hrank]
    · refine .inr ⟨_, _, _, .app0Other l haddr hop hrank, ?_⟩
      simpa [hrank] using (Effect.refl v).reqRelease rqe false
  · rename_i hcreate hdetach hcancel hjoin hretclean happ0
    obtain rfl : _ = v' := by simpa using h
    refine .inr ⟨_, _, _, .bad fun l' hl' => .inr (.inr ⟨?_, hretclean, happ0⟩),
      (Effect.refl v).reqRelease rqe true⟩
    unfold forwarded
    split <;> simp_all

end Dthread.ManagerOutcomes
