import Mathlib.Logic.Relation
import Dthread.ManagerEffects

/-!
The handlers of a manager as sequences of elementary operations: allocations,
releases and list insertions of buffers and requests, and calls on the tables.
A buffer or request that was taken off a list and not put on another one is in
the handler's hands. What holds after every such operation holds throughout a
handler, and what the hands hold at its end tells what it has lost.
-/
namespace Dthread.HandlerSteps

open ReqMsg Queuing ManagerTables ManagerHandlers ManagerEffects

/-- A point inside a handler: the buffers and requests in its hands, and the
state. -/
structure Work where
  bufs : List ℕ
  reqs : List Request
  view : View

/-- Nothing moves between the lists of buffers and requests, no request changes
state, and the slots of the global table keep their generations. -/
structure Untouched (v v' : View) : Prop where
  rank : v'.mgr.mpiRank = v.mgr.mpiRank
  seqsrc : v'.mgr.seqsrc = v.mgr.seqsrc
  allocated : ∀ i, (v'.gtab i).allocated = (v.gtab i).allocated
  seq : ∀ i, (v'.gtab i).seq = (v.gtab i).seq
  rpending : v'.mgr.rpending = v.mgr.rpending
  reqstate : ∀ l, (v'.mgr.ltab l).reqstate = (v.mgr.ltab l).reqstate
  mgrreqq : v'.dtq.mgrreqq = v.dtq.mgrreqq
  reqfree : v'.dtq.reqfree = v.dtq.reqfree
  nreq : v'.dtq.nreq = v.dtq.nreq
  mpisendq : v'.dtq.mpisendq = v.dtq.mpisendq
  mpirecvq : v'.dtq.mpirecvq = v.dtq.mpirecvq
  mqefree : v'.dtq.mqefree = v.dtq.mqefree
  nmqe : v'.dtq.nmqe = v.dtq.nmqe

inductive Prim (job : Job) : Work → Work → Prop
  | mqeAlloc {b r v addr q} (h : dtqMqeAlloc v.dtq = (some addr, q)) :
      Prim job ⟨b, r, v⟩ ⟨addr :: b, r, v.setDtq q⟩
  | mqeAllocFail {b r v q} (h : dtqMqeAlloc v.dtq = (none, q)) :
      Prim job ⟨b, r, v⟩ ⟨b, r, v.setDtq q⟩
  | mqeUnalloc {addr b r v} :
      Prim job ⟨addr :: b, r, v⟩ ⟨b, r, v.setDtq (dtqMqeUnalloc v.dtq addr)⟩
  | recvRelease {addr b r v} :
      Prim job ⟨addr :: b, r, v⟩ ⟨b, r, v.setDtq (dtqRecvRelease v.dtq addr)⟩
  | sendEnqueue (mqe : Mqe) {b r v q} (h : dtqSendEnqueue v.mgr.mpiRank v.dtq mqe = (none, q)) :
      Prim job ⟨mqe.addr :: b, r, v⟩ ⟨b, r, v.setDtq q⟩
  | reqAlloc {b r v n q} (h : dtqReqAlloc v.dtq = (some n, q)) :
      Prim job ⟨b, r, v⟩ ⟨b, internalRequest n :: r, v.setDtq q⟩
  | reqAllocFail {b r v q} (h : dtqReqAlloc v.dtq = (none, q)) :
      Prim job ⟨b, r, v⟩ ⟨b, r, v.setDtq q⟩
  | reqFill {b r v} {rqe : Request} (rqe' : Request) (h : rqe'.addr = rqe.addr) :
      Prim job ⟨b, rqe :: r, v⟩ ⟨b, rqe' :: r, v⟩
  | reqRelease {b r v} {rqe : Request} (notify : Bool) :
      Prim job ⟨b, rqe :: r, v⟩ ⟨b, r, dtqReqRelease v rqe notify⟩
  | pend {b r v} {rqe : Request}
      (h : rqe.reqop = .joinwait ∨ findPendingReq v.mgr.rpending rqe.reqop rqe.xidseq = none) :
      Prim job ⟨b, rqe :: r, v⟩
        ⟨b, r, v.setMgr { v.mgr with rpending := v.mgr.rpending ++ [rqe] }⟩
  | unpend {b r v f} {rqe : Request} (h : v.mgr.rpending.find? f = some rqe) :
      Prim job ⟨b, r, v⟩
        ⟨b, rqe :: r, v.setMgr { v.mgr with rpending := v.mgr.rpending.eraseP f }⟩
  -- slots of the global table are taken and freed at rank 0 only
  | gtabAlloc {b r v v'} (rank dispIdx i : ℕ) (arg : Argret) (hrank : v.mgr.mpiRank = 0)
      (h : gtabAlloc job v rank dispIdx arg = some (some i, v')) : Prim job ⟨b, r, v⟩ ⟨b, r, v'⟩
  | gtabFree {b r v} (i : ℕ) (hrank : v.mgr.mpiRank = 0) (h : (v.gtab i).allocated = true) :
      Prim job ⟨b, r, v⟩ ⟨b, r, gtabFree v i⟩
  | getFreeSeq {b r v v'} (op : Op) (rv : ℕ) (h : getFreeSeq job v op = some (rv, v')) :
      Prim job ⟨b, r, v⟩ ⟨b, r, v'⟩
  | other {b r v v'} (h : Untouched v v') : Prim job ⟨b, r, v⟩ ⟨b, r, v'⟩

def Run (job : Job) : Work → Work → Prop := Relation.ReflTransGen (Prim job)

variable {job : Job} {v v' w : View}

namespace Untouched

theorem refl (v : View) : Untouched v v :=
  ⟨rfl, rfl, fun _ => rfl, fun _ => rfl, rfl, fun _ => rfl, rfl, rfl, rfl, rfl, rfl, rfl, rfl⟩

theorem trans (h : Untouched v w) (h' : Untouched w v') : Untouched v v' where
  rank := h'.rank.trans h.rank
  seqsrc := h'.seqsrc.trans h.seqsrc
  allocated i := (h'.allocated i).trans (h.allocated i)
  seq i := (h'.seq i).trans (h.seq i)
  rpending := h'.rpending.trans h.rpending
  reqstate l := (h'.reqstate l).trans (h.reqstate l)
  mgrreqq := h'.mgrreqq.trans h.mgrreqq
  reqfree := h'.reqfree.trans h.reqfree
  nreq := h'.nreq.trans h.nreq
  mpisendq := h'.mpisendq.trans h.mpisendq
  mpirecvq := h'.mpirecvq.trans h.mpirecvq
  mqefree := h'.mqefree.trans h.mqefree
  nmqe := h'.nmqe.trans h.nmqe

theorem setMgr {m : Mgr} (h : Untouched v w) (hrank : m.mpiRank = w.mgr.mpiRank)
    (hsrc : m.seqsrc = w.mgr.seqsrc) (hpend : m.rpending = w.mgr.rpending)
    (hltab : ∀ l, (m.ltab l).reqstate = (w.mgr.ltab l).reqstate) : Untouched v (w.setMgr m) :=
  h.trans ⟨hrank, hsrc, fun _ => rfl, fun _ => rfl, hpend, hltab, rfl, rfl, rfl, rfl, rfl, rfl, rfl⟩

theorem setLtab (h : Untouched v w) (l : ℕ) (lt : Ltab)
    (hlt : lt.reqstate = (w.mgr.ltab l).reqstate) :
    Untouched v (w.setMgr (w.mgr.setLtab l lt)) := by
  refine h.setMgr rfl rfl rfl fun k => ?_
  by_cases hk : k = l
  · subst hk
    simp [Mgr.setLtab, hlt]
  · simp [Mgr.setLtab, hk]

theorem setGtab {i : ℕ} {gt : Gtab} (h : Untouched v w)
    (halloc : gt.allocated = (w.gtab i).allocated) (hseq : gt.seq = (w.gtab i).seq) :
    Untouched v (w.setGtab i gt) := by
  refine h.trans ⟨rfl, rfl, ?_, ?_, rfl, fun _ => rfl, rfl, rfl, rfl, rfl, rfl, rfl, rfl⟩
  · intro j
    by_cases hj : j = i
    · subst hj
      simp [View.setGtab, halloc]
    · simp [View.setGtab, hj]
  · intro j
    by_cases hj : j = i
    · subst hj
      simp [View.setGtab, hseq]
    · simp [View.setGtab, hj]

theorem ltabFree (h : Untouched v w) (l : ℕ) : Untouched v (ltabFree w l) := by
  unfold ManagerTables.ltabFree
  split
  · refine (h.setLtab l { w.mgr.ltab l with
      seq := 0, pthState := .none, pc := .none } rfl).setMgr rfl rfl rfl fun _ => rfl
  · exact h

theorem cleanup (h : Untouched v w) (i : ℕ) : Untouched v (detachedRetCleanup job w i) := by
  unfold detachedRetCleanup
  simp only
  split
  · exact h
  · split
    · exact h
    · apply setGtab (h.setMgr (by rfl) (by rfl) (by rfl) (by intro l; rfl)) <;> rfl

end Untouched

theorem sendEnqueue_refused {rank : ℕ} {q q' : Dtq} {mqe mqe' : Mqe}
    (h : dtqSendEnqueue rank q mqe = (some mqe', q')) : mqe' = mqe ∧ q' = q := by
  unfold dtqSendEnqueue at h
  split at h
  · simp only [Prod.mk.injEq, Option.some.injEq] at h
    exact ⟨h.1.symm, h.2.symm⟩
  · split at h <;> simp at h

theorem Prim.rank {c c' : Work} (h : Prim job c c') :
    c'.view.mgr.mpiRank = c.view.mgr.mpiRank := by
  cases h with
  | reqRelease notify =>
    unfold dtqReqRelease
    split <;> rfl
  | gtabAlloc rank dispIdx i arg hrank h =>
    obtain ⟨-, -, rfl⟩ := gtabAlloc_taken _ _ _ _ _ _ _ h
    rfl
  | gtabFree i hrank h =>
    rw [gtabFree_eq]
    rfl
  | getFreeSeq op rv h =>
    obtain ⟨-, rfl⟩ := getFreeSeq_some _ _ _ h
    rfl
  | other h => exact h.rank
  | _ => rfl

namespace Run

variable {c : Work} {b : List ℕ} {r : List Request}

theorem other (h : Run job c ⟨b, r, v⟩) (hu : Untouched v v') : Run job c ⟨b, r, v'⟩ :=
  h.tail (.other hu)

/-- Sending a buffer, or taking it back while draining. -/
theorem send (mqe : Mqe) (h : Run job c ⟨mqe.addr :: b, r, v⟩) :
    Run job c ⟨b, r, sendOrUnalloc v mqe⟩ := by
  unfold sendOrUnalloc
  split
  · rename_i q hq
    exact h.tail (.sendEnqueue mqe hq)
  · rename_i mqe' q hq
    obtain ⟨rfl, rfl⟩ := sendEnqueue_refused hq
    exact h.tail .mqeUnalloc

theorem rank {c c' : Work} (h : Run job c c') :
    c'.view.mgr.mpiRank = c.view.mgr.mpiRank := by
  induction h with
  | refl => rfl
  | tail _ hp ih => exact hp.rank.trans ih

theorem free (h : Run job c ⟨b, r, v⟩) (hrank : c.view.mgr.mpiRank = 0) (i : ℕ) :
    Run job c ⟨b, r, gtabFree v i⟩ := by
  by_cases halloc : (v.gtab i).allocated = true
  · exact h.tail (.gtabFree i (h.rank.trans hrank) halloc)
  · unfold gtabFree
    rw [if_neg halloc]
    exact h

theorem createdError (h : Run job c ⟨b, r, v⟩) (mqe : Mqe) (e : ℕ) :
    Run job c ⟨b, r, sendCreatedError job v mqe e⟩ := by
  unfold sendCreatedError
  split
  · rename_i q hq
    exact h.tail (.mqeAllocFail hq)
  · rename_i addr q hq
    exact Run.send ⟨addr, _, _⟩ (h.tail (.mqeAlloc hq))

theorem joinwaitEnd {rqe : Request} (h : Run job c ⟨b, rqe :: r, v⟩) :
    Run job c ⟨b, r, joinwaitEndRelease v rqe⟩ := by
  unfold joinwaitEndRelease
  split
  · exact h.tail (.reqRelease true)
  · split
    · rename_i q hq
      exact (h.tail (.mqeAllocFail hq)).tail (.reqRelease true)
    · rename_i addr q hq
      exact (Run.send ⟨addr, _, _⟩ (h.tail (.mqeAlloc hq))).tail (.reqRelease true)

/-- joinwait_search with removal: the request it finds is in the hands. -/
theorem joinwaitTake (h : Run job c ⟨b, r, v⟩) (thread : DThread) :
    Run job c ⟨b, (joinwaitSearch v thread).toList ++ r, joinwaitRemove v thread⟩ := by
  cases hfind : joinwaitSearch v thread with
  | some rqe => exact h.tail (.unpend hfind)
  | none =>
    refine h.other ((Untouched.refl v).setMgr rfl rfl ?_ fun _ => rfl)
    exact List.eraseP_of_forall_not (List.find?_eq_none.mp hfind)

end Run

section Handlers

variable {b : List ℕ} {r : List Request}

theorem createStart_run {mqe : Mqe} {attrs : Attr} {target n addr gidx : ℕ}
    (hrank : v.mgr.mpiRank = 0)
    (h : createStart job v mqe attrs target n addr gidx = some v') :
    Run job ⟨addr :: b, internalRequest n :: r, v⟩ ⟨b, r, v'⟩ := by
  unfold createStart at h
  simp only [Option.map_eq_some_iff, Prod.exists] at h
  obtain ⟨xidseq, u, hseq, rfl⟩ := h
  obtain ⟨hfree, rfl⟩ := getFreeSeq_some _ _ _ hseq
  set u := v.setMgr { v.mgr with seqsrc := seqNext job v.mgr.mpiRank xidseq } with hu
  set startreq := startRequest n target xidseq
    ⟨⟨gidx, (u.gtab gidx).seq⟩, mqe.peer, mqe.frame.xidseq⟩ with hreq
  have hseq' : Run job ⟨addr :: b, internalRequest n :: r, v⟩
      ⟨addr :: b, internalRequest n :: r, u⟩ := .single (.getFreeSeq _ _ hseq)
  have hdraw := hseq'.tail (.reqFill startreq rfl)
  have hnew : findPendingReq u.mgr.rpending .start xidseq = none := by
    rcases hfree with hnone | hnew
    · cases hnone
    · exact hnew
  split
  · rename_i q hq
    have hsent := hdraw.tail (.sendEnqueue _ hq)
    have hstarting : Untouched (u.setDtq q) ((u.setDtq q).setMgr { u.mgr with
        threadsStarting := u.mgr.threadsStarting + 1 }) :=
      (Untouched.refl _).setMgr rfl rfl rfl fun _ => rfl
    have hcount := Run.other hsent hstarting
    exact hcount.tail (.pend (.inr hnew))
  · rename_i startmqe q hq
    obtain ⟨rfl, rfl⟩ := sendEnqueue_refused hq
    have hback := (hdraw.tail (.reqRelease false)).tail .mqeUnalloc
    exact (Run.free hback hrank gidx).createdError mqe EIO

/-- create_thread keeps nothing of its own. The CREATE is left to the caller. -/
theorem createThread_run {mqe : Mqe} {attrs : Attr} {dispIdx : ℕ} {arg : Argret}
    (hrank : v.mgr.mpiRank = 0) (h : createThread job v mqe attrs dispIdx arg = some v') :
    Run job ⟨b, r, v⟩ ⟨b, r, v'⟩ := by
  have hfail {w : View} {e : ℕ} (heq : some (sendCreatedError job w mqe e) = some v')
      (hw : Run job ⟨b, r, v⟩ ⟨b, r, w⟩) : Run job ⟨b, r, v⟩ ⟨b, r, v'⟩ := by
    obtain rfl : sendCreatedError job w mqe e = v' := by simpa using heq
    exact hw.createdError mqe e
  have hnext : Run job ⟨b, r, v⟩
      ⟨b, r, v.setMgr { v.mgr with nextRank := (v.mgr.nextRank + 1) % job.wsize }⟩ :=
    .single (.other ((Untouched.refl v).setMgr rfl rfl rfl fun _ => rfl))
  unfold createThread at h
  split at h
  · exact hfail h .refl
  split at h
  · exact hfail h .refl
  simp only at h
  split at h
  · rename_i q hn
    exact hfail h (hnext.tail (.reqAllocFail hn))
  rename_i n q hn
  have hreq := hnext.tail (.reqAlloc hn)
  split at h
  · rename_i q' haddr
    exact hfail h ((hreq.tail (.mqeAllocFail haddr)).tail (.reqRelease false))
  rename_i addr q' haddr
  have hmqe := hreq.tail (.mqeAlloc haddr)
  split at h
  · simp at h
  · rename_i w hfull
    obtain rfl := gtabAlloc_full _ _ _ _ _ _ hfull
    exact hfail h ((hmqe.tail (.reqRelease false)).tail .mqeUnalloc)
  · rename_i gidx w htaken
    have htake := hmqe.tail (.gtabAlloc _ _ _ _ hrank htaken)
    exact htake.trans (createStart_run ((Run.rank htake).trans hrank) h)

theorem findPendingMsgreq_prim {mqe : Mqe} {op : Op} {rqe : Request}
    (h : findPendingMsgreq v mqe op = some (rqe, w)) :
    Prim job ⟨b, r, v⟩ ⟨b, rqe :: r, w⟩ := by
  unfold findPendingMsgreq at h
  split at h
  · simp at h
  · split at h
    · simp at h
    · rename_i rqe' hfind
      simp only [Option.some.injEq, Prod.mk.injEq] at h
      obtain ⟨rfl, rfl⟩ := h
      exact .unpend hfind

theorem startedReply_run (v : View) (hrank : v.mgr.mpiRank = 0) (mqe : Mqe) (e : ℕ) :
    Run job ⟨mqe.addr :: b, r, v⟩ ⟨b, r, startedReply v mqe e⟩ := by
  unfold startedReply
  split
  · exact .single .recvRelease
  · rename_i rqe w hfind
    have hdown : Run job ⟨mqe.addr :: b, r, v⟩ ⟨mqe.addr :: b, rqe :: r, w.setMgr { w.mgr with
        threadsStarting := w.mgr.threadsStarting - 1 }⟩ :=
      (Relation.ReflTransGen.single (findPendingMsgreq_prim hfind)).tail
        (.other ((Untouched.refl w).setMgr rfl rfl rfl fun _ => rfl))
    refine Relation.ReflTransGen.tail (Run.send { mqe.recycle _ _ with peer := _ } ?_)
      (.reqRelease false)
    by_cases he : e = 0
    · simp only [he, if_true]
      exact hdown.other ((Untouched.refl _).setMgr rfl rfl rfl fun _ => rfl)
    · simp only [he, if_false]
      exact hdown.free hrank _

theorem detachThread_run (v : View) (mqe : Mqe) (thread : DThread) :
    Run job ⟨mqe.addr :: b, r, v⟩ ⟨b, r, detachThread job v mqe thread⟩ := by
  unfold detachThread
  split
  · exact Run.send (mqe.recycle _ _) .refl
  · rename_i i _
    have hmark : Run job ⟨mqe.addr :: b, r, v⟩
        ⟨mqe.addr :: b, r, v.setGtab i { v.gtab i with detached := true }⟩ :=
      .single (.other ((Untouched.refl v).setGtab rfl rfl))
    have htake := hmark.joinwaitTake thread
    have hsend := Run.send (mqe.recycle mqe.frame.xidseq (.detached 0)) htake
    simp only
    split
    · rename_i hnone
      rwa [hnone] at hsend
    · rename_i rqe hsome
      rw [hsome] at hsend
      exact Run.joinwaitEnd (hsend.tail (.reqFill _ rfl))

theorem cancelThread_run (v : View) (mqe : Mqe) (thread : DThread) :
    Run job ⟨mqe.addr :: b, r, v⟩ ⟨b, r, cancelThread job v mqe thread⟩ := by
  unfold cancelThread
  simp only
  split
  · exact Run.send (mqe.recycle _ _) .refl
  split
  · exact Run.send (mqe.recycle _ _) .refl
  split
  · refine Run.send (mqe.recycle _ _) (.single (.other ?_))
    apply Untouched.setLtab (.refl v)
    unfold cancelLtab
    split <;> rfl
  · exact Run.send (mqe.recycle _ _) .refl

theorem joinThread_run (v : View) (hrank : v.mgr.mpiRank = 0) (mqe : Mqe) (thread : DThread) :
    Run job ⟨mqe.addr :: b, r, v⟩ ⟨b, r, joinThread job v mqe thread⟩ := by
  unfold joinThread
  simp only
  split
  · exact Run.send (mqe.recycle _ _) .refl
  split
  · exact Run.send (mqe.recycle _ _) .refl
  split
  · exact (Run.send (mqe.recycle _ _) .refl).free hrank _
  split
  · exact Run.send (mqe.recycle _ _) .refl
  split
  · rename_i q hq
    exact Run.send (mqe.recycle _ _) (.single (.reqAllocFail hq))
  · rename_i n q hq
    have hreq : Run job ⟨mqe.addr :: b, r, v⟩ ⟨mqe.addr :: b, internalRequest n :: r, v.setDtq q⟩ :=
      .single (.reqAlloc hq)
    have hfill := hreq.tail (.reqFill
      (joinwaitRequest n mqe.peer mqe.frame.xidseq thread) rfl)
    exact (hfill.tail .recvRelease).tail (.pend (.inl rfl))

theorem terminatedThread_run (v : View) (hrank : v.mgr.mpiRank = 0) (thread : DThread)
    (fin : LtState) :
    Run job ⟨b, r, v⟩ ⟨b, r, terminatedThread job v thread fin⟩ := by
  obtain ⟨w, hw⟩ : ∃ w, w = (v.setGtab thread.dtIndex { v.gtab thread.dtIndex with
      terminated := fin, hasLtab := false }).setMgr
      { v.mgr with threadsRunning := v.mgr.threadsRunning - 1 } := ⟨_, rfl⟩
  have hmark : Untouched v w := by
    rw [hw]
    exact ((Untouched.refl v).setGtab (by rfl) (by rfl)).setMgr (by rfl) (by rfl) (by rfl)
      (by intro l; rfl)
  have htake := Run.joinwaitTake (.single (.other hmark) : Run job ⟨b, r, v⟩ ⟨b, r, w⟩) thread
  -- the waiter is answered, the return value is freed, and the entry is freed
  have hclean {w : View} (hw : Run job ⟨b, r, v⟩ ⟨b, r, w⟩) (det : Bool) :
      Run job ⟨b, r, v⟩
        ⟨b, r, if det then detachedRetCleanup job w thread.dtIndex else w⟩ := by
    split
    · exact hw.other ((Untouched.refl w).cleanup _)
    · exact hw
  unfold terminatedThread
  simp only [← hw]
  cases hrqe : joinwaitSearch w thread with
  | none =>
    rw [hrqe] at htake
    split
    · exact (hclean htake _).free hrank _
    · exact hclean htake _
  | some rqe =>
    rw [hrqe] at htake
    have hanswer (det : Bool) : Run job ⟨b, r, v⟩ ⟨b, r, joinwaitEndRelease
        (joinwaitRemove w thread) (if det then { rqe with reqerror := EINVAL } else rqe)⟩ :=
      Run.joinwaitEnd (htake.tail (.reqFill _ (by split <;> rfl)))
    split
    · exact (hclean (hanswer _) _).free hrank _
    · exact hclean (hanswer _) _

theorem terminatedMsg_run (v : View) (hrank : v.mgr.mpiRank = 0) (mqe : Mqe) (thread : DThread)
    (fin : LtState) :
    Run job ⟨mqe.addr :: b, r, v⟩ ⟨b, r, terminatedMsg job v mqe thread fin⟩ := by
  unfold terminatedMsg
  refine Relation.ReflTransGen.tail ?_ .recvRelease
  split
  · exact .refl
  split
  · exact .refl
  split
  · exact .refl
  · exact terminatedThread_run v hrank thread fin

theorem broadcastShutdown_run (v : View) :
    Run job ⟨b, r, v⟩ ⟨b, r, broadcastShutdown job v⟩ := by
  have hto {w : View} (hw : Run job ⟨b, r, v⟩ ⟨b, r, w⟩) (child : ℕ) :
      Run job ⟨b, r, v⟩ ⟨b, r, broadcastTo w child⟩ := by
    unfold broadcastTo
    split
    · rename_i q hq
      exact hw.tail (.mqeAllocFail hq)
    · rename_i addr q hq
      exact Run.send ⟨addr, _, _⟩ (hw.tail (.mqeAlloc hq))
  have hall (children : List ℕ) {w : View} (hw : Run job ⟨b, r, v⟩ ⟨b, r, w⟩) :
      Run job ⟨b, r, v⟩ ⟨b, r, children.foldl broadcastTo w⟩ := by
    induction children generalizing w with
    | nil => exact hw
    | cons child children ih => exact ih (hto hw child)
  refine (hall (binaryRouter 0 job.wsize v.mgr.mpiRank) .refl).other ?_
  exact ⟨rfl, rfl, fun _ => rfl, fun _ => rfl, rfl, fun _ => rfl, rfl, rfl, rfl, rfl, rfl, rfl, rfl⟩

theorem startThread_run {mqe : Mqe} {thread : DThread} {err : ℕ}
    (h : startThread job v mqe thread err = some v') : Run job ⟨b, r, v⟩ ⟨b, r, v'⟩ := by
  unfold startThread at h
  split at h
  · rename_i q hq
    obtain rfl : v.setDtq q = v' := by simpa using h
    exact .single (.mqeAllocFail hq)
  · rename_i addr q hq
    have hmqe : Run job ⟨b, r, v⟩ ⟨addr :: b, r, v.setDtq q⟩ := .single (.mqeAlloc hq)
    simp only at h
    split at h
    · obtain rfl : _ = v' := by simpa using h
      exact Run.send ⟨addr, _, _⟩ hmqe
    · split at h
      · simp at h
      · simp at h
      · rename_i l w htaken
        obtain ⟨-, -, rfl⟩ := ltabAlloc_taken _ _ _ _ _ htaken
        have hinst : Untouched (v.setDtq q) (ltabInstall (v.setDtq q) thread l) :=
          ((Untouched.refl (v.setDtq q)).setLtab l { v.mgr.ltab l with
            gtabIdx := thread.dtIndex, seq := thread.dtSeq, pthState := .starting } rfl).setMgr
            rfl rfl rfl fun _ => rfl
        split at h
        · obtain rfl : _ = v' := by simpa using h
          exact Run.send ⟨addr, _, _⟩ (hmqe.other (hinst.setLtab _ _ (by rfl)))
        · obtain rfl : _ = v' := by simpa using h
          exact Run.send ⟨addr, _, _⟩ (hmqe.other (hinst.ltabFree _))

theorem replyRequest_run (v : View) (mqe : Mqe) (op : Op) (store : Request → Request)
    (hstore : ∀ rqe, (store rqe).addr = rqe.addr) :
    Run job ⟨mqe.addr :: b, r, v⟩ ⟨b, r, replyRequest v mqe op store⟩ := by
  unfold replyRequest
  split
  · exact .single .recvRelease
  · rename_i rqe w hfind
    have hfound : Run job ⟨mqe.addr :: b, r, v⟩ ⟨mqe.addr :: b, store rqe :: r, w⟩ :=
      (Relation.ReflTransGen.single (findPendingMsgreq_prim hfind)).tail (.reqFill _ (hstore rqe))
    exact (hfound.tail (.reqRelease true)).tail .recvRelease

/-- A DETACH on rank 0, or a CANCEL, that is too short for its message. -/
def RuntRequest (v : View) (mqe : Mqe) : Prop :=
  headerSize ≤ mqe.frame.flen ∧ mqe.frame.flen < mqe.frame.body.size ∧
    (mqe.frame.body.op = .cancel ∨ mqe.frame.body.op = .detach ∧ v.mgr.mpiRank = 0)

instance (v : View) (mqe : Mqe) : Decidable (RuntRequest v mqe) :=
  inferInstanceAs (Decidable (_ ∧ _ ∧ (_ ∨ _ ∧ _)))

theorem processMqe_runt {mqe : Mqe} {err : ℕ} (h : RuntRequest v mqe) :
    processMqe job v mqe err = some v := by
  obtain ⟨hlen, hshort, hop⟩ := h
  unfold processMqe
  simp only
  rw [if_neg (by omega)]
  rcases hop with hcancel | ⟨hdetach, hrank⟩
  · cases hb : mqe.frame.body <;> simp_all [Body.op, rank0Only]
  · cases hb : mqe.frame.body <;> simp_all [Body.op, rank0Only]

/-- process_mqe passes every buffer on, except for those runts. -/
theorem processMqe_run {mqe : Mqe} {err : ℕ} (h : processMqe job v mqe err = some v')
    (hr : ¬ RuntRequest v mqe) : Run job ⟨mqe.addr :: b, r, v⟩ ⟨b, r, v'⟩ := by
  have hrelease {w w' : View} (hw : Run job ⟨mqe.addr :: b, r, v⟩ ⟨mqe.addr :: b, r, w⟩)
      (heq : some (w.setDtq (dtqRecvRelease w.dtq mqe.addr)) = some w') :
      Run job ⟨mqe.addr :: b, r, v⟩ ⟨b, r, w'⟩ := by
    obtain rfl : w.setDtq (dtqRecvRelease w.dtq mqe.addr) = w' := by simpa using heq
    exact hw.tail .recvRelease
  unfold processMqe at h
  simp only at h
  split at h
  · exact hrelease .refl h
  rename_i hlen
  split at h
  · exact hrelease .refl h
  rename_i hrank
  have hrank0 (hop : rank0Only mqe.frame.body.op = true) : v.mgr.mpiRank = 0 := by
    by_contra hne
    exact hrank ⟨hne, hop⟩
  split at h
  · -- CREATE
    rename_i attrs dispIdx arg hbody
    split at h
    · obtain ⟨w, hw, heq⟩ := Option.map_eq_some_iff.mp h
      exact hrelease (createThread_run (hrank0 (by rw [hbody]; rfl)) hw) (congrArg some heq)
    · exact hrelease .refl h
  · obtain rfl := Option.some.inj h
    exact replyRequest_run _ _ _ _ (fun rqe => by split <;> rfl)
  · -- START
    split at h
    · obtain ⟨w, hw, heq⟩ := Option.map_eq_some_iff.mp h
      exact hrelease (startThread_run hw) (congrArg some heq)
    · exact hrelease .refl h
  · rename_i e hbody
    obtain rfl := Option.some.inj h
    exact startedReply_run _ (hrank0 (by rw [hbody]; rfl)) _ _
  · -- DETACH
    rename_i thread hbody
    split at h
    · obtain rfl := Option.some.inj h
      exact detachThread_run _ _ _
    · rename_i hshort
      have hop : mqe.frame.body.op = .detach := by rw [hbody]; rfl
      exact absurd ⟨by omega, by omega, Or.inr ⟨hop, hrank0 (by rw [hop]; rfl)⟩⟩ hr
  · obtain rfl := Option.some.inj h
    exact replyRequest_run _ _ _ _ (fun rqe => rfl)
  · -- CANCEL
    rename_i thread hbody
    split at h
    · obtain rfl := Option.some.inj h
      exact cancelThread_run _ _ _
    · exact absurd ⟨by omega, by omega, Or.inl (by rw [hbody]; rfl)⟩ hr
  · obtain rfl := Option.some.inj h
    exact replyRequest_run _ _ _ _ (fun rqe => rfl)
  · -- JOIN
    rename_i thread hbody
    split at h
    · obtain rfl := Option.some.inj h
      exact joinThread_run _ (hrank0 (by rw [hbody]; rfl)) _ _
    · exact hrelease .refl h
  · obtain rfl := Option.some.inj h
    exact replyRequest_run _ _ _ _ (fun rqe => rfl)
  · rename_i thread fin hbody
    obtain rfl := Option.some.inj h
    exact terminatedMsg_run _ (hrank0 (by rw [hbody]; rfl)) _ _ _
  · exact hrelease (broadcastShutdown_run v) h
  · exact hrelease .refl h

/-- A request in the hands of process_req, with the buffer it carries. -/
def carried (rqe : Request) : List ℕ := rqe.mqe.toList.map Mqe.addr

theorem forwardReq_run {rqe : Request} (h : forwardReq job v rqe = some v')
    (hop : rqe.reqop ≠ .none) : Run job ⟨carried rqe ++ b, rqe :: r, v⟩ ⟨b, r, v'⟩ := by
  unfold forwardReq at h
  split at h
  · simp at h
  · simp at h
  · rename_i xidseq u mqe hseq hmqe
    have hnew : findPendingReq u.mgr.rpending rqe.reqop xidseq = none := by
      obtain ⟨hfree, rfl⟩ := getFreeSeq_some _ _ _ hseq
      exact hfree.resolve_left hop
    have hdraw : Run job ⟨carried rqe ++ b, rqe :: r, v⟩ ⟨mqe.addr :: b, rqe :: r, u⟩ := by
      rw [carried, hmqe]
      exact .single (.getFreeSeq _ _ hseq)
    have hfill := hdraw.tail (.reqFill { rqe with mqe := none, xidseq := xidseq } rfl)
    simp only at h
    split at h
    · rename_i q hq
      obtain rfl := Option.some.inj h
      have hsend := hfill.tail (.sendEnqueue
        { mqe with frame := { mqe.frame with xidseq := xidseq } } hq)
      exact hsend.tail (.pend (.inr hnew))
    · rename_i mqe' q hq
      obtain ⟨rfl, rfl⟩ := sendEnqueue_refused hq
      obtain rfl := Option.some.inj h
      exact ((hfill.tail .mqeUnalloc).tail (.reqFill { rqe with
        mqe := none, xidseq := xidseq, reqerror := EIO } rfl)).tail (.reqRelease true)

theorem retcleanReq_run (v : View) (rqe : Request) (l : ℕ) :
    Run job ⟨b, rqe :: r, v⟩ ⟨b, r, retcleanReq v rqe l⟩ := by
  unfold retcleanReq
  split
  · rename_i q hq
    exact (Relation.ReflTransGen.single (.mqeAllocFail hq)).tail (.reqRelease false)
  · rename_i addr q hq
    have hmqe : Run job ⟨b, rqe :: r, v⟩ ⟨addr :: b, rqe :: r, v.setDtq q⟩ :=
      .single (.mqeAlloc hq)
    simp only
    refine Relation.ReflTransGen.tail (Run.other (Run.send ⟨addr, _, _⟩ ?_)
      ((Untouched.refl _).ltabFree l)) (.reqRelease false)
    split
    · exact hmqe.other ((Untouched.refl _).setGtab (by rfl) (by rfl))
    · exact hmqe

/-- process_req answers, keeps or forwards its request; only a request that is
not to be forwarded may leave its buffer behind. -/
theorem processReq_run {rqe : Request} (h : processReq job v rqe = some v') :
    ∃ b', Run job ⟨carried rqe ++ b, rqe :: r, v⟩ ⟨b', r, v'⟩ := by
  have hrelease {w : View} (notify : Bool) (hw : Run job ⟨carried rqe ++ b, rqe :: r, v⟩
      ⟨carried rqe ++ b, rqe :: r, w⟩) (heq : some (dtqReqRelease w rqe notify) = some v') :
      ∃ b', Run job ⟨carried rqe ++ b, rqe :: r, v⟩ ⟨b', r, v'⟩ := by
    obtain rfl := Option.some.inj heq
    exact ⟨_, hw.tail (.reqRelease notify)⟩
  unfold processReq at h
  split at h
  · exact hrelease true .refl h
  split at h
  · exact hrelease true .refl h
  split at h
  · rename_i hop
    exact ⟨b, forwardReq_run h (by rw [hop]; nofun)⟩
  · rename_i hop
    exact ⟨b, forwardReq_run h (by rw [hop]; nofun)⟩
  · rename_i hop
    exact ⟨b, forwardReq_run h (by rw [hop]; nofun)⟩
  · rename_i hop
    exact ⟨b, forwardReq_run h (by rw [hop]; nofun)⟩
  · obtain rfl := Option.some.inj h
    exact ⟨_, retcleanReq_run v rqe _⟩
  · simp only at h
    split at h
    · exact hrelease false .refl h
    · exact hrelease false (broadcastShutdown_run v) h
  · exact hrelease true .refl h

end Handlers

end Dthread.HandlerSteps
