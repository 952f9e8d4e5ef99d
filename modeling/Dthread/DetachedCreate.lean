import Dthread.Joins

/-!
Threads that are created detached. create_thread rewrites a detached attribute
to joinable in the START it sends and nothing else looks at the attribute, so
the new entry of the table is that of a joinable thread.
-/
namespace Dthread.DetachedCreate

open ReqMsg Queuing ManagerTables ManagerHandlers ManagerEffects ManagerOutcomes JobSystem
open TableWrites Rank0Runs Joins FifoNet

/-- The messages that may concern a thread after its creation. -/
def isLater : Body → Bool
  | .join _ | .cancel _ | .terminated _ _ => true
  | _ => false

/-- What each of the messages, handled in turn from `v`, makes the manager send,
and whether slot `i` is taken after it. -/
def responses (job : Job) (i : ℕ) : View → List Mqe → List (List Post × Bool)
  | _, [] => []
  | v, mqe :: later =>
    match processMqe job v mqe 0 with
    | none => []
    | some v' =>
      ((v'.dtq.accepted.map toPost).drop v.dtq.accepted.length, (v'.gtab i).allocated) ::
        responses job i v' later

/-- Two runs of rank 0 show the same behaviour of slot `i` from these states on,
whatever JOIN, CANCEL and TERMINATED messages come. -/
def BehavesAlike (job : Job) (i : ℕ) (v w : View) : Prop :=
  ∀ later : List Mqe, (∀ mqe ∈ later, isLater mqe.frame.body = true) →
    responses job i v later = responses job i w later

/-- One message treats the thread as detached: a JOIN for its entry is refused
with EINVAL, and its TERMINATED leaves the slot free. -/
structure AsDetached (job : Job) (thread : DThread) (mqe : Mqe) (v v' : View) : Prop where
  join : mqe.frame.body = .join thread → mqe.frame.body.size ≤ mqe.frame.flen →
    dt2gtab job v.gtab thread = some thread.dtIndex →
    v'.dtq.accepted.map toPost = v.dtq.accepted.map toPost ++
      if v.dtq.mpisqDraindown = .init then
        [(mqe.peer, .of mqe.frame.xidseq (.joined EINVAL nodata))]
      else []
  terminated : ∀ fin, mqe.frame.body = .terminated thread fin →
    mqe.frame.flen = mqe.frame.body.size → fin ≠ .running →
    (v.gtab thread.dtIndex).seq = thread.dtSeq → (v'.gtab thread.dtIndex).allocated = false

/-- Every one of the messages, handled in turn from `v`, treats the thread as
detached. -/
def BehavesDetached (job : Job) (thread : DThread) : View → List Mqe → Prop
  | _, [] => True
  | v, mqe :: later => ∃ v', processMqe job v mqe 0 = some v' ∧ AsDetached job thread mqe v v' ∧
      BehavesDetached job thread v' later

section Pending

@[simp] theorem dtqReqRelease_rpending (v : View) (req : Request) (notify : Bool) :
    (dtqReqRelease v req notify).mgr.rpending = v.mgr.rpending := by
  unfold dtqReqRelease
  split <;> rfl

@[simp] theorem joinwaitEndRelease_rpending (v : View) (rqe : Request) :
    (joinwaitEndRelease v rqe).mgr.rpending = v.mgr.rpending := by
  unfold joinwaitEndRelease
  split
  · simp
  · split
    · simp [View.setDtq]
    · simp [View.setDtq]

@[simp] theorem gtabFree_rpending (v : View) (i : ℕ) :
    (gtabFree v i).mgr.rpending = v.mgr.rpending := by
  rw [gtabFree_eq]
  rfl

@[simp] theorem detachedRetCleanup_rpending (job : Job) (v : View) (i : ℕ) :
    (detachedRetCleanup job v i).mgr.rpending = v.mgr.rpending := by
  unfold detachedRetCleanup
  simp only
  split
  · rfl
  · split <;> rfl

theorem terminatedThread_rpending (job : Job) (v : View) (thread : DThread) (fin : LtState) :
    (terminatedThread job v thread fin).mgr.rpending =
      v.mgr.rpending.eraseP (joinwaitMatch thread) := by
  have hnoted : (endNoted v thread fin).mgr.rpending =
      v.mgr.rpending.eraseP (joinwaitMatch thread) := rfl
  rw [terminatedThread_eq]
  cases (v.gtab thread.dtIndex).detached <;> cases joinwaitSearch v thread <;> simp [hnoted]

theorem detachThread_rpending {job : Job} {v : View} {thread : DThread} {i : ℕ} (mqe : Mqe)
    (h : dt2gtab job v.gtab thread = some i) :
    (detachThread job v mqe thread).mgr.rpending =
      v.mgr.rpending.eraseP (joinwaitMatch thread) := by
  unfold detachThread
  rw [h]
  simp only
  split <;> simp [joinwaitRemove, View.setMgr, View.setGtab]

/-- How a message changes the list of pending requests: it takes some out, adds
the START of a new thread, or adds a JOINWAIT for a thread nobody waits for. -/
inductive PendingMove (l : List Request) : List Request → Prop
  | less {l' : List Request} (h : l'.Sublist l) : PendingMove l l'
  | start (rqe : Request) (hop : rqe.reqop = .start) : PendingMove l (l ++ [rqe])
  | wait (rqe : Request) (h : l.find? (joinwaitMatch rqe.waitthread) = none) :
      PendingMove l (l ++ [rqe])

theorem pendingMove_join (job : Job) (v : View) (mqe : Mqe) (thread : DThread) :
    PendingMove v.mgr.rpending (joinThread job v mqe thread).mgr.rpending := by
  have hsame {w : View} (hw : w.mgr.rpending = v.mgr.rpending) :
      PendingMove v.mgr.rpending w.mgr.rpending := by
    rw [hw]
    exact .less (.refl _)
  unfold joinThread
  split
  · exact hsame (by simp)
  simp only
  split
  · exact hsame (by simp)
  split
  · exact hsame (by simp)
  split
  · exact hsame (by simp)
  · rename_i hnone
    split
    · exact hsame (by simp [View.setDtq])
    · exact .wait _ hnone

theorem pendingMove_create {job : Job} {v v' : View} {mqe : Mqe} {attrs : Attr} {dispIdx : ℕ}
    {arg : Argret} (h : createThread job v mqe attrs dispIdx arg = some v') :
    PendingMove v.mgr.rpending v'.mgr.rpending := by
  rcases createThread_cases h with ⟨w, e, rfl, -, hm⟩ | ⟨q, n, addr, i, -, -, hstart⟩
  · rw [sendCreatedError_mgr, hm]
    exact .less (.refl _)
  unfold createStart at hstart
  simp only [Option.map_eq_some_iff, Prod.exists] at hstart
  obtain ⟨xidseq, w, hseq, rfl⟩ := hstart
  obtain ⟨-, rfl⟩ := getFreeSeq_some _ _ .start hseq
  simp only
  split
  · exact .start _ rfl
  · simp only [sendCreatedError_mgr, gtabFree_rpending]
    exact .less (.refl _)

theorem pendingMove_started (v : View) (mqe : Mqe) (e : ℕ) :
    PendingMove v.mgr.rpending (startedReply v mqe e).mgr.rpending := by
  unfold startedReply
  split
  · exact .less (.refl _)
  · rename_i rqe w hfind
    have hw : w.mgr.rpending.Sublist v.mgr.rpending := by
      unfold findPendingMsgreq at hfind
      split at hfind
      · simp at hfind
      · split at hfind
        · simp at hfind
        · simp only [Option.some.injEq, Prod.mk.injEq] at hfind
          obtain ⟨-, rfl⟩ := hfind
          exact List.eraseP_sublist
    refine .less ?_
    by_cases he : e = 0 <;> simpa [he, View.setMgr] using hw

theorem pendingMove_step {job : Job} {v v' : View} {e : Event} (h : Mgr0Step job v e v')
    (hrank : v.mgr.mpiRank = 0) : PendingMove v.mgr.rpending v'.mgr.rpending := by
  cases h with
  | write gtab h => exact .less (.refl _)
  | msg mqe err _ hop h =>
    rcases processMqe_rank0 hrank hop h with ⟨q, rfl, -⟩ | ⟨-, w, -, hm, hw⟩
    · exact .less (.refl _)
    rw [hm]
    split at hw
    · exact pendingMove_create hw
    · rw [hw]
      exact pendingMove_started v mqe _
    · rename_i thread _
      rw [hw]
      cases hfind : dt2gtab job v.gtab thread with
      | none =>
        unfold detachThread
        simp only [hfind, sendOrUnalloc_mgr]
        exact .less (.refl _)
      | some i =>
        rw [detachThread_rpending mqe hfind]
        exact .less List.eraseP_sublist
    · rw [hw]
      exact pendingMove_join job v mqe _
    · rw [hw]
      rcases terminatedMsg_cases job v mqe _ _ with ⟨-, hm'⟩ | ⟨-, -, -, hm'⟩
      · rw [hm']
        exact .less (.refl _)
      · rw [hm', terminatedThread_rpending]
        exact .less List.eraseP_sublist
    · exact hw.elim

/-- At most one join waits for each thread. -/
def SingleWaits (l : List Request) : Prop := ∀ thread, l.countP (joinwaitMatch thread) ≤ 1

theorem SingleWaits.move {l l' : List Request} (h : SingleWaits l) (hm : PendingMove l l') :
    SingleWaits l' := by
  intro thread
  have hone := h thread
  cases hm with
  | less hsub => exact (hsub.countP_le).trans hone
  | start rqe hop => simpa [List.countP_append, joinwaitMatch, hop] using hone
  | wait rqe hnone =>
    rw [List.countP_append]
    by_cases hthread : joinwaitMatch thread rqe = true
    · obtain ⟨-, rfl⟩ : rqe.reqop = .joinwait ∧ rqe.waitthread = thread := by
        simpa [joinwaitMatch] using hthread
      have hzero : l.countP (joinwaitMatch rqe.waitthread) = 0 :=
        List.countP_eq_zero.mpr (List.find?_eq_none.mp hnone)
      simp [hzero, hthread]
    · simpa [hthread] using hone

/-- Every run of rank 0 keeps the waiting joins apart, whichever of its
allocations fail. -/
theorem mgr0Run_singleWaits {job : Job} {q : Dtq} {tr : List (View × Event)} {v : View}
    (h : Mgr0Run job (mgr0Start job q) tr v) : SingleWaits v.mgr.rpending := by
  induction h with
  | nil => exact fun _ => Nat.zero_le _
  | snoc hrun hs ih => exact ih.move (pendingMove_step hs hrun.mpiRank)

theorem SingleWaits.none_left {l : List Request} (h : SingleWaits l) (thread : DThread) :
    (l.eraseP (joinwaitMatch thread)).find? (joinwaitMatch thread) = none := by
  cases hfind : l.find? (joinwaitMatch thread) with
  | none =>
    rw [List.eraseP_of_forall_not (List.find?_eq_none.mp hfind)]
    exact hfind
  | some rqe =>
    have hcount := countP_eraseP_of_find hfind (joinwaitMatch thread)
    rw [if_pos (List.find?_some hfind)] at hcount
    have hone := h thread
    exact List.find?_eq_none.mpr (List.countP_eq_zero.mp (by omega))

end Pending

section Cancel

variable (job : Job) (v : View) (mqe : Mqe) (thread : DThread)

theorem cancelThread_gtab : (cancelThread job v mqe thread).gtab = v.gtab := by
  unfold cancelThread
  simp only
  split
  · simp
  split
  · simp
  split <;> simp [View.setMgr]

theorem cancelThread_mpiRank :
    (cancelThread job v mqe thread).mgr.mpiRank = v.mgr.mpiRank := by
  unfold cancelThread
  simp only
  split
  · simp
  split
  · simp
  split <;> simp [View.setMgr, Mgr.setLtab]

end Cancel

/-- The entry is free, or it is the thread's and marked as detached. -/
def Unjoinable (job : Job) (thread : DThread) (gtab : ℕ → Gtab) : Prop :=
  (gtab thread.dtIndex).allocated = false ∨
    dt2gtab job gtab thread = some thread.dtIndex ∧ (gtab thread.dtIndex).detached = true

theorem dt2gtab_congr {job : Job} {gtab gtab' : ℕ → Gtab} {thread : DThread}
    (h : gtab' thread.dtIndex = gtab thread.dtIndex) :
    dt2gtab job gtab' thread = dt2gtab job gtab thread := by
  unfold dt2gtab
  rw [h]

theorem Unjoinable.of_same {job : Job} {thread : DThread} {gtab gtab' : ℕ → Gtab}
    (h : Unjoinable job thread gtab) (hgt : gtab' thread.dtIndex = gtab thread.dtIndex) :
    Unjoinable job thread gtab' := by
  unfold Unjoinable
  rw [hgt, dt2gtab_congr hgt]
  exact h

/-- A JOIN for a valid handle that cannot be joined is refused, and changes
neither the table nor the manager. -/
theorem joinThread_refused {job : Job} {thread : DThread} {v : View} (mqe : Mqe)
    (h : Unjoinable job thread v.gtab) (hfind : dt2gtab job v.gtab thread = some thread.dtIndex) :
    joinThread job v mqe thread =
      sendOrUnalloc v (mqe.recycle mqe.frame.xidseq (.joined EINVAL nodata)) := by
  rcases h with hfree | ⟨-, hdet⟩
  · rw [(dt2gtab_valid.mp hfind).2.1] at hfree
    simp at hfree
  · unfold joinThread
    simp only [hfind, hdet, if_true]
    rfl

theorem unjoinable_join {job : Job} {thread : DThread} {v : View} (mqe : Mqe) (other : DThread)
    (h : Unjoinable job thread v.gtab) :
    Unjoinable job thread (joinThread job v mqe other).gtab := by
  rcases joinThread_table job v mqe other with hsame | hfree
  · rw [hsame]
    exact h
  by_cases hi : thread.dtIndex = other.dtIndex
  · left
    rw [hfree, hi]
    exact freeGtab_allocated _ _
  · exact h.of_same (by rw [hfree, freeGtab_of_ne _ hi])

/-- The end of an unjoinable thread frees its entry, and the end of another
thread does not concern it. -/
theorem unjoinable_terminatedThread {job : Job} {thread other : DThread} {v : View}
    (fin : LtState) (h : Unjoinable job thread v.gtab) :
    Unjoinable job thread (terminatedThread job v other fin).gtab ∧
      (other = thread → ((terminatedThread job v other fin).gtab thread.dtIndex).allocated =
        false) := by
  have hgt := terminatedThread_table job v other fin
  by_cases hi : thread.dtIndex = other.dtIndex
  · suffices hfree : ((terminatedThread job v other fin).gtab other.dtIndex).allocated = false by
      rw [← hi] at hfree
      exact ⟨.inl hfree, fun _ => hfree⟩
    rw [hgt]
    rcases h with hfree | ⟨-, hdet⟩
    · rw [hi] at hfree
      split
      · exact freeGtab_allocated _ _
      split
      · exact freeGtab_allocated _ _
      · rw [zombieGtab_allocated]
        exact hfree
    · rw [hi] at hdet
      rw [if_pos hdet]
      exact freeGtab_allocated _ _
  · refine ⟨h.of_same ?_, fun heq => absurd (heq ▸ rfl) hi⟩
    rw [hgt]
    split
    · rw [freeGtab_cleanup_of_ne hi]
    split
    · rw [freeGtab_zombie_of_ne hi]
    · rw [zombieGtab_of_ne _ _ _ hi]

/-- One later message, whatever thread it names. -/
theorem later_step {job : Job} {thread : DThread} {v : View} {mqe : Mqe}
    (hrank : v.mgr.mpiRank = 0) (hlater : isLater mqe.frame.body = true)
    (h : Unjoinable job thread v.gtab) :
    ∃ v', processMqe job v mqe 0 = some v' ∧ v'.mgr.mpiRank = 0 ∧
      AsDetached job thread mqe v v' ∧ Unjoinable job thread v'.gtab := by
  have hhdr := mqe.frame.body.headerSize_le_size
  have hshort (v' : View) (hlen : mqe.frame.flen < mqe.frame.body.size) :
      AsDetached job thread mqe v v' :=
    ⟨fun _ hlen' => absurd hlen' (by omega), fun _ _ hlen' => absurd hlen' (by omega)⟩
  unfold processMqe
  simp only
  split
  · exact ⟨_, rfl, hrank, hshort _ (by omega), h⟩
  rw [if_neg (by simp [hrank])]
  cases hb : mqe.frame.body with
  | join other =>
    rw [hb] at hshort
    simp only
    split
    · refine ⟨_, rfl, by rw [joinThread_mpiRank, hrank], ⟨?_, ?_⟩, unjoinable_join mqe other h⟩
      · intro heq hlen hfind
        obtain rfl : other = thread := by simpa [hb] using heq
        rw [joinThread_refused mqe h hfind]
        simpa using ((Effect.refl v).send
          (mqe.recycle mqe.frame.xidseq (.joined EINVAL nodata))).posted
      · intro fin heq
        simp [hb] at heq
    · exact ⟨_, rfl, hrank, hshort _ (by omega), h⟩
  | cancel other =>
    rw [hb] at hshort
    simp only
    have hno (v' : View) : AsDetached job thread mqe v v' :=
      ⟨fun heq => by simp [hb] at heq, fun fin heq => by simp [hb] at heq⟩
    split
    · exact ⟨_, rfl, by rw [cancelThread_mpiRank, hrank], hno _, by rwa [cancelThread_gtab]⟩
    · exact ⟨v, rfl, hrank, hno _, h⟩
  | terminated other fin =>
    refine ⟨_, rfl, ?_, ⟨fun heq => by simp [hb] at heq, ?_⟩, ?_⟩
    · rcases terminatedMsg_cases job v mqe other fin with ⟨-, hm⟩ | ⟨-, -, -, hm⟩
      · rw [hm, hrank]
      · rw [hm, terminatedThread_mpiRank, hrank]
    · intro fin' heq hlen hfin hseq
      obtain ⟨rfl, rfl⟩ : other = thread ∧ fin = fin' := by simpa [hb] using heq
      unfold terminatedMsg
      rw [if_neg (by simpa using hlen)]
      by_cases hidx : other.dtIndex < job.nmaxthread
      · rw [if_neg (by simp [hidx, hseq]), if_neg hfin]
        exact (unjoinable_terminatedThread fin h).2 rfl
      · rw [if_pos (.inl (not_lt.mp hidx))]
        rcases h with hfree | ⟨hfind, -⟩
        · exact hfree
        · exact absurd (dt2gtab_valid.mp hfind).1 hidx
    · rcases terminatedMsg_cases job v mqe other fin with ⟨hgt, -⟩ | ⟨-, -, hgt, -⟩
      · rwa [hgt]
      · rw [hgt]
        exact (unjoinable_terminatedThread fin h).1
  | _ => simp [hb, isLater] at hlater

theorem behavesDetached {job : Job} {thread : DThread} {v : View} (hrank : v.mgr.mpiRank = 0)
    (h : Unjoinable job thread v.gtab) (later : List Mqe)
    (hlater : ∀ mqe ∈ later, isLater mqe.frame.body = true) :
    BehavesDetached job thread v later := by
  induction later generalizing v with
  | nil => trivial
  | cons mqe later ih =>
    obtain ⟨v', hv', hrank', has, h'⟩ := later_step hrank (hlater mqe (by simp)) h
    exact ⟨v', hv', has, ih hrank' h' fun m hm => hlater m (by simp [hm])⟩

/-- The START that create_thread sends does not tell a detached attribute from
a joinable one. -/
theorem startAttrs_joinable (attrs : Attr) (h : attrs.detachstate = .detached) :
    startAttrs attrs = startAttrs { attrs with detachstate := .joinable } := by
  simp [startAttrs, h, Attr.setstack]

theorem createThread_joinable (job : Job) (v : View) (mqe : Mqe) (attrs : Attr) (dispIdx : ℕ)
    (arg : Argret) (h : attrs.detachstate = .detached) :
    createThread job v mqe attrs dispIdx arg =
      createThread job v mqe { attrs with detachstate := .joinable } dispIdx arg := by
  unfold createThread createStart
  simp only [startAttrs_joinable attrs h]

/-- The part of a CREATE that create_thread reads beside its arguments. -/
theorem createThread_congr (job : Job) (v : View) {mqe mqe' : Mqe} (attrs : Attr)
    (dispIdx : ℕ) (arg : Argret) (hpeer : mqe'.peer = mqe.peer)
    (hxid : mqe'.frame.xidseq = mqe.frame.xidseq) :
    createThread job v mqe' attrs dispIdx arg = createThread job v mqe attrs dispIdx arg := by
  unfold createThread createStart sendCreatedError
  simp only [hpeer, hxid]

/-- A rank whose queues take a message is not draining. -/
theorem draindown_of_taken {rank : ℕ} {q q' : Dtq} {mqe : Mqe}
    (h : dtqSendEnqueue rank q mqe = (none, q')) : q'.mpisqDraindown = .init := by
  by_cases hd : q.mpisqDraindown = .init
  · obtain ⟨sendq, recvq, len, hq⟩ := sendEnqueue_taken rank q mqe hd
    rw [hq] at h
    obtain ⟨-, rfl⟩ := Prod.mk.inj h
    exact hd
  · rw [sendEnqueue_draining rank q mqe hd] at h
    simp at h

/-- A slot that create_thread takes: the new entry, and that the rank is not
draining. -/
theorem createThread_new {job : Job} {v v' : View} {mqe : Mqe} {attrs : Attr} {dispIdx gidx : ℕ}
    {arg : Argret} (h : createThread job v mqe attrs dispIdx arg = some v')
    (hfree : (v.gtab gidx).allocated = false) (hnew : (v'.gtab gidx).allocated = true) :
    gidx < job.nmaxthread ∧
      v'.gtab gidx = gtabInit v.mgr.nextRank v.mgr.seqsrc dispIdx arg (v.gtab gidx) ∧
      v'.dtq.mpisqDraindown = .init := by
  rcases createThread_cases h with ⟨w, e, rfl, hgt, -⟩ | ⟨q, n, addr, i, hi, hlt, hstart⟩
  · rw [sendCreatedError_gtab, hgt, hfree] at hnew
    simp at hnew
  unfold createStart at hstart
  simp only [Option.map_eq_some_iff, Prod.exists] at hstart
  obtain ⟨xidseq, w, hseq, rfl⟩ := hstart
  obtain ⟨-, rfl⟩ := getFreeSeq_some _ _ .start hseq
  simp only at hnew ⊢
  split at hnew
  · rename_i q' hsend
    have hgi : gidx = i := by
      by_contra hne
      simp [View.setDtq, View.setMgr, gtabTaken, hne, hfree] at hnew
    subst hgi
    refine ⟨hlt, ?_, ?_⟩
    · simp [View.setDtq, View.setMgr, gtabTaken]
    · exact draindown_of_taken hsend
  · exfalso
    rw [sendCreatedError_gtab, gtabFree_gtab] at hnew
    by_cases hne : gidx = i
    · subst hne
      rw [freeGtab_allocated] at hnew
      simp at hnew
    · rw [freeGtab_of_ne _ hne] at hnew
      simp [View.setDtq, View.setMgr, gtabTaken, hne, hfree] at hnew

section Ends

/-- The TERMINATED of a thread. -/
def endMqe (thread : DThread) : Mqe := ⟨0, 0, .of 0 (.terminated thread .returned)⟩

variable {job : Job} {thread : DThread} {v : View}

/-- A TERMINATED for a slot the table does not have only gives back its buffer. -/
theorem processMqe_end_beyond (hrank : v.mgr.mpiRank = 0) :
    processMqe job v (endMqe ⟨job.nmaxthread, 0⟩) 0 =
      some (v.setDtq (dtqRecvRelease v.dtq 0)) := by
  simp [processMqe, endMqe, Frame.of, hrank, terminatedMsg, Body.size, Body.op, Op.msgSize,
    headerSize]

theorem processMqe_end (hrank : v.mgr.mpiRank = 0)
    (hfind : dt2gtab job v.gtab thread = some thread.dtIndex) :
    ∃ w, processMqe job v (endMqe thread) 0 = some w ∧
      w.gtab = (terminatedThread job v thread .returned).gtab ∧
      w.dtq.accepted = (terminatedThread job v thread .returned).dtq.accepted := by
  obtain ⟨hlt, -, hseq⟩ := dt2gtab_valid.mp hfind
  have hmsg : terminatedMsg job v (endMqe thread) thread .returned =
      (terminatedThread job v thread .returned).setDtq
        (dtqRecvRelease (terminatedThread job v thread .returned).dtq 0) := by
    simp [terminatedMsg, endMqe, Frame.of, hlt.not_ge, hseq]
  refine ⟨terminatedMsg job v (endMqe thread) thread .returned, ?_, ?_, ?_⟩
  · simp [processMqe, endMqe, Frame.of, hrank, Body.size, Body.op, Op.msgSize, headerSize]
  · rw [hmsg]
    rfl
  · rw [hmsg]
    rfl

theorem dtqReqRelease_accepted (v : View) (req : Request) (notify : Bool) :
    (dtqReqRelease v req notify).dtq.accepted = v.dtq.accepted := by
  unfold dtqReqRelease
  split <;> rfl

theorem sendOrUnalloc_accepted (mqe : Mqe) (hd : v.dtq.mpisqDraindown = .init) :
    (sendOrUnalloc v mqe).dtq.accepted = v.dtq.accepted ++ [mqe] := by
  obtain ⟨q, hq, hsent⟩ := sendEnqueue_init v.mgr.mpiRank v.dtq mqe hd
  unfold sendOrUnalloc
  rw [hq]
  exact hsent.accepted

/-- With a buffer on the free list, the waiting join is answered. -/
theorem joinwaitEndRelease_accepted {rqe : Request} (hop : rqe.reqop = .joinwait)
    (hd : v.dtq.mpisqDraindown = .init) (hfree : v.dtq.mqefree ≠ []) :
    ∃ mqe, (joinwaitEndRelease v rqe).dtq.accepted = v.dtq.accepted ++ [mqe] := by
  obtain ⟨addr, rest, hfree⟩ := List.exists_cons_of_ne_nil hfree
  have halloc : dtqMqeAlloc v.dtq = (some addr, { v.dtq with mqefree := rest }) := by
    simp [dtqMqeAlloc, hfree]
  unfold joinwaitEndRelease
  rw [if_neg (by simpa using hop), halloc]
  simp only [dtqReqRelease_accepted]
  exact ⟨_, sendOrUnalloc_accepted _ hd⟩

theorem detachedRetCleanup_dtq (job : Job) (v : View) (i : ℕ) :
    (detachedRetCleanup job v i).dtq = v.dtq := by
  unfold detachedRetCleanup
  simp only
  split
  · rfl
  · split <;> rfl

theorem gtabFree_dtq (v : View) (i : ℕ) : (gtabFree v i).dtq = v.dtq := by
  rw [gtabFree_eq]

/-- terminated_thread sends nothing when nobody waits. -/
theorem terminatedThread_quiet (fin : LtState) (hnone : joinwaitSearch v thread = none) :
    (terminatedThread job v thread fin).dtq.accepted = v.dtq.accepted := by
  have hnoted : (endNoted v thread fin).dtq = v.dtq := rfl
  rw [terminatedThread_eq, hnone]
  cases (v.gtab thread.dtIndex).detached <;>
    simp [gtabFree_dtq, detachedRetCleanup_dtq, hnoted]

/-- terminated_thread answers the join that waits. -/
theorem terminatedThread_answers (fin : LtState)
    (hwait : (joinwaitSearch v thread).isSome = true) (hd : v.dtq.mpisqDraindown = .init)
    (hfree : v.dtq.mqefree ≠ []) : ∃ mqe,
      (terminatedThread job v thread fin).dtq.accepted = v.dtq.accepted ++ [mqe] := by
  obtain ⟨rqe, hrqe⟩ := Option.isSome_iff_exists.mp hwait
  have hop := (joinwaitSearch_spec hrqe).1
  have hanswer (rqe' : Request) (hop' : rqe'.reqop = .joinwait) :
      ∃ mqe, (joinwaitEndRelease (endNoted v thread fin) rqe').dtq.accepted =
        v.dtq.accepted ++ [mqe] := joinwaitEndRelease_accepted hop' hd hfree
  rw [terminatedThread_eq, hrqe]
  cases (v.gtab thread.dtIndex).detached with
  | false => simpa [gtabFree_dtq] using hanswer rqe hop
  | true =>
    simpa [gtabFree_dtq, detachedRetCleanup_dtq] using hanswer { rqe with reqerror := EINVAL } hop

end Ends

section Differ

variable {job : Job} {thread : DThread} {v w : View}

/-- Nobody waits: the end of the joinable thread leaves a zombie, that of the
detached one frees the slot. -/
theorem not_alike_of_no_wait (hv : v.mgr.mpiRank = 0) (hw : w.mgr.mpiRank = 0)
    (hfind : dt2gtab job v.gtab thread = some thread.dtIndex)
    (hfind' : dt2gtab job w.gtab thread = some thread.dtIndex)
    (hjoinable : (v.gtab thread.dtIndex).detached = false)
    (hdet : (w.gtab thread.dtIndex).detached = true) (hnone : joinwaitSearch v thread = none) :
    ¬ BehavesAlike job thread.dtIndex v w := by
  intro halike
  have hend := halike [endMqe thread] (by simp [endMqe, Frame.of, isLater])
  obtain ⟨v₁, hv₁, hgt, -⟩ := processMqe_end hv hfind
  obtain ⟨w₁, hw₁, hgt', -⟩ := processMqe_end hw hfind'
  have hkept : (v₁.gtab thread.dtIndex).allocated = true := by
    rw [hgt, terminatedThread_table, if_neg (by simp [hjoinable]), if_neg (by simp [hnone]),
      zombieGtab_allocated]
    exact (dt2gtab_valid.mp hfind).2.1
  have hfreed : (w₁.gtab thread.dtIndex).allocated = false := by
    rw [hgt', terminatedThread_table, if_pos hdet]
    exact freeGtab_allocated _ _
  simp [responses, hv₁, hw₁, hkept, hfreed] at hend

/-- Somebody waits for the thread of the first state and nobody for that of the
second: only the first TERMINATED is followed by a JOINED. The message before
it leaves its buffer on the free list. -/
theorem not_alike_of_wait (hv : v.mgr.mpiRank = 0) (hw : w.mgr.mpiRank = 0)
    (hfind : dt2gtab job v.gtab thread = some thread.dtIndex)
    (hfind' : dt2gtab job w.gtab thread = some thread.dtIndex)
    (hd : v.dtq.mpisqDraindown = .init) (hwait : (joinwaitSearch v thread).isSome = true)
    (hnone : joinwaitSearch w thread = none) : ¬ BehavesAlike job thread.dtIndex v w := by
  intro halike
  have hend := halike [endMqe ⟨job.nmaxthread, 0⟩, endMqe thread]
    (by simp [endMqe, Frame.of, isLater])
  obtain ⟨v₁, hv₁, -, hsent⟩ :=
    processMqe_end (v := v.setDtq (dtqRecvRelease v.dtq 0)) hv hfind
  obtain ⟨w₁, hw₁, -, hquiet⟩ :=
    processMqe_end (v := w.setDtq (dtqRecvRelease w.dtq 0)) hw hfind'
  obtain ⟨mqe, hmqe⟩ : ∃ mqe, v₁.dtq.accepted = v.dtq.accepted ++ [mqe] := by
    rw [hsent]
    exact terminatedThread_answers .returned hwait hd (List.cons_ne_nil _ _)
  have hno : w₁.dtq.accepted = w.dtq.accepted := by
    rw [hquiet]
    exact terminatedThread_quiet .returned hnone
  simp only [responses, processMqe_end_beyond hv, processMqe_end_beyond hw, hv₁, hw₁, hmqe, hno]
    at hend
  have hnothing : (w.dtq.accepted.map toPost).drop w.dtq.accepted.length = [] :=
    List.drop_eq_nil_of_le (by simp)
  simp [View.setDtq, dtqRecvRelease, hnothing] at hend

end Differ

/-- The message is the same CREATE with a joinable attribute. -/
def joinableMqe (mqe : Mqe) (attrs : Attr) (dispIdx : ℕ) (arg : Argret) : Mqe :=
  { mqe with frame := { mqe.frame with
      body := .create { attrs with detachstate := .joinable } dispIdx arg } }

/-- A CREATE long enough to be handled reaches create_thread at rank 0. -/
theorem processMqe_create {job : Job} {v : View} {mqe : Mqe} {attrs : Attr} {dispIdx : ℕ}
    {arg : Argret} (err : ℕ) (hrank : v.mgr.mpiRank = 0)
    (hb : mqe.frame.body = .create attrs dispIdx arg)
    (hlen : mqe.frame.body.size ≤ mqe.frame.flen) :
    processMqe job v mqe err = (createThread job v mqe attrs dispIdx arg).map
      fun w => w.setDtq (dtqRecvRelease w.dtq mqe.addr) := by
  have hhdr := mqe.frame.body.headerSize_le_size
  unfold processMqe
  simp only
  rw [if_neg (by omega), if_neg (by simp [hrank]), hb]
  rw [hb] at hlen
  simp [hlen]

theorem processMqe_detach {job : Job} {v : View} {mqe : Mqe} {thread : DThread} (err : ℕ)
    (hrank : v.mgr.mpiRank = 0) (hb : mqe.frame.body = .detach thread)
    (hlen : mqe.frame.body.size ≤ mqe.frame.flen) :
    processMqe job v mqe err = some (detachThread job v mqe thread) := by
  have hhdr := mqe.frame.body.headerSize_le_size
  unfold processMqe
  simp only
  rw [if_neg (by omega), if_neg (by simp [hrank]), hb]
  rw [hb] at hlen
  simp [hlen]

/-- Rank 0 right after a CREATE has taken a slot. -/
structure Created (job : Job) (gidx : ℕ) (v : View) : Prop where
  mpiRank : v.mgr.mpiRank = 0
  found : dt2gtab job v.gtab ⟨gidx, (v.gtab gidx).seq⟩ = some gidx
  joinable : (v.gtab gidx).detached = false
  draindown : v.dtq.mpisqDraindown = .init
  single : SingleWaits v.mgr.rpending

theorem created {job : Job} {v v' : View} {mqe : Mqe} {attrs : Attr} {dispIdx gidx : ℕ}
    {arg : Argret} (hrank : v.mgr.mpiRank = 0) (hsingle : SingleWaits v.mgr.rpending)
    (h : createThread job v mqe attrs dispIdx arg = some v')
    (hfree : (v.gtab gidx).allocated = false) (hnew : (v'.gtab gidx).allocated = true) (q : Dtq)
    (hq : q.mpisqDraindown = v'.dtq.mpisqDraindown) : Created job gidx (v'.setDtq q) := by
  obtain ⟨hlt, hentry, hd⟩ := createThread_new h hfree hnew
  have hrank' : v'.mgr.mpiRank = 0 := (createThread_mpiRank h).trans hrank
  have hsingle' : SingleWaits v'.mgr.rpending := hsingle.move (pendingMove_create h)
  have hjoinable : (v'.gtab gidx).detached = false := by rw [hentry]; rfl
  exact ⟨hrank', dt2gtab_valid.mpr ⟨hlt, hnew, rfl⟩, hjoinable, hq.trans hd, hsingle'⟩

/-- The DETACH of the new thread marks its entry, and nobody waits for it any
more. -/
theorem created_detach {job : Job} {gidx : ℕ} {v : View} (h : Created job gidx v) (mqe : Mqe) :
    (detachThread job v mqe ⟨gidx, (v.gtab gidx).seq⟩).mgr.mpiRank = 0 ∧
      dt2gtab job (detachThread job v mqe ⟨gidx, (v.gtab gidx).seq⟩).gtab
        ⟨gidx, (v.gtab gidx).seq⟩ = some gidx ∧
      ((detachThread job v mqe ⟨gidx, (v.gtab gidx).seq⟩).gtab gidx).detached = true ∧
      joinwaitSearch (detachThread job v mqe ⟨gidx, (v.gtab gidx).seq⟩)
        ⟨gidx, (v.gtab gidx).seq⟩ = none := by
  have hgt := detachThread_table mqe h.found
  obtain ⟨hlt, halloc, hseq⟩ := dt2gtab_valid.mp h.found
  refine ⟨by rw [detachThread_mpiRank, h.mpiRank], dt2gtab_valid.mpr ⟨hlt, ?_, ?_⟩, ?_, ?_⟩
  · simpa [hgt] using halloc
  · simp [hgt]
  · simp [hgt]
  · unfold joinwaitSearch
    rw [detachThread_rpending mqe h.found]
    exact h.single.none_left _

/-- A CREATE with a detached attribute is handled like the same CREATE with a
joinable one. Followed by a DETACH, the new entry is that of a detached thread
under every sequence of later messages. Without the DETACH it never behaves
like that: some JOIN, CANCEL and TERMINATED messages tell the two runs apart. -/
theorem detached_create_differs {job : Job} {v v' w : View} {mqe detach : Mqe} {err err' : ℕ}
    {attrs : Attr} {dispIdx gidx : ℕ} {arg : Argret} (hrank : v.mgr.mpiRank = 0)
    (hsingle : SingleWaits v.mgr.rpending) (hb : mqe.frame.body = .create attrs dispIdx arg)
    (hlen : mqe.frame.body.size ≤ mqe.frame.flen) (hdet : attrs.detachstate = .detached)
    (h : processMqe job v mqe err = some v')
    (hfree : (v.gtab gidx).allocated = false) (hnew : (v'.gtab gidx).allocated = true)
    (hdb : detach.frame.body = .detach ⟨gidx, (v'.gtab gidx).seq⟩)
    (hdlen : detach.frame.body.size ≤ detach.frame.flen)
    (hw : processMqe job v' detach err' = some w) :
    processMqe job v (joinableMqe mqe attrs dispIdx arg) err = some v' ∧
      (∀ later : List Mqe, (∀ m ∈ later, isLater m.frame.body = true) →
        BehavesDetached job ⟨gidx, (v'.gtab gidx).seq⟩ w later) ∧
      ¬ BehavesAlike job gidx v' w := by
  rw [processMqe_create err hrank hb hlen, Option.map_eq_some_iff] at h
  obtain ⟨u, hcreate, rfl⟩ := h
  have hnew' : Created job gidx (u.setDtq (dtqRecvRelease u.dtq mqe.addr)) :=
    created hrank hsingle hcreate hfree hnew _ rfl
  have hjoinable : createThread job v (joinableMqe mqe attrs dispIdx arg)
      { attrs with detachstate := .joinable } dispIdx arg = some u := by
    rw [← createThread_joinable job v _ attrs dispIdx arg hdet, ← hcreate]
    exact createThread_congr job v attrs dispIdx arg rfl rfl
  generalize hv' : u.setDtq (dtqRecvRelease u.dtq mqe.addr) = v' at *
  rw [processMqe_detach err' hnew'.mpiRank hdb hdlen, Option.some.injEq] at hw
  subst hw
  obtain ⟨hrank', hfind, hmark, hnone⟩ := created_detach hnew' detach
  refine ⟨?_, fun later hlater => ?_, ?_⟩
  · rw [processMqe_create err hrank rfl (by simpa [joinableMqe, hb, Body.size, Body.op] using hlen),
      hjoinable, ← hv']
    rfl
  · exact behavesDetached hrank' (.inr ⟨hfind, hmark⟩) later hlater
  · cases hwait : joinwaitSearch v' ⟨gidx, (v'.gtab gidx).seq⟩ with
    | none =>
      exact not_alike_of_no_wait hnew'.mpiRank hrank' hnew'.found hfind hnew'.joinable hmark hwait
    | some rqe =>
      exact not_alike_of_wait hnew'.mpiRank hrank' hnew'.found hfind hnew'.draindown
        (by rw [hwait]; rfl) hnone

/-- The first CREATE of a job, with a detached attribute. -/
def detachedMqe : Mqe := ⟨0, 0, .of 4 (.create ⟨.detached, 0, 0⟩ 1 .zero)⟩

def detachMqe : Mqe := ⟨1, 0, .of 6 (.detach ⟨1, 4⟩)⟩

/-- In a fresh job of two ranks the first thread is created detached. -/
theorem detached_create_differs_first :
    ∃ v' w, processMqe twoRanks (mgr0Start twoRanks dtqInit) detachedMqe 0 = some v' ∧
      processMqe twoRanks v' detachMqe 0 = some w ∧ ¬ BehavesAlike twoRanks 1 v' w := by
  have hsingle : SingleWaits (mgr0Start twoRanks dtqInit).mgr.rpending :=
    mgr0Run_singleWaits .nil
  exact ⟨_, _, rfl, rfl, (@detached_create_differs twoRanks (mgr0Start twoRanks dtqInit) _ _
    detachedMqe detachMqe 0 0 _ _ 1 _ rfl hsingle rfl (by decide) rfl rfl rfl rfl rfl (by decide)
    rfl).2.2⟩

/-- A thread is created detached, starts and ends: its entry stays allocated as
a zombie that no flag marks as detached. -/
theorem detached_create_leaves_zombie :
    ∃ tr v, Mgr0Run twoRanks (mgr0Start twoRanks dtqInit) tr v ∧
      (v.gtab 1).allocated = true ∧ (v.gtab 1).detached = false ∧
      (v.gtab 1).terminated = .returned :=
  ⟨_, _,
    .snoc (.snoc (.snoc .nil
      (.msg detachedMqe 0 _ rfl rfl))
      (.msg ⟨0, 1, .of 6 (.started 0)⟩ 0 _ rfl rfl))
      (.msg (endMqe ⟨1, 4⟩) 0 _ rfl rfl),
    rfl, rfl, rfl⟩

end Dthread.DetachedCreate
