import Dthread.ManagerOutcomes

/-!
What the handlers of rank 0 do to the shared thread table, whatever becomes of
their allocations and sends. The replies are not looked at here, so nothing is
assumed about the queues.
-/
namespace Dthread.TableWrites

open ReqMsg Queuing ManagerTables ManagerHandlers ManagerEffects ManagerOutcomes

@[simp] theorem sendOrUnalloc_gtab (v : View) (mqe : Mqe) :
    (sendOrUnalloc v mqe).gtab = v.gtab := by
  unfold sendOrUnalloc
  split <;> rfl

@[simp] theorem sendOrUnalloc_mgr (v : View) (mqe : Mqe) : (sendOrUnalloc v mqe).mgr = v.mgr := by
  unfold sendOrUnalloc
  split <;> rfl

@[simp] theorem sendCreatedError_gtab (job : Job) (v : View) (mqe : Mqe) (e : ℕ) :
    (sendCreatedError job v mqe e).gtab = v.gtab := by
  unfold sendCreatedError
  split
  · rfl
  · simp [View.setDtq]

@[simp] theorem dtqReqRelease_gtab (v : View) (req : Request) (notify : Bool) :
    (dtqReqRelease v req notify).gtab = v.gtab := by
  unfold dtqReqRelease
  split <;> rfl

@[simp] theorem joinwaitEndRelease_gtab (v : View) (rqe : Request) :
    (joinwaitEndRelease v rqe).gtab = v.gtab := by
  unfold joinwaitEndRelease
  split
  · simp
  · split
    · simp [View.setDtq]
    · simp [View.setDtq]

theorem gtabFree_gtab (v : View) (i : ℕ) : (gtabFree v i).gtab = freeGtab v.gtab i := by
  rw [gtabFree_eq]

theorem detachedRetCleanup_gtab (job : Job) (v : View) (i : ℕ) :
    (detachedRetCleanup job v i).gtab = cleanupGtab job v.gtab i := by
  unfold detachedRetCleanup cleanupGtab
  simp only
  by_cases hdisp : (v.gtab i).dispIdx < 1 ∨ job.ndsps ≤ (v.gtab i).dispIdx
  · rw [if_pos hdisp, if_pos (by tauto)]
  · rw [if_neg hdisp]
    by_cases hproc : (job.dsps (v.gtab i).dispIdx).dtRetproc = false
    · rw [if_pos hproc, if_pos (by tauto)]
    · rw [if_neg hproc, if_neg (by tauto)]
      rfl

/-- The handles that dthread_dt2gtab accepts. -/
theorem dt2gtab_valid {job : Job} {gtab : ℕ → Gtab} {thread : DThread} :
    dt2gtab job gtab thread = some thread.dtIndex ↔
      thread.dtIndex < job.nmaxthread ∧ (gtab thread.dtIndex).allocated = true ∧
        (gtab thread.dtIndex).seq = thread.dtSeq := by
  unfold dt2gtab
  by_cases hlt : thread.dtIndex < job.nmaxthread
  · rw [if_neg (not_le.mpr hlt)]
    by_cases hvalid : (gtab thread.dtIndex).allocated = true ∧
        (gtab thread.dtIndex).seq = thread.dtSeq
    · rw [if_neg (by simp [hvalid])]
      exact iff_of_true rfl ⟨hlt, hvalid⟩
    · rw [if_pos (by
        by_contra hc
        push Not at hc
        exact hvalid ⟨by simpa using hc.1, hc.2.symm⟩)]
      exact iff_of_false (by simp) fun h => hvalid h.2
  · rw [if_pos (not_lt.mp hlt)]
    exact iff_of_false (by simp) fun h => hlt h.1

theorem freeGtab_allocated (gtab : ℕ → Gtab) (i : ℕ) : (freeGtab gtab i i).allocated = false := by
  unfold freeGtab
  split
  · simp
  · rename_i h
    simpa using h

theorem freeGtab_of_ne (gtab : ℕ → Gtab) {i j : ℕ} (h : j ≠ i) : freeGtab gtab i j = gtab j := by
  unfold freeGtab
  split
  · simp [h]
  · rfl

theorem zombieGtab_of_ne (gtab : ℕ → Gtab) (thread : DThread) (fin : LtState) {j : ℕ}
    (h : j ≠ thread.dtIndex) : zombieGtab gtab thread fin j = gtab j := by
  simp [zombieGtab, h]

theorem cleanupGtab_of_ne (job : Job) (gtab : ℕ → Gtab) {i j : ℕ} (h : j ≠ i) :
    cleanupGtab job gtab i j = gtab j := by
  unfold cleanupGtab
  split
  · rfl
  · simp [h]

section Ended

variable {job : Job} {gtab : ℕ → Gtab} {thread : DThread} {fin : LtState} {j : ℕ}

/-- The end of a thread concerns its own entry only, whatever becomes of its value. -/
theorem cleanupGtab_zombie_of_ne (h : j ≠ thread.dtIndex) :
    cleanupGtab job (zombieGtab gtab thread fin) thread.dtIndex j = gtab j := by
  rw [cleanupGtab_of_ne _ _ h, zombieGtab_of_ne _ _ _ h]

theorem freeGtab_zombie_of_ne (h : j ≠ thread.dtIndex) :
    freeGtab (zombieGtab gtab thread fin) thread.dtIndex j = gtab j := by
  rw [freeGtab_of_ne _ h, zombieGtab_of_ne _ _ _ h]

theorem freeGtab_cleanup_of_ne (h : j ≠ thread.dtIndex) :
    freeGtab (cleanupGtab job (zombieGtab gtab thread fin) thread.dtIndex) thread.dtIndex j =
      gtab j := by
  rw [freeGtab_of_ne _ h, cleanupGtab_zombie_of_ne h]

end Ended

/-- The entries after create_thread: a new entry, one that was taken and given
back, or no change. -/
inductive CreateTable (gt : ℕ → Gtab) : (ℕ → Gtab) → Prop
  | same : CreateTable gt gt
  | alloc (i rank seq dispIdx : ℕ) (arg : Argret) (hfree : (gt i).allocated = false) :
      CreateTable gt (Function.update gt i (gtabInit rank seq dispIdx arg (gt i)))
  | back (i rank seq dispIdx : ℕ) (arg : Argret) (hfree : (gt i).allocated = false) :
      CreateTable gt (freeGtab (Function.update gt i (gtabInit rank seq dispIdx arg (gt i))) i)

theorem createStart_table {job : Job} {v v' : View} {mqe : Mqe} {attrs : Attr}
    {target n addr gidx : ℕ} (h : createStart job v mqe attrs target n addr gidx = some v') :
    v'.gtab = v.gtab ∨ v'.gtab = freeGtab v.gtab gidx := by
  unfold createStart at h
  simp only [Option.map_eq_some_iff, Prod.exists] at h
  obtain ⟨xidseq, w, hseq, rfl⟩ := h
  obtain ⟨-, rfl⟩ := getFreeSeq_some job v .start hseq
  simp only
  split
  · exact .inl rfl
  · right
    simp [gtabFree_gtab, View.setDtq, View.setMgr]

/-- The two ways through create_thread: an error reply from a state that
differs in the next rank and the queues, or a new entry that is started. -/
theorem createThread_cases {job : Job} {v v' : View} {mqe : Mqe} {attrs : Attr} {dispIdx : ℕ}
    {arg : Argret} (h : createThread job v mqe attrs dispIdx arg = some v') :
    (∃ w e, v' = sendCreatedError job w mqe e ∧ w.gtab = v.gtab ∧
        w.mgr = { v.mgr with nextRank := w.mgr.nextRank }) ∨
      ∃ q n addr gidx, (v.gtab gidx).allocated = false ∧ gidx < job.nmaxthread ∧
        createStart job (gtabTaken job
          ⟨{ v.mgr with nextRank := (v.mgr.nextRank + 1) % job.wsize }, v.gtab, q⟩
          gidx v.mgr.nextRank dispIdx arg) mqe attrs v.mgr.nextRank n addr gidx = some v' := by
  have hfail (w : View) (e : ℕ) (heq : some (sendCreatedError job w mqe e) = some v')
      (hgt : w.gtab = v.gtab) (hm : w.mgr = { v.mgr with nextRank := w.mgr.nextRank }) :
      ∃ w e, v' = sendCreatedError job w mqe e ∧ w.gtab = v.gtab ∧
        w.mgr = { v.mgr with nextRank := w.mgr.nextRank } :=
    ⟨w, e, by simpa using heq.symm, hgt, hm⟩
  unfold createThread at h
  split at h
  · exact .inl (hfail v _ h rfl rfl)
  split at h
  · exact .inl (hfail v _ h rfl rfl)
  simp only at h
  split at h
  · exact .inl (hfail _ _ h rfl rfl)
  split at h
  · exact .inl (hfail _ _ h rfl rfl)
  split at h
  · simp at h
  · rename_i w hfull
    obtain rfl := gtabAlloc_full _ _ _ _ _ _ hfull
    exact .inl (hfail _ _ h rfl rfl)
  · rename_i n q hn _ addr q' haddr _ gidx w htaken
    obtain ⟨hfree, hlt, rfl⟩ := gtabAlloc_taken _ _ _ _ _ _ _ htaken
    exact .inr ⟨q', n, addr, gidx, hfree, hlt, h⟩

theorem createThread_table {job : Job} {v v' : View} {mqe : Mqe} {attrs : Attr} {dispIdx : ℕ}
    {arg : Argret} (h : createThread job v mqe attrs dispIdx arg = some v') :
    CreateTable v.gtab v'.gtab := by
  rcases createThread_cases h with ⟨w, e, rfl, hgt, -⟩ | ⟨q, n, addr, gidx, hfree, -, hstart⟩
  · rw [sendCreatedError_gtab, hgt]
    exact .same
  · rcases createStart_table hstart with hgt | hgt
    · rw [hgt]
      exact .alloc gidx _ _ dispIdx arg hfree
    · rw [hgt]
      exact .back gidx _ _ dispIdx arg hfree

theorem startedReply_table (v : View) (mqe : Mqe) (e : ℕ) :
    (startedReply v mqe e).gtab = v.gtab ∨
      ∃ i, (startedReply v mqe e).gtab = freeGtab v.gtab i := by
  unfold startedReply
  split
  · exact .inl rfl
  · rename_i rqe w hfind
    have hw : w.gtab = v.gtab := by
      unfold findPendingMsgreq at hfind
      split at hfind
      · simp at hfind
      · split at hfind
        · simp at hfind
        · simp only [Option.some.injEq, Prod.mk.injEq] at hfind
          obtain ⟨-, rfl⟩ := hfind
          rfl
    by_cases he : e = 0
    · left
      simp [he, View.setMgr, hw]
    · right
      refine ⟨rqe.creinfo.cThread.dtIndex, ?_⟩
      simp [he, gtabFree_gtab, View.setMgr, hw]

theorem detachThread_table {job : Job} {v : View} {thread : DThread} (mqe : Mqe)
    (h : dt2gtab job v.gtab thread = some thread.dtIndex) :
    (detachThread job v mqe thread).gtab = Function.update v.gtab thread.dtIndex
      { v.gtab thread.dtIndex with detached := true } := by
  unfold detachThread
  rw [h]
  simp only
  split <;> simp [joinwaitRemove, View.setMgr, View.setGtab]

theorem detachThread_table_none {job : Job} {v : View} {thread : DThread} (mqe : Mqe)
    (h : dt2gtab job v.gtab thread = none) : (detachThread job v mqe thread).gtab = v.gtab := by
  unfold detachThread
  rw [h]
  simp

/-- join_thread frees a zombie and leaves every other entry alone. -/
theorem joinThread_table (job : Job) (v : View) (mqe : Mqe) (thread : DThread) :
    (joinThread job v mqe thread).gtab = v.gtab ∨
      (joinThread job v mqe thread).gtab = freeGtab v.gtab thread.dtIndex := by
  unfold joinThread
  cases h : dt2gtab job v.gtab thread with
  | none =>
    left
    simp
  | some i =>
    obtain rfl := dt2gtab_eq _ _ _ h
    simp only
    split
    · left
      simp
    · split
      · right
        simp [gtabFree_gtab]
      · split
        · left
          simp
        · split
          · left
            simp [View.setDtq]
          · left
            rfl

theorem joinwaitSearch_congr {v w : View} {thread : DThread}
    (h : w.mgr.rpending = v.mgr.rpending) : joinwaitSearch w thread = joinwaitSearch v thread := by
  unfold joinwaitSearch
  rw [h]

/-- The state in which terminated_thread has noted the end of a thread and has
taken the JOINWAIT for it off the list. -/
def endNoted (v : View) (thread : DThread) (fin : LtState) : View :=
  joinwaitRemove ((v.setGtab thread.dtIndex
    { v.gtab thread.dtIndex with terminated := fin, hasLtab := false }).setMgr
      { v.mgr with threadsRunning := v.mgr.threadsRunning - 1 }) thread

theorem endNoted_gtab (v : View) (thread : DThread) (fin : LtState) :
    (endNoted v thread fin).gtab = zombieGtab v.gtab thread fin := rfl

/-- The ways through terminated_thread. -/
theorem terminatedThread_eq (job : Job) (v : View) (thread : DThread) (fin : LtState) :
    terminatedThread job v thread fin =
      match (v.gtab thread.dtIndex).detached, joinwaitSearch v thread with
      | true, some rqe =>
        gtabFree (detachedRetCleanup job
          (joinwaitEndRelease (endNoted v thread fin) { rqe with reqerror := EINVAL })
          thread.dtIndex) thread.dtIndex
      | true, none =>
        gtabFree (detachedRetCleanup job (endNoted v thread fin) thread.dtIndex) thread.dtIndex
      | false, some rqe =>
        gtabFree (joinwaitEndRelease (endNoted v thread fin) rqe) thread.dtIndex
      | false, none => endNoted v thread fin := by
  unfold terminatedThread
  simp only
  rw [joinwaitSearch_congr (v := v) (by rfl)]
  generalize hrest : joinwaitRemove ((v.setGtab thread.dtIndex { v.gtab thread.dtIndex with
      terminated := fin, hasLtab := false }).setMgr
      { v.mgr with threadsRunning := v.mgr.threadsRunning - 1 }) thread = w
  have hnoted : endNoted v thread fin = w := hrest
  have hdet : (w.gtab thread.dtIndex).detached = (v.gtab thread.dtIndex).detached := by
    rw [← hnoted, endNoted_gtab]
    simp [zombieGtab]
  rw [hnoted, hdet]
  cases (v.gtab thread.dtIndex).detached <;> cases joinwaitSearch v thread <;> simp

/-- terminated_thread leaves a zombie, or frees the entry when the thread is
detached or waited for. -/
theorem terminatedThread_table (job : Job) (v : View) (thread : DThread) (fin : LtState) :
    (terminatedThread job v thread fin).gtab =
      if (v.gtab thread.dtIndex).detached = true then
        freeGtab (cleanupGtab job (zombieGtab v.gtab thread fin) thread.dtIndex) thread.dtIndex
      else if (joinwaitSearch v thread).isSome = true then
        freeGtab (zombieGtab v.gtab thread fin) thread.dtIndex
      else zombieGtab v.gtab thread fin := by
  rw [terminatedThread_eq]
  cases (v.gtab thread.dtIndex).detached <;> cases joinwaitSearch v thread <;>
    simp [gtabFree_gtab, detachedRetCleanup_gtab, endNoted_gtab]

section Rank

@[simp] theorem sendCreatedError_mgr (job : Job) (v : View) (mqe : Mqe) (e : ℕ) :
    (sendCreatedError job v mqe e).mgr = v.mgr := by
  unfold sendCreatedError
  split
  · rfl
  · simp [View.setDtq]

@[simp] theorem dtqReqRelease_mpiRank (v : View) (req : Request) (notify : Bool) :
    (dtqReqRelease v req notify).mgr.mpiRank = v.mgr.mpiRank := by
  unfold dtqReqRelease
  split <;> rfl

@[simp] theorem joinwaitEndRelease_mpiRank (v : View) (rqe : Request) :
    (joinwaitEndRelease v rqe).mgr.mpiRank = v.mgr.mpiRank := by
  unfold joinwaitEndRelease
  split
  · simp
  · split
    · simp [View.setDtq]
    · simp [View.setDtq]

@[simp] theorem gtabFree_mpiRank (v : View) (i : ℕ) :
    (gtabFree v i).mgr.mpiRank = v.mgr.mpiRank := by
  rw [gtabFree_eq]
  rfl

@[simp] theorem detachedRetCleanup_mpiRank (job : Job) (v : View) (i : ℕ) :
    (detachedRetCleanup job v i).mgr.mpiRank = v.mgr.mpiRank := by
  unfold detachedRetCleanup
  simp only
  split
  · rfl
  · split <;> rfl

theorem createThread_mpiRank {job : Job} {v v' : View} {mqe : Mqe} {attrs : Attr} {dispIdx : ℕ}
    {arg : Argret} (h : createThread job v mqe attrs dispIdx arg = some v') :
    v'.mgr.mpiRank = v.mgr.mpiRank := by
  rcases createThread_cases h with ⟨w, e, rfl, -, hm⟩ | ⟨q, n, addr, gidx, hfree, -, hstart⟩
  · rw [sendCreatedError_mgr, hm]
  · unfold createStart at hstart
    simp only [Option.map_eq_some_iff, Prod.exists] at hstart
    obtain ⟨xidseq, w, hseq, rfl⟩ := hstart
    obtain ⟨-, rfl⟩ := getFreeSeq_some _ _ .start hseq
    simp only
    split
    · rfl
    · simp [gtabTaken, View.setDtq, View.setMgr]

theorem startedReply_mpiRank (v : View) (mqe : Mqe) (e : ℕ) :
    (startedReply v mqe e).mgr.mpiRank = v.mgr.mpiRank := by
  unfold startedReply
  split
  · rfl
  · rename_i rqe w hfind
    have hw : w.mgr.mpiRank = v.mgr.mpiRank := by
      unfold findPendingMsgreq at hfind
      split at hfind
      · simp at hfind
      · split at hfind
        · simp at hfind
        · simp only [Option.some.injEq, Prod.mk.injEq] at hfind
          obtain ⟨-, rfl⟩ := hfind
          rfl
    by_cases he : e = 0 <;> simp [he, View.setMgr, hw]

theorem detachThread_mpiRank (job : Job) (v : View) (mqe : Mqe) (thread : DThread) :
    (detachThread job v mqe thread).mgr.mpiRank = v.mgr.mpiRank := by
  unfold detachThread
  split
  · simp
  · simp only
    split <;> simp [joinwaitRemove, View.setMgr, View.setGtab]

theorem joinThread_mpiRank (job : Job) (v : View) (mqe : Mqe) (thread : DThread) :
    (joinThread job v mqe thread).mgr.mpiRank = v.mgr.mpiRank := by
  unfold joinThread
  split
  · simp
  simp only
  split
  · simp
  split
  · simp
  split
  · simp
  split <;> simp [View.setDtq, View.setMgr]

theorem terminatedThread_mpiRank (job : Job) (v : View) (thread : DThread) (fin : LtState) :
    (terminatedThread job v thread fin).mgr.mpiRank = v.mgr.mpiRank := by
  have hnoted : (endNoted v thread fin).mgr.mpiRank = v.mgr.mpiRank := rfl
  rw [terminatedThread_eq]
  cases (v.gtab thread.dtIndex).detached <;> cases joinwaitSearch v thread <;> simp [hnoted]

end Rank

section ThreadsAlloc

@[simp] theorem dtqReqRelease_threadsAlloc (v : View) (req : Request) (notify : Bool) :
    (dtqReqRelease v req notify).mgr.threadsAlloc = v.mgr.threadsAlloc := by
  unfold dtqReqRelease
  split <;> rfl

@[simp] theorem joinwaitEndRelease_threadsAlloc (v : View) (rqe : Request) :
    (joinwaitEndRelease v rqe).mgr.threadsAlloc = v.mgr.threadsAlloc := by
  unfold joinwaitEndRelease
  split
  · simp
  · split
    · simp [View.setDtq]
    · simp [View.setDtq]

@[simp] theorem detachedRetCleanup_threadsAlloc (job : Job) (v : View) (i : ℕ) :
    (detachedRetCleanup job v i).mgr.threadsAlloc = v.mgr.threadsAlloc := by
  unfold detachedRetCleanup
  simp only
  split
  · rfl
  · split <;> rfl

theorem gtabFree_threadsAlloc (v : View) (i : ℕ) :
    (gtabFree v i).mgr.threadsAlloc =
      if (v.gtab i).allocated then v.mgr.threadsAlloc - 1 else v.mgr.threadsAlloc := by
  rw [gtabFree_eq]
  rfl

theorem detachThread_threadsAlloc (job : Job) (v : View) (mqe : Mqe) (thread : DThread) :
    (detachThread job v mqe thread).mgr.threadsAlloc = v.mgr.threadsAlloc := by
  unfold detachThread
  split
  · simp
  · simp only
    split <;> simp [joinwaitRemove, View.setMgr, View.setGtab]

/-- The end of a detached thread takes its entry out of the count. -/
theorem terminatedThread_threadsAlloc {job : Job} {v : View} {thread : DThread} (fin : LtState)
    (hdet : (v.gtab thread.dtIndex).detached = true)
    (halloc : (v.gtab thread.dtIndex).allocated = true) :
    (terminatedThread job v thread fin).mgr.threadsAlloc = v.mgr.threadsAlloc - 1 := by
  have hnoted : (endNoted v thread fin).mgr.threadsAlloc = v.mgr.threadsAlloc := rfl
  have halloc' : (zombieGtab v.gtab thread fin thread.dtIndex).allocated = true := by
    rw [zombieGtab_allocated, halloc]
  rw [terminatedThread_eq, hdet]
  cases joinwaitSearch v thread <;>
    simp [gtabFree_threadsAlloc, detachedRetCleanup_gtab, cleanupGtab_allocated, endNoted_gtab,
      hnoted, halloc']

end ThreadsAlloc

end Dthread.TableWrites
