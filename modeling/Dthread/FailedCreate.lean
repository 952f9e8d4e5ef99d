import Dthread.JobSystem
import Dthread.TableWrites

/-!
What a create that fails leaves behind. create_thread can fail at six steps,
whose cleanup labels fall through into each other, and the rest of a create
fails later, in process_mqe, when the STARTED reports an error. In both cases
the slot, the counters, the pending list and the free lists come back.
-/
namespace Dthread.FailedCreate

open ReqMsg Queuing ManagerTables ManagerHandlers ManagerEffects ManagerOutcomes
  TableWrites JobSystem

/-- A free list and the number of entries that were ever allocated, before and
after: the list is as it was, or has got the one entry that is new. -/
def Recovered (free : List ℕ) (n : ℕ) (free' : List ℕ) (n' : ℕ) : Prop :=
  (free' = free ∧ n' = n) ∨ (free' = n :: free ∧ n' = n + 1)

/-- The tables, counters and free lists are those of `v`, with the buffers
`taken` still in use. -/
structure NoTrace (v v' : View) (taken : List ℕ) : Prop where
  allocated : ∀ i, (v'.gtab i).allocated = (v.gtab i).allocated
  threadsAlloc : v'.mgr.threadsAlloc = v.mgr.threadsAlloc
  threadsStarting : v'.mgr.threadsStarting = v.mgr.threadsStarting
  threadsRunning : v'.mgr.threadsRunning = v.mgr.threadsRunning
  rpending : v'.mgr.rpending = v.mgr.rpending
  requests : Recovered v.dtq.reqfree v.dtq.nreq v'.dtq.reqfree v'.dtq.nreq
  mqes : Recovered v.dtq.mqefree v.dtq.nmqe (taken ++ v'.dtq.mqefree) v'.dtq.nmqe

/-- create_thread has chosen a rank for the thread. -/
def advance (job : Job) (v : View) : View :=
  v.setMgr { v.mgr with nextRank := (v.mgr.nextRank + 1) % job.wsize }

def releaseReq (w : View) (n : ℕ) : View :=
  w.setDtq { w.dtq with reqfree := n :: w.dtq.reqfree }

def unallocMqe (w : View) (addr : ℕ) : View := w.setDtq (dtqMqeUnalloc w.dtq addr)

/-- A CREATE that passes the checks at the top of create_thread. -/
structure Checked (job : Job) (v : View) (dispIdx : ℕ) : Prop where
  dispatch : dispIdx ≠ 0 ∧ dispIdx < job.ndsps
  room : v.mgr.threadsAlloc < job.nmaxthread

/-- The step of create_thread that fails, with its errstatus and the state in
which the label send_created_error is reached. -/
inductive FailsAt (job : Job) (v : View) (dispIdx : ℕ) (arg : Argret) : ℕ → View → Prop
  | dispatch (h : dispIdx = 0 ∨ job.ndsps ≤ dispIdx) : FailsAt job v dispIdx arg EINVAL v
  | full (hdisp : dispIdx ≠ 0 ∧ dispIdx < job.ndsps)
      (h : (job.nmaxthread : ℤ) ≤ v.mgr.threadsAlloc) : FailsAt job v dispIdx arg EAGAIN v
  | request (hok : Checked job v dispIdx) {q : Dtq} (h : dtqReqAlloc v.dtq = (none, q)) :
      FailsAt job v dispIdx arg ENOMEM ((advance job v).setDtq q)
  | mqe (hok : Checked job v dispIdx) {n : ℕ} {q q' : Dtq}
      (hreq : dtqReqAlloc v.dtq = (some n, q)) (h : dtqMqeAlloc q = (none, q')) :
      FailsAt job v dispIdx arg ENOMEM (releaseReq ((advance job v).setDtq q') n)
  | slot (hok : Checked job v dispIdx) {n addr : ℕ} {q q' : Dtq} {w : View}
      (hreq : dtqReqAlloc v.dtq = (some n, q)) (hmqe : dtqMqeAlloc q = (some addr, q'))
      (h : gtabAlloc job ((advance job v).setDtq q') v.mgr.nextRank dispIdx arg =
        some (none, w)) :
      FailsAt job v dispIdx arg ENOMEM (unallocMqe (releaseReq w n) addr)
  | enqueue (hok : Checked job v dispIdx) {n addr gidx xidseq : ℕ} {q q' : Dtq} {w w' : View}
      (hreq : dtqReqAlloc v.dtq = (some n, q)) (hmqe : dtqMqeAlloc q = (some addr, q'))
      (hslot : gtabAlloc job ((advance job v).setDtq q') v.mgr.nextRank dispIdx arg =
        some (some gidx, w))
      (hseq : getFreeSeq job w .start = some (xidseq, w'))
      (h : v.dtq.mpisqDraindown ≠ .init) :
      FailsAt job v dispIdx arg EIO (gtabFree (unallocMqe (releaseReq w' n) addr) gidx)

/-- The CREATED that send_created_error builds, if it gets a buffer. -/
def errorReply (job : Job) (w : View) (mqe : Mqe) (errstatus : ℕ) : List Mqe :=
  ((dtqMqeAlloc w.dtq).1.map fun addr => ⟨addr, mqe.peer,
    .of mqe.frame.xidseq (.created errstatus ⟨job.nmaxthread + 1, 0⟩)⟩).toList

/-- What dtq_send_enqueue takes of the messages handed to it. -/
def queued (v : View) (built : List Mqe) : List Mqe :=
  if v.dtq.mpisqDraindown = .init then built else []

/-- dtq_mqe_alloc finds a free buffer, or malloc gives one. -/
def MqeAvailable (q : Dtq) : Prop := q.mqefree ≠ [] ∨ q.mallocs.headD true = true

instance (q : Dtq) : Decidable (MqeAvailable q) := inferInstanceAs (Decidable (_ ∨ _))

variable {job : Job} {v v' w : View} {mqe : Mqe} {attrs : Attr} {dispIdx : ℕ} {arg : Argret}
  {errstatus : ℕ}

theorem dtqReqRelease_internal {n : ℕ} {req : Request} (h : req.addr = .internal n)
    (notify : Bool) : dtqReqRelease w req notify = releaseReq w n := by
  simp only [dtqReqRelease, h, releaseReq]

theorem Checked.passes (h : Checked job v dispIdx) :
    ¬ (dispIdx = 0 ∨ job.ndsps ≤ dispIdx) ∧ ¬ (job.nmaxthread : ℤ) ≤ v.mgr.threadsAlloc := by
  have hdisp := h.dispatch
  exact ⟨by omega, not_le.mpr h.room⟩

/-- The two allocations leave the draindown state and the accepted messages. -/
theorem allocs_traffic {n : ℕ} {r : Option ℕ} {q q' : Dtq} (hreq : dtqReqAlloc v.dtq = (some n, q))
    (hmqe : dtqMqeAlloc q = (r, q')) : SameTraffic v.dtq q' := by
  have hs := sameTraffic_reqAlloc v.dtq
  have hs' := sameTraffic_mqeAlloc q
  rw [hreq] at hs
  rw [hmqe] at hs'
  exact hs.trans hs'

/-- gtab_alloc and get_free_seq leave the queues alone. -/
theorem gtabAlloc_dtq {target gidx xidseq : ℕ} {w' u : View}
    (hslot : gtabAlloc job w target dispIdx arg = some (some gidx, w'))
    (hseq : getFreeSeq job w' .start = some (xidseq, u)) : u.dtq = w.dtq := by
  obtain ⟨-, -, rfl⟩ := gtabAlloc_taken _ _ _ _ _ _ _ hslot
  obtain ⟨-, rfl⟩ := getFreeSeq_some _ _ _ hseq
  rfl

theorem createStart_refused {target n addr gidx xidseq : ℕ} {w' : View}
    (hseq : getFreeSeq job w .start = some (xidseq, w'))
    (hd : w'.dtq.mpisqDraindown ≠ .init) :
    createStart job w mqe attrs target n addr gidx = some (sendCreatedError job
      (gtabFree (unallocMqe (releaseReq w' n) addr) gidx) mqe EIO) := by
  simp only [createStart, hseq, Option.map_some, sendEnqueue_draining _ _ _ hd]
  rfl

theorem createThread_slot (hok : Checked job v dispIdx) {n addr gidx : ℕ} {q q' : Dtq}
    (hreq : dtqReqAlloc v.dtq = (some n, q)) (hmqe : dtqMqeAlloc q = (some addr, q'))
    (hslot : gtabAlloc job ((advance job v).setDtq q') v.mgr.nextRank dispIdx arg =
      some (some gidx, w)) :
    createThread job v mqe attrs dispIdx arg =
      createStart job w mqe attrs v.mgr.nextRank n addr gidx := by
  unfold createThread
  rw [if_neg hok.passes.1, if_neg hok.passes.2]
  simp only [View.setMgr, View.setDtq, advance] at hslot
  simp only [View.setMgr, View.setDtq, hreq, hmqe, hslot]

theorem createThread_noSlot (hok : Checked job v dispIdx) {n addr : ℕ} {q q' : Dtq}
    (hreq : dtqReqAlloc v.dtq = (some n, q)) (hmqe : dtqMqeAlloc q = (some addr, q'))
    (hslot : gtabAlloc job ((advance job v).setDtq q') v.mgr.nextRank dispIdx arg = none) :
    createThread job v mqe attrs dispIdx arg = none := by
  unfold createThread
  rw [if_neg hok.passes.1, if_neg hok.passes.2]
  simp only [View.setMgr, View.setDtq, advance] at hslot
  simp only [View.setMgr, View.setDtq, hreq, hmqe, hslot]

/-- Every failing step of create_thread goes on at send_created_error. -/
theorem createThread_fails (h : FailsAt job v dispIdx arg errstatus w) (mqe : Mqe)
    (attrs : Attr) :
    createThread job v mqe attrs dispIdx arg = some (sendCreatedError job w mqe errstatus) := by
  cases h with
  | dispatch h =>
    unfold createThread
    rw [if_pos h]
  | full hdisp h =>
    unfold createThread
    rw [if_neg (by omega), if_pos h]
  | request hok h =>
    unfold createThread
    rw [if_neg hok.passes.1, if_neg hok.passes.2]
    simp only [View.setMgr, h]
    rfl
  | mqe hok hreq h =>
    unfold createThread
    rw [if_neg hok.passes.1, if_neg hok.passes.2]
    simp only [View.setMgr, hreq, h]
    rfl
  | slot hok hreq hmqe h =>
    unfold createThread
    rw [if_neg hok.passes.1, if_neg hok.passes.2]
    simp only [View.setMgr, View.setDtq, advance] at h
    simp only [View.setMgr, View.setDtq, hreq, hmqe, h]
    rfl
  | @enqueue hok n addr gidx xidseq q q' w w' hreq hmqe hslot hseq h =>
    have hd : w'.dtq.mpisqDraindown ≠ .init := by
      rw [gtabAlloc_dtq hslot hseq]
      exact fun hc => h ((allocs_traffic hreq hmqe).draindown.symm.trans hc)
    rw [createThread_slot hok hreq hmqe hslot]
    exact createStart_refused hseq hd

theorem Recovered.refl (free : List ℕ) (n : ℕ) : Recovered free n free n := .inl ⟨rfl, rfl⟩

/-- An internal request that is given back is on the free list again. -/
theorem reqAlloc_recovered {q q' : Dtq} {n : ℕ} (h : dtqReqAlloc q = (some n, q')) :
    Recovered q.reqfree q.nreq (n :: q'.reqfree) q'.nreq ∧
      q'.mqefree = q.mqefree ∧ q'.nmqe = q.nmqe := by
  rcases reqAlloc_some h with ⟨rest, hfree, rfl⟩ | ⟨rfl, rfl⟩
  · exact ⟨.inl ⟨hfree.symm, rfl⟩, rfl, rfl⟩
  · exact ⟨.inr ⟨rfl, rfl⟩, rfl, rfl⟩

theorem mqeAlloc_recovered {q q' : Dtq} {addr : ℕ} (h : dtqMqeAlloc q = (some addr, q')) :
    Recovered q.mqefree q.nmqe (addr :: q'.mqefree) q'.nmqe ∧
      q'.reqfree = q.reqfree ∧ q'.nreq = q.nreq := by
  rcases mqeAlloc_some h with ⟨rest, hfree, rfl⟩ | ⟨rfl, rfl⟩
  · exact ⟨.inl ⟨hfree.symm, rfl⟩, rfl, rfl⟩
  · exact ⟨.inr ⟨rfl, rfl⟩, rfl, rfl⟩

/-- Both allocations of create_thread, given back. -/
theorem allocs_recovered {n addr : ℕ} {q q' : Dtq} (hreq : dtqReqAlloc v.dtq = (some n, q))
    (hmqe : dtqMqeAlloc q = (some addr, q')) :
    Recovered v.dtq.reqfree v.dtq.nreq (n :: q'.reqfree) q'.nreq ∧
      Recovered v.dtq.mqefree v.dtq.nmqe (addr :: q'.mqefree) q'.nmqe := by
  obtain ⟨hr, hfree, hn⟩ := reqAlloc_recovered hreq
  obtain ⟨hm, hfree', hn'⟩ := mqeAlloc_recovered hmqe
  rw [hfree', hn']
  rw [hfree, hn] at hm
  exact ⟨hr, hm⟩

/-- The state at send_created_error: everything is undone and nothing was sent. -/
structure Undone (v w : View) : Prop where
  noTrace : NoTrace v w []
  accepted : w.dtq.accepted = v.dtq.accepted
  draindown : w.dtq.mpisqDraindown = v.dtq.mpisqDraindown

theorem failsAt_undone (h : FailsAt job v dispIdx arg errstatus w) : Undone v w := by
  cases h with
  | dispatch h => exact ⟨⟨fun _ => rfl, rfl, rfl, rfl, rfl, .refl _ _, .refl _ _⟩, rfl, rfl⟩
  | full hdisp h => exact ⟨⟨fun _ => rfl, rfl, rfl, rfl, rfl, .refl _ _, .refl _ _⟩, rfl, rfl⟩
  | request hok h =>
    obtain rfl := reqAlloc_none h
    exact ⟨⟨fun _ => rfl, rfl, rfl, rfl, rfl, .refl _ _, .refl _ _⟩, rfl, rfl⟩
  | mqe hok hreq h =>
    have hs := allocs_traffic hreq h
    obtain ⟨hr, hfree, hn⟩ := reqAlloc_recovered hreq
    obtain rfl := mqeAlloc_none h
    exact ⟨⟨fun _ => rfl, rfl, rfl, rfl, rfl, hr, .inl ⟨hfree, hn⟩⟩, hs.accepted, hs.draindown⟩
  | slot hok hreq hmqe h =>
    obtain ⟨hr, hm⟩ := allocs_recovered hreq hmqe
    have hs := allocs_traffic hreq hmqe
    obtain rfl := gtabAlloc_full _ _ _ _ _ _ h
    exact ⟨⟨fun _ => rfl, rfl, rfl, rfl, rfl, hr, hm⟩, hs.accepted, hs.draindown⟩
  | @enqueue hok n addr gidx xidseq q q' w w' hreq hmqe hslot hseq h =>
    obtain ⟨hr, hm⟩ := allocs_recovered hreq hmqe
    have hs := allocs_traffic hreq hmqe
    obtain ⟨hfree, -, rfl⟩ := gtabAlloc_taken _ _ _ _ _ _ _ hslot
    obtain ⟨-, rfl⟩ := getFreeSeq_some _ _ _ hseq
    rw [gtabFree_eq]
    refine ⟨⟨fun i => ?_, ?_, rfl, rfl, rfl, hr, hm⟩, hs.accepted, hs.draindown⟩
    · by_cases hi : i = gidx
      · subst hi
        exact (freeGtab_allocated _ _).trans hfree.symm
      · show (freeGtab _ gidx i).allocated = _
        rw [freeGtab_of_ne _ hi]
        simp [unallocMqe, releaseReq, View.setDtq, View.setMgr, gtabTaken, advance, hi]
    · simp [freeMgr, unallocMqe, releaseReq, View.setDtq, View.setMgr, gtabTaken, gtabInit, advance]

/-- A message handed to dtq_send_enqueue: it is accepted, or its buffer is freed. -/
structure Handed (q q' : Dtq) (mqe : Mqe) : Prop where
  reqfree : q'.reqfree = q.reqfree
  nreq : q'.nreq = q.nreq
  nmqe : q'.nmqe = q.nmqe
  mqefree : q'.mqefree = (if q.mpisqDraindown = .init then [] else [mqe.addr]) ++ q.mqefree
  accepted : q'.accepted = q.accepted ++ if q.mpisqDraindown = .init then [mqe] else []

theorem sendOrUnalloc_handed (w : View) (mqe : Mqe) :
    ∃ q, sendOrUnalloc w mqe = w.setDtq q ∧ Handed w.dtq q mqe := by
  unfold sendOrUnalloc
  by_cases h : w.dtq.mpisqDraindown = .init
  · obtain ⟨sendq, recvq, len, hq⟩ := sendEnqueue_taken w.mgr.mpiRank w.dtq mqe h
    rw [hq]
    exact ⟨_, rfl, rfl, rfl, rfl, by rw [if_pos h]; rfl, by rw [if_pos h]⟩
  · rw [sendEnqueue_draining _ _ _ h]
    exact ⟨_, rfl, rfl, rfl, rfl, by rw [if_neg h]; rfl, by rw [if_neg h, List.append_nil]; rfl⟩

theorem mqeAlloc_isSome (q : Dtq) : (dtqMqeAlloc q).1.isSome ↔ MqeAvailable q := by
  unfold dtqMqeAlloc MqeAvailable
  cases hfree : q.mqefree with
  | cons a rest => simp
  | nil =>
    rw [malloc_eq]
    cases q.mallocs.headD true <;> simp

/-- One CREATED is built, for the sender of the CREATE, if there is a buffer for it. -/
theorem errorReply_post (job : Job) (w : View) (mqe : Mqe) (errstatus : ℕ) :
    (errorReply job w mqe errstatus).map toPost =
      if MqeAvailable w.dtq then
        [(mqe.peer, .of mqe.frame.xidseq (.created errstatus ⟨job.nmaxthread + 1, 0⟩))]
      else [] := by
  have hsome := mqeAlloc_isSome w.dtq
  unfold errorReply
  cases h : (dtqMqeAlloc w.dtq).1 with
  | none => rw [if_neg (by simp [← hsome, h])]; rfl
  | some addr => rw [if_pos (by simp [← hsome, h])]; rfl

theorem sendCreatedError_eq (job : Job) (w : View) (mqe : Mqe) (errstatus : ℕ) :
    sendCreatedError job w mqe errstatus =
      (errorReply job w mqe errstatus).foldl sendOrUnalloc
        (w.setDtq (dtqMqeAlloc w.dtq).2) := by
  unfold sendCreatedError errorReply
  rcases dtqMqeAlloc w.dtq with ⟨_ | addr, q⟩ <;> rfl

theorem mqeAlloc_cons {q : Dtq} {a : ℕ} {rest : List ℕ} (h : q.mqefree = a :: rest) :
    dtqMqeAlloc q = (some a, { q with mqefree := rest }) := by
  simp only [dtqMqeAlloc, h]

/-- Taking a buffer again where one may just have come back. -/
theorem Recovered.mqeAlloc {free : List ℕ} {n addr : ℕ} {q q' : Dtq}
    (h : Recovered free n q.mqefree q.nmqe) (ha : dtqMqeAlloc q = (some addr, q')) :
    Recovered free n (addr :: q'.mqefree) q'.nmqe := by
  rcases h with ⟨hfree, hn⟩ | ⟨hfree, hn⟩
  · rw [← hfree, ← hn]
    exact (mqeAlloc_recovered ha).1
  · rw [mqeAlloc_cons hfree] at ha
    obtain ⟨rfl, rfl⟩ : n = addr ∧ _ = q' := by simpa using ha
    exact .inr ⟨rfl, hn⟩

/-- Sending the CREATED only takes the buffer that it travels in. -/
theorem sendCreatedError_noTrace (h : Undone v w) (job : Job) (mqe : Mqe) (errstatus : ℕ) :
    NoTrace v (sendCreatedError job w mqe errstatus)
        ((queued v (errorReply job w mqe errstatus)).map Mqe.addr) ∧
      (sendCreatedError job w mqe errstatus).dtq.accepted =
        v.dtq.accepted ++ queued v (errorReply job w mqe errstatus) := by
  obtain ⟨hn, ha, hd⟩ := h
  rw [sendCreatedError_eq]
  unfold errorReply queued
  rcases halloc : dtqMqeAlloc w.dtq with ⟨_ | addr, q⟩
  · obtain rfl := mqeAlloc_none halloc
    simp only [Option.map_none, Option.toList_none, ite_self, List.map_nil, List.append_nil,
      List.foldl_nil]
    exact ⟨⟨hn.allocated, hn.threadsAlloc, hn.threadsStarting, hn.threadsRunning, hn.rpending,
      hn.requests, hn.mqes⟩, ha⟩
  · have hs := sameTraffic_mqeAlloc w.dtq
    rw [halloc] at hs
    obtain ⟨-, hreq, hnreq⟩ := mqeAlloc_recovered halloc
    have hr : Recovered v.dtq.reqfree v.dtq.nreq q.reqfree q.nreq := by
      rw [hreq, hnreq]
      exact hn.requests
    have hm := Recovered.mqeAlloc hn.mqes halloc
    simp only [Option.map_some, Option.toList_some, List.foldl_cons, List.foldl_nil]
    obtain ⟨q', hsend, hh⟩ := sendOrUnalloc_handed (w.setDtq q)
      ⟨addr, mqe.peer, .of mqe.frame.xidseq (.created errstatus ⟨job.nmaxthread + 1, 0⟩)⟩
    have hdrain : (w.setDtq q).dtq.mpisqDraindown = v.dtq.mpisqDraindown :=
      hs.draindown.trans hd
    have haccepted := hh.accepted
    have hfree := hh.mqefree
    rw [hdrain] at haccepted hfree
    rw [hsend]
    refine ⟨⟨hn.allocated, hn.threadsAlloc, hn.threadsStarting, hn.threadsRunning, hn.rpending,
      ?_, ?_⟩, ?_⟩
    · show Recovered _ _ q'.reqfree q'.nreq
      rw [hh.reqfree, hh.nreq]
      exact hr
    · -- the buffer is on its way with the message, or back on the list
      show Recovered _ _ (_ ++ q'.mqefree) q'.nmqe
      rw [hfree, hh.nmqe]
      split
      · exact hm
      · exact hm
    · rw [← ha, ← hs.accepted]
      exact haccepted

/-- A create that went through: `rqe` waits for the STARTED that answers `start`. -/
structure Started (v v₁ : View) (mqe : Mqe) (rqe : Request) (start : Mqe) : Prop where
  free : (v.gtab rqe.creinfo.cThread.dtIndex).allocated = false
  taken : (v₁.gtab rqe.creinfo.cThread.dtIndex).allocated = true
  others : ∀ i, i ≠ rqe.creinfo.cThread.dtIndex → v₁.gtab i = v.gtab i
  mpiRank : v₁.mgr.mpiRank = v.mgr.mpiRank
  threadsAlloc : v₁.mgr.threadsAlloc = v.mgr.threadsAlloc + 1
  threadsStarting : v₁.mgr.threadsStarting = v.mgr.threadsStarting + 1
  threadsRunning : v₁.mgr.threadsRunning = v.mgr.threadsRunning
  rpending : v₁.mgr.rpending = v.mgr.rpending ++ [rqe]
  fresh : findPendingReq v.mgr.rpending .start rqe.xidseq = none
  reqop : rqe.reqop = .start
  creator : rqe.creinfo.cPeer = mqe.peer ∧ rqe.creinfo.cXidseq = mqe.frame.xidseq
  message : ∃ attrs, start.frame = .of rqe.xidseq (.start rqe.creinfo.cThread attrs)
  requests : ∃ n, rqe.addr = .internal n ∧
    Recovered v.dtq.reqfree v.dtq.nreq (n :: v₁.dtq.reqfree) v₁.dtq.nreq
  mqes : Recovered v.dtq.mqefree v.dtq.nmqe (start.addr :: v₁.dtq.mqefree) v₁.dtq.nmqe
  draindown : v₁.dtq.mpisqDraindown = .init
  accepted : v₁.dtq.accepted = v.dtq.accepted ++ [start]

/-- The START is taken and its request waits at the end of the pending list. -/
theorem createStart_taken (mqe : Mqe) (attrs : Attr) (target n addr gidx : ℕ) {xidseq : ℕ}
    {w' : View}
    (hseq : getFreeSeq job w .start = some (xidseq, w'))
    (hd : w'.dtq.mpisqDraindown = .init) : ∃ sendq recvq len,
    createStart job w mqe attrs target n addr gidx = some
      { mgr := { w'.mgr with
          threadsStarting := w'.mgr.threadsStarting + 1
          rpending := w'.mgr.rpending ++ [startRequest n target xidseq
            ⟨⟨gidx, (w'.gtab gidx).seq⟩, mqe.peer, mqe.frame.xidseq⟩] }
        gtab := w'.gtab
        dtq := { w'.dtq with
          mpisendq := sendq, mpirecvq := recvq, mpisqlen := len
          accepted := w'.dtq.accepted ++ [⟨addr, target,
            .of xidseq (.start ⟨gidx, (w'.gtab gidx).seq⟩ (startAttrs attrs))⟩] } } := by
  obtain ⟨sendq, recvq, len, hsend⟩ := sendEnqueue_taken w'.mgr.mpiRank w'.dtq
    ⟨addr, target, .of xidseq (.start ⟨gidx, (w'.gtab gidx).seq⟩ (startAttrs attrs))⟩ hd
  refine ⟨sendq, recvq, len, ?_⟩
  simp only [createStart, hseq, Option.map_some, hsend]
  rfl

theorem createStart_started {n addr gidx xidseq : ℕ} {q q' : Dtq} {w' : View}
    (hreq : dtqReqAlloc v.dtq = (some n, q)) (hmqe : dtqMqeAlloc q = (some addr, q'))
    (hslot : gtabAlloc job ((advance job v).setDtq q') v.mgr.nextRank dispIdx arg =
      some (some gidx, w))
    (hseq : getFreeSeq job w .start = some (xidseq, w')) (hd : v.dtq.mpisqDraindown = .init)
    (h : createStart job w mqe attrs v.mgr.nextRank n addr gidx = some v') :
    ∃ rqe start, Started v v' mqe rqe start := by
  obtain ⟨hr, hm⟩ := allocs_recovered hreq hmqe
  have hs := allocs_traffic hreq hmqe
  have hdtq := gtabAlloc_dtq hslot hseq
  have hd' : w'.dtq.mpisqDraindown = .init := by
    rw [hdtq]
    exact hs.draindown.trans hd
  obtain ⟨sendq, recvq, len, htaken⟩ := createStart_taken mqe attrs v.mgr.nextRank n addr gidx
    hseq hd'
  rw [htaken] at h
  obtain rfl := Option.some.inj h
  obtain ⟨hfree, -, rfl⟩ := gtabAlloc_taken _ _ _ _ _ _ _ hslot
  obtain ⟨hfresh, rfl⟩ := getFreeSeq_some _ _ _ hseq
  let thread : DThread := ⟨gidx, (gtabTaken job ((advance job v).setDtq q') gidx v.mgr.nextRank
    dispIdx arg).gtab gidx |>.seq⟩
  refine ⟨startRequest n v.mgr.nextRank xidseq ⟨thread, mqe.peer, mqe.frame.xidseq⟩,
    ⟨addr, v.mgr.nextRank, .of xidseq (.start thread (startAttrs attrs))⟩,
    ⟨hfree, ?_, fun i hi => ?_, rfl, rfl, rfl, rfl, rfl, hfresh.resolve_left (by simp),
    rfl, ⟨rfl, rfl⟩, ⟨_, rfl⟩, ⟨n, rfl, hr⟩, hm, hd', ?_⟩⟩
  · show (Function.update v.gtab gidx _ gidx).allocated = true
    simp
  · exact Function.update_of_ne hi _ _
  · show q'.accepted ++ _ = _
    rw [hs.accepted]
    rfl

/-- create_thread fails at one of its steps, or sends the START. -/
theorem createThread_cases (h : createThread job v mqe attrs dispIdx arg = some v') :
    (∃ e w, FailsAt job v dispIdx arg e w) ∨ ∃ rqe start, Started v v' mqe rqe start := by
  by_cases hdisp : dispIdx = 0 ∨ job.ndsps ≤ dispIdx
  · exact .inl ⟨_, _, .dispatch hdisp⟩
  by_cases hfull : (job.nmaxthread : ℤ) ≤ v.mgr.threadsAlloc
  · exact .inl ⟨_, _, .full (by omega) hfull⟩
  have hok : Checked job v dispIdx := ⟨by omega, by omega⟩
  rcases hreq : dtqReqAlloc v.dtq with ⟨_ | n, q⟩
  · exact .inl ⟨_, _, .request hok hreq⟩
  rcases hmqe : dtqMqeAlloc q with ⟨_ | addr, q'⟩
  · exact .inl ⟨_, _, .mqe hok hreq hmqe⟩
  rcases hslot : gtabAlloc job ((advance job v).setDtq q') v.mgr.nextRank dispIdx arg with
    _ | ⟨_ | gidx, w⟩
  · simp [createThread_noSlot hok hreq hmqe hslot] at h
  · exact .inl ⟨_, _, .slot hok hreq hmqe hslot⟩
  rw [createThread_slot hok hreq hmqe hslot] at h
  rcases hseq : getFreeSeq job w .start with _ | ⟨xidseq, w'⟩
  · simp [createStart, hseq] at h
  by_cases hd : v.dtq.mpisqDraindown = .init
  · right
    exact createStart_started hreq hmqe hslot hseq hd h
  · exact .inl ⟨_, _, .enqueue hok hreq hmqe hslot hseq hd⟩

/-- The CREATED that a failed STARTED is recycled into. -/
def createdReply (mqe : Mqe) (rqe : Request) (errstatus : ℕ) : Mqe :=
  { mqe.recycle rqe.creinfo.cXidseq (.created errstatus ⟨0, 0⟩) with peer := rqe.creinfo.cPeer }

/-- The second half of a create, undone: `rqe` is the START that had failed and
`created` the only message that is built. -/
structure StartUndone (s s' : View) (rqe : Request) (created : Mqe) : Prop where
  slot : (s'.gtab rqe.creinfo.cThread.dtIndex).allocated = false
  others : ∀ i, i ≠ rqe.creinfo.cThread.dtIndex → s'.gtab i = s.gtab i
  threadsAlloc : s'.mgr.threadsAlloc =
    if (s.gtab rqe.creinfo.cThread.dtIndex).allocated then s.mgr.threadsAlloc - 1
    else s.mgr.threadsAlloc
  threadsStarting : s'.mgr.threadsStarting = s.mgr.threadsStarting - 1
  threadsRunning : s'.mgr.threadsRunning = s.mgr.threadsRunning
  rpending : s'.mgr.rpending = s.mgr.rpending.eraseP (pendingMatch .start rqe.xidseq)
  request : ∀ n, rqe.addr = .internal n → s'.dtq.reqfree = n :: s.dtq.reqfree
  nreq : s'.dtq.nreq = s.dtq.nreq
  mqefree : s'.dtq.mqefree =
    (if s.dtq.mpisqDraindown = .init then [] else [created.addr]) ++ s.dtq.mqefree
  nmqe : s'.dtq.nmqe = s.dtq.nmqe
  accepted : s'.dtq.accepted = s.dtq.accepted ++ queued s [created]
  built : ∃ u, u.dtq = s.dtq ∧ s' = dtqReqRelease (sendOrUnalloc u created) rqe false

theorem processMqe_started {err : ℕ} (hrank : v.mgr.mpiRank = 0)
    (hb : mqe.frame.body = .started errstatus) (hlen : mqe.frame.body.size ≤ mqe.frame.flen) :
    processMqe job v mqe err = some (startedReply v mqe errstatus) := by
  have hhdr := mqe.frame.body.headerSize_le_size
  unfold processMqe
  simp only
  rw [if_neg (by omega), if_neg (by simp [hrank])]
  simp only [hb]

/-- The state in which the failed create's CREATED is sent. -/
def startUndo (s : View) (rqe : Request) (xidseq : ℕ) : View :=
  gtabFree (s.setMgr { dropPending s.mgr .start xidseq with
    threadsStarting := s.mgr.threadsStarting - 1 }) rqe.creinfo.cThread.dtIndex

theorem startedReply_error {rqe : Request} (hlen : mqe.frame.body.size ≤ mqe.frame.flen)
    (he : errstatus ≠ 0)
    (hfind : findPendingReq v.mgr.rpending .start mqe.frame.xidseq = some rqe) :
    startedReply v mqe errstatus = dtqReqRelease (sendOrUnalloc (startUndo v rqe mqe.frame.xidseq)
      (createdReply mqe rqe errstatus)) rqe false := by
  unfold startedReply
  simp only [findPendingMsgreq_eq v mqe .start hlen, hfind, Option.map_some, if_neg he]
  rfl

theorem dtqReqRelease_dtq (w : View) (req : Request) (notify : Bool) :
    (dtqReqRelease w req notify).dtq =
      { w.dtq with reqfree := (dtqReqRelease w req notify).dtq.reqfree } := by
  unfold dtqReqRelease
  cases req.addr <;> rfl

theorem startedReply_undone {rqe : Request} (hlen : mqe.frame.body.size ≤ mqe.frame.flen)
    (he : errstatus ≠ 0)
    (hfind : findPendingReq v.mgr.rpending .start mqe.frame.xidseq = some rqe) :
    StartUndone v (startedReply v mqe errstatus) rqe (createdReply mqe rqe errstatus) := by
  have hxid : mqe.frame.xidseq = rqe.xidseq := by
    have hmatch := List.find?_some hfind
    simp only [pendingMatch, Bool.and_eq_true, beq_iff_eq] at hmatch
    exact hmatch.1.symm
  rw [startedReply_error hlen he hfind, hxid]
  have hgtab : (startUndo v rqe rqe.xidseq).gtab = freeGtab v.gtab rqe.creinfo.cThread.dtIndex := by
    rw [startUndo, gtabFree_eq]
    rfl
  have hmgr : (startUndo v rqe rqe.xidseq).mgr =
      freeMgr { dropPending v.mgr .start rqe.xidseq with
        threadsStarting := v.mgr.threadsStarting - 1 } v.gtab rqe.creinfo.cThread.dtIndex := by
    rw [startUndo, gtabFree_eq]
    rfl
  have hq : (startUndo v rqe rqe.xidseq).dtq = v.dtq := by
    rw [startUndo, gtabFree_eq]
    rfl
  have hbuilt : ∃ u, u.dtq = v.dtq ∧
      dtqReqRelease (sendOrUnalloc (startUndo v rqe rqe.xidseq)
        (createdReply mqe rqe errstatus)) rqe false =
      dtqReqRelease (sendOrUnalloc u (createdReply mqe rqe errstatus)) rqe false :=
    ⟨_, hq, rfl⟩
  obtain ⟨q, hsend, hh⟩ := sendOrUnalloc_handed (startUndo v rqe rqe.xidseq)
    (createdReply mqe rqe errstatus)
  rw [hq] at hh
  rw [hsend] at hbuilt ⊢
  have heff := (Effect.refl ((startUndo v rqe rqe.xidseq).setDtq q)).reqRelease rqe false
  have hgt := heff.gtab.trans hgtab
  have hm := heff.mgr.trans (congrArg (releaseMgr · rqe false) hmgr)
  have hdtq := dtqReqRelease_dtq ((startUndo v rqe rqe.xidseq).setDtq q) rqe false
  refine ⟨?_, fun i hi => ?_, ?_, ?_, ?_, ?_, fun n hn => ?_, ?_, ?_, ?_, ?_, hbuilt⟩
  · rw [hgt]
    exact freeGtab_allocated _ _
  · rw [hgt]
    exact freeGtab_of_ne _ hi
  · rw [hm]
    rfl
  · rw [hm]
    rfl
  · rw [hm]
    rfl
  · rw [hm]
    rfl
  · rw [dtqReqRelease_internal hn]
    exact congrArg (n :: ·) hh.reqfree
  · rw [hdtq]
    exact hh.nreq
  · rw [hdtq]
    exact hh.mqefree
  · rw [hdtq]
    exact hh.nmqe
  · rw [hdtq]
    exact hh.accepted

theorem findPendingReq_append {l : List Request} {rqe : Request} {xidseq : ℕ}
    (hop : rqe.reqop = .start) (hxid : xidseq = rqe.xidseq)
    (hfresh : findPendingReq l .start xidseq = none) :
    findPendingReq (l ++ [rqe]) .start xidseq = some rqe := by
  unfold findPendingReq at *
  rw [List.find?_append, hfresh]
  simp [pendingMatch, hop, hxid]

/-- A STARTED with an error takes back everything that the create had done. -/
theorem started_undone {v₁ v₂ : View} {rqe : Request} {start created : Mqe}
    (h : Started v v₁ mqe rqe start) (hu : StartUndone v₁ v₂ rqe created) :
    NoTrace v v₂ [start.addr] ∧ v₂.dtq.accepted = v.dtq.accepted ++ [start, created] := by
  refine ⟨⟨fun i => ?_, ?_, ?_, ?_, ?_, ?_, ?_⟩, ?_⟩
  · by_cases hi : i = rqe.creinfo.cThread.dtIndex
    · rw [hi, hu.slot, h.free]
    · rw [hu.others i hi, h.others i hi]
  · rw [hu.threadsAlloc, if_pos h.taken, h.threadsAlloc]
    omega
  · rw [hu.threadsStarting, h.threadsStarting]
    omega
  · rw [hu.threadsRunning, h.threadsRunning]
  · -- the new request is the only one with its number
    have hfresh := h.fresh
    rw [findPendingReq, List.find?_eq_none] at hfresh
    rw [hu.rpending, h.rpending, List.eraseP_append_right _ hfresh]
    simp [pendingMatch, h.reqop]
  · obtain ⟨n, haddr, hr⟩ := h.requests
    rw [hu.request n haddr, hu.nreq]
    exact hr
  · rw [hu.mqefree, hu.nmqe, if_pos h.draindown]
    exact h.mqes
  · rw [hu.accepted, h.accepted, queued, if_pos h.draindown, List.append_assoc]
    rfl

/-- What is left of a create that failed, `w` being the state in which it came to
send_created_error. Everything is as it was but for the buffer of the CREATED, the
only message that is built; without a buffer there is none. -/
structure CreateUndone (job : Job) (v w v' : View) (mqe : Mqe) (errstatus : ℕ) : Prop where
  noTrace : NoTrace v v' ((queued v (errorReply job w mqe errstatus)).map Mqe.addr)
  reply : (errorReply job w mqe errstatus).map toPost =
    if MqeAvailable w.dtq then
      [(mqe.peer, .of mqe.frame.xidseq (.created errstatus ⟨job.nmaxthread + 1, 0⟩))]
    else []
  built : v' = (errorReply job w mqe errstatus).foldl sendOrUnalloc
    (w.setDtq (dtqMqeAlloc w.dtq).2)
  accepted : v'.dtq.accepted = v.dtq.accepted ++ queued v (errorReply job w mqe errstatus)

/-- A failed create leaves no trace, whichever step fails. When create_thread does
not fail, the STARTED can still report an error; then the create is undone as well,
at once or in whatever state the STARTED is handled. -/
theorem failed_create_no_trace (job : Job) (v : View) (hrank : v.mgr.mpiRank = 0) :
    (∀ mqe attrs dispIdx arg e w, FailsAt job v dispIdx arg e w →
      ∃ v', createThread job v mqe attrs dispIdx arg = some v' ∧
        CreateUndone job v w v' mqe e) ∧
    (∀ mqe attrs dispIdx arg v₁, createThread job v mqe attrs dispIdx arg = some v₁ →
      (∃ e w, FailsAt job v dispIdx arg e w) ∨
      ∃ rqe start, Started v v₁ mqe rqe start ∧
        ∀ (started : Mqe) (e err : ℕ), started.frame.body = .started e → e ≠ 0 →
          started.frame.body.size ≤ started.frame.flen → started.frame.xidseq = rqe.xidseq →
          ∃ v₂ created, processMqe job v₁ started err = some v₂ ∧ NoTrace v v₂ [start.addr] ∧
            toPost created = (mqe.peer, .of mqe.frame.xidseq (.created e ⟨0, 0⟩)) ∧
            v₂.dtq.accepted = v.dtq.accepted ++ [start, created]) ∧
    (∀ (started : Mqe) (e err : ℕ) (rqe : Request), started.frame.body = .started e → e ≠ 0 →
      started.frame.body.size ≤ started.frame.flen →
      findPendingReq v.mgr.rpending .start started.frame.xidseq = some rqe →
      ∃ v', processMqe job v started err = some v' ∧
        StartUndone v v' rqe (createdReply started rqe e)) := by
  refine ⟨fun mqe attrs dispIdx arg e w h => ?_, fun mqe attrs dispIdx arg v₁ h => ?_,
    fun started e err rqe hb he hlen hfind => ?_⟩
  · obtain ⟨hno, haccepted⟩ := sendCreatedError_noTrace (failsAt_undone h) job mqe e
    exact ⟨_, createThread_fails h mqe attrs, hno, errorReply_post job w mqe e,
      sendCreatedError_eq job w mqe e, haccepted⟩
  · rcases createThread_cases h with hfail | ⟨rqe, start, hs⟩
    · exact .inl hfail
    right
    refine ⟨rqe, start, hs, fun started e err hb he hlen hxid => ?_⟩
    have hfind : findPendingReq v₁.mgr.rpending .start started.frame.xidseq = some rqe := by
      rw [hs.rpending]
      exact findPendingReq_append hs.reqop hxid (hxid ▸ hs.fresh)
    obtain ⟨hno, haccepted⟩ := started_undone hs (startedReply_undone hlen he hfind)
    refine ⟨_, createdReply started rqe e,
      processMqe_started (hs.mpiRank.trans hrank) hb hlen, hno, ?_, haccepted⟩
    rw [← hs.creator.1, ← hs.creator.2]
    rfl
  · exact ⟨_, processMqe_started hrank hb hlen, startedReply_undone hlen he hfind⟩

/-- Rank 0 while a START of rank 1's thread is not yet answered. -/
def waitingView : View :=
  { (sysInit twoRanks).view 0 with
    mgr := { ((sysInit twoRanks).view 0).mgr with
      rpending := [startRequest 0 1 6 ⟨⟨1, 4⟩, 1, 3⟩] } }

def badDispatch : Mqe := ⟨0, 1, .of 5 (.create ⟨.joinable, 0, 0⟩ 7 .zero)⟩

def failedStart : Mqe := ⟨0, 1, .of 6 (.started EAGAIN)⟩

theorem failed_create_no_trace_waitingView :
    (∃ v', createThread twoRanks waitingView badDispatch ⟨.joinable, 0, 0⟩ 7 .zero = some v' ∧
      CreateUndone twoRanks waitingView waitingView v' badDispatch EINVAL) ∧
    ∃ v', processMqe twoRanks waitingView failedStart 0 = some v' ∧
      StartUndone waitingView v' (startRequest 0 1 6 ⟨⟨1, 4⟩, 1, 3⟩)
        (createdReply failedStart (startRequest 0 1 6 ⟨⟨1, 4⟩, 1, 3⟩) EAGAIN) := by
  obtain ⟨hcreate, -, hstarted⟩ := failed_create_no_trace twoRanks waitingView rfl
  refine ⟨hcreate badDispatch ⟨.joinable, 0, 0⟩ 7 .zero _ _ (.dispatch (.inr (by decide))), ?_⟩
  exact hstarted failedStart EAGAIN 0 _ rfl (by decide) le_rfl rfl

/-- Rank 0 with no free buffer and a malloc that fails. -/
def starvedView : View :=
  { (sysInit twoRanks).view 0 with dtq := { dtqInit with mallocs := [false] } }

/-- Without memory for the CREATED the failed create is not answered at all. -/
theorem starved_create_unanswered :
    FailsAt twoRanks starvedView 7 .zero EINVAL starvedView ∧
      starvedView.dtq.mpisqDraindown = .init ∧
      ∃ v', createThread twoRanks starvedView badDispatch ⟨.joinable, 0, 0⟩ 7 .zero = some v' ∧
        errorReply twoRanks starvedView badDispatch EINVAL = [] ∧
        v'.dtq.accepted = starvedView.dtq.accepted :=
  ⟨.dispatch (.inr (by decide)), rfl, _, rfl, rfl, rfl⟩

end Dthread.FailedCreate
