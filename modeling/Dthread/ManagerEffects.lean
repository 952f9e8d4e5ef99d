import Dthread.ManagerHandlers

/-!
What one handler call can do, said once. An effect lists the manager state,
the shared table and the messages after a call; the outcome relations give one
constructor for each way through process_mqe and process_req. The proofs about
runs use these inversions and never unfold a handler again.
-/
namespace Dthread.ManagerEffects

open ReqMsg Queuing ManagerTables ManagerHandlers

/-- Destination and frame of a message handed to the queues. -/
abbrev Post := ℕ × Frame

def toPost (mqe : Mqe) : Post := (mqe.peer, mqe.frame)

@[simp] theorem toPost_recycle (mqe : Mqe) (xidseq : ℕ) (body : Body) :
    toPost (mqe.recycle xidseq body) = (mqe.peer, .of xidseq body) := rfl

/-- A call that leaves the manager in `m` and the table in `gt`, and that has
`out` sent unless the rank is draining. -/
structure Effect (v v' : View) (m : Mgr) (gt : ℕ → Gtab) (out : List Post) : Prop where
  mgr : v'.mgr = m
  gtab : v'.gtab = gt
  mgrreqq : v'.dtq.mgrreqq = v.dtq.mgrreqq
  draindown : v'.dtq.mpisqDraindown = v.dtq.mpisqDraindown
  posted : v'.dtq.accepted.map toPost = v.dtq.accepted.map toPost ++
    if v.dtq.mpisqDraindown = .init then out else []
  mallocs : v.dtq.mallocs = [] → v'.dtq.mallocs = []

/-- The local table after a request was released. -/
def releaseLtab (ltab : ℕ → Ltab) (req : Request) (notify : Bool) : ℕ → Ltab :=
  match req.addr with
  | .internal _ => ltab
  | .ltab l => Function.update ltab l { ltab l with
      reqstate := if notify then .done else .idle
      reqerror := req.reqerror
      newdthread := req.newdthread
      retval := req.retval }

def releaseMgr (m : Mgr) (req : Request) (notify : Bool) : Mgr :=
  { m with ltab := releaseLtab m.ltab req notify }

def freeMgr (m : Mgr) (gt : ℕ → Gtab) (i : ℕ) : Mgr :=
  { m with threadsAlloc := if (gt i).allocated then m.threadsAlloc - 1 else m.threadsAlloc }

def freeGtab (gt : ℕ → Gtab) (i : ℕ) : ℕ → Gtab :=
  if (gt i).allocated then
    Function.update gt i { gt i with allocated := false, seq := 0, hasLtab := false }
  else gt

def freeLtab (ltab : ℕ → Ltab) (l : ℕ) : ℕ → Ltab :=
  if (ltab l).pthState ≠ .none then
    Function.update ltab l { ltab l with seq := 0, pthState := .none, pc := .none }
  else ltab

def freeLtabMgr (m : Mgr) (l : ℕ) : Mgr :=
  { m with
    ltab := freeLtab m.ltab l
    ltabAlloc := if (m.ltab l).pthState ≠ .none then m.ltabAlloc - 1 else m.ltabAlloc }

theorem gtabFree_eq (v : View) (i : ℕ) :
    gtabFree v i = ⟨freeMgr v.mgr v.gtab i, freeGtab v.gtab i, v.dtq⟩ := by
  unfold gtabFree freeMgr freeGtab
  split <;> rfl

theorem ltabFree_eq (v : View) (l : ℕ) : ltabFree v l = v.setMgr (freeLtabMgr v.mgr l) := by
  unfold ltabFree freeLtabMgr freeLtab
  split <;> rfl

def nodata : Argret := { Argret.zero with dtArgretType := DTHREAD_NODATA }

namespace Effect

variable {v v' : View} {m : Mgr} {gt : ℕ → Gtab} {out : List Post}

theorem refl (v : View) : Effect v v v.mgr v.gtab [] :=
  ⟨rfl, rfl, rfl, rfl, by simp, id⟩

theorem setMgr (h : Effect v v' m gt out) (m' : Mgr) : Effect v (v'.setMgr m') m' gt out :=
  ⟨rfl, h.gtab, h.mgrreqq, h.draindown, h.posted, h.mallocs⟩

theorem setGtab (h : Effect v v' m gt out) (i : ℕ) (e : Gtab) :
    Effect v (v'.setGtab i e) m (Function.update gt i e) out :=
  ⟨h.mgr, by simp [View.setGtab, h.gtab], h.mgrreqq, h.draindown, h.posted, h.mallocs⟩

theorem setDtq (h : Effect v v' m gt out) {q : Dtq} (hq : SameTraffic v'.dtq q) :
    Effect v (v'.setDtq q) m gt out where
  mgr := h.mgr
  gtab := h.gtab
  mgrreqq := hq.mgrreqq.trans h.mgrreqq
  draindown := hq.draindown.trans h.draindown
  posted := by
    have ha : q.accepted = v'.dtq.accepted := hq.accepted
    simpa only [View.setDtq, ha] using h.posted
  mallocs hm := hq.mallocs (h.mallocs hm)

theorem recvRelease (h : Effect v v' m gt out) (addr : ℕ) :
    Effect v (v'.setDtq (dtqRecvRelease v'.dtq addr)) m gt out :=
  h.setDtq (sameTraffic_recvRelease _ _)

theorem mqeUnalloc (h : Effect v v' m gt out) (addr : ℕ) :
    Effect v (v'.setDtq (dtqMqeUnalloc v'.dtq addr)) m gt out :=
  h.setDtq (sameTraffic_mqeUnalloc _ _)

/-- Sending appends to the accepted messages, or changes nothing but the free
list while draining. -/
theorem send (h : Effect v v' m gt out) (mqe : Mqe) :
    Effect v (sendOrUnalloc v' mqe) m gt (out ++ [toPost mqe]) := by
  have hp := h.posted
  have hd := h.draindown
  unfold sendOrUnalloc
  by_cases hi : v.dtq.mpisqDraindown = .init
  · obtain ⟨q, hq, hs⟩ := sendEnqueue_init v'.mgr.mpiRank v'.dtq mqe (hd.trans hi)
    rw [hq]
    refine ⟨h.mgr, h.gtab, hs.mgrreqq.trans h.mgrreqq, hs.draindown.trans hd, ?_, ?_⟩
    · simp only [View.setDtq, hs.accepted, List.map_append, hp, hi, if_true, List.append_assoc,
        List.map_cons, List.map_nil]
    · intro hm
      exact hs.mallocs.trans (h.mallocs hm)
  · rw [sendEnqueue_draining _ _ _ (fun hc => hi (hd.symm.trans hc))]
    refine ⟨h.mgr, h.gtab, h.mgrreqq, hd, ?_, h.mallocs⟩
    simpa only [View.setDtq, dtqMqeUnalloc, hi, if_false] using hp

theorem reqRelease (h : Effect v v' m gt out) (req : Request) (notify : Bool) :
    Effect v (dtqReqRelease v' req notify) (releaseMgr m req notify) gt out := by
  obtain ⟨rfl, rfl, hq, hd, hp, hm⟩ := h
  unfold dtqReqRelease releaseMgr releaseLtab
  cases req.addr with
  | ltab l => exact ⟨rfl, rfl, hq, hd, hp, hm⟩
  | internal n => exact ⟨rfl, rfl, hq, hd, hp, hm⟩

theorem gtabFree (h : Effect v v' m gt out) (i : ℕ) :
    Effect v (gtabFree v' i) (freeMgr m gt i) (freeGtab gt i) out := by
  obtain ⟨rfl, rfl, hq, hd, hp, hm⟩ := h
  rw [gtabFree_eq]
  exact ⟨rfl, rfl, hq, hd, hp, hm⟩

theorem ltabFree (h : Effect v v' m gt out) (l : ℕ) :
    Effect v (ltabFree v' l) (freeLtabMgr m l) gt out := by
  obtain ⟨rfl, rfl, hq, hd, hp, hm⟩ := h
  rw [ltabFree_eq]
  exact ⟨rfl, rfl, hq, hd, hp, hm⟩

end Effect

/-- A successful draw of a sequence number. For a real operation no pending
request of that operation uses it. -/
theorem getFreeSeqLoop_spec (job : Job) (rank : ℕ) (rpending : List Request) (op : Op)
    (fuel src : ℕ) {rv src' : ℕ}
    (h : getFreeSeqLoop job rank rpending op fuel src = some (rv, src')) :
    (op = .none ∨ findPendingReq rpending op rv = none) ∧ src' = seqNext job rank rv := by
  induction fuel generalizing src with
  | zero => simp [getFreeSeqLoop] at h
  | succ fuel ih =>
    unfold getFreeSeqLoop at h
    split at h
    · rename_i hfree
      simp only [Option.some.injEq, Prod.mk.injEq] at h
      obtain ⟨rfl, rfl⟩ := h
      exact ⟨hfree, rfl⟩
    · exact ih _ h

theorem getFreeSeq_some (job : Job) (v : View) (op : Op) {rv : ℕ} {v' : View}
    (h : getFreeSeq job v op = some (rv, v')) :
    (op = .none ∨ findPendingReq v.mgr.rpending op rv = none) ∧
      v' = v.setMgr { v.mgr with seqsrc := seqNext job v.mgr.mpiRank rv } := by
  unfold getFreeSeq at h
  simp only [Option.map_eq_some_iff, Prod.exists, Prod.mk.injEq] at h
  obtain ⟨a, b, hloop, rfl, rfl⟩ := h
  obtain ⟨hfree, rfl⟩ := getFreeSeqLoop_spec _ _ _ _ _ _ hloop
  exact ⟨hfree, rfl⟩

/-- A slot that the search returns is free and lies in the table. -/
theorem slotScan_some (used : ℕ → Bool) (n last : ℕ) (hn : 0 < n) (fuel p : ℕ) {q : ℕ}
    (h : slotScan used n last fuel p = some (some q)) : used q = false ∧ q < n := by
  induction fuel generalizing p with
  | zero => simp [slotScan] at h
  | succ fuel ih =>
    unfold slotScan at h
    simp only at h
    by_cases hu : used (if n ≤ p + 1 then 0 else p + 1) = false
    · simp only [hu, if_true, Option.some.injEq] at h
      subst h
      refine ⟨hu, ?_⟩
      split <;> omega
    · rw [if_neg hu] at h
      by_cases hl : (if n ≤ p + 1 then 0 else p + 1) = last
      · simp [hl] at h
      · rw [if_neg hl] at h
        exact ih _ h

/-- The first value of the source is taken when no request is in its way. -/
theorem getFreeSeq_first (job : Job) (v : View) (op : Op)
    (h : op = .none ∨ findPendingReq v.mgr.rpending op v.mgr.seqsrc = none) :
    getFreeSeq job v op = some (v.mgr.seqsrc,
      v.setMgr { v.mgr with seqsrc := seqNext job v.mgr.mpiRank v.mgr.seqsrc }) := by
  have hfuel : (2 : ℕ) ^ 32 = 4294967295 + 1 := by norm_num
  unfold getFreeSeq
  rw [hfuel, getFreeSeqLoop, if_pos h]
  rfl

theorem getFreeSeq_none (job : Job) (v : View) :
    getFreeSeq job v .none = some (v.mgr.seqsrc,
      v.setMgr { v.mgr with seqsrc := seqNext job v.mgr.mpiRank v.mgr.seqsrc }) :=
  getFreeSeq_first job v .none (.inl rfl)

theorem gtabAlloc_full (job : Job) (v v' : View) (rank dispIdx : ℕ) (arg : Argret)
    (h : gtabAlloc job v rank dispIdx arg = some (none, v')) : v' = v := by
  unfold gtabAlloc at h
  split at h
  · simpa using h.symm
  · split at h
    · simp at h
    · simpa using h.symm
    · simp [getFreeSeq_none] at h

/-- The view after gtab_alloc took slot `p`. -/
def gtabTaken (job : Job) (v : View) (p rank dispIdx : ℕ) (arg : Argret) : View where
  mgr := { v.mgr with
    seqsrc := seqNext job v.mgr.mpiRank v.mgr.seqsrc
    threadsAlloc := v.mgr.threadsAlloc + 1
    lastSlot := p }
  gtab := Function.update v.gtab p (gtabInit rank v.mgr.seqsrc dispIdx arg (v.gtab p))
  dtq := v.dtq

theorem gtabAlloc_taken (job : Job) (v v' : View) (rank dispIdx p : ℕ) (arg : Argret)
    (h : gtabAlloc job v rank dispIdx arg = some (some p, v')) :
    (v.gtab p).allocated = false ∧ p < job.nmaxthread ∧
      v' = gtabTaken job v p rank dispIdx arg := by
  unfold gtabAlloc at h
  split at h
  · simp at h
  · split at h
    · simp at h
    · simp at h
    · rename_i q hscan
      simp only [getFreeSeq_none, Option.map_some, Option.some.injEq, Prod.mk.injEq] at h
      obtain ⟨rfl, rfl⟩ := h
      obtain ⟨hfree, hlt⟩ := slotScan_some _ _ _ job.nmaxthread_pos _ _ hscan
      exact ⟨hfree, hlt, rfl⟩

theorem ltabAlloc_taken (job : Job) (v v' : View) (thread : DThread) (p : ℕ)
    (h : ltabAlloc job v thread = some (some p, v')) :
    ((v.mgr.ltab p).pthState = .none ∨ p = 0 ∧ v.mgr.ltabAlloc = 0) ∧
      p < job.nmaxthread ∧ v' = ltabInstall v thread p := by
  unfold ltabAlloc at h
  split at h
  · simp at h
  · split at h
    · rename_i hzero
      simp only [Option.some.injEq, Prod.mk.injEq] at h
      obtain ⟨rfl, rfl⟩ := h
      exact ⟨Or.inr ⟨rfl, hzero⟩, job.nmaxthread_pos, rfl⟩
    · split at h
      · simp at h
      · simp at h
      · rename_i q hscan
        simp only [Option.some.injEq, Prod.mk.injEq] at h
        obtain ⟨rfl, rfl⟩ := h
        obtain ⟨hfree, hlt⟩ := slotScan_some _ _ _ job.nmaxthread_pos _ _ hscan
        exact ⟨Or.inl (by simpa using hfree), hlt, rfl⟩

end Dthread.ManagerEffects
