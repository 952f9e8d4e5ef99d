import Dthread.ManagerOutcomes
import Dthread.BufferDisposal

/-!
Frames that process_mqe discards: too short for their message, of an unknown
operation, on the wrong rank, or replies to no pending request. They change no
table, counter or request and send nothing. A frame is read here through
`Inbound`, which ends where the frame ends.
-/
namespace Dthread.MalformedMessages

open ReqMsg Queuing ManagerTables ManagerHandlers ManagerOutcomes HandlerSteps
  BufferDisposal JobSystem

/-- A received frame as far as its length reaches. -/
structure Inbound where
  addr : ℕ
  peer : ℕ
  flen : ℕ
  op : Option Op
  xidseq : Option ℕ
  body : Option Body

/-- The op takes the first four bytes and the xidseq the next four; the fields
of a message follow them up to the size of its structure. -/
def inbound (mqe : Mqe) : Inbound where
  addr := mqe.addr
  peer := mqe.peer
  flen := mqe.frame.flen
  op := if 4 ≤ mqe.frame.flen then some mqe.frame.body.op else none
  xidseq := if headerSize ≤ mqe.frame.flen then some mqe.frame.xidseq else none
  body := if mqe.frame.body.size ≤ mqe.frame.flen then some mqe.frame.body else none

/-- The operation of the request that a reply looks for on rpending. -/
def pendingOp : Op → Op
  | .created => .create
  | .started => .start
  | .detached => .detach
  | .canceled => .cancel
  | .joined => .join
  | _ => .none

def discard (v : View) (addr : ℕ) : View := v.setDtq (dtqRecvRelease v.dtq addr)

/-- process_mqe with its reads of the frame made explicit: the outer `none` is a
read beyond flen. A case whose checks have passed reads the whole message. -/
def processInbound (job : Job) (v : View) (m : Inbound) (pthreadErr : ℕ) :
    Option (Option View) :=
  let dropped := some (some (discard v m.addr))
  if m.flen < headerSize then dropped
  else
    m.op.bind fun op =>
      if v.mgr.mpiRank ≠ 0 ∧ rank0Only op = true then dropped
      else
        -- both words of the header are logged here
        m.xidseq.bind fun xidseq =>
          let handled := m.body.map fun body =>
            processMqe job v ⟨m.addr, m.peer, ⟨xidseq, body, m.flen⟩⟩ pthreadErr
          match op with
          | .create | .start | .join => if op.msgSize ≤ m.flen then handled else dropped
          | .detach | .cancel => if op.msgSize ≤ m.flen then handled else some (some v)
          | .created | .started | .detached | .canceled | .joined =>
            if m.flen < op.msgSize ∨
                findPendingReq v.mgr.rpending (pendingOp op) xidseq = none then dropped
            else handled
          | .terminated => if m.flen ≠ op.msgSize then dropped else handled
          | .bcastshutdown => some (some (discard (broadcastShutdown job v) m.addr))
          | _ => dropped

variable {job : Job} {v : View} {mqe : Mqe}

theorem findPendingMsgreq_none {op : Op}
    (h : mqe.frame.flen < mqe.frame.body.size ∨
      findPendingReq v.mgr.rpending op mqe.frame.xidseq = none) :
    findPendingMsgreq v mqe op = none := by
  unfold findPendingMsgreq
  split
  · rfl
  · rcases h with hlen | hnone
    · omega
    · rw [hnone]

theorem replyRequest_none {op : Op} (store : Request → Request)
    (h : mqe.frame.flen < mqe.frame.body.size ∨
      findPendingReq v.mgr.rpending op mqe.frame.xidseq = none) :
    replyRequest v mqe op store = discard v mqe.addr := by
  unfold replyRequest
  rw [findPendingMsgreq_none h]
  rfl

theorem startedReply_none (e : ℕ)
    (h : mqe.frame.flen < mqe.frame.body.size ∨
      findPendingReq v.mgr.rpending .start mqe.frame.xidseq = none) :
    startedReply v mqe e = discard v mqe.addr := by
  unfold startedReply
  rw [findPendingMsgreq_none h]
  rfl

theorem terminatedMsg_dropped (thread : DThread) (fin : LtState)
    (h : mqe.frame.flen ≠ mqe.frame.body.size ∨ job.nmaxthread ≤ thread.dtIndex ∨
      (v.gtab thread.dtIndex).seq ≠ thread.dtSeq ∨ fin = .running) :
    terminatedMsg job v mqe thread fin = discard v mqe.addr := by
  unfold terminatedMsg
  split
  · rfl
  split
  · rfl
  split
  · rfl
  · rename_i hlen hbad hfin
    push Not at hbad
    rcases h with h | h | h | h
    · exact absurd h hlen
    · omega
    · exact absurd hbad.2 h
    · exact absurd h hfin

theorem processMqe_short (h : mqe.frame.flen < headerSize) (err : ℕ) :
    processMqe job v mqe err = some (discard v mqe.addr) := by
  unfold processMqe
  rw [if_pos h]
  rfl

theorem processMqe_wrongRank (h : v.mgr.mpiRank ≠ 0) (h0 : rank0Only mqe.frame.body.op = true)
    (err : ℕ) : processMqe job v mqe err = some (discard v mqe.addr) := by
  unfold processMqe
  split
  · rfl
  · rw [if_pos ⟨h, h0⟩]
    rfl

theorem processMqe_bcastshutdown (hlen : ¬ mqe.frame.flen < headerSize)
    (hb : mqe.frame.body = .bcastshutdown) (err : ℕ) :
    processMqe job v mqe err = some (discard (broadcastShutdown job v) mqe.addr) := by
  unfold processMqe
  have hop : ¬ (v.mgr.mpiRank ≠ 0 ∧ rank0Only mqe.frame.body.op = true) := by
    simp [hb, Body.op, rank0Only]
  simp only [if_neg hlen]
  rw [if_neg hop]
  simp only [hb, discard]

/-- A discarded message leaves the state as it was. Its buffer is released,
unless it carries a DETACH or CANCEL that is too short. -/
theorem processMqe_dropped (h : Dropped job v mqe) (hr : ¬ RuntRequest v mqe) (err : ℕ) :
    processMqe job v mqe err = some (discard v mqe.addr) := by
  by_cases hlen : mqe.frame.flen < headerSize
  · exact processMqe_short hlen err
  by_cases hrank : v.mgr.mpiRank ≠ 0 ∧ rank0Only mqe.frame.body.op = true
  · exact processMqe_wrongRank hrank.1 hrank.2 err
  unfold processMqe
  simp only [if_neg hlen, if_neg hrank]
  cases h with
  | runt h =>
    have hshort : ¬ mqe.frame.body.size ≤ mqe.frame.flen := by omega
    have hop : mqe.frame.body.op ≠ .cancel ∧
        ¬ (mqe.frame.body.op = .detach ∧ v.mgr.mpiRank = 0) := by
      simpa [RuntRequest, h, not_lt.mp hlen] using hr
    cases hb : mqe.frame.body with
    | cancel => simp [hb, Body.op] at hop
    | detach => simp [hb, Body.op, rank0Only] at hop hrank; exact absurd hrank hop
    | create => simp [← hb, hshort, discard]
    | start => simp [← hb, hshort, discard]
    | join => simp [← hb, hshort, discard]
    | created | detached | canceled | joined =>
      exact congrArg some (replyRequest_none _ (.inl h))
    | started => exact congrArg some (startedReply_none _ (.inl h))
    | terminated => exact congrArg some (terminatedMsg_dropped _ _ (.inl h.ne))
    | bcastshutdown => exact absurd (by rwa [hb] at h) hlen
    | other => rfl
  | wrongRank h h0 => exact absurd ⟨h, h0⟩ hrank
  | unmatchedReply op hop h =>
    cases hb : mqe.frame.body <;> simp only [hb, replyTo, reduceCtorEq, Option.some.injEq] at hop
    all_goals
      subst hop
      exact congrArg some (replyRequest_none _ (.inr h))
  | unmatchedStarted e hb h =>
    rw [hb]
    exact congrArg some (startedReply_none e (.inr h))
  | badTerminated thread fin hb h =>
    rw [hb]
    exact congrArg some (terminatedMsg_dropped thread fin h)
  | unknown code hb =>
    rw [hb]
    rfl

/-- A message that lies within flen is read and handled as it stands. -/
theorem inbound_handled (job : Job) (v : View) (err : ℕ)
    (h : mqe.frame.body.size ≤ mqe.frame.flen) :
    ((inbound mqe).body.map fun body => processMqe job v
      ⟨mqe.addr, mqe.peer, ⟨mqe.frame.xidseq, body, mqe.frame.flen⟩⟩ err) =
    some (processMqe job v mqe err) := by
  simp only [inbound, if_pos h, Option.map_some]

/-- A reply to no pending request. -/
theorem dropped_unmatched (job : Job) (v : View) (mqe : Mqe)
    (hop : pendingOp mqe.frame.body.op ≠ .none)
    (h : findPendingReq v.mgr.rpending (pendingOp mqe.frame.body.op) mqe.frame.xidseq = none) :
    Dropped job v mqe := by
  cases hb : mqe.frame.body with
  | started e =>
    rw [hb] at h
    exact .unmatchedStarted e hb h
  | created | detached | canceled | joined =>
    rw [hb] at h
    exact .unmatchedReply _ (by rw [hb]; rfl) h
  | create | start | detach | cancel | join | terminated | bcastshutdown | other =>
    rw [hb] at hop
    exact absurd rfl hop

/-- process_mqe never reads a frame beyond its length. -/
theorem processInbound_eq (job : Job) (v : View) (mqe : Mqe) (err : ℕ) :
    processInbound job v (inbound mqe) err = some (processMqe job v mqe err) := by
  have hflen : (inbound mqe).flen = mqe.frame.flen := rfl
  have haddr : (inbound mqe).addr = mqe.addr := rfl
  have hpeer : (inbound mqe).peer = mqe.peer := rfl
  by_cases hlen : mqe.frame.flen < headerSize
  · rw [processMqe_short hlen]
    simp only [processInbound, hflen, haddr, if_pos hlen]
  have hop : (inbound mqe).op = some mqe.frame.body.op := by
    apply if_pos
    unfold headerSize at hlen
    omega
  have hxid : (inbound mqe).xidseq = some mqe.frame.xidseq := if_pos (by omega)
  by_cases hrank : v.mgr.mpiRank ≠ 0 ∧ rank0Only mqe.frame.body.op = true
  · rw [processMqe_wrongRank hrank.1 hrank.2]
    simp only [processInbound, hflen, haddr, hop, if_neg hlen, Option.bind_some, if_pos hrank]
  simp only [processInbound, hflen, haddr, hpeer, hop, hxid, if_neg hlen, Option.bind_some,
    if_neg hrank]
  -- a message within flen is handled; one that is too short or unmatched is discarded
  have hread (h : mqe.frame.body.size ≤ mqe.frame.flen) :=
    inbound_handled job v err h
  have hdrop (hd : Dropped job v mqe) (hr : ¬ RuntRequest v mqe) :
      some (some (discard v mqe.addr)) = some (processMqe job v mqe err) := by
    rw [processMqe_dropped hd hr err]
  have hshort (h : ¬ mqe.frame.body.size ≤ mqe.frame.flen) :
      mqe.frame.flen < mqe.frame.body.size := not_le.mp h
  have hunmatched := dropped_unmatched job v mqe
  have hruntop (h : mqe.frame.body.op = .cancel ∨ mqe.frame.body.op = .detach) :
      mqe.frame.body.op = .cancel ∨ mqe.frame.body.op = .detach ∧ v.mgr.mpiRank = 0 := by
    rcases h with hcancel | hdetach
    · exact .inl hcancel
    · refine .inr ⟨hdetach, ?_⟩
      by_contra hne
      exact hrank ⟨hne, by rw [hdetach]; rfl⟩
  cases hb : mqe.frame.body with
  | create | start | join =>
    rw [hb] at hread hshort
    have hr : ¬ RuntRequest v mqe := by simp [RuntRequest, hb, Body.op]
    refine ite_eq_iff'.mpr ⟨hread, fun h => ?_⟩
    exact hdrop (.runt (by rw [hb]; exact hshort h)) hr
  | cancel | detach =>
    have hrequest := hruntop (by simp [hb, Body.op])
    rw [hb] at hread hshort
    refine ite_eq_iff'.mpr ⟨hread, fun h => ?_⟩
    rw [processMqe_runt ⟨by omega, by rw [hb]; exact hshort h, hrequest⟩]
  | created | started | detached | canceled | joined =>
    rw [hb] at hread hshort hunmatched
    have hr : ¬ RuntRequest v mqe := by simp [RuntRequest, hb, Body.op]
    refine ite_eq_iff'.mpr ⟨fun h => ?_, fun h => hread (not_lt.mp (not_or.mp h).1)⟩
    rcases h with h | h
    · exact hdrop (.runt (by rw [hb]; exact hshort (not_le.mpr h))) hr
    · exact hdrop (hunmatched (by simp [Body.op, pendingOp]) h) hr
  | terminated thread fin =>
    rw [hb] at hread
    have hr : ¬ RuntRequest v mqe := by simp [RuntRequest, hb, Body.op]
    refine ite_eq_iff'.mpr ⟨fun h => ?_, fun h => hread (not_not.mp h).ge⟩
    exact hdrop (.badTerminated thread fin hb (.inl (by rw [hb]; exact h))) hr
  | bcastshutdown =>
    rw [processMqe_bcastshutdown hlen hb]
    rfl
  | other code =>
    have hr : ¬ RuntRequest v mqe := by simp [RuntRequest, hb, Body.op]
    exact hdrop (.unknown code hb) hr

/-- Malformed or unmatched messages change nothing: the tables, the pending and
the application's requests, the counters and the queues stay as they were, and no
part of the frame beyond flen is read. At most the buffer itself is released. -/
theorem dropped_changes_nothing (job : Job) (v : View) (mqe : Mqe) (err : ℕ)
    (h : Dropped job v mqe) :
    ∃ v', processMqe job v mqe err = some v' ∧
      processInbound job v (inbound mqe) err = some (some v') ∧
      v'.gtab = v.gtab ∧ v'.mgr = v.mgr ∧
      v'.dtq.accepted = v.dtq.accepted ∧
      v'.dtq = { v.dtq with mqefree := v'.dtq.mqefree } := by
  rw [processInbound_eq]
  by_cases hr : RuntRequest v mqe
  · rw [processMqe_runt hr]
    exact ⟨v, rfl, rfl, rfl, rfl, rfl, rfl⟩
  · rw [processMqe_dropped h hr]
    exact ⟨discard v mqe.addr, rfl, rfl, rfl, rfl, rfl, rfl⟩

/-- A CREATED that nobody on its rank waits for. -/
def strayCreated : Mqe := ⟨0, 0, .of 9 (.created 0 ⟨0, 2⟩)⟩

theorem dropped_changes_nothing_strayCreated :
    Dropped twoRanks oneBuffer strayCreated ∧
      ∃ v', processMqe twoRanks oneBuffer strayCreated 0 = some v' ∧
        processInbound twoRanks oneBuffer (inbound strayCreated) 0 = some (some v') ∧
        v'.gtab = oneBuffer.gtab ∧ v'.mgr = oneBuffer.mgr ∧
        v'.dtq.accepted = oneBuffer.dtq.accepted ∧
        v'.dtq = { oneBuffer.dtq with mqefree := v'.dtq.mqefree } := by
  have hd : Dropped twoRanks oneBuffer strayCreated := .unmatchedReply .create rfl rfl
  exact ⟨hd, dropped_changes_nothing twoRanks oneBuffer strayCreated 0 hd⟩

end Dthread.MalformedMessages
