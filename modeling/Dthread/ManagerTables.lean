import Dthread.Queuing

/-!
State of a manager and its tables: pending requests, the sequence source, the
global thread table in shared memory and the rank's local table
(the first part of dt_mgrthread.c, and dthread_dt2gtab).
A loop of the source that may run forever is bounded by the number of rounds
after which its state has come round again; `none` means that it never ends.
-/
namespace Dthread.ManagerTables

open ReqMsg Queuing

/-- dt_mgrstate together with the rank's part of dtrs. `procFree` is a history
variable: the return values this manager has passed to dt_retproc with FREE. -/
structure Mgr where
  mpiRank : ℕ
  seqsrc : ℕ
  draining : Bool
  rpending : List Request
  ltabAlloc : ℤ
  ltabLastslot : ℕ
  threadsAlloc : ℤ
  threadsStarting : ℤ
  threadsRunning : ℤ
  lastSlot : ℕ
  nextRank : ℕ
  ltab : ℕ → Ltab
  procFree : List Argret

/-- What a manager sees when it runs: its own state, the shared table and the
queues of its rank. -/
structure View where
  mgr : Mgr
  gtab : ℕ → Gtab
  dtq : Dtq

def Mgr.setLtab (m : Mgr) (l : ℕ) (lt : Ltab) : Mgr :=
  { m with ltab := Function.update m.ltab l lt }

def View.setMgr (v : View) (m : Mgr) : View := { v with mgr := m }

def View.setGtab (v : View) (i : ℕ) (gt : Gtab) : View :=
  { v with gtab := Function.update v.gtab i gt }

def View.setDtq (v : View) (q : Dtq) : View := { v with dtq := q }

/-- dtq_req_release: an internal request goes to the free list, an application
thread's request becomes idle, or done when the thread waits for it. -/
def dtqReqRelease (v : View) (req : Request) (notify : Bool) : View :=
  match req.addr with
  | .internal n => v.setDtq { v.dtq with reqfree := n :: v.dtq.reqfree }
  | .ltab l =>
    v.setMgr (v.mgr.setLtab l { v.mgr.ltab l with
      reqstate := if notify then .done else .idle
      reqerror := req.reqerror
      newdthread := req.newdthread
      retval := req.retval })

/-- The usual end of a handler: queue the message, drop it while draining. -/
def sendOrUnalloc (v : View) (mqe : Mqe) : View :=
  match dtqSendEnqueue v.mgr.mpiRank v.dtq mqe with
  | (none, q) => v.setDtq q
  | (some mqe, q) => v.setDtq (dtqMqeUnalloc q mqe.addr)

def pendingMatch (op : Op) (seq : ℕ) (rqe : Request) : Bool :=
  rqe.xidseq == seq && rqe.reqop == op

def findPendingReq (rpending : List Request) (op : Op) (seq : ℕ) : Option Request :=
  rpending.find? (pendingMatch op seq)

/-- The sequence source after `rv` was drawn: 32-bit, and restarted on a wrap. -/
def seqNext (job : Job) (rank rv : ℕ) : ℕ :=
  let src := (rv + job.wsize) % 2 ^ 32
  if src < rv then (rank + job.wsize) % 2 ^ 32 else src

def getFreeSeqLoop (job : Job) (rank : ℕ) (rpending : List Request) (op : Op) :
    ℕ → ℕ → Option (ℕ × ℕ)
  | 0, _ => none
  | fuel + 1, rv =>
    if op = .none ∨ findPendingReq rpending op rv = none then
      some (rv, seqNext job rank rv)
    else getFreeSeqLoop job rank rpending op fuel (seqNext job rank rv)

/-- get_free_seq. The source is a 32-bit value, so 2^32 rounds see all of it. -/
def getFreeSeq (job : Job) (v : View) (op : Op) : Option (ℕ × View) :=
  (getFreeSeqLoop job v.mgr.mpiRank v.mgr.rpending op (2 ^ 32) v.mgr.seqsrc).map
    fun (rv, src) => (rv, v.setMgr { v.mgr with seqsrc := src })

/-- find_pending_msgreq: a reply's pending request, taken off the list. -/
def findPendingMsgreq (v : View) (mqe : Mqe) (pendingOp : Op) : Option (Request × View) :=
  if mqe.frame.flen < headerSize ∨ mqe.frame.flen < mqe.frame.body.size then none
  else
    match findPendingReq v.mgr.rpending pendingOp mqe.frame.xidseq with
    | none => none
    | some rqe =>
      some (rqe, v.setMgr { v.mgr with
        rpending := v.mgr.rpending.eraseP (pendingMatch pendingOp mqe.frame.xidseq) })

def joinwaitMatch (thread : DThread) (rqe : Request) : Bool :=
  rqe.reqop == .joinwait && rqe.waitthread == thread

def joinwaitSearch (v : View) (thread : DThread) : Option Request :=
  v.mgr.rpending.find? (joinwaitMatch thread)

def joinwaitRemove (v : View) (thread : DThread) : View :=
  v.setMgr { v.mgr with rpending := v.mgr.rpending.eraseP (joinwaitMatch thread) }

/-- joinwait_end_release: answer the JOIN behind a JOINWAIT and release it. -/
def joinwaitEndRelease (v : View) (rqe : Request) : View :=
  if rqe.reqop ≠ .joinwait then dtqReqRelease v rqe true
  else
    match dtqMqeAlloc v.dtq with
    | (none, q) => dtqReqRelease (v.setDtq q) rqe true
    | (some addr, q) =>
      let joinret :=
        if rqe.reqerror = 0 then (v.gtab rqe.waitthread.dtIndex).ret
        else { Argret.zero with dtArgretType := DTHREAD_NODATA }
      let mqe : Mqe := ⟨addr, rqe.reqpeer, .of rqe.xidseq (.joined rqe.reqerror joinret)⟩
      dtqReqRelease (sendOrUnalloc (v.setDtq q) mqe) rqe true

/-- dthread_dt2gtab: the index of the entry a handle names, if it is valid. -/
def dt2gtab (job : Job) (gtab : ℕ → Gtab) (thread : DThread) : Option ℕ :=
  if job.nmaxthread ≤ thread.dtIndex then none
  else if (gtab thread.dtIndex).allocated = false ∨ thread.dtSeq ≠ (gtab thread.dtIndex).seq
  then none
  else some thread.dtIndex

/-- detached_ret_cleanup: free the encoded return value of a detached thread. -/
def detachedRetCleanup (job : Job) (v : View) (i : ℕ) : View :=
  let gt := v.gtab i
  if gt.dispIdx < 1 ∨ job.ndsps ≤ gt.dispIdx then v
  else if (job.dsps gt.dispIdx).dtRetproc = false then v
  else
    (v.setMgr { v.mgr with procFree := v.mgr.procFree ++ [gt.ret] }).setGtab i
      { gt with ret := { gt.ret with dtArgretType := DTHREAD_NODATA } }

/-- The circular slot search shared by gtab_alloc and ltab_alloc: the slots
after `last` are tried first and `last` itself comes last. -/
def slotScan (used : ℕ → Bool) (n last : ℕ) : ℕ → ℕ → Option (Option ℕ)
  | 0, _ => none
  | fuel + 1, p =>
    let p := if n ≤ p + 1 then 0 else p + 1
    if used p = false then some (some p)
    else if p = last then some none
    else slotScan used n last fuel p

def gtabInit (rank seq dispIdx : ℕ) (arg : Argret) (old : Gtab) : Gtab :=
  { old with
    rank := rank
    seq := seq
    dispIdx := dispIdx
    arg := arg
    ret := { old.ret with dtArgretType := DTHREAD_NODATA }
    detached := false
    terminated := .none
    hasLtab := false
    allocated := true }

/-- gtab_alloc; the inner `none` is the return value -1. -/
def gtabAlloc (job : Job) (v : View) (rank dispIdx : ℕ) (arg : Argret) :
    Option (Option ℕ × View) :=
  if (job.nmaxthread : ℤ) ≤ v.mgr.threadsAlloc then some (none, v)
  else
    match slotScan (fun p => (v.gtab p).allocated) job.nmaxthread v.mgr.lastSlot
        job.nmaxthread v.mgr.lastSlot with
    | none => none
    | some none => some (none, v)
    | some (some p) =>
      (getFreeSeq job v .none).map fun (seq, v) =>
        (some p, (v.setGtab p (gtabInit rank seq dispIdx arg (v.gtab p))).setMgr
          { v.mgr with threadsAlloc := v.mgr.threadsAlloc + 1, lastSlot := p })

def gtabFree (v : View) (gidx : ℕ) : View :=
  if (v.gtab gidx).allocated then
    (v.setGtab gidx { v.gtab gidx with allocated := false, seq := 0, hasLtab := false }).setMgr
      { v.mgr with threadsAlloc := v.mgr.threadsAlloc - 1 }
  else v

def ltabInstall (v : View) (thread : DThread) (p : ℕ) : View :=
  v.setMgr { v.mgr.setLtab p { v.mgr.ltab p with
      gtabIdx := thread.dtIndex, seq := thread.dtSeq, pthState := .starting } with
    ltabAlloc := v.mgr.ltabAlloc + 1
    ltabLastslot := p }

/-- ltab_alloc; the inner `none` is the return value -1. -/
def ltabAlloc (job : Job) (v : View) (thread : DThread) : Option (Option ℕ × View) :=
  if (job.nmaxthread : ℤ) ≤ v.mgr.ltabAlloc then some (none, v)
  else if v.mgr.ltabAlloc = 0 then some (some 0, ltabInstall v thread 0)
  else
    match slotScan (fun p => (v.mgr.ltab p).pthState != .none) job.nmaxthread
        v.mgr.ltabLastslot job.nmaxthread v.mgr.ltabLastslot with
    | none => none
    | some none => some (none, v)
    | some (some p) => some (some p, ltabInstall v thread p)

def ltabFree (v : View) (lidx : ℕ) : View :=
  if (v.mgr.ltab lidx).pthState ≠ .none then
    v.setMgr { v.mgr.setLtab lidx { v.mgr.ltab lidx with
        seq := 0, pthState := .none, pc := .none } with
      ltabAlloc := v.mgr.ltabAlloc - 1 }
  else v

end Dthread.ManagerTables
