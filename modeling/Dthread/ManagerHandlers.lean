import Dthread.ManagerTables

/-!
The message and request handlers of a manager (dt_mgrthread.c), from
create_thread to process_mqe and process_req. Results of POSIX calls are
arguments: `pthreadErr` is what pthread_create returns if it is called, and it
always returns. `none` means that the handler does not return, because a loop never ends or
an access is out of bounds.
-/
namespace Dthread.ManagerHandlers

open ReqMsg Queuing ManagerTables

/-- The label send_created_error of create_thread. The generation of the
invalid handle is not set by the source; the receiver never reads it. -/
def sendCreatedError (job : Job) (v : View) (mqe : Mqe) (errstatus : ℕ) : View :=
  match dtqMqeAlloc v.dtq with
  | (none, q) => v.setDtq q
  | (some addr, q) =>
    sendOrUnalloc (v.setDtq q)
      ⟨addr, mqe.peer, .of mqe.frame.xidseq (.created errstatus ⟨job.nmaxthread + 1, 0⟩)⟩

/-- The attributes as the START carries them: never detached, no own stack.
pthread_attr_getstack does not fail. -/
def startAttrs (attrs : Attr) : Attr :=
  let attrs :=
    if attrs.detachstate = .detached then { attrs with detachstate := .joinable } else attrs
  attrs.setstack 0 attrs.stacksize

def internalRequest (n : ℕ) : Request :=
  { addr := .internal n, reqpeer := 0, reqop := .none, mqe := none, xidseq := 0, reqerror := 0,
    newdthread := ⟨0, 0⟩, retval := .zero, creinfo := ⟨⟨0, 0⟩, 0, 0⟩, waitthread := ⟨0, 0⟩ }

def startRequest (n target xidseq : ℕ) (creinfo : CreateInfo) : Request :=
  { internalRequest n with
    reqpeer := target, reqop := .start, xidseq := xidseq, creinfo := creinfo }

def joinwaitRequest (n peer xidseq : ℕ) (thread : DThread) : Request :=
  { internalRequest n with
    reqpeer := peer, reqop := .joinwait, xidseq := xidseq, waitthread := thread }

/-- The part of create_thread that follows the three allocations. -/
def createStart (job : Job) (v : View) (mqe : Mqe) (attrs : Attr) (target n addr gidx : ℕ) :
    Option View :=
  (getFreeSeq job v .start).map fun (xidseq, v) =>
    let thread : DThread := ⟨gidx, (v.gtab gidx).seq⟩
    let startmqe : Mqe := ⟨addr, target, .of xidseq (.start thread (startAttrs attrs))⟩
    let startreq := startRequest n target xidseq ⟨thread, mqe.peer, mqe.frame.xidseq⟩
    match dtqSendEnqueue v.mgr.mpiRank v.dtq startmqe with
    | (none, q) =>
      (v.setDtq q).setMgr { v.mgr with
        threadsStarting := v.mgr.threadsStarting + 1
        rpending := v.mgr.rpending ++ [startreq] }
    | (some startmqe, q) =>
      let v := dtqReqRelease (v.setDtq q) startreq false
      sendCreatedError job (gtabFree (v.setDtq (dtqMqeUnalloc v.dtq startmqe.addr)) gidx) mqe EIO

def createThread (job : Job) (v : View) (mqe : Mqe) (attrs : Attr) (dispIdx : ℕ)
    (arg : Argret) : Option View :=
  if dispIdx = 0 ∨ job.ndsps ≤ dispIdx then some (sendCreatedError job v mqe EINVAL)
  else if (job.nmaxthread : ℤ) ≤ v.mgr.threadsAlloc then
    some (sendCreatedError job v mqe EAGAIN)
  else
    let target := v.mgr.nextRank
    let v := v.setMgr { v.mgr with nextRank := (v.mgr.nextRank + 1) % job.wsize }
    match dtqReqAlloc v.dtq with
    | (none, q) => some (sendCreatedError job (v.setDtq q) mqe ENOMEM)
    | (some n, q) =>
      match dtqMqeAlloc q with
      | (none, q) =>
        some (sendCreatedError job (dtqReqRelease (v.setDtq q) (internalRequest n) false)
          mqe ENOMEM)
      | (some addr, q) =>
        match gtabAlloc job (v.setDtq q) target dispIdx arg with
        | none => none
        | some (none, v) =>
          let v := dtqReqRelease v (internalRequest n) false
          some (sendCreatedError job (v.setDtq (dtqMqeUnalloc v.dtq addr)) mqe ENOMEM)
        | some (some gidx, v) => createStart job v mqe attrs target n addr gidx

/-- The checks start_thread makes before it takes a local slot. -/
def startInvalid (job : Job) (gtab : ℕ → Gtab) (thread : DThread) : Prop :=
  job.nmaxthread ≤ thread.dtIndex ∨ thread.dtSeq ≠ (gtab thread.dtIndex).seq ∨
    (gtab thread.dtIndex).allocated = false ∨ (gtab thread.dtIndex).dispIdx = 0 ∨
    job.ndsps ≤ (gtab thread.dtIndex).dispIdx ∨ (gtab thread.dtIndex).hasLtab = true

instance (job : Job) (gtab : ℕ → Gtab) (thread : DThread) :
    Decidable (startInvalid job gtab thread) :=
  inferInstanceAs (Decidable (_ ∨ _ ∨ _ ∨ _ ∨ _ ∨ _))

/-- start_thread. A local index of -1 would be used unchecked, hence `none`. The attributes
of the START go to pthread_create alone and are dropped here: pthread_create is taken to
return, also for the attributes that pthread_attr_setstack with a null address has left. -/
def startThread (job : Job) (v : View) (mqe : Mqe) (thread : DThread) (pthreadErr : ℕ) :
    Option View :=
  match dtqMqeAlloc v.dtq with
  | (none, q) => some (v.setDtq q)
  | (some addr, q) =>
    let v := v.setDtq q
    let started (errstatus : ℕ) : Mqe :=
      ⟨addr, 0, .of mqe.frame.xidseq (.started errstatus)⟩
    if startInvalid job v.gtab thread then some (sendOrUnalloc v (started EINVAL))
    else
      match ltabAlloc job v thread with
      | none => none
      | some (none, _) => none
      | some (some lidx, v) =>
        if pthreadErr = 0 then
          -- the new pthread is at the top of dthreadwrap
          some (sendOrUnalloc
            (v.setMgr (v.mgr.setLtab lidx { v.mgr.ltab lidx with pc := .starting }))
            (started 0))
        else some (sendOrUnalloc (ltabFree v lidx) (started pthreadErr))

def detachThread (job : Job) (v : View) (mqe : Mqe) (thread : DThread) : View :=
  match dt2gtab job v.gtab thread with
  | none => sendOrUnalloc v (mqe.recycle mqe.frame.xidseq (.detached ESRCH))
  | some i =>
    let v := v.setGtab i { v.gtab i with detached := true }
    let rqe := joinwaitSearch v thread
    let v := joinwaitRemove v thread
    let v := sendOrUnalloc v (mqe.recycle mqe.frame.xidseq (.detached 0))
    match rqe with
    | none => v
    | some rqe => joinwaitEndRelease v { rqe with reqerror := EINVAL }

/-- The critical section of cancel_thread under the thread's reqlock. -/
def cancelLtab (lt : Ltab) : Ltab :=
  if lt.pthState = .running then { lt with pthState := .canceled } else lt

def cancelThread (job : Job) (v : View) (mqe : Mqe) (thread : DThread) : View :=
  let canceled (errstatus : ℕ) := mqe.recycle mqe.frame.xidseq (.canceled errstatus)
  match dt2gtab job v.gtab thread with
  | none => sendOrUnalloc v (canceled ESRCH)
  | some i =>
    let gt := v.gtab i
    if gt.rank ≠ v.mgr.mpiRank then sendOrUnalloc v (canceled EINVAL)
    else if gt.hasLtab = true ∧ gt.ltabIdx < job.nmaxthread ∧
        (v.mgr.ltab gt.ltabIdx).seq = gt.seq then
      sendOrUnalloc
        (v.setMgr (v.mgr.setLtab gt.ltabIdx (cancelLtab (v.mgr.ltab gt.ltabIdx))))
        (canceled 0)
    else sendOrUnalloc v (canceled 0)

def joinThread (job : Job) (v : View) (mqe : Mqe) (thread : DThread) : View :=
  let xidseq := mqe.frame.xidseq
  let nodata : Argret := { Argret.zero with dtArgretType := DTHREAD_NODATA }
  match dt2gtab job v.gtab thread with
  | none => sendOrUnalloc v (mqe.recycle xidseq (.joined ESRCH nodata))
  | some i =>
    let gt := v.gtab i
    if gt.detached then sendOrUnalloc v (mqe.recycle xidseq (.joined EINVAL nodata))
    else if gt.terminated.needFinalstate = false then
      gtabFree (sendOrUnalloc v (mqe.recycle xidseq (.joined 0 gt.ret))) i
    else
      match joinwaitSearch v thread with
      | some _ => sendOrUnalloc v (mqe.recycle xidseq (.joined EINVAL nodata))
      | none =>
        match dtqReqAlloc v.dtq with
        | (none, q) =>
          sendOrUnalloc (v.setDtq q) (mqe.recycle xidseq (.joined ENOMEM nodata))
        | (some n, q) =>
          (v.setDtq (dtqRecvRelease q mqe.addr)).setMgr { v.mgr with
            rpending := v.mgr.rpending ++ [joinwaitRequest n mqe.peer xidseq thread] }

def terminatedThread (job : Job) (v : View) (thr : DThread) (finstate : LtState) : View :=
  let i := thr.dtIndex
  let v := (v.setGtab i { v.gtab i with terminated := finstate, hasLtab := false }).setMgr
    { v.mgr with threadsRunning := v.mgr.threadsRunning - 1 }
  let rqe := joinwaitSearch v thr
  let v := joinwaitRemove v thr
  let detached := (v.gtab i).detached
  let v :=
    match rqe with
    | none => v
    | some rqe => joinwaitEndRelease v (if detached then { rqe with reqerror := EINVAL } else rqe)
  let v := if detached then detachedRetCleanup job v i else v
  if detached ∨ rqe.isSome then gtabFree v i else v

/-- binary_router: the children of a rank in the broadcast tree. -/
def binaryRouter (rootRank worldSize myRank : ℕ) : List ℕ :=
  let adjusted :=
    if myRank < rootRank then myRank + worldSize - rootRank else myRank - rootRank
  let child0 := adjusted * 2 + 1
  if worldSize ≤ child0 then []
  else
    let c0 := (child0 + rootRank) % worldSize
    if child0 = worldSize - 1 then [c0] else [c0, (c0 + 1) % worldSize]

def broadcastTo (v : View) (child : ℕ) : View :=
  match dtqMqeAlloc v.dtq with
  | (none, q) => v.setDtq q
  | (some addr, q) => sendOrUnalloc (v.setDtq q) ⟨addr, child, .of 0 .bcastshutdown⟩

def broadcastShutdown (job : Job) (v : View) : View :=
  let v := (binaryRouter 0 job.wsize v.mgr.mpiRank).foldl broadcastTo v
  (v.setDtq (dtqNotifytimelimit (dtqSendDraindown v.dtq) 10)).setMgr
    { v.mgr with draining := true }

/-- The reply cases of process_mqe: store the result and wake the thread. -/
def replyRequest (v : View) (mqe : Mqe) (op : Op) (store : Request → Request) : View :=
  match findPendingMsgreq v mqe op with
  | none => v.setDtq (dtqRecvRelease v.dtq mqe.addr)
  | some (rqe, v) =>
    let v := dtqReqRelease v (store rqe) true
    v.setDtq (dtqRecvRelease v.dtq mqe.addr)

/-- The case DTOP_STARTED of process_mqe. Without a new thread the handle in
the CREATED is left unset. -/
def startedReply (v : View) (mqe : Mqe) (errstatus : ℕ) : View :=
  match findPendingMsgreq v mqe .start with
  | none => v.setDtq (dtqRecvRelease v.dtq mqe.addr)
  | some (rqe, v) =>
    let v := v.setMgr { v.mgr with threadsStarting := v.mgr.threadsStarting - 1 }
    let newthread := if errstatus = 0 then rqe.creinfo.cThread else ⟨0, 0⟩
    let created : Mqe :=
      { mqe.recycle rqe.creinfo.cXidseq (.created errstatus newthread) with
        peer := rqe.creinfo.cPeer }
    let v :=
      if errstatus = 0 then
        v.setMgr { v.mgr with threadsRunning := v.mgr.threadsRunning + 1 }
      else gtabFree v rqe.creinfo.cThread.dtIndex
    dtqReqRelease (sendOrUnalloc v created) rqe false

/-- The case DTOP_TERMINATED of process_mqe. -/
def terminatedMsg (job : Job) (v : View) (mqe : Mqe) (thread : DThread)
    (finalstate : LtState) : View :=
  let v :=
    if mqe.frame.flen ≠ mqe.frame.body.size then v
    else if job.nmaxthread ≤ thread.dtIndex ∨ (v.gtab thread.dtIndex).seq ≠ thread.dtSeq then v
    else if finalstate = .running then v
    else terminatedThread job v thread finalstate
  v.setDtq (dtqRecvRelease v.dtq mqe.addr)

def rank0Only : Op → Bool
  | .create | .started | .detach | .join | .terminated => true
  | _ => false

def processMqe (job : Job) (v : View) (mqe : Mqe) (pthreadErr : ℕ) : Option View :=
  let release (v : View) : View := v.setDtq (dtqRecvRelease v.dtq mqe.addr)
  if mqe.frame.flen < headerSize then some (release v)
  else if v.mgr.mpiRank ≠ 0 ∧ rank0Only mqe.frame.body.op = true then some (release v)
  else
    match mqe.frame.body with
    | .create attrs dispIdx arg =>
      if mqe.frame.body.size ≤ mqe.frame.flen then
        (createThread job v mqe attrs dispIdx arg).map release
      else some (release v)
    | .created errstatus newthread =>
      some (replyRequest v mqe .create fun rqe =>
        if errstatus = 0 then { rqe with reqerror := 0, newdthread := newthread }
        else { rqe with reqerror := errstatus })
    | .start thread _ =>
      if mqe.frame.body.size ≤ mqe.frame.flen then
        (startThread job v mqe thread pthreadErr).map release
      else some (release v)
    | .started errstatus => some (startedReply v mqe errstatus)
    | .detach thread =>
      -- a runt is neither handled nor released here
      if mqe.frame.body.size ≤ mqe.frame.flen then some (detachThread job v mqe thread)
      else some v
    | .detached errstatus =>
      some (replyRequest v mqe .detach fun rqe => { rqe with reqerror := errstatus })
    | .cancel thread =>
      if mqe.frame.body.size ≤ mqe.frame.flen then some (cancelThread job v mqe thread)
      else some v
    | .canceled errstatus =>
      some (replyRequest v mqe .cancel fun rqe => { rqe with reqerror := errstatus })
    | .join thread =>
      if mqe.frame.body.size ≤ mqe.frame.flen then some (joinThread job v mqe thread)
      else some (release v)
    | .joined errstatus joinret =>
      some (replyRequest v mqe .join fun rqe =>
        { rqe with reqerror := errstatus, retval := joinret })
    | .terminated thread finalstate => some (terminatedMsg job v mqe thread finalstate)
    | .bcastshutdown => some (release (broadcastShutdown job v))
    | .other _ => some (release v)

/-- The case DTOP_RETCLEAN of process_req: report the end of a local thread to
rank 0 and free its local entry. The pthread_join it makes has no effect on
the tables. -/
def retcleanReq (v : View) (rqe : Request) (lidx : ℕ) : View :=
  match dtqMqeAlloc v.dtq with
  | (none, q) => dtqReqRelease (v.setDtq q) rqe false
  | (some addr, q) =>
    let v := v.setDtq q
    let lt := v.mgr.ltab lidx
    let gt := v.gtab lt.gtabIdx
    let v :=
      if gt.hasLtab = true ∧ gt.ltabIdx = lidx ∧ gt.seq = lt.seq then
        v.setGtab lt.gtabIdx { gt with hasLtab := false }
      else v
    let term : Mqe := ⟨addr, 0, .of 0 (.terminated ⟨lt.gtabIdx, lt.seq⟩ lt.pthState)⟩
    dtqReqRelease (ltabFree (sendOrUnalloc v term) lidx) rqe false

/-- The requests of process_req that expect a reply. A request without its
message makes the manager write through a null pointer. -/
def forwardReq (job : Job) (v : View) (rqe : Request) : Option View :=
  match getFreeSeq job v rqe.reqop, rqe.mqe with
  | none, _ => none
  | some _, none => none
  | some (xidseq, v), some mqe =>
    let rqe := { rqe with mqe := none, xidseq := xidseq }
    match dtqSendEnqueue v.mgr.mpiRank v.dtq
        { mqe with frame := { mqe.frame with xidseq := xidseq } } with
    | (none, q) =>
      some ((v.setDtq q).setMgr { v.mgr with rpending := v.mgr.rpending ++ [rqe] })
    | (some mqe, q) =>
      some (dtqReqRelease (v.setDtq (dtqMqeUnalloc q mqe.addr)) { rqe with reqerror := EIO } true)

def processReq (job : Job) (v : View) (rqe : Request) : Option View :=
  match rqe.addr with
  | .internal _ => some (dtqReqRelease v rqe true)
  | .ltab lidx =>
    if job.nmaxthread ≤ lidx ∨ (v.mgr.ltab lidx).reqstate ≠ .busy then
      some (dtqReqRelease v rqe true)
    else
      match rqe.reqop with
      | .create | .detach | .cancel | .join => forwardReq job v rqe
      | .retclean => some (retcleanReq v rqe lidx)
      | .app0Ret =>
        let v := if v.mgr.mpiRank ≠ 0 then v else broadcastShutdown job v
        some (dtqReqRelease v rqe false)
      | _ => some (dtqReqRelease v rqe true)

end Dthread.ManagerHandlers
