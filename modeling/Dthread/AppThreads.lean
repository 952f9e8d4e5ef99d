import Dthread.ManagerHandlers

/-!
The application side of a rank: what the pthread behind a local table entry
does in dthreadwrap, app0wrap and the calls of dt_threadops.c. Each function
below is the part of that code up to a point where other threads can look: a
critical section of reqlock, or a write to the shared table. A thread uses its
own request only, and cancellation is blocked while it does.
-/
namespace Dthread.AppThreads

open ReqMsg Queuing ManagerTables ManagerHandlers

def threadRequest (l peer : ℕ) (op : Op) (mqe : Option Mqe) : Request :=
  { internalRequest 0 with addr := .ltab l, reqpeer := peer, reqop := op, mqe := mqe }

/-- ws.native: the dispatch entry has no proc functions. -/
def native (d : Dispatch) : Bool := !d.dtArgproc && !d.dtRetproc

/-- The part of retclean_request under reqlock: the request is marked busy, and is
on no list yet. The thread runs no application code after this. -/
def retcleanMark (v : View) (l : ℕ) (finalstate : LtState) : View :=
  let lt := v.mgr.ltab l
  let state := if lt.pthState.needFinalstate then finalstate else lt.pthState
  let gt := v.gtab lt.gtabIdx
  let v :=
    if state = .canceled ∨ state = .cleanup then
      v.setGtab lt.gtabIdx { gt with ret := { gt.ret with dtArgretType := DTHREAD_CANCELED } }
    else v
  v.setMgr (v.mgr.setLtab l { lt with pthState := state, reqstate := .busy, pc := .ended })

/-- retclean_request. -/
def retcleanRequest (v : View) (l : ℕ) (finalstate : LtState) : View :=
  let v := retcleanMark v l finalstate
  v.setDtq (dtqReqEnqueue v.dtq (threadRequest l 0 .retclean none))

/-- dthreadwrap publishes the local entry and the thread is running. -/
def publish (v : View) (l : ℕ) : View :=
  let lt := v.mgr.ltab l
  (v.setGtab lt.gtabIdx { v.gtab lt.gtabIdx with ltabIdx := l, hasLtab := true }).setMgr
    (v.mgr.setLtab l { lt with pthState := .running, pc := .app })

/-- The checks of dthread_create, dthread_detach, dthread_cancel and
dthread_join, and the rank their message goes to. -/
def requestPeer (job : Job) (gtab : ℕ → Gtab) (self : ℕ) : Body → Option ℕ
  | .create _ dispIdx _ =>
    if dispIdx = 0 ∨ job.ndsps ≤ dispIdx then none
    else if (job.dsps dispIdx).dtArgproc = (job.dsps dispIdx).dtRetproc then some 0
    else none
  | .detach thread => (dt2gtab job gtab thread).map fun _ => 0
  | .cancel thread => (dt2gtab job gtab thread).map fun i => (gtab i).rank
  | .join thread =>
    match dt2gtab job gtab thread with
    | none => none
    | some i =>
      if self = i ∨ job.ndsps ≤ (gtab i).dispIdx then none
      else if (job.dsps (gtab i).dispIdx).dtArgproc = (job.dsps (gtab i).dispIdx).dtRetproc then
        some 0
      else none
  | _ => none

/-- A call fills the thread's request in and queues it for the manager. -/
def postRequest (v : View) (l peer : ℕ) (body : Body) : View :=
  match dtqMqeAlloc v.dtq with
  | (none, q) => v.setDtq q
  | (some addr, q) =>
    (v.setMgr (v.mgr.setLtab l { v.mgr.ltab l with reqstate := .busy, reqerror := 0 })).setDtq
      (dtqReqEnqueue q (threadRequest l peer body.op (some ⟨addr, peer, .of 0 body⟩)))

/-- The end of a call: the results are taken and the request is idle again. -/
def collectResult (v : View) (l : ℕ) : View :=
  v.setMgr (v.mgr.setLtab l { v.mgr.ltab l with reqstate := .idle })

/-- The return value dthread_exit_common stores. `nativeExit` tells the two
interfaces apart, and `encoded` is the given or the encoded value. -/
def exitRetval (job : Job) (gt : Gtab) (nativeExit : Bool) (encoded : Option Argret) : Argret :=
  let nodata := { gt.ret with dtArgretType := DTHREAD_NODATA }
  if job.ndsps ≤ gt.dispIdx then nodata
  else
    match nativeExit, native (job.dsps gt.dispIdx) with
    | true, true => encoded.getD nodata
    | true, false => nodata
    | false, true => nodata
    | false, false => encoded.getD { gt.ret with dtArgretType := DTHREAD_CANCELED }

def exitCommon (job : Job) (v : View) (l : ℕ) (nativeExit : Bool) (encoded : Option Argret) :
    View :=
  let lt := v.mgr.ltab l
  let gt := v.gtab lt.gtabIdx
  (v.setGtab lt.gtabIdx { gt with ret := exitRetval job gt nativeExit encoded }).setMgr
    (v.mgr.setLtab l { lt with pc := .exiting })

def exitState (v : View) (l : ℕ) : View :=
  v.setMgr (v.mgr.setLtab l { v.mgr.ltab l with pthState := .exited, pc := .cleanup false })

/-- The application function returns to dthreadwrap. -/
def appReturn (job : Job) (v : View) (l : ℕ) (ret : Argret) : View :=
  let lt := v.mgr.ltab l
  let gt := v.gtab lt.gtabIdx
  let v := if native (job.dsps gt.dispIdx) then v.setGtab lt.gtabIdx { gt with ret := ret } else v
  v.setMgr (v.mgr.setLtab l { lt with pc := .cleanup true })

/-- A delivered cancel, or a pthread_exit of the application. -/
def tearDown (v : View) (l : ℕ) : View :=
  v.setMgr (v.mgr.setLtab l { v.mgr.ltab l with pc := .cleanup false })

/-- dthreadcleanup. `encoded` is the result of dt_retproc, which is called for
a pthread-style thread that returned. -/
def dthreadcleanup (job : Job) (v : View) (l : ℕ) (returned : Bool) (encoded : Option Argret) :
    View :=
  let i := (v.mgr.ltab l).gtabIdx
  let gt := v.gtab i
  if native (job.dsps gt.dispIdx) = false ∧ returned then
    match encoded with
    | some ret => retcleanRequest (v.setGtab i { gt with ret := ret }) l .returned
    | none =>
      retcleanRequest (v.setGtab i
        { gt with ret := { gt.ret with dtArgretType := DTHREAD_CANCELED } }) l .canceled
  else retcleanRequest v l (if returned then .returned else .cleanup)

/-- app0wrap after the main function of the application returned. -/
def app0Return (v : View) (l : ℕ) : View :=
  (v.setMgr (v.mgr.setLtab l
    { v.mgr.ltab l with pthState := .returned, reqstate := .busy, pc := .ended })).setDtq
    (dtqReqEnqueue v.dtq (threadRequest l 0 .app0Ret none))

/-- One step of the pthread behind slot `l`. -/
inductive AppStep (job : Job) (l : ℕ) (v : View) : View → Prop
  -- checks of dthreadwrap that should never fail end the thread silently
  | wrapBad (hpc : (v.mgr.ltab l).pc = .starting)
      (hbad : job.nmaxthread ≤ (v.mgr.ltab l).gtabIdx ∨
        (v.gtab (v.mgr.ltab l).gtabIdx).seq ≠ (v.mgr.ltab l).seq) :
      AppStep job l v (v.setMgr (v.mgr.setLtab l { v.mgr.ltab l with pc := .ended }))
  | wrapFail (hpc : (v.mgr.ltab l).pc = .starting)
      (hlt : (v.mgr.ltab l).gtabIdx < job.nmaxthread)
      (hseq : (v.gtab (v.mgr.ltab l).gtabIdx).seq = (v.mgr.ltab l).seq) :
      AppStep job l v (retcleanRequest v l .canceled)
  | publish (hpc : (v.mgr.ltab l).pc = .starting)
      (hlt : (v.mgr.ltab l).gtabIdx < job.nmaxthread)
      (hseq : (v.gtab (v.mgr.ltab l).gtabIdx).seq = (v.mgr.ltab l).seq)
      (hdisp : 1 ≤ (v.gtab (v.mgr.ltab l).gtabIdx).dispIdx ∧
        (v.gtab (v.mgr.ltab l).gtabIdx).dispIdx < job.ndsps) :
      AppStep job l v (publish v l)
  | post (body : Body) (peer : ℕ) (hpc : (v.mgr.ltab l).pc = .app)
      (hidle : (v.mgr.ltab l).reqstate = .idle)
      (hpeer : requestPeer job v.gtab (v.mgr.ltab l).gtabIdx body = some peer) :
      AppStep job l v (postRequest v l peer body)
  | collect (hpc : (v.mgr.ltab l).pc = .app) (hdone : (v.mgr.ltab l).reqstate = .done) :
      AppStep job l v (collectResult v l)
  | exit (nativeExit : Bool) (encoded : Option Argret) (hpc : (v.mgr.ltab l).pc = .app)
      (hidle : (v.mgr.ltab l).reqstate = .idle)
      (hseq : (v.gtab (v.mgr.ltab l).gtabIdx).seq = (v.mgr.ltab l).seq) :
      AppStep job l v (exitCommon job v l nativeExit encoded)
  | exited (hpc : (v.mgr.ltab l).pc = .exiting) : AppStep job l v (exitState v l)
  | appReturn (ret : Argret) (hpc : (v.mgr.ltab l).pc = .app)
      (hidle : (v.mgr.ltab l).reqstate = .idle)
      (hdisp : (v.gtab (v.mgr.ltab l).gtabIdx).dispIdx ≠ 0) :
      AppStep job l v (appReturn job v l ret)
  | tearDown (hpc : (v.mgr.ltab l).pc = .app) (hidle : (v.mgr.ltab l).reqstate = .idle) :
      AppStep job l v (tearDown v l)
  | cleanup (returned : Bool) (encoded : Option Argret)
      (hpc : (v.mgr.ltab l).pc = .cleanup returned) :
      AppStep job l v (dthreadcleanup job v l returned encoded)
  | app0Return (hpc : (v.mgr.ltab l).pc = .app) (hidle : (v.mgr.ltab l).reqstate = .idle)
      (hdisp : (v.gtab (v.mgr.ltab l).gtabIdx).dispIdx = 0) :
      AppStep job l v (app0Return v l)

/-- What a step of slot `l` leaves: its local entry, the entry it names in the
shared table, and the requests it queued. -/
structure AppEffect (v v' : View) (l : ℕ) (lt : Ltab) (gt : Gtab) (rq : List Request) :
    Prop where
  mgr : v'.mgr = v.mgr.setLtab l lt
  gtab : v'.gtab = Function.update v.gtab (v.mgr.ltab l).gtabIdx gt
  mgrreqq : v'.dtq.mgrreqq = v.dtq.mgrreqq ++ rq
  draindown : v'.dtq.mpisqDraindown = v.dtq.mpisqDraindown
  accepted : v'.dtq.accepted = v.dtq.accepted
  mallocs : v'.dtq.mallocs = []

/-- Every kind of step a thread makes, with the entries it leaves. -/
inductive AppOutcome (job : Job) (l : ℕ) (lt : Ltab) (gtab : ℕ → Gtab) :
    Ltab → Gtab → List Request → Prop
  | silent (hpc : lt.pc = .starting)
      (hbad : job.nmaxthread ≤ lt.gtabIdx ∨ (gtab lt.gtabIdx).seq ≠ lt.seq) :
      AppOutcome job l lt gtab { lt with pc := .ended } (gtab lt.gtabIdx) []
  | retclean (state : LtState) (ret : Argret) (hpc : lt.pc = .starting ∨ ∃ b, lt.pc = .cleanup b)
      (hfinal : state.needFinalstate = false)
      (hkeep : lt.pthState.needFinalstate = false → state = lt.pthState) :
      AppOutcome job l lt gtab { lt with pthState := state, reqstate := .busy, pc := .ended }
        { gtab lt.gtabIdx with ret := ret } [threadRequest l 0 .retclean none]
  | publish (hpc : lt.pc = .starting) (hseq : (gtab lt.gtabIdx).seq = lt.seq) :
      AppOutcome job l lt gtab { lt with pthState := .running, pc := .app }
        { gtab lt.gtabIdx with ltabIdx := l, hasLtab := true } []
  | post (body : Body) (peer addr : ℕ) (hpc : lt.pc = .app) (hidle : lt.reqstate = .idle)
      (hpeer : requestPeer job gtab lt.gtabIdx body = some peer) :
      AppOutcome job l lt gtab { lt with reqstate := .busy, reqerror := 0 } (gtab lt.gtabIdx)
        [threadRequest l peer body.op (some ⟨addr, peer, .of 0 body⟩)]
  | collect (hpc : lt.pc = .app) (hdone : lt.reqstate = .done) :
      AppOutcome job l lt gtab { lt with reqstate := .idle } (gtab lt.gtabIdx) []
  | leave (pc : WrapPc) (state : LtState) (ret : Argret)
      (hpc : lt.pc = .app ∧ lt.reqstate = .idle ∨ lt.pc = .exiting)
      (hpc' : pc = .exiting ∨ ∃ b, pc = .cleanup b)
      (hstate : state = lt.pthState ∨ state = .exited) :
      AppOutcome job l lt gtab { lt with pthState := state, pc := pc }
        { gtab lt.gtabIdx with ret := ret } []
  | app0Return (hpc : lt.pc = .app) (hidle : lt.reqstate = .idle)
      (hdisp : (gtab lt.gtabIdx).dispIdx = 0) :
      AppOutcome job l lt gtab { lt with pthState := .returned, reqstate := .busy, pc := .ended }
        (gtab lt.gtabIdx) [threadRequest l 0 .app0Ret none]

/-- The state retclean_request leaves a thread in. -/
def sealState (state finalstate : LtState) : LtState :=
  if state.needFinalstate then finalstate else state

/-- The mark of a canceled thread on its return value. -/
def stamp (fin : LtState) (ret : Argret) : Argret :=
  if fin = .canceled ∨ fin = .cleanup then { ret with dtArgretType := DTHREAD_CANCELED } else ret

theorem sealState_final {state finalstate : LtState}
    (h : finalstate.needFinalstate = false) :
    (sealState state finalstate).needFinalstate = false := by
  unfold sealState
  split
  · exact h
  · rename_i hdone
    simpa using hdone

theorem sealState_keep {state : LtState} (finalstate : LtState)
    (h : state.needFinalstate = false) : sealState state finalstate = state := by
  simp [sealState, h]

/-- retclean_request sets a final state and touches the return value only. -/
theorem retcleanRequest_effect (v : View) (l : ℕ) (finalstate : LtState)
    (hm : v.dtq.mallocs = []) :
    AppEffect v (retcleanRequest v l finalstate) l
      { v.mgr.ltab l with
        pthState := sealState (v.mgr.ltab l).pthState finalstate, reqstate := .busy, pc := .ended }
      { v.gtab (v.mgr.ltab l).gtabIdx with
        ret := stamp (sealState (v.mgr.ltab l).pthState finalstate)
          (v.gtab (v.mgr.ltab l).gtabIdx).ret } [threadRequest l 0 .retclean none] := by
  unfold retcleanRequest retcleanMark stamp sealState
  simp only
  generalize (if (v.mgr.ltab l).pthState.needFinalstate then finalstate
    else (v.mgr.ltab l).pthState) = state
  split
  · exact ⟨rfl, rfl, rfl, rfl, rfl, hm⟩
  · exact ⟨rfl, (Function.update_eq_self _ _).symm, rfl, rfl, rfl, hm⟩

/-- The way through retclean_request after the return value was set to `ret`. -/
theorem retcleanRequest_outcome (job : Job) (v : View) (l : ℕ) (finalstate : LtState)
    (ret : Argret) (hm : v.dtq.mallocs = [])
    (hpc : (v.mgr.ltab l).pc = .starting ∨ ∃ b, (v.mgr.ltab l).pc = .cleanup b)
    (hfinal : finalstate.needFinalstate = false) :
    ∃ lt gt rq, AppOutcome job l (v.mgr.ltab l) v.gtab lt gt rq ∧
      AppEffect v (retcleanRequest (v.setGtab (v.mgr.ltab l).gtabIdx
        { v.gtab (v.mgr.ltab l).gtabIdx with ret := ret }) l finalstate) l lt gt rq := by
  have h := retcleanRequest_effect (v.setGtab (v.mgr.ltab l).gtabIdx
    { v.gtab (v.mgr.ltab l).gtabIdx with ret := ret }) l finalstate hm
  refine ⟨_, _, _, .retclean (sealState (v.mgr.ltab l).pthState finalstate)
    (stamp (sealState (v.mgr.ltab l).pthState finalstate) ret) hpc (sealState_final hfinal)
    (sealState_keep finalstate), h.mgr, ?_, h.mgrreqq, h.draindown, h.accepted, h.mallocs⟩
  simpa [View.setGtab] using h.gtab

theorem dthreadcleanup_outcome (job : Job) (v : View) (l : ℕ) (returned : Bool)
    (encoded : Option Argret) (hm : v.dtq.mallocs = [])
    (hpc : (v.mgr.ltab l).pc = .cleanup returned) :
    ∃ lt gt rq, AppOutcome job l (v.mgr.ltab l) v.gtab lt gt rq ∧
      AppEffect v (dthreadcleanup job v l returned encoded) l lt gt rq := by
  have hsame : v = v.setGtab (v.mgr.ltab l).gtabIdx
      { v.gtab (v.mgr.ltab l).gtabIdx with ret := (v.gtab (v.mgr.ltab l).gtabIdx).ret } := by
    simp [View.setGtab]
  have hout (finalstate : LtState) (ret : Argret) (hfinal : finalstate.needFinalstate = false) :=
    retcleanRequest_outcome job v l finalstate ret hm (.inr ⟨returned, hpc⟩) hfinal
  unfold dthreadcleanup
  simp only
  split
  · cases encoded with
    | some ret => exact hout .returned ret rfl
    | none => exact hout .canceled _ rfl
  · cases returned with
    | true =>
      have h := hout .returned (v.gtab (v.mgr.ltab l).gtabIdx).ret rfl
      rwa [← hsame] at h
    | false =>
      have h := hout .cleanup (v.gtab (v.mgr.ltab l).gtabIdx).ret rfl
      rwa [← hsame] at h

theorem appStep_outcome (job : Job) (l : ℕ) (v v' : View) (hm : v.dtq.mallocs = [])
    (h : AppStep job l v v') :
    ∃ lt gt rq, AppOutcome job l (v.mgr.ltab l) v.gtab lt gt rq ∧ AppEffect v v' l lt gt rq := by
  have hself : v.gtab = Function.update v.gtab (v.mgr.ltab l).gtabIdx
      (v.gtab (v.mgr.ltab l).gtabIdx) := (Function.update_eq_self _ _).symm
  have hnone : v.dtq.mgrreqq = v.dtq.mgrreqq ++ [] := (List.append_nil _).symm
  cases h with
  | wrapBad hpc hbad => exact ⟨_, _, _, .silent hpc hbad, rfl, hself, hnone, rfl, rfl, hm⟩
  | wrapFail hpc hlt hseq =>
    exact ⟨_, _, _, .retclean _ _ (.inl hpc) (sealState_final rfl) (sealState_keep _),
      retcleanRequest_effect v l .canceled hm⟩
  | publish hpc hlt hseq hdisp =>
    exact ⟨_, _, _, .publish hpc hseq, rfl, rfl, hnone, rfl, rfl, hm⟩
  | post body peer hpc hidle hpeer =>
    obtain ⟨addr, q, hq, hs⟩ := mqeAlloc_eq_some v.dtq hm
    refine ⟨_, _, _, .post body peer addr hpc hidle hpeer, ?_⟩
    unfold postRequest
    rw [hq]
    refine ⟨rfl, hself, ?_, hs.draindown, hs.accepted, hs.mallocs hm⟩
    simp [View.setDtq, dtqReqEnqueue, hs.mgrreqq]
  | collect hpc hdone => exact ⟨_, _, _, .collect hpc hdone, rfl, hself, hnone, rfl, rfl, hm⟩
  | exit nativeExit encoded hpc hidle hseq =>
    exact ⟨_, _, _, .leave .exiting _ _ (.inl ⟨hpc, hidle⟩) (.inl rfl) (.inl rfl), rfl, rfl,
      hnone, rfl, rfl, hm⟩
  | exited hpc =>
    exact ⟨_, _, _, .leave (.cleanup false) .exited (v.gtab (v.mgr.ltab l).gtabIdx).ret (.inr hpc)
      (.inr ⟨false, rfl⟩) (.inr rfl), rfl, hself, hnone, rfl, rfl, hm⟩
  | appReturn ret hpc hidle hdisp =>
    unfold appReturn
    simp only
    split
    · exact ⟨_, _, _, .leave (.cleanup true) _ ret (.inl ⟨hpc, hidle⟩) (.inr ⟨true, rfl⟩)
        (.inl rfl), rfl, rfl, hnone, rfl, rfl, hm⟩
    · exact ⟨_, _, _, .leave (.cleanup true) _ (v.gtab (v.mgr.ltab l).gtabIdx).ret
        (.inl ⟨hpc, hidle⟩) (.inr ⟨true, rfl⟩) (.inl rfl), rfl, hself, hnone, rfl, rfl, hm⟩
  | tearDown hpc hidle =>
    exact ⟨_, _, _, .leave (.cleanup false) _ (v.gtab (v.mgr.ltab l).gtabIdx).ret
      (.inl ⟨hpc, hidle⟩) (.inr ⟨false, rfl⟩) (.inl rfl), rfl, hself, hnone, rfl, rfl, hm⟩
  | cleanup returned encoded hpc => exact dthreadcleanup_outcome job v l returned encoded hm hpc
  | app0Return hpc hidle hdisp =>
    exact ⟨_, _, _, .app0Return hpc hidle hdisp, rfl, hself, rfl, rfl, rfl, hm⟩

end Dthread.AppThreads
