import Dthread.JobSystem

/-!
Runs of a job with a log of its steps. A record of the log tells at which rank
a step took place, what it was, and what the rank saw before and after it. For
a step of an application thread it tells the values that the code of the
application and its proc functions have contributed.
-/
namespace Dthread.JobLogs

open ReqMsg Queuing ManagerTables ManagerHandlers ManagerEffects ManagerOutcomes AppThreads
open FifoNet JobSystem

/-- The steps of `AppStep`, with what the application contributes. -/
inductive AppAct where
  | wrapBad
  | wrapFail
  | publish
  | post (body : Body) (peer : ℕ)
  | collect
  | exit (nativeExit : Bool) (encoded : Option Argret)
  | exited
  | appReturn (ret : Argret)
  | tearDown
  | cleanup (returned : Bool) (encoded : Option Argret)
  | app0Return
deriving DecidableEq, Repr

/-- When the pthread behind slot `l` can make a step. -/
def AppAct.Enabled (job : Job) (v : View) (l : ℕ) : AppAct → Prop
  | .wrapBad => (v.mgr.ltab l).pc = .starting ∧ (job.nmaxthread ≤ (v.mgr.ltab l).gtabIdx ∨
      (v.gtab (v.mgr.ltab l).gtabIdx).seq ≠ (v.mgr.ltab l).seq)
  | .wrapFail => (v.mgr.ltab l).pc = .starting ∧ (v.mgr.ltab l).gtabIdx < job.nmaxthread ∧
      (v.gtab (v.mgr.ltab l).gtabIdx).seq = (v.mgr.ltab l).seq
  | .publish => (v.mgr.ltab l).pc = .starting ∧ (v.mgr.ltab l).gtabIdx < job.nmaxthread ∧
      (v.gtab (v.mgr.ltab l).gtabIdx).seq = (v.mgr.ltab l).seq ∧
      1 ≤ (v.gtab (v.mgr.ltab l).gtabIdx).dispIdx ∧
      (v.gtab (v.mgr.ltab l).gtabIdx).dispIdx < job.ndsps
  | .post body peer => (v.mgr.ltab l).pc = .app ∧ (v.mgr.ltab l).reqstate = .idle ∧
      requestPeer job v.gtab (v.mgr.ltab l).gtabIdx body = some peer
  | .collect => (v.mgr.ltab l).pc = .app ∧ (v.mgr.ltab l).reqstate = .done
  | .exit _ _ => (v.mgr.ltab l).pc = .app ∧ (v.mgr.ltab l).reqstate = .idle ∧
      (v.gtab (v.mgr.ltab l).gtabIdx).seq = (v.mgr.ltab l).seq
  | .exited => (v.mgr.ltab l).pc = .exiting
  | .appReturn _ => (v.mgr.ltab l).pc = .app ∧ (v.mgr.ltab l).reqstate = .idle ∧
      (v.gtab (v.mgr.ltab l).gtabIdx).dispIdx ≠ 0
  | .tearDown => (v.mgr.ltab l).pc = .app ∧ (v.mgr.ltab l).reqstate = .idle
  | .cleanup returned _ => (v.mgr.ltab l).pc = .cleanup returned
  | .app0Return => (v.mgr.ltab l).pc = .app ∧ (v.mgr.ltab l).reqstate = .idle ∧
      (v.gtab (v.mgr.ltab l).gtabIdx).dispIdx = 0

def AppAct.run (job : Job) (v : View) (l : ℕ) : AppAct → View
  | .wrapBad => v.setMgr (v.mgr.setLtab l { v.mgr.ltab l with pc := .ended })
  | .wrapFail => retcleanRequest v l .canceled
  | .publish => AppThreads.publish v l
  | .post body peer => postRequest v l peer body
  | .collect => collectResult v l
  | .exit nativeExit encoded => exitCommon job v l nativeExit encoded
  | .exited => exitState v l
  | .appReturn ret => AppThreads.appReturn job v l ret
  | .tearDown => AppThreads.tearDown v l
  | .cleanup returned encoded => dthreadcleanup job v l returned encoded
  | .app0Return => AppThreads.app0Return v l

theorem appStep_iff {job : Job} {l : ℕ} {v v' : View} :
    AppStep job l v v' ↔ ∃ act : AppAct, act.Enabled job v l ∧ v' = act.run job v l := by
  constructor
  · intro h
    cases h with
    | wrapBad hpc hbad => exact ⟨.wrapBad, ⟨hpc, hbad⟩, rfl⟩
    | wrapFail hpc hlt hseq => exact ⟨.wrapFail, ⟨hpc, hlt, hseq⟩, rfl⟩
    | publish hpc hlt hseq hdisp => exact ⟨.publish, ⟨hpc, hlt, hseq, hdisp⟩, rfl⟩
    | post body peer hpc hidle hpeer => exact ⟨.post body peer, ⟨hpc, hidle, hpeer⟩, rfl⟩
    | collect hpc hdone => exact ⟨.collect, ⟨hpc, hdone⟩, rfl⟩
    | exit nativeExit encoded hpc hidle hseq =>
      exact ⟨.exit nativeExit encoded, ⟨hpc, hidle, hseq⟩, rfl⟩
    | exited hpc => exact ⟨.exited, hpc, rfl⟩
    | appReturn ret hpc hidle hdisp => exact ⟨.appReturn ret, ⟨hpc, hidle, hdisp⟩, rfl⟩
    | tearDown hpc hidle => exact ⟨.tearDown, ⟨hpc, hidle⟩, rfl⟩
    | cleanup returned encoded hpc => exact ⟨.cleanup returned encoded, hpc, rfl⟩
    | app0Return hpc hidle hdisp => exact ⟨.app0Return, ⟨hpc, hidle, hdisp⟩, rfl⟩
  · rintro ⟨act, h, rfl⟩
    cases act with
    | wrapBad => exact .wrapBad h.1 h.2
    | wrapFail => exact .wrapFail h.1 h.2.1 h.2.2
    | publish => exact .publish h.1 h.2.1 h.2.2.1 h.2.2.2
    | post body peer => exact .post body peer h.1 h.2.1 h.2.2
    | collect => exact .collect h.1 h.2
    | exit nativeExit encoded => exact .exit nativeExit encoded h.1 h.2.1 h.2.2
    | exited => exact .exited h
    | appReturn ret => exact .appReturn ret h.1 h.2.1 h.2.2
    | tearDown => exact .tearDown h.1 h.2
    | cleanup returned encoded => exact .cleanup returned encoded h
    | app0Return => exact .app0Return h.1 h.2.1 h.2.2

inductive Event where
  | app (l : ℕ) (act : AppAct)
  | msg (p : Packet)
  | req (rqe : Request)
  | shutdown

structure Record where
  rank : ℕ
  pre : View
  event : Event
  post : View

/-- The messages sent in a step. -/
def Record.posts (e : Record) : List Post :=
  (e.post.dtq.accepted.map toPost).drop e.pre.dtq.accepted.length

/-- A step of the job with its record. -/
inductive Moves (job : Job) (s : Sys) : Record → Sys → Prop
  | app (r l : ℕ) (act : AppAct) (hr : r < job.wsize) (hl : l < job.nmaxthread)
      (h : act.Enabled job (s.view r) l) :
      Moves job s ⟨r, s.view r, .app l act, act.run job (s.view r) l⟩
        (s.put r (act.run job (s.view r) l))
  | recv (p : Packet) (net : List Packet) (addr err : ℕ) (v : View) (hr : p.dst < job.wsize)
      (hd : Deliver Packet.chan s.net p net)
      (h : processMqe job (s.view p.dst) ⟨addr, p.src, p.frame⟩ err = some v) :
      Moves job s ⟨p.dst, s.view p.dst, .msg p, v⟩ ({ s with net := net }.put p.dst v)
  | req (r : ℕ) (rqe : Request) (q : Dtq) (v : View) (hr : r < job.wsize)
      (hq : dtqReqDequeue (s.rk r).dtq = (some rqe, q))
      (h : processReq job ((s.view r).setDtq q) rqe = some v) :
      Moves job s ⟨r, s.view r, .req rqe, v⟩ (s.put r v)
  | shutdown (hidle : (s.rk 0).mgr.threadsRunning = 0) (hd : (s.rk 0).mgr.draining = false) :
      Moves job s ⟨0, s.view 0, .shutdown, broadcastShutdown job (s.view 0)⟩
        (s.put 0 (broadcastShutdown job (s.view 0)))

theorem step_iff_moves {job : Job} {s s' : Sys} : Step job s s' ↔ ∃ e, Moves job s e s' := by
  constructor
  · intro h
    cases h with
    | app r l v hr hl h =>
      obtain ⟨act, henabled, rfl⟩ := appStep_iff.mp h
      exact ⟨_, .app r l act hr hl henabled⟩
    | recv p net addr err v hr hd h => exact ⟨_, .recv p net addr err v hr hd h⟩
    | req r rqe q v hr hq h => exact ⟨_, .req r rqe q v hr hq h⟩
    | shutdown hidle hd => exact ⟨_, .shutdown hidle hd⟩
  · rintro ⟨e, h⟩
    cases h with
    | app r l act hr hl h => exact .app r l _ hr hl (appStep_iff.mpr ⟨act, h, rfl⟩)
    | recv p net addr err v hr hd h => exact .recv p net addr err v hr hd h
    | req r rqe q v hr hq h => exact .req r rqe q v hr hq h
    | shutdown hidle hd => exact .shutdown hidle hd

inductive Logged (job : Job) : List Record → Sys → Prop
  | init : Logged job [] (sysInit job)
  | snoc {log : List Record} {s s' : Sys} {e : Record} (h : Logged job log s)
      (hs : Moves job s e s') : Logged job (log ++ [e]) s'

theorem Logged.reachable {job : Job} {log : List Record} {s : Sys} (h : Logged job log s) :
    Reachable job s := by
  induction h with
  | init => exact .refl
  | snoc _ hs ih => exact ih.tail (step_iff_moves.mpr ⟨_, hs⟩)

theorem exists_logged {job : Job} {s : Sys} (h : Reachable job s) : ∃ log, Logged job log s := by
  induction h with
  | refl => exact ⟨[], .init⟩
  | tail _ hs ih =>
    obtain ⟨log, hlog⟩ := ih
    obtain ⟨e, he⟩ := step_iff_moves.mp hs
    exact ⟨_, hlog.snoc he⟩

/-- A run of `twoRanks` in which the main thread has created a thread on rank 1:
CREATE, START, STARTED and CREATED are delivered in turn. -/
def createdRun : { run : List Record × Sys // Logged twoRanks run.1 run.2 } :=
  ⟨(_, _), .snoc (.snoc (.snoc (.snoc (.snoc (.snoc (.snoc .init
    (.app 0 0 (.post createBody 0) (by decide) (by decide) ⟨rfl, rfl, rfl⟩))
    (.req 0 _ _ _ (by decide) rfl rfl))
    (.recv ⟨0, 0, _⟩ _ 0 0 _ (by decide) ⟨[], [], rfl, rfl, by simp⟩ rfl))
    (.recv ⟨0, 1, _⟩ _ 0 0 _ (by decide) ⟨[], [], rfl, rfl, by simp⟩ rfl))
    (.recv ⟨1, 0, _⟩ _ 0 0 _ (by decide) ⟨[], [], rfl, rfl, by simp⟩ rfl))
    (.recv ⟨0, 0, _⟩ _ 0 0 _ (by decide) ⟨[], [], rfl, rfl, by simp⟩ rfl))
    (.app 0 0 .collect (by decide) (by decide) ⟨rfl, rfl⟩)⟩

end Dthread.JobLogs
