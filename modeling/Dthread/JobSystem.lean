import Mathlib.Logic.Relation
import Dthread.ManagerOutcomes
import Dthread.AppThreads
import Dthread.FifoNet

/-!
All ranks of a job together: the managers as handler-atomic steps, their
application threads, the shared thread table and the network between the
ranks. A message that a handler hands to its queues is taken over by the
channel to its destination at the end of the step; the send and receive queues
and the MPI thread are part of that channel. In a step of the job every
allocation succeeds: the branches of the handlers in which dtq_mqe_alloc or
dtq_req_alloc fails are part of the handlers but not of these runs. A step in
which allocations fail is a step from `Sys.withMallocs`.
-/
namespace Dthread.JobSystem

open ReqMsg Queuing ManagerTables ManagerHandlers ManagerEffects ManagerOutcomes AppThreads
open FifoNet

structure Packet where
  src : ℕ
  dst : ℕ
  frame : Frame
deriving DecidableEq, Repr

def Packet.chan (p : Packet) : ℕ × ℕ := (p.src, p.dst)

def pack (r : ℕ) (post : Post) : Packet := ⟨r, post.1, post.2⟩

structure Node where
  mgr : Mgr
  dtq : Dtq

structure Sys where
  rk : ℕ → Node
  gtab : ℕ → Gtab
  net : List Packet

def Sys.view (s : Sys) (r : ℕ) : View := ⟨(s.rk r).mgr, s.gtab, (s.rk r).dtq⟩

/-- The queues once the channel has taken their messages. -/
def flush (q : Dtq) : Dtq :=
  { q with mpisendq := [], mpisqlen := 0, mpindequeuedsends := 0, mpirecvq := [], accepted := [] }

def Sys.put (s : Sys) (r : ℕ) (v : View) : Sys where
  rk := Function.update s.rk r ⟨v.mgr, flush v.dtq⟩
  gtab := v.gtab
  net := s.net ++ (v.dtq.accepted.map toPost).map (pack r)

/-- dtrs and mgrstate as dthread_run and mgr_main set them up. -/
def mgrInit (job : Job) (rank : ℕ) : Mgr :=
  { mpiRank := rank, seqsrc := (rank + job.wsize) % 2 ^ 32, draining := false, rpending := [],
    ltabAlloc := 0, ltabLastslot := 0, threadsAlloc := 0, threadsStarting := 0,
    threadsRunning := 0, lastSlot := 0, nextRank := 0, ltab := fun _ => .zero, procFree := [] }

/-- mgr_startapp. The generation of the entry is the first value of the
sequence source (`getFreeSeq_none`). -/
def mgrStartapp (job : Job) (v : View) : View where
  mgr := { v.mgr.setLtab 0 { v.mgr.ltab 0 with
      gtabIdx := 0, seq := v.mgr.seqsrc, pthState := .running, pc := .app } with
    seqsrc := seqNext job v.mgr.mpiRank v.mgr.seqsrc
    ltabAlloc := 1
    ltabLastslot := 0
    threadsAlloc := 1
    threadsRunning := 1
    lastSlot := 0
    nextRank := (v.mgr.nextRank + 1) % job.wsize }
  gtab := Function.update v.gtab 0 { v.gtab 0 with
    allocated := true
    rank := 0
    seq := v.mgr.seqsrc
    dispIdx := 0
    arg := ⟨DTHREAD_INLINE, 24, []⟩
    ret := { (v.gtab 0).ret with dtArgretType := DTHREAD_NODATA }
    detached := false
    hasLtab := true
    ltabIdx := 0 }
  dtq := v.dtq

/-- The state in which every manager has entered its main loop. -/
def sysInit (job : Job) : Sys :=
  let start := mgrStartapp job ⟨mgrInit job 0, fun _ => .zero, dtqInit⟩
  { rk := fun r => if r = 0 then ⟨start.mgr, start.dtq⟩ else ⟨mgrInit job r, dtqInit⟩
    gtab := start.gtab
    net := [] }

/-- One step of the job. A manager that has drained would stop; letting it go
on only adds states. -/
inductive Step (job : Job) (s : Sys) : Sys → Prop
  | app (r l : ℕ) (v : View) (hr : r < job.wsize) (hl : l < job.nmaxthread)
      (h : AppStep job l (s.view r) v) : Step job s (s.put r v)
  | recv (p : Packet) (net : List Packet) (addr err : ℕ) (v : View) (hr : p.dst < job.wsize)
      (hd : Deliver Packet.chan s.net p net)
      (h : processMqe job (s.view p.dst) ⟨addr, p.src, p.frame⟩ err = some v) :
      Step job s ({ s with net := net }.put p.dst v)
  | req (r : ℕ) (rqe : Request) (q : Dtq) (v : View) (hr : r < job.wsize)
      (hq : dtqReqDequeue (s.rk r).dtq = (some rqe, q))
      (h : processReq job ((s.view r).setDtq q) rqe = some v) : Step job s (s.put r v)
  | shutdown (hidle : (s.rk 0).mgr.threadsRunning = 0) (hd : (s.rk 0).mgr.draining = false) :
      Step job s (s.put 0 (broadcastShutdown job (s.view 0)))

/-- The state with the outcomes of the allocations to come set at every rank. -/
def Sys.withMallocs (s : Sys) (mallocs : List Bool) : Sys :=
  { s with rk := fun r => { s.rk r with dtq := { (s.rk r).dtq with mallocs := mallocs } } }

/-- The manager of the destination handles a message. -/
def Delivers (job : Job) (s : Sys) (p : Packet) (s' : Sys) : Prop :=
  ∃ net addr err v, p.dst < job.wsize ∧ Deliver Packet.chan s.net p net ∧
    processMqe job (s.view p.dst) ⟨addr, p.src, p.frame⟩ err = some v ∧
    s' = { s with net := net }.put p.dst v

/-- A step in which no message is handled. -/
inductive Local (job : Job) (s : Sys) : Sys → Prop
  | app (r l : ℕ) (v : View) (hr : r < job.wsize) (hl : l < job.nmaxthread)
      (h : AppStep job l (s.view r) v) : Local job s (s.put r v)
  | req (r : ℕ) (rqe : Request) (q : Dtq) (v : View) (hr : r < job.wsize)
      (hq : dtqReqDequeue (s.rk r).dtq = (some rqe, q))
      (h : processReq job ((s.view r).setDtq q) rqe = some v) : Local job s (s.put r v)
  | shutdown (hidle : (s.rk 0).mgr.threadsRunning = 0) (hd : (s.rk 0).mgr.draining = false) :
      Local job s (s.put 0 (broadcastShutdown job (s.view 0)))

def Reachable (job : Job) (s : Sys) : Prop :=
  Relation.ReflTransGen (Step job) (sysInit job) s

/-- Between steps no allocation failure is due and every message has been
taken over by its channel. -/
def Quiet (s : Sys) : Prop :=
  ∀ r, (s.rk r).dtq.mallocs = [] ∧ (s.rk r).dtq.accepted = []

theorem withMallocs_nil {s : Sys} (h : Quiet s) : s.withMallocs [] = s := by
  have hrk : (s.withMallocs []).rk = s.rk := by
    funext r
    have hm := (h r).1
    cases hs : s.rk r with
    | mk mgr dtq =>
      cases dtq
      simp_all [Sys.withMallocs]
  cases s
  simp_all [Sys.withMallocs]

/-- Rank `r` changes to manager state `m` with requests `rq` waiting, the table
to `gt`, and `posts` are sent on top of `net`. -/
structure Change (s s' : Sys) (r : ℕ) (m : Mgr) (gt : ℕ → Gtab) (rq : List Request)
    (net : List Packet) (posts : List Post) : Prop where
  mgr : (s'.rk r).mgr = m
  gtab : s'.gtab = gt
  mgrreqq : (s'.rk r).dtq.mgrreqq = rq
  others : ∀ r', r' ≠ r → s'.rk r' = s.rk r'
  net : s'.net = net ++ posts.map (pack r)
  mallocs : (s'.rk r).dtq.mallocs = []
  accepted : (s'.rk r).dtq.accepted = []

def draindown (s : Sys) (r : ℕ) : DrainState := (s.rk r).dtq.mpisqDraindown

/-- What rank `r` has sent when a handler posted `out`. -/
def sent (s : Sys) (r : ℕ) (out : List Post) : List Post :=
  if draindown s r = .init then out else []

def bcasts (job : Job) (r : ℕ) : List Post :=
  (binaryRouter 0 job.wsize r).map fun child => (child, .of 0 .bcastshutdown)

/-- Every kind of step of the job, with the message that is handled in it, if any,
and the outcome of the handler that ran. -/
inductive StepCase (job : Job) (s s' : Sys) : Option Packet → Prop
  | app (r l : ℕ) (lt : Ltab) (gt : Gtab) (rq : List Request) (hr : r < job.wsize)
      (hl : l < job.nmaxthread) (hdd : draindown s' r = draindown s r)
      (ho : AppOutcome job l ((s.rk r).mgr.ltab l) s.gtab lt gt rq)
      (hc : Change s s' r ((s.rk r).mgr.setLtab l lt)
        (Function.update s.gtab ((s.rk r).mgr.ltab l).gtabIdx gt)
        ((s.rk r).dtq.mgrreqq ++ rq) s.net []) : StepCase job s s' none
  | recv (p : Packet) (net : List Packet) (addr : ℕ) (m : Mgr) (gt : ℕ → Gtab)
      (out : List Post) (hr : p.dst < job.wsize) (hd : Deliver Packet.chan s.net p net)
      (hdd : draindown s' p.dst = draindown s p.dst)
      (ho : MqeOutcome job (s.view p.dst) ⟨addr, p.src, p.frame⟩ m gt out)
      (hc : Change s s' p.dst m gt (s.rk p.dst).dtq.mgrreqq net (sent s p.dst out)) :
      StepCase job s s' (some p)
  | recvShutdown (p : Packet) (net : List Packet) (hr : p.dst < job.wsize)
      (hd : Deliver Packet.chan s.net p net) (hb : p.frame.body = .bcastshutdown)
      (hdd : draindown s' p.dst ≠ .init)
      (hc : Change s s' p.dst { (s.rk p.dst).mgr with draining := true } s.gtab
        (s.rk p.dst).dtq.mgrreqq net (sent s p.dst (bcasts job (s.rk p.dst).mgr.mpiRank))) :
      StepCase job s s' (some p)
  | req (r : ℕ) (rqe : Request) (rest : List Request) (m : Mgr) (gt : ℕ → Gtab)
      (out : List Post) (hr : r < job.wsize) (hq : (s.rk r).dtq.mgrreqq = rqe :: rest)
      (hdd : draindown s' r = draindown s r)
      (ho : ReqOutcome job (s.view r) rqe m gt out)
      (hc : Change s s' r m gt rest s.net (sent s r out)) : StepCase job s s' none
  | reqShutdown (r l : ℕ) (rqe : Request) (rest : List Request) (hr : r < job.wsize)
      (hq : (s.rk r).dtq.mgrreqq = rqe :: rest) (hop : rqe.reqop = .app0Ret)
      (haddr : rqe.addr = .ltab l) (hrank : (s.rk r).mgr.mpiRank = 0)
      (hdd : draindown s' r ≠ .init)
      (hc : Change s s' r (releaseMgr { (s.rk r).mgr with draining := true } rqe false) s.gtab
        rest s.net (sent s r (bcasts job (s.rk r).mgr.mpiRank))) : StepCase job s s' none
  | shutdown (hidle : (s.rk 0).mgr.threadsRunning = 0) (hdrain : (s.rk 0).mgr.draining = false)
      (hdd : draindown s' 0 ≠ .init)
      (hc : Change s s' 0 { (s.rk 0).mgr with draining := true } s.gtab
        (s.rk 0).dtq.mgrreqq s.net (sent s 0 (bcasts job (s.rk 0).mgr.mpiRank))) :
      StepCase job s s' none

theorem put_change {s : Sys} {r : ℕ} {v : View} {posts : List Post} (net : List Packet)
    (hm : v.dtq.mallocs = []) (hp : v.dtq.accepted.map toPost = posts) :
    Change s ({ s with net := net }.put r v) r v.mgr v.gtab v.dtq.mgrreqq net posts where
  mgr := by simp [Sys.put]
  gtab := rfl
  mgrreqq := by simp [Sys.put, flush]
  others r' hr' := by simp [Sys.put, hr']
  net := by simp [Sys.put, ← hp]
  mallocs := by simpa [Sys.put, flush] using hm
  accepted := by simp [Sys.put, flush]

theorem draindown_put (s : Sys) (r : ℕ) (v : View) :
    draindown (s.put r v) r = v.dtq.mpisqDraindown := by
  simp [draindown, Sys.put, flush]

theorem effect_change {s : Sys} {r : ℕ} {v v' : View} {m : Mgr} {gt : ℕ → Gtab}
    {out : List Post} (net : List Packet) (he : Effect v v' m gt out)
    (hm : v.dtq.mallocs = []) (ha : v.dtq.accepted = [])
    (hd : v.dtq.mpisqDraindown = draindown s r) :
    Change s ({ s with net := net }.put r v') r m gt v.dtq.mgrreqq net (sent s r out) ∧
      draindown ({ s with net := net }.put r v') r = draindown s r := by
  obtain ⟨rfl, rfl, hq, hdd, hp, hm'⟩ := he
  rw [← hq]
  refine ⟨put_change net (hm' hm) ?_, ?_⟩
  · simpa [ha, sent, hd] using hp
  · rw [draindown_put, hdd, hd]

theorem shutdown_posted {job : Job} {s : Sys} {r : ℕ} {v v' : View} (hs : Shutdown job v v')
    (ha : v.dtq.accepted = []) (hd : v.dtq.mpisqDraindown = draindown s r) :
    v'.dtq.accepted.map toPost = sent s r (bcasts job v.mgr.mpiRank) := by
  simpa [ha, sent, hd, bcasts] using hs.posted

theorem shutdown_change {job : Job} {s : Sys} {r : ℕ} {v v' : View} (net : List Packet)
    (hs : Shutdown job v v') (hm : v.dtq.mallocs = []) (ha : v.dtq.accepted = [])
    (hd : v.dtq.mpisqDraindown = draindown s r) :
    Change s ({ s with net := net }.put r v') r { v.mgr with draining := true } v.gtab
        v.dtq.mgrreqq net (sent s r (bcasts job v.mgr.mpiRank)) ∧
      draindown ({ s with net := net }.put r v') r ≠ .init := by
  rw [← hs.mgr, ← hs.gtab, ← hs.mgrreqq]
  refine ⟨put_change net (hs.mallocs hm) (shutdown_posted hs ha hd), ?_⟩
  rw [draindown_put]
  exact hs.draindown

/-- The outcome of a request does not depend on the queues behind it. -/
theorem reqOutcome_setDtq {job : Job} {v : View} {q : Dtq} {rqe : Request} {m : Mgr}
    {gt : ℕ → Gtab} {out : List Post} (h : ReqOutcome job (v.setDtq q) rqe m gt out)
    (hd : q.mpisqDraindown = v.dtq.mpisqDraindown) : ReqOutcome job v rqe m gt out := by
  cases h with
  | bad h => exact .bad h
  | forward l mqe xidseq haddr hlt hbusy hop hmqe hxid hinit =>
    exact .forward l mqe xidseq haddr hlt hbusy hop hmqe hxid (hd.symm.trans hinit)
  | forwardDrain l xidseq haddr hlt hbusy hop hdrain =>
    exact .forwardDrain l xidseq haddr hlt hbusy hop (fun hc => hdrain (hd.trans hc))
  | retclean l haddr hlt hbusy hop => exact .retclean l haddr hlt hbusy hop
  | app0Other l haddr hop hrank => exact .app0Other l haddr hop hrank

theorem delivers_cases {job : Job} {s s' : Sys} {p : Packet} (hquiet : Quiet s)
    (h : Delivers job s p s') : StepCase job s s' (some p) := by
  obtain ⟨net, addr, err, v, hr, hd, h, rfl⟩ := h
  rcases processMqe_outcome job _ v _ err (hquiet p.dst).1 h with ⟨hb, hs⟩ | ⟨m, gt, out, ho, he⟩
  · obtain ⟨hc, hdd⟩ := shutdown_change net hs (hquiet p.dst).1 (hquiet p.dst).2 rfl
    exact .recvShutdown p net hr hd hb hdd hc
  · obtain ⟨hc, hdd⟩ := effect_change net he (hquiet p.dst).1 (hquiet p.dst).2 rfl
    exact .recv p net addr m gt out hr hd hdd ho hc

/-- The two outcomes of a request: the shutdown that APP0_RET starts at rank 0,
or what the handlers do. -/
theorem req_cases {job : Job} {s : Sys} {r : ℕ} {rqe : Request} {q : Dtq} {v : View}
    (hquiet : Quiet s) (hq : dtqReqDequeue (s.rk r).dtq = (some rqe, q))
    (h : processReq job ((s.view r).setDtq q) rqe = some v) :
    ∃ rest, (s.rk r).dtq.mgrreqq = rqe :: rest ∧
      ((∃ l, rqe.reqop = .app0Ret ∧ rqe.addr = .ltab l ∧ (s.rk r).mgr.mpiRank = 0 ∧
        draindown (s.put r v) r ≠ .init ∧
        Change s (s.put r v) r (releaseMgr { (s.rk r).mgr with draining := true } rqe false) s.gtab
          rest s.net (sent s r (bcasts job (s.rk r).mgr.mpiRank))) ∨
      ∃ m gt out, draindown (s.put r v) r = draindown s r ∧
        ReqOutcome job (s.view r) rqe m gt out ∧
        Change s (s.put r v) r m gt rest s.net (sent s r out)) := by
  obtain ⟨rest, hrest, rfl⟩ := reqDequeue_some hq
  refine ⟨rest, hrest, ?_⟩
  rcases processReq_outcome job _ v rqe (hquiet r).1 h with
    ⟨w, l, hop, haddr, hrank, hs, rfl⟩ | ⟨m, gt, out, ho, he⟩
  · have hv : dtqReqRelease w rqe false = w.setMgr (releaseMgr w.mgr rqe false) := by
      simp [dtqReqRelease, releaseMgr, releaseLtab, Mgr.setLtab, haddr]
    have hc : Change s (s.put r (w.setMgr (releaseMgr w.mgr rqe false))) r
        (releaseMgr w.mgr rqe false) w.gtab w.dtq.mgrreqq s.net
        (sent s r (bcasts job (s.rk r).mgr.mpiRank)) :=
      put_change s.net (hs.mallocs (hquiet r).1) (shutdown_posted hs (hquiet r).2 rfl)
    rw [hv]
    rw [hs.mgr, hs.gtab, hs.mgrreqq] at hc
    refine .inl ⟨l, hop, haddr, hrank, ?_, ?_⟩
    · rw [draindown_put]
      exact hs.draindown
    · rw [hs.mgr]
      exact hc
  · obtain ⟨hc, hdd⟩ := effect_change s.net he (hquiet r).1 (hquiet r).2 rfl
    exact .inr ⟨m, gt, out, hdd, reqOutcome_setDtq ho rfl, hc⟩

theorem local_cases {job : Job} {s s' : Sys} (hquiet : Quiet s) (h : Local job s s') :
    StepCase job s s' none := by
  cases h with
  | app r l v hr hl h =>
    obtain ⟨lt, gt, rq, ho, he⟩ := appStep_outcome job l (s.view r) v (hquiet r).1 h
    refine .app r l lt gt rq hr hl ?_ ho ?_
    · rw [draindown_put]
      exact he.draindown
    · have hc : Change s (s.put r v) r v.mgr v.gtab v.dtq.mgrreqq s.net [] :=
        put_change s.net he.mallocs (by simpa [Sys.view, (hquiet r).2] using he.accepted)
      rwa [he.mgr, he.gtab, he.mgrreqq] at hc
  | req r rqe q v hr hq h =>
    obtain ⟨rest, hrest, ⟨l, hop, haddr, hrank, hdd, hc⟩ | ⟨m, gt, out, hdd, ho, hc⟩⟩ :=
      req_cases hquiet hq h
    · exact .reqShutdown r l rqe rest hr hrest hop haddr hrank hdd hc
    · exact .req r rqe rest m gt out hr hrest hdd ho hc
  | shutdown hidle hdrain =>
    obtain ⟨hc, hdd⟩ := shutdown_change s.net (broadcastShutdown_spec job (s.view 0) (hquiet 0).1)
      (hquiet 0).1 (hquiet 0).2 rfl
    exact .shutdown hidle hdrain hdd hc

theorem step_iff {job : Job} {s s' : Sys} :
    Step job s s' ↔ (∃ p, Delivers job s p s') ∨ Local job s s' := by
  constructor
  · intro h
    cases h with
    | app r l v hr hl h => exact .inr (.app r l v hr hl h)
    | recv p net addr err v hr hd h => exact .inl ⟨p, net, addr, err, v, hr, hd, h, rfl⟩
    | req r rqe q v hr hq h => exact .inr (.req r rqe q v hr hq h)
    | shutdown hidle hd => exact .inr (.shutdown hidle hd)
  · rintro (⟨p, net, addr, err, v, hr, hd, h, rfl⟩ | h)
    · exact .recv p net addr err v hr hd h
    · cases h with
      | app r l v hr hl h => exact .app r l v hr hl h
      | req r rqe q v hr hq h => exact .req r rqe q v hr hq h
      | shutdown hidle hd => exact .shutdown hidle hd

theorem step_cases {job : Job} {s s' : Sys} (hquiet : Quiet s) (h : Step job s s') :
    ∃ o, StepCase job s s' o := by
  rcases step_iff.mp h with ⟨p, hp⟩ | hlocal
  · exact ⟨some p, delivers_cases hquiet hp⟩
  · exact ⟨none, local_cases hquiet hlocal⟩

theorem mqeOutcome_mpiRank {job : Job} {v : View} {mqe : Mqe} {m : Mgr} {gt : ℕ → Gtab}
    {out : List Post} (h : MqeOutcome job v mqe m gt out) : m.mpiRank = v.mgr.mpiRank := by
  cases h <;> rfl

theorem reqOutcome_mpiRank {job : Job} {v : View} {rqe : Request} {m : Mgr} {gt : ℕ → Gtab}
    {out : List Post} (h : ReqOutcome job v rqe m gt out) : m.mpiRank = v.mgr.mpiRank := by
  cases h <;> rfl

/-- What holds in every state without regard to the protocol. -/
structure Sane (s : Sys) : Prop where
  quiet : Quiet s
  rank : ∀ r, (s.rk r).mgr.mpiRank = r

namespace Change

variable {s s' : Sys} {r : ℕ} {m : Mgr} {gt : ℕ → Gtab} {rq : List Request}
  {net : List Packet} {posts : List Post}

theorem sane (hc : Change s s' r m gt rq net posts) (h : Sane s)
    (hm : m.mpiRank = (s.rk r).mgr.mpiRank) : Sane s' where
  quiet r' := by
    by_cases hr : r' = r
    · subst hr
      exact ⟨hc.mallocs, hc.accepted⟩
    · rw [hc.others r' hr]
      exact h.quiet r'
  rank r' := by
    by_cases hr : r' = r
    · subst hr
      rw [hc.mgr, hm, h.rank]
    · rw [hc.others r' hr]
      exact h.rank r'

end Change

theorem sane_init (job : Job) : Sane (sysInit job) where
  quiet r := by
    by_cases hr : r = 0
    · subst hr
      exact ⟨rfl, rfl⟩
    · simp [sysInit, hr, dtqInit]
  rank r := by
    by_cases hr : r = 0
    · subst hr
      rfl
    · simp [sysInit, hr, mgrInit]

theorem sane_step {job : Job} {s s' : Sys} (h : Sane s) (hs : Step job s s') : Sane s' := by
  obtain ⟨o, hcase⟩ := step_cases h.quiet hs
  cases hcase with
  | app r l lt gt rq hr hl hdd ho hc => exact hc.sane h rfl
  | recv p net addr m gt out hr hd hdd ho hc => exact hc.sane h (mqeOutcome_mpiRank ho)
  | recvShutdown p net hr hd hb hdd hc => exact hc.sane h rfl
  | req r rqe rest m gt out hr hq hdd ho hc => exact hc.sane h (reqOutcome_mpiRank ho)
  | reqShutdown r l rqe rest hr hq hop haddr hrank hdd hc => exact hc.sane h rfl
  | shutdown hidle hdrain hdd hc => exact hc.sane h rfl

theorem Reachable.sane {job : Job} {s : Sys} (h : Reachable job s) : Sane s := by
  induction h with
  | refl => exact sane_init job
  | tail _ hs ih => exact sane_step ih hs

/-- An invariant of the job: it holds at the start and every step keeps it. -/
theorem Reachable.invariant {job : Job} {I : Sys → Prop} {s : Sys} (h : Reachable job s)
    (hinit : I (sysInit job))
    (hstep : ∀ {o} s s', Reachable job s → I s → StepCase job s s' o → I s') : I s := by
  induction h with
  | refl => exact hinit
  | tail hr hs ih =>
    obtain ⟨o, hcase⟩ := step_cases (Reachable.sane hr).quiet hs
    exact hstep _ _ hr ih hcase

theorem sysInit_rpending (job : Job) (r : ℕ) : ((sysInit job).rk r).mgr.rpending = [] := by
  by_cases hr : r = 0
  · subst hr
    rfl
  · simp [sysInit, hr, mgrInit]

theorem sysInit_draindown (job : Job) (r : ℕ) : draindown (sysInit job) r = .init := by
  by_cases hr : r = 0
  · subst hr
    rfl
  · simp [draindown, sysInit, hr, dtqInit]

/-- The rank at which a step takes place. -/
theorem StepCase.rank {job : Job} {s s' : Sys} {o : Option Packet} (h : StepCase job s s' o) :
    ∃ r, r < job.wsize ∧ ∀ r', r' ≠ r → s'.rk r' = s.rk r' := by
  cases h with
  | app r l lt gt rq hr hl hdd ho hc => exact ⟨r, hr, hc.others⟩
  | recv p net addr m gt out hr hd hdd ho hc => exact ⟨p.dst, hr, hc.others⟩
  | recvShutdown p net hr hd hb hdd hc => exact ⟨p.dst, hr, hc.others⟩
  | req r rqe rest m gt out hr hq hdd ho hc => exact ⟨r, hr, hc.others⟩
  | reqShutdown r l rqe rest hr hq hop haddr hrank hdd hc => exact ⟨r, hr, hc.others⟩
  | shutdown hidle hdrain hdd hc => exact ⟨0, job.wsize_pos, hc.others⟩

theorem Reachable.outside {job : Job} {s : Sys} (h : Reachable job s) (r : ℕ)
    (hr : job.wsize ≤ r) : s.rk r = (sysInit job).rk r := by
  refine h.invariant (I := fun s => s.rk r = (sysInit job).rk r) rfl ?_
  intro o s s' _ ih hs
  obtain ⟨r', hr', hothers⟩ := hs.rank
  rw [hothers r (by omega), ih]

/-- A job of two ranks with one native thread function, for concrete runs. -/
def twoRanks : Job where
  wsize := 2
  nmaxthread := 4
  ndsps := 2
  dsps := fun _ => ⟨false, false⟩
  wsize_pos := by decide
  wsize_lt := by decide
  nmaxthread_pos := by decide
  nmaxthread_lt := by decide
  ndsps_pos := by decide

def createBody : Body := .create ⟨.joinable, 0, 0⟩ 1 .zero

/-- The main thread of `twoRanks` has posted a CREATE. -/
def createPosted : Sys :=
  (sysInit twoRanks).put 0 (postRequest ((sysInit twoRanks).view 0) 0 0 createBody)

theorem createPosted_reachable : Reachable twoRanks createPosted :=
  .tail .refl (.app 0 0 _ (by decide) (by decide) (.post createBody 0 rfl rfl rfl))

/-- Its manager has forwarded the CREATE. -/
def createForwarded : Sys :=
  createPosted.put 0 ((processReq twoRanks
    ((createPosted.view 0).setDtq { (createPosted.rk 0).dtq with mgrreqq := [] })
    (threadRequest 0 0 .create (some ⟨0, 0, .of 0 createBody⟩))).getD (createPosted.view 0))

theorem createForwarded_reachable : Reachable twoRanks createForwarded :=
  .tail createPosted_reachable (.req 0 _ _ _ (by decide) rfl rfl)

end Dthread.JobSystem
