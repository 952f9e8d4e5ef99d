import Dthread.SendDrain
import Dthread.ManagerWork
import Dthread.HandlerQueues

/-!
The managers with their main loops and their queues. A rank runs mgr_main: it
takes a message and a request out of the queues in one critical section and
handles them one after the other, while application threads add requests and
the MPI thread moves messages between the queues and the network. The job of
`JobSystem`, where a message goes straight to its channel and is handled from
there, shows every state of these loops: what it has on a channel is, in this
order, the message in hand, the receive queue of the destination, what MPI
carries and the send queue of the source.
-/
namespace Dthread.MainLoops

open ReqMsg Queuing ManagerTables ManagerHandlers ManagerEffects AppThreads JobSystem ManagerWork
open HandlerQueues
open SendDrain (leavesLoop)
open FifoNet

/-- Where mgr_main is in its loop, with what dtq_notifywait gave it. -/
inductive LoopPc where
  | top
  | drain
  | wait
  | mqe (mqe : Option Mqe) (req : Option Request)
  | req (req : Option Request)
  | left

namespace LoopPc

def heldMqe : LoopPc → Option Mqe
  | .mqe m _ => m
  | _ => none

def heldReq : LoopPc → Option Request
  | .mqe _ rqe => rqe
  | .req rqe => rqe
  | _ => none

end LoopPc

structure LoopNode where
  mgr : Mgr
  dtq : Dtq
  pc : LoopPc

structure LoopSys where
  rk : ℕ → LoopNode
  gtab : ℕ → Gtab
  /-- what MPI has taken from the first rank and not given to the second -/
  wire : ℕ → ℕ → List Frame

namespace LoopSys

def view (q : LoopSys) (r : ℕ) : View := ⟨(q.rk r).mgr, q.gtab, (q.rk r).dtq⟩

def put (q : LoopSys) (r : ℕ) (v : View) (pc : LoopPc) : LoopSys :=
  { q with rk := Function.update q.rk r ⟨v.mgr, v.dtq, pc⟩, gtab := v.gtab }

def setDtq (q : LoopSys) (r : ℕ) (dtq : Dtq) : LoopSys :=
  { q with rk := Function.update q.rk r { q.rk r with dtq := dtq } }

def setWire (q : LoopSys) (src dst : ℕ) (frames : List Frame) : LoopSys :=
  { q with wire := Function.update q.wire src (Function.update (q.wire src) dst frames) }

end LoopSys

def loopInit (job : Job) : LoopSys where
  rk r := ⟨((sysInit job).rk r).mgr, ((sysInit job).rk r).dtq, .top⟩
  gtab := (sysInit job).gtab
  wire _ _ := []

/-- The test at the top of the loop. -/
def shutdownTest (job : Job) (v : View) : View :=
  if v.mgr.mpiRank = 0 ∧ v.mgr.threadsRunning = 0 ∧ v.mgr.draining = false then
    broadcastShutdown job v
  else v

/-- The queues after dtq_notifywait, and what it returns. A wait that ends
without work gives neither a message nor a request. -/
def notifywait (q : Dtq) : Option Mqe × Option Request × Dtq :=
  let (mqe, q) := dtqRecvDequeue q
  let (req, q) := dtqReqDequeue q
  (mqe, req, q)

/-- One step of the library's own threads: of mgr_main, or of the MPI thread,
for which MPI_Isend, its completion and a receive are one step each. -/
inductive ServiceStep (job : Job) (q : LoopSys) : LoopSys → Prop
  | top (r : ℕ) (hr : r < job.wsize) (hpc : (q.rk r).pc = .top) :
      ServiceStep job q (q.put r (shutdownTest job (q.view r)) .drain)
  | drain (r : ℕ) (hr : r < job.wsize) (hpc : (q.rk r).pc = .drain) :
      ServiceStep job q (q.put r (q.view r)
        (if leavesLoop (q.rk r).mgr.draining (q.rk r).dtq then .left else .wait))
  | wait (r : ℕ) (mqe : Option Mqe) (req : Option Request) (dtq : Dtq) (hr : r < job.wsize)
      (hpc : (q.rk r).pc = .wait) (h : notifywait (q.rk r).dtq = (mqe, req, dtq)) :
      ServiceStep job q (q.put r ((q.view r).setDtq dtq) (.mqe mqe req))
  | noMqe (r : ℕ) (req : Option Request) (hr : r < job.wsize)
      (hpc : (q.rk r).pc = .mqe none req) : ServiceStep job q (q.put r (q.view r) (.req req))
  | mqe (r : ℕ) (mqe : Mqe) (req : Option Request) (err : ℕ) (v : View) (hr : r < job.wsize)
      (hpc : (q.rk r).pc = .mqe (some mqe) req)
      (h : processMqe job (q.view r) mqe err = some v) : ServiceStep job q (q.put r v (.req req))
  | noReq (r : ℕ) (hr : r < job.wsize) (hpc : (q.rk r).pc = .req none) :
      ServiceStep job q (q.put r (q.view r) .top)
  | req (r : ℕ) (req : Request) (v : View) (hr : r < job.wsize)
      (hpc : (q.rk r).pc = .req (some req)) (h : processReq job (q.view r) req = some v) :
      ServiceStep job q (q.put r v .top)
  | isend (r : ℕ) (mqe : Mqe) (dtq : Dtq) (hr : r < job.wsize)
      (h : dtqSendDequeue (q.rk r).dtq = (some mqe, dtq)) :
      ServiceStep job q ((q.setDtq r dtq).setWire r mqe.peer (q.wire r mqe.peer ++ [mqe.frame]))
  | sent (r addr : ℕ) (hr : r < job.wsize) (h : 0 < (q.rk r).dtq.mpindequeuedsends) :
      ServiceStep job q (q.setDtq r (dtqSendRelease (q.rk r).dtq addr).2)
  | recv (src r addr : ℕ) (frame : Frame) (rest : List Frame) (dtq : Dtq) (hr : r < job.wsize)
      (hwire : q.wire src r = frame :: rest) (h : dtqMqeAlloc (q.rk r).dtq = (some addr, dtq)) :
      ServiceStep job q
        ((q.setDtq r (dtqRecvEnqueue dtq ⟨addr, src, frame⟩)).setWire src r rest)

/-- One step of the job, of an application thread or of the library. -/
inductive LoopStep (job : Job) (q : LoopSys) : LoopSys → Prop
  | app (r l : ℕ) (v : View) (hr : r < job.wsize) (hl : l < job.nmaxthread)
      (h : AppStep job l (q.view r) v) : LoopStep job q (q.put r v (q.rk r).pc)
  | service {q' : LoopSys} (h : ServiceStep job q q') : LoopStep job q q'

def LoopReachable (job : Job) (q : LoopSys) : Prop :=
  Relation.ReflTransGen (LoopStep job) (loopInit job) q

/-- The messages of `posts` to or from rank `r`. -/
def ofPeer (r : ℕ) (posts : List Post) : List Frame := (posts.filter (·.1 = r)).map (·.2)

/-- What `JobSystem` has on a channel. -/
def netChannel (net : List Packet) (src dst : ℕ) : List Frame :=
  (net.filter (Packet.chan · = (src, dst))).map Packet.frame

namespace LoopSys

def sendq (q : LoopSys) (r : ℕ) : List Post := (q.rk r).dtq.mpisendq.map toPost

def recvq (q : LoopSys) (r : ℕ) : List Post := (q.rk r).dtq.mpirecvq.map toPost

def inbox (q : LoopSys) (r : ℕ) : List Post :=
  (q.rk r).pc.heldMqe.toList.map toPost ++ q.recvq r

/-- The messages from `src` to `dst` in the order they were sent. -/
def channel (q : LoopSys) (src dst : ℕ) : List Frame :=
  ofPeer src (q.inbox dst) ++ q.wire src dst ++ ofPeer dst (q.sendq src)

def before (q : LoopSys) (r : ℕ) : Before := ⟨r, q.sendq r, q.recvq r, (q.rk r).pc.heldReq.toList⟩

end LoopSys

/-- State `s` of the job shows the loops at `q`. -/
structure Shows (q : LoopSys) (s : Sys) : Prop where
  gtab : s.gtab = q.gtab
  mgr : ∀ r, (s.rk r).mgr = (q.rk r).mgr
  queues : ∀ r, Alike (q.before r) (q.rk r).dtq (s.rk r).dtq
  channels : ∀ src dst, netChannel s.net src dst = q.channel src dst
  -- a message of a rank to itself is never sent
  noLoop : ∀ r, q.wire r r = [] ∧ ofPeer r (q.sendq r) = []

variable {job : Job} {q q' : LoopSys} {s s' : Sys}

theorem ofPeer_append (r : ℕ) (a b : List Post) : ofPeer r (a ++ b) = ofPeer r a ++ ofPeer r b := by
  simp [ofPeer]

theorem ofPeer_filter_eq (r : ℕ) (posts : List Post) :
    ofPeer r (posts.filter (·.1 = r)) = ofPeer r posts := by
  simp [ofPeer]

theorem ofPeer_filter_ne {r r' : ℕ} (h : r' ≠ r) (posts : List Post) :
    ofPeer r' (posts.filter (·.1 ≠ r)) = ofPeer r' posts := by
  unfold ofPeer
  rw [List.filter_filter]
  congr 1
  apply List.filter_congr
  intro post _
  by_cases hpost : post.1 = r'
  · simp [hpost, h]
  · simp [hpost]

theorem ofPeer_filter_eq_nil {r r' : ℕ} (h : r' ≠ r) (posts : List Post) :
    ofPeer r' (posts.filter (·.1 = r)) = [] := by
  unfold ofPeer
  rw [List.filter_filter, List.map_eq_nil_iff, List.filter_eq_nil_iff]
  intro post _
  simp only [Bool.and_eq_true, decide_eq_true_eq]
  rintro ⟨h₁, h₂⟩
  exact h (h₁.symm.trans h₂)

theorem netChannel_append (net net' : List Packet) (src dst : ℕ) :
    netChannel (net ++ net') src dst = netChannel net src dst ++ netChannel net' src dst := by
  simp [netChannel]

theorem netChannel_pack (r : ℕ) (posts : List Post) (src dst : ℕ) :
    netChannel (posts.map (pack r)) src dst = if src = r then ofPeer dst posts else [] := by
  unfold netChannel ofPeer
  rw [List.filter_map, List.map_map]
  split
  · subst src
    congr 1
    apply List.filter_congr
    intro post _
    rw [Function.comp_apply, decide_eq_decide]
    simp [Packet.chan, pack]
  · rename_i hne
    rw [List.map_eq_nil_iff, List.filter_eq_nil_iff]
    intro post _
    simp [Packet.chan, pack, Ne.symm hne]

theorem ofPeer_filter_ne_self (r : ℕ) (posts : List Post) :
    ofPeer r (posts.filter (·.1 ≠ r)) = [] := by
  unfold ofPeer
  rw [List.filter_filter, List.map_eq_nil_iff, List.filter_eq_nil_iff]
  intro post _
  simp

theorem ofPeer_cons_self {r : ℕ} {post : Post} (h : post.1 = r) (posts : List Post) :
    ofPeer r (post :: posts) = post.2 :: ofPeer r posts := by
  simp [ofPeer, h]

theorem ofPeer_cons_of_ne {r : ℕ} {post : Post} (h : post.1 ≠ r) (posts : List Post) :
    ofPeer r (post :: posts) = ofPeer r posts := by
  simp [ofPeer, h]

theorem sendDequeue_some {dtq dtq' : Dtq} {mqe : Mqe}
    (h : dtqSendDequeue dtq = (some mqe, dtq')) : ∃ rest, dtq.mpisendq = mqe :: rest ∧
      dtq' = { dtq with mpisendq := rest, mpisqlen := dtq.mpisqlen - 1,
                        mpindequeuedsends := dtq.mpindequeuedsends + 1 } := by
  unfold dtqSendDequeue at h
  split at h
  · rename_i mqe' rest hcons
    obtain ⟨rfl, rfl⟩ : mqe' = mqe ∧ _ = dtq' := by simpa using h
    exact ⟨rest, hcons, rfl⟩
  · simp at h

theorem sendRelease_eq {dtq : Dtq} (addr : ℕ) (hout : 0 < dtq.mpindequeuedsends)
    (h : Counts dtq.mpisendq dtq.mpisqlen dtq.mpindequeuedsends dtq.mpisqDraindown) :
    ∃ free dd, (dtqSendRelease dtq addr).2 = { dtq with
        mqefree := free, mpindequeuedsends := dtq.mpindequeuedsends - 1, mpisqDraindown := dd } ∧
      (dd = .init ↔ dtq.mpisqDraindown = .init) ∧
      Counts dtq.mpisendq dtq.mpisqlen (dtq.mpindequeuedsends - 1) dd := by
  have hlen := h.len
  unfold dtqSendRelease
  simp only
  split
  · rename_i hjust
    obtain ⟨hdd, hzero, hnone⟩ : dtq.mpisqDraindown ≠ .init ∧ dtq.mpisqlen = 0 ∧
        dtq.mpindequeuedsends - 1 = 0 := by simpa using hjust
    refine ⟨_, .drained, rfl, iff_of_false (by simp) hdd, hlen, by omega,
      fun _ => ⟨?_, hnone⟩, by simp⟩
    exact List.eq_nil_of_length_eq_zero (by omega)
  · rename_i hjust
    refine ⟨_, _, rfl, Iff.rfl, hlen, by omega, ?_, ?_⟩
    · intro hdrained
      have := (h.drained hdrained).2
      omega
    · rintro hdraining ⟨hnil, hnone⟩
      refine hjust ⟨by simp [hdraining], ?_, hnone⟩
      rw [hlen, hnil]
      rfl

theorem recvDequeue_eq (dtq : Dtq) : ∃ recvs,
    (dtqRecvDequeue dtq).2 = { dtq with mpirecvq := recvs } ∧
      dtq.mpirecvq = (dtqRecvDequeue dtq).1.toList ++ recvs ∧
      ((dtqRecvDequeue dtq).1 = none → dtq.mpirecvq = []) := by
  unfold dtqRecvDequeue
  split
  · rename_i mqe rest hcons
    exact ⟨rest, rfl, hcons, by simp⟩
  · rename_i hnil
    exact ⟨dtq.mpirecvq, rfl, rfl, fun _ => hnil⟩

theorem reqDequeue_eq (dtq : Dtq) : ∃ reqs,
    (dtqReqDequeue dtq).2 = { dtq with mgrreqq := reqs } ∧
      dtq.mgrreqq = (dtqReqDequeue dtq).1.toList ++ reqs ∧
      ((dtqReqDequeue dtq).1 = none → dtq.mgrreqq = []) := by
  unfold dtqReqDequeue
  split
  · rename_i req rest hcons
    exact ⟨rest, rfl, hcons, by simp⟩
  · rename_i hnil
    exact ⟨dtq.mgrreqq, rfl, rfl, fun _ => hnil⟩

theorem notifywait_eq {dtq dtq' : Dtq} {mqe : Option Mqe} {req : Option Request}
    (h : notifywait dtq = (mqe, req, dtq')) :
    ∃ recvs reqs, dtq' = { dtq with mpirecvq := recvs, mgrreqq := reqs } ∧
      dtq.mpirecvq = mqe.toList ++ recvs ∧ dtq.mgrreqq = req.toList ++ reqs ∧
      (mqe = none → dtq.mpirecvq = []) ∧ (req = none → dtq.mgrreqq = []) := by
  obtain ⟨recvs, hdtq, hrecvs, hnone⟩ := recvDequeue_eq dtq
  obtain ⟨reqs, hdtq', hreqs, hnone'⟩ := reqDequeue_eq (dtqRecvDequeue dtq).2
  obtain ⟨rfl, hdeq⟩ : (dtqRecvDequeue dtq).1 = mqe ∧
      dtqReqDequeue (dtqRecvDequeue dtq).2 = (req, dtq') := by
    simpa [notifywait] using h
  rw [hdeq, hdtq] at hdtq' hreqs hnone'
  exact ⟨recvs, reqs, hdtq', hrecvs, hreqs, hnone, hnone'⟩

namespace LoopSys

theorem rk_put (q : LoopSys) (r : ℕ) (v : View) (pc : LoopPc) :
    (q.put r v pc).rk r = ⟨v.mgr, v.dtq, pc⟩ := by
  simp [put]

theorem rk_put_of_ne (q : LoopSys) {r r' : ℕ} (h : r' ≠ r) (v : View) (pc : LoopPc) :
    (q.put r v pc).rk r' = q.rk r' := by
  simp [put, h]

theorem sendq_put_of_ne (q : LoopSys) {r r' : ℕ} (h : r' ≠ r) (v : View) (pc : LoopPc) :
    (q.put r v pc).sendq r' = q.sendq r' := by
  rw [sendq, rk_put_of_ne q h, sendq]

theorem inbox_put_of_ne (q : LoopSys) {r r' : ℕ} (h : r' ≠ r) (v : View) (pc : LoopPc) :
    (q.put r v pc).inbox r' = q.inbox r' := by
  rw [inbox, recvq, rk_put_of_ne q h, inbox, recvq]

theorem before_put_of_ne (q : LoopSys) {r r' : ℕ} (h : r' ≠ r) (v : View) (pc : LoopPc) :
    (q.put r v pc).before r' = q.before r' := by
  rw [before, sendq, recvq, rk_put_of_ne q h, before, sendq, recvq]

theorem inbox_put (q : LoopSys) (r : ℕ) (v : View) (pc : LoopPc) :
    (q.put r v pc).inbox r = pc.heldMqe.toList.map toPost ++ v.dtq.mpirecvq.map toPost := by
  rw [inbox, recvq, rk_put]

theorem sendq_put (q : LoopSys) (r : ℕ) (v : View) (pc : LoopPc) :
    (q.put r v pc).sendq r = v.dtq.mpisendq.map toPost := by
  rw [sendq, rk_put]

/-- What a handler sends goes to the ends of the channels of its rank. -/
theorem channel_put (q : LoopSys) {r : ℕ} {v : View} {pc : LoopPc} {posts : List Post}
    (hwire : q.wire r r = []) (hself : ofPeer r (q.sendq r) = [])
    (hsends : v.dtq.mpisendq.map toPost = q.sendq r ++ posts.filter (·.1 ≠ r))
    (hrecvs : v.dtq.mpirecvq.map toPost = q.recvq r ++ posts.filter (·.1 = r)) (src dst : ℕ) :
    (q.put r v pc).channel src dst = (q.put r (q.view r) pc).channel src dst ++
      if src = r then ofPeer dst posts else [] := by
  have hinbox : (q.put r v pc).inbox r =
      (q.put r (q.view r) pc).inbox r ++ posts.filter (·.1 = r) := by
    rw [inbox_put, inbox_put, hrecvs, List.append_assoc]
    rfl
  have hsendq : (q.put r v pc).sendq r =
      (q.put r (q.view r) pc).sendq r ++ posts.filter (·.1 ≠ r) := by
    rw [sendq_put, sendq_put, hsends]
    rfl
  have hnone : ofPeer r ((q.put r (q.view r) pc).sendq r) = [] := by
    rw [sendq_put]
    exact hself
  unfold channel
  change _ ++ q.wire src dst ++ _ = _ ++ q.wire src dst ++ _ ++ _
  by_cases hsrc : src = r
  · subst hsrc
    rw [hsendq, ofPeer_append, if_pos rfl]
    by_cases hdst : dst = src
    · subst hdst
      rw [hinbox, ofPeer_append, ofPeer_filter_eq, ofPeer_filter_ne_self, hnone, hwire]
      simp
    · rw [inbox_put_of_ne q hdst, inbox_put_of_ne q hdst, ofPeer_filter_ne hdst]
      simp
  · rw [sendq_put_of_ne q hsrc, sendq_put_of_ne q hsrc, if_neg hsrc]
    by_cases hdst : dst = r
    · subst hdst
      rw [hinbox, ofPeer_append, ofPeer_filter_eq_nil hsrc]
      simp
    · rw [inbox_put_of_ne q hdst, inbox_put_of_ne q hdst, List.append_nil]

theorem sendq_setPc (q : LoopSys) (r : ℕ) (pc : LoopPc) (r' : ℕ) :
    (q.put r (q.view r) pc).sendq r' = q.sendq r' := by
  by_cases hr : r' = r
  · subst hr
    rw [sendq_put]
    rfl
  · rw [sendq_put_of_ne q hr]

theorem channel_setPc (q : LoopSys) {r : ℕ} {pc : LoopPc}
    (h : pc.heldMqe = (q.rk r).pc.heldMqe) (src dst : ℕ) :
    (q.put r (q.view r) pc).channel src dst = q.channel src dst := by
  have hinbox : (q.put r (q.view r) pc).inbox dst = q.inbox dst := by
    by_cases hr : dst = r
    · subst hr
      rw [inbox_put, h]
      rfl
    · rw [inbox_put_of_ne q hr]
  unfold channel
  rw [hinbox, sendq_setPc]
  rfl

theorem rk_setDtq (q : LoopSys) (r : ℕ) (dtq : Dtq) :
    (q.setDtq r dtq).rk r = { q.rk r with dtq := dtq } := by
  simp [setDtq]

theorem rk_setDtq_of_ne (q : LoopSys) {r r' : ℕ} (h : r' ≠ r) (dtq : Dtq) :
    (q.setDtq r dtq).rk r' = q.rk r' := by
  simp [setDtq, h]

theorem inbox_setDtq (q : LoopSys) {r : ℕ} (dtq : Dtq)
    (h : dtq.mpirecvq = (q.rk r).dtq.mpirecvq) (r' : ℕ) :
    (q.setDtq r dtq).inbox r' = q.inbox r' := by
  by_cases hr : r' = r
  · subst hr
    rw [inbox, recvq, rk_setDtq, h]
    rfl
  · rw [inbox, recvq, rk_setDtq_of_ne q hr, inbox, recvq]

theorem sendq_setDtq (q : LoopSys) {r : ℕ} (dtq : Dtq)
    (h : dtq.mpisendq = (q.rk r).dtq.mpisendq) (r' : ℕ) :
    (q.setDtq r dtq).sendq r' = q.sendq r' := by
  by_cases hr : r' = r
  · subst hr
    rw [sendq, rk_setDtq, h]
    rfl
  · rw [sendq, rk_setDtq_of_ne q hr, sendq]

theorem wire_setWire (q : LoopSys) (src dst : ℕ) (frames : List Frame) :
    (q.setWire src dst frames).wire src dst = frames := by
  simp [setWire]

theorem wire_setWire_of_ne (q : LoopSys) {src dst a b : ℕ} (frames : List Frame)
    (h : ¬ (a = src ∧ b = dst)) : (q.setWire src dst frames).wire a b = q.wire a b := by
  by_cases ha : a = src
  · subst ha
    have hb : b ≠ dst := fun hb => h ⟨rfl, hb⟩
    simp [setWire, hb]
  · simp [setWire, ha]

theorem put_self (q : LoopSys) (r : ℕ) : q.put r (q.view r) (q.rk r).pc = q := by
  simp [put, view]

end LoopSys

namespace Shows

theorem like (h : Shows q s) (hs : Sane s) (r : ℕ) :
    Like (q.before r) (q.view r) (s.view r) := by
  refine ⟨(s.rk r).dtq, ?_, h.queues r, ?_⟩
  · simp [Sys.view, LoopSys.view, View.setDtq, h.gtab, h.mgr]
  · change (q.rk r).mgr.mpiRank = r
    rw [← h.mgr, hs.rank]

/-- Rank `r` does in the loops what it does in the job, where the handler found
the channels as `net`. -/
theorem put (h : Shows q s) {r : ℕ} {v w : View} {pc : LoopPc} {net : List Packet}
    (hlike : Like ⟨r, q.sendq r, q.recvq r, pc.heldReq.toList⟩ v w)
    (hnet : ∀ src dst, netChannel net src dst = (q.put r (q.view r) pc).channel src dst) :
    Shows (q.put r v pc) ({ s with net := net }.put r w) := by
  have hq := hlike.alike
  refine ⟨hlike.gtab, ?_, ?_, ?_, ?_⟩
  · intro r'
    by_cases hr : r' = r
    · subst hr
      rw [LoopSys.rk_put]
      simpa [Sys.put] using hlike.mgr
    · rw [LoopSys.rk_put_of_ne q hr]
      simpa [Sys.put, hr] using h.mgr r'
  · intro r'
    by_cases hr : r' = r
    · subst hr
      have hrk : (({ s with net := net }.put r' w).rk r').dtq = flush w.dtq := by simp [Sys.put]
      rw [hrk, LoopSys.before, LoopSys.sendq, LoopSys.recvq, LoopSys.rk_put]
      exact ⟨hq.mgrreqq, hq.reqfree, hq.nreq, hq.drain, hq.mallocs, hq.mallocs',
        (List.append_nil _).symm, (List.append_nil _).symm, hq.counts⟩
    · rw [LoopSys.before_put_of_ne q hr, LoopSys.rk_put_of_ne q hr]
      simpa [Sys.put, hr] using h.queues r'
  · intro src dst
    rw [q.channel_put (h.noLoop r).1 (h.noLoop r).2 hq.sends hq.recvs]
    change netChannel (net ++ (w.dtq.accepted.map toPost).map (pack r)) src dst = _
    rw [netChannel_append, netChannel_pack, hnet]
  · intro r'
    refine ⟨(h.noLoop r').1, ?_⟩
    by_cases hr : r' = r
    · subst hr
      rw [LoopSys.sendq_put, hq.sends, ofPeer_append, (h.noLoop r').2, ofPeer_filter_ne_self,
        List.append_nil]
    · rw [LoopSys.sendq_put_of_ne q hr]
      exact (h.noLoop r').2

/-- A step of the loops that the job does not see: requests and messages are
moved, and none is lost or overtaken. -/
theorem stay (h : Shows q s) {r : ℕ} {dtq : Dtq} {pc : LoopPc} (hgtab : q'.gtab = q.gtab)
    (hnode : q'.rk r = ⟨(q.rk r).mgr, dtq, pc⟩) (hothers : ∀ r', r' ≠ r → q'.rk r' = q.rk r')
    (hreqs : pc.heldReq.toList ++ dtq.mgrreqq = (q.rk r).pc.heldReq.toList ++ (q.rk r).dtq.mgrreqq)
    (hfree : dtq.reqfree = (q.rk r).dtq.reqfree) (hn : dtq.nreq = (q.rk r).dtq.nreq)
    (hdrain : dtq.mpisqDraindown = .init ↔ (q.rk r).dtq.mpisqDraindown = .init)
    (hmallocs : dtq.mallocs = [])
    (hcounts : Counts dtq.mpisendq dtq.mpisqlen dtq.mpindequeuedsends dtq.mpisqDraindown)
    (hchannels : ∀ src dst, q'.channel src dst = q.channel src dst)
    (hloop : ∀ r', q'.wire r' r' = [] ∧ ofPeer r' (q'.sendq r') = []) : Shows q' s := by
  refine ⟨h.gtab.trans hgtab.symm, ?_, ?_, ?_, hloop⟩
  · intro r'
    by_cases hr : r' = r
    · subst hr
      rw [h.mgr, hnode]
    · rw [h.mgr, hothers r' hr]
  · intro r'
    by_cases hr : r' = r
    · subst hr
      have hold := h.queues r'
      have hsends : ((s.rk r').dtq.accepted.map toPost).filter (·.1 ≠ r') = [] :=
        List.self_eq_append_right.mp hold.sends
      have hrecvs : ((s.rk r').dtq.accepted.map toPost).filter (·.1 = r') = [] :=
        List.self_eq_append_right.mp hold.recvs
      rw [LoopSys.before, LoopSys.sendq, LoopSys.recvq, hnode]
      refine ⟨?_, hold.reqfree.trans hfree.symm, hold.nreq.trans hn.symm,
        hold.drain.trans hdrain.symm, hmallocs, hold.mallocs', ?_, ?_, hcounts⟩
      · rw [hold.mgrreqq, ← List.map_append, ← List.map_append]
        exact congrArg _ hreqs.symm
      · rw [hsends, List.append_nil]
      · rw [hrecvs, List.append_nil]
    · have hbefore : q'.before r' = q.before r' := by
        rw [LoopSys.before, LoopSys.sendq, LoopSys.recvq, hothers r' hr, LoopSys.before,
          LoopSys.sendq, LoopSys.recvq]
      rw [hbefore, hothers r' hr]
      exact h.queues r'
  · intro src dst
    rw [h.channels, hchannels]

/-- The same for a step of the manager. -/
theorem loop (h : Shows q s) {r : ℕ} (recvs : List Mqe) (reqs : List Request) {pc : LoopPc}
    (hmqes : pc.heldMqe.toList ++ recvs = (q.rk r).pc.heldMqe.toList ++ (q.rk r).dtq.mpirecvq)
    (hreqs : pc.heldReq.toList ++ reqs = (q.rk r).pc.heldReq.toList ++ (q.rk r).dtq.mgrreqq) :
    Shows (q.put r ((q.view r).setDtq { (q.rk r).dtq with mpirecvq := recvs, mgrreqq := reqs })
      pc) s := by
  generalize hv : (q.view r).setDtq { (q.rk r).dtq with mpirecvq := recvs, mgrreqq := reqs } = v
  have hsendq (r' : ℕ) : (q.put r v pc).sendq r' = q.sendq r' := by
    by_cases hr : r' = r
    · subst hr hv
      rw [LoopSys.sendq_put]
      rfl
    · rw [LoopSys.sendq_put_of_ne q hr]
  have hinbox (r' : ℕ) : (q.put r v pc).inbox r' = q.inbox r' := by
    by_cases hr : r' = r
    · subst hr hv
      rw [LoopSys.inbox_put, LoopSys.inbox, LoopSys.recvq, ← List.map_append, ← List.map_append]
      exact congrArg _ hmqes
    · rw [LoopSys.inbox_put_of_ne q hr]
  have hnode : (q.put r v pc).rk r =
      ⟨(q.rk r).mgr, { (q.rk r).dtq with mpirecvq := recvs, mgrreqq := reqs }, pc⟩ := by
    rw [q.rk_put r, ← hv]
    rfl
  have hgtab : (q.put r v pc).gtab = q.gtab := by
    rw [← hv]
    rfl
  refine h.stay hgtab hnode (fun r' hr => q.rk_put_of_ne hr _ _) hreqs rfl rfl Iff.rfl
    (h.queues r).mallocs (h.queues r).counts ?_ ?_
  · intro src dst
    unfold LoopSys.channel
    rw [hsendq, hinbox]
    rfl
  · intro r'
    rw [hsendq]
    exact h.noLoop r'

/-- The manager goes on in its loop with the same work in hand. -/
theorem setPc (h : Shows q s) {r : ℕ} {pc : LoopPc} (hmqe : pc.heldMqe = (q.rk r).pc.heldMqe)
    (hreq : pc.heldReq = (q.rk r).pc.heldReq) : Shows (q.put r (q.view r) pc) s := by
  refine h.loop (q.rk r).dtq.mpirecvq (q.rk r).dtq.mgrreqq ?_ ?_
  · rw [hmqe]
  · rw [hreq]

theorem wait (h : Shows q s) {r : ℕ} {mqe : Option Mqe} {req : Option Request} {dtq : Dtq}
    (hpc : (q.rk r).pc = .wait) (hw : notifywait (q.rk r).dtq = (mqe, req, dtq)) :
    Shows (q.put r ((q.view r).setDtq dtq) (.mqe mqe req)) s := by
  obtain ⟨recvs, reqs, rfl, hrecvs, hreqs, -⟩ := notifywait_eq hw
  apply h.loop
  · rw [hrecvs, hpc]
    rfl
  · rw [hreqs, hpc]
    rfl

/-- The same for a step of the MPI thread. -/
theorem mpi (h : Shows q s) {r src dst : ℕ} {dtq : Dtq} {frames : List Frame}
    (hreqs : dtq.mgrreqq = (q.rk r).dtq.mgrreqq)
    (hfree : dtq.reqfree = (q.rk r).dtq.reqfree) (hn : dtq.nreq = (q.rk r).dtq.nreq)
    (hdrain : dtq.mpisqDraindown = .init ↔ (q.rk r).dtq.mpisqDraindown = .init)
    (hmallocs : dtq.mallocs = [])
    (hcounts : Counts dtq.mpisendq dtq.mpisqlen dtq.mpindequeuedsends dtq.mpisqDraindown)
    (hchannels : ∀ a b, ((q.setDtq r dtq).setWire src dst frames).channel a b = q.channel a b)
    (hne : src ≠ dst) (hself : ofPeer r (dtq.mpisendq.map toPost) = []) :
    Shows ((q.setDtq r dtq).setWire src dst frames) s := by
  refine h.stay rfl (q.rk_setDtq r dtq) (fun r' hr => q.rk_setDtq_of_ne hr dtq)
    (congrArg _ hreqs) hfree hn hdrain hmallocs hcounts hchannels ?_
  intro r'
  refine ⟨?_, ?_⟩
  · rw [LoopSys.wire_setWire_of_ne]
    · exact (h.noLoop r').1
    · rintro ⟨rfl, rfl⟩
      exact hne rfl
  · by_cases hr : r' = r
    · subst hr
      change ofPeer r' ((q.setDtq r' dtq).sendq r') = []
      rwa [LoopSys.sendq, LoopSys.rk_setDtq]
    · change ofPeer r' ((q.setDtq r dtq).sendq r') = []
      rw [LoopSys.sendq, LoopSys.rk_setDtq_of_ne q hr]
      exact (h.noLoop r').2

theorem isend (h : Shows q s) {r : ℕ} {mqe : Mqe} {dtq : Dtq}
    (hd : dtqSendDequeue (q.rk r).dtq = (some mqe, dtq)) :
    Shows ((q.setDtq r dtq).setWire r mqe.peer (q.wire r mqe.peer ++ [mqe.frame])) s := by
  obtain ⟨rest, hcons, hdtq⟩ := sendDequeue_some hd
  have hpeer : (toPost mqe).1 = mqe.peer := rfl
  have hsendq : q.sendq r = toPost mqe :: rest.map toPost := by
    rw [LoopSys.sendq, hcons, List.map_cons]
  have hself := (h.noLoop r).2
  rw [hsendq] at hself
  have hne : r ≠ mqe.peer := by
    intro heq
    rw [ofPeer_cons_self (hpeer.trans heq.symm)] at hself
    simp at hself
  rw [ofPeer_cons_of_ne (hpeer ▸ Ne.symm hne)] at hself
  have hinbox := q.inbox_setDtq (r := r) dtq (by rw [hdtq])
  have hsendq' : (q.setDtq r dtq).sendq r = rest.map toPost := by
    rw [LoopSys.sendq, LoopSys.rk_setDtq, hdtq]
  subst hdtq
  have hcounts : Counts rest ((q.rk r).dtq.mpisqlen - 1) ((q.rk r).dtq.mpindequeuedsends + 1)
      (q.rk r).dtq.mpisqDraindown := by
    have hold := (h.queues r).counts
    rw [hcons] at hold
    have hout := hold.out
    refine ⟨?_, by omega, fun hdrained => absurd (hold.drained hdrained).1 (by simp), ?_⟩
    · simp [hold.len]
    · rintro - ⟨-, hnone⟩
      omega
  refine h.mpi rfl rfl rfl Iff.rfl (h.queues r).mallocs hcounts ?_ hne hself
  intro a b
  unfold LoopSys.channel
  change ofPeer a ((q.setDtq r _).inbox b) ++ _ ++ ofPeer b ((q.setDtq r _).sendq a) = _
  rw [hinbox]
  by_cases ha : a = r
  · subst ha
    rw [hsendq', hsendq]
    by_cases hb : b = mqe.peer
    · subst hb
      rw [LoopSys.wire_setWire, ofPeer_cons_self hpeer]
      simp [toPost]
    · rw [LoopSys.wire_setWire_of_ne _ _ (fun hab => hb hab.2),
        ofPeer_cons_of_ne (hpeer ▸ Ne.symm hb)]
      rfl
  · rw [LoopSys.wire_setWire_of_ne _ _ (fun hab => ha hab.1), LoopSys.sendq,
      LoopSys.rk_setDtq_of_ne q ha]
    rfl

theorem sent (h : Shows q s) {r : ℕ} (addr : ℕ) (hout : 0 < (q.rk r).dtq.mpindequeuedsends) :
    Shows (q.setDtq r (dtqSendRelease (q.rk r).dtq addr).2) s := by
  obtain ⟨free, dd, hdtq, hdd, hcounts⟩ := sendRelease_eq addr hout (h.queues r).counts
  have hinbox := q.inbox_setDtq (r := r) (dtqSendRelease (q.rk r).dtq addr).2 (by rw [hdtq])
  have hsendq := q.sendq_setDtq (r := r) (dtqSendRelease (q.rk r).dtq addr).2 (by rw [hdtq])
  rw [hdtq] at hinbox hsendq ⊢
  refine h.stay rfl (q.rk_setDtq r _) (fun r' hr => q.rk_setDtq_of_ne hr _) rfl rfl rfl hdd
    (h.queues r).mallocs hcounts ?_ ?_
  · intro a b
    unfold LoopSys.channel
    rw [hinbox, hsendq]
    rfl
  · intro r'
    rw [hsendq]
    exact h.noLoop r'

theorem recv (h : Shows q s) {src r addr : ℕ} {frame : Frame} {rest : List Frame} {dtq : Dtq}
    (hwire : q.wire src r = frame :: rest) (ha : dtqMqeAlloc (q.rk r).dtq = (some addr, dtq)) :
    Shows ((q.setDtq r (dtqRecvEnqueue dtq ⟨addr, src, frame⟩)).setWire src r rest) s := by
  have hne : src ≠ r := by
    rintro rfl
    rw [(h.noLoop src).1] at hwire
    cases hwire
  obtain ⟨free, n, ms, hdtq⟩ := mqeAlloc_queues (q.rk r).dtq
  obtain ⟨addr', dtq', ha', htraffic⟩ := mqeAlloc_eq_some (q.rk r).dtq (h.queues r).mallocs
  obtain ⟨rfl, rfl⟩ : addr = addr' ∧ dtq = dtq' := by simpa [ha] using ha'
  have hms := htraffic.mallocs (h.queues r).mallocs
  rw [ha] at hdtq
  simp only at hdtq
  subst hdtq
  generalize hnew : dtqRecvEnqueue { (q.rk r).dtq with mqefree := free, nmqe := n, mallocs := ms }
    ⟨addr, src, frame⟩ = new
  have hsendq := q.sendq_setDtq (r := r) new (by rw [← hnew]; rfl)
  have hinbox : (q.setDtq r new).inbox r = q.inbox r ++ [(src, frame)] := by
    rw [LoopSys.inbox, LoopSys.recvq, LoopSys.rk_setDtq, ← hnew]
    simp [dtqRecvEnqueue, LoopSys.inbox, LoopSys.recvq, toPost]
  have hchannels (a b : ℕ) :
      ((q.setDtq r new).setWire src r rest).channel a b = q.channel a b := by
    unfold LoopSys.channel
    change ofPeer a ((q.setDtq r new).inbox b) ++ _ ++ ofPeer b ((q.setDtq r new).sendq a) = _
    rw [hsendq]
    by_cases hb : b = r
    · subst hb
      rw [hinbox, ofPeer_append]
      by_cases ha : a = src
      · subst ha
        rw [LoopSys.wire_setWire, hwire]
        simp [ofPeer]
      · rw [LoopSys.wire_setWire_of_ne _ _ (fun hab => ha hab.1), ofPeer_cons_of_ne (Ne.symm ha)]
        simp [ofPeer, LoopSys.setDtq]
    · rw [LoopSys.wire_setWire_of_ne _ _ (fun hab => hb hab.2), LoopSys.inbox, LoopSys.recvq,
        LoopSys.rk_setDtq_of_ne q hb]
      rfl
  subst hnew
  exact h.mpi rfl rfl rfl Iff.rfl hms (h.queues r).counts hchannels hne (h.noLoop r).2

end Shows

theorem shows_init (job : Job) : Shows (loopInit job) (sysInit job) := by
  have hdtq (r : ℕ) : ((sysInit job).rk r).dtq = dtqInit := by
    by_cases hr : r = 0
    · subst hr
      rfl
    · simp [sysInit, hr]
  have hsendq (r : ℕ) : (loopInit job).sendq r = [] := by
    change ((sysInit job).rk r).dtq.mpisendq.map toPost = []
    rw [hdtq]
    rfl
  have hrecvq (r : ℕ) : (loopInit job).recvq r = [] := by
    change ((sysInit job).rk r).dtq.mpirecvq.map toPost = []
    rw [hdtq]
    rfl
  refine ⟨rfl, fun r => rfl, ?_, ?_, ?_⟩
  · intro r
    rw [LoopSys.before, hsendq, hrecvq]
    change Alike ⟨r, [], [], []⟩ ((sysInit job).rk r).dtq ((sysInit job).rk r).dtq
    rw [hdtq]
    exact ⟨rfl, rfl, rfl, Iff.rfl, rfl, rfl, rfl, rfl,
      ⟨rfl, le_refl 0, by simp [dtqInit], by simp [dtqInit]⟩⟩
  · intro src dst
    rw [LoopSys.channel, LoopSys.inbox, hsendq, hrecvq]
    rfl
  · intro r
    rw [hsendq]
    exact ⟨rfl, rfl⟩

/-- The message in hand is the first of its channel. -/
theorem exists_packet (h : Shows q s) {r : ℕ} {mqe : Mqe} {req : Option Request}
    (hpc : (q.rk r).pc = .mqe (some mqe) req) :
    ∃ net, Deliver Packet.chan s.net ⟨mqe.peer, r, mqe.frame⟩ net ∧
      ∀ src dst, netChannel net src dst = (q.put r (q.view r) (.req req)).channel src dst := by
  have hpeer : (toPost mqe).1 = mqe.peer := rfl
  have hinbox : q.inbox r = toPost mqe :: q.recvq r := by
    rw [LoopSys.inbox, hpc]
    rfl
  have hinbox' : (q.put r (q.view r) (.req req)).inbox r = q.recvq r := by
    rw [LoopSys.inbox_put]
    rfl
  have hsendq := q.sendq_setPc r (.req req)
  have hfirst := h.channels mqe.peer r
  rw [LoopSys.channel, hinbox, ofPeer_cons_self hpeer, List.append_assoc,
    List.cons_append] at hfirst
  obtain ⟨p, rest, hfilter, hframe, hrest⟩ := List.map_eq_cons_iff.mp hfirst
  obtain ⟨net, hd, hchan, hnet, hothers⟩ := Deliver.exists_of_filter hfilter
  obtain ⟨src, dst, frame⟩ := p
  obtain ⟨rfl, rfl⟩ : src = mqe.peer ∧ dst = r := by simpa [Packet.chan] using hchan
  obtain rfl : frame = mqe.frame := hframe
  refine ⟨net, hd, ?_⟩
  intro a b
  by_cases hab : (a, b) = (mqe.peer, dst)
  · obtain ⟨rfl, rfl⟩ : a = mqe.peer ∧ b = dst := by simpa using hab
    rw [netChannel, hnet, hrest, LoopSys.channel, hinbox', hsendq, List.append_assoc]
    rfl
  · have hsame : netChannel net a b = netChannel s.net a b := congrArg _ (hothers (a, b) hab)
    rw [hsame, h.channels, LoopSys.channel, LoopSys.channel, hsendq]
    by_cases hb : b = dst
    · subst hb
      have ha : (toPost mqe).1 ≠ a := by
        rintro rfl
        exact hab rfl
      rw [hinbox, hinbox', ofPeer_cons_of_ne ha]
      rfl
    · rw [LoopSys.inbox_put_of_ne q hb]
      rfl

theorem before_eq {r : ℕ} {pc : LoopPc} (hpc : (q.rk r).pc = pc) :
    q.before r = ⟨r, q.sendq r, q.recvq r, pc.heldReq.toList⟩ := by
  rw [LoopSys.before, hpc]

theorem shutdown_step (h : Shows q s) (hs : Reachable job s) {r : ℕ} (hpc : (q.rk r).pc = .top)
    (hrank : (q.view r).mgr.mpiRank = 0) (hidle : (q.view r).mgr.threadsRunning = 0)
    (hdraining : (q.view r).mgr.draining = false) :
    ∃ s', MgrStep job s s' ∧ Shows (q.put r (broadcastShutdown job (q.view r)) .drain) s' := by
  have hlike := h.like hs.sane r
  obtain rfl : r = 0 := hlike.rank_eq.symm.trans hrank
  rw [before_eq hpc] at hlike
  refine ⟨_, .shutdown ?_ ?_, h.put hlike.broadcastShutdown ?_⟩
  · rw [h.mgr]
    exact hidle
  · rw [h.mgr]
    exact hdraining
  · intro src dst
    rw [h.channels, q.channel_setPc]
    rw [hpc]
    rfl

/-- The message in hand is handled as it is in the job. -/
theorem mqe_like (h : Shows q s) (hs : Reachable job s) {r : ℕ} {mqe : Mqe} {req : Option Request}
    (hpc : (q.rk r).pc = .mqe (some mqe) req) (err : ℕ) :
    LikeOpt ⟨r, q.sendq r, q.recvq r, req.toList⟩ (processMqe job (q.view r) mqe err)
      (processMqe job (s.view r) mqe err) := by
  have hlike := h.like hs.sane r
  rw [before_eq hpc] at hlike
  exact processMqe_like hlike mqe mqe.addr err

/-- The request in hand is the first one of the job, and handled as it is there. -/
theorem req_like (h : Shows q s) (hs : Reachable job s) {r : ℕ} {req : Request}
    (hpc : (q.rk r).pc = .req (some req)) :
    ∃ req' rest, (s.rk r).dtq.mgrreqq = req' :: rest ∧
      LikeOpt ⟨r, q.sendq r, q.recvq r, []⟩ (processReq job (q.view r) req)
        (processReq job ((s.view r).setDtq { (s.rk r).dtq with mgrreqq := rest }) req') := by
  have hq := h.queues r
  rw [before_eq hpc] at hq
  obtain ⟨req', rest, hcons, hplain, hrest⟩ := List.map_eq_cons_iff.mp hq.mgrreqq
  obtain ⟨dtq, hview, -, hrank⟩ := h.like hs.sane r
  have hlike : Like ⟨r, q.sendq r, q.recvq r, []⟩ (q.view r)
      ((s.view r).setDtq { (s.rk r).dtq with mgrreqq := rest }) := by
    refine ⟨{ (s.rk r).dtq with mgrreqq := rest }, ?_, ?_, hrank⟩
    · rw [hview]
      rfl
    · exact ⟨hrest, hq.reqfree, hq.nreq, hq.drain, hq.mallocs, hq.mallocs', hq.sends, hq.recvs,
        hq.counts⟩
  exact ⟨req', rest, hcons, processReq_like hlike hplain⟩

theorem mqe_step (h : Shows q s) (hs : Reachable job s) {r err : ℕ} {mqe : Mqe}
    {req : Option Request} {v : View} (hr : r < job.wsize)
    (hpc : (q.rk r).pc = .mqe (some mqe) req) (hv : processMqe job (q.view r) mqe err = some v) :
    ∃ s', MgrStep job s s' ∧ Shows (q.put r v (.req req)) s' := by
  obtain ⟨net, hd, hnet⟩ := exists_packet h hpc
  have hopt := mqe_like h hs hpc err
  rw [hv] at hopt
  obtain ⟨w, hw, hlike⟩ := hopt.exists_some
  exact ⟨_, .recv _ ⟨net, mqe.addr, err, w, hr, hd, hw, rfl⟩, h.put hlike hnet⟩

theorem req_step (h : Shows q s) (hs : Reachable job s) {r : ℕ} {req : Request} {v : View}
    (hr : r < job.wsize) (hpc : (q.rk r).pc = .req (some req))
    (hv : processReq job (q.view r) req = some v) :
    ∃ s', MgrStep job s s' ∧ Shows (q.put r v .top) s' := by
  obtain ⟨req', rest, hcons, hopt⟩ := req_like h hs hpc
  rw [hv] at hopt
  obtain ⟨w, hw, hlike⟩ := hopt.exists_some
  have hdeq : dtqReqDequeue (s.rk r).dtq = (some req', { (s.rk r).dtq with mgrreqq := rest }) := by
    simp [dtqReqDequeue, hcons]
  refine ⟨_, .req r req' _ w hr hdeq hw, h.put hlike ?_⟩
  intro src dst
  rw [h.channels, q.channel_setPc]
  rw [hpc]
  rfl

theorem app_step (h : Shows q s) (hs : Reachable job s) {r l : ℕ} {v : View} (hr : r < job.wsize)
    (hl : l < job.nmaxthread) (ha : AppStep job l (q.view r) v) :
    ∃ s', Step job s s' ∧ Shows (q.put r v (q.rk r).pc) s' := by
  obtain ⟨w, hw, hlike⟩ := appStep_like (h.like hs.sane r) ha
  refine ⟨_, .app r l w hr hl hw, h.put hlike ?_⟩
  intro src dst
  rw [q.put_self, h.channels]

/-- A step of the library is a step of a manager, or nothing the job can see. -/
theorem service_step (h : Shows q s) (hs : Reachable job s) (hq : ServiceStep job q q') :
    ∃ s', (s' = s ∨ MgrStep job s s') ∧ Shows q' s' := by
  cases hq with
  | top r hr hpc =>
    unfold shutdownTest
    split
    · rename_i htest
      obtain ⟨s', hstep, hshows⟩ := shutdown_step h hs hpc htest.1 htest.2.1 htest.2.2
      exact ⟨s', .inr hstep, hshows⟩
    · exact ⟨s, .inl rfl, h.setPc (by rw [hpc]; rfl) (by rw [hpc]; rfl)⟩
  | drain r hr hpc =>
    refine ⟨s, .inl rfl, h.setPc ?_ ?_⟩
    · rw [hpc]
      split <;> rfl
    · rw [hpc]
      split <;> rfl
  | wait r mqe req dtq hr hpc hw => exact ⟨s, .inl rfl, h.wait hpc hw⟩
  | noMqe r req hr hpc => exact ⟨s, .inl rfl, h.setPc (by rw [hpc]; rfl) (by rw [hpc]; rfl)⟩
  | mqe r mqe req err v hr hpc hv =>
    obtain ⟨s', hstep, hshows⟩ := mqe_step h hs hr hpc hv
    exact ⟨s', .inr hstep, hshows⟩
  | noReq r hr hpc => exact ⟨s, .inl rfl, h.setPc (by rw [hpc]; rfl) (by rw [hpc]; rfl)⟩
  | req r req v hr hpc hv =>
    obtain ⟨s', hstep, hshows⟩ := req_step h hs hr hpc hv
    exact ⟨s', .inr hstep, hshows⟩
  | isend r mqe dtq hr hd => exact ⟨s, .inl rfl, h.isend hd⟩
  | sent r addr hr hout => exact ⟨s, .inl rfl, h.sent addr hout⟩
  | recv src r addr frame rest dtq hr hwire ha => exact ⟨s, .inl rfl, h.recv hwire ha⟩

theorem shows_step (h : Shows q s) (hs : Reachable job s) (hq : LoopStep job q q') :
    ∃ s', (s' = s ∨ Step job s s') ∧ Shows q' s' := by
  cases hq with
  | app r l v hr hl ha =>
    obtain ⟨s', hstep, hshows⟩ := app_step h hs hr hl ha
    exact ⟨s', .inr hstep, hshows⟩
  | service hq =>
    obtain ⟨s', hstep, hshows⟩ := service_step h hs hq
    exact ⟨s', hstep.imp_right MgrStep.step, hshows⟩

/-- Every state of the loops is one that a run of the job reaches. -/
theorem exists_shows (h : LoopReachable job q) : ∃ s, Reachable job s ∧ Shows q s := by
  induction h with
  | refl => exact ⟨sysInit job, .refl, shows_init job⟩
  | tail _ hstep ih =>
    obtain ⟨s, hs, hshows⟩ := ih
    obtain ⟨s', rfl | hjob, hshows'⟩ := shows_step hshows hs hstep
    · exact ⟨s', hs, hshows'⟩
    · exact ⟨s', hs.tail hjob, hshows'⟩

/-- The main loops refine the job: a run of the job reaches a state that shows
the loops, and whatever they do next is a step of the job or nothing to it. -/
theorem loops_refine_job (h : LoopReachable job q) : ∃ s, Reachable job s ∧ Shows q s ∧
    ∀ q', LoopStep job q q' → ∃ s', (s' = s ∨ Step job s s') ∧ Shows q' s' := by
  obtain ⟨s, hs, hshows⟩ := exists_shows h
  exact ⟨s, hs, hshows, fun q' hstep => shows_step hshows hs hstep⟩

/-- The main thread of `twoRanks` posts a CREATE, and its manager goes through
the tests of its loop and takes the request out of the queue. -/
theorem loops_refine_job_created : ∃ q req s, (q.rk 0).pc = .mqe none (some req) ∧
    req.reqop = .create ∧ Reachable twoRanks s ∧ Shows q s := by
  have hpost : LoopReachable twoRanks ((loopInit twoRanks).put 0
      (postRequest ((loopInit twoRanks).view 0) 0 0 createBody) .top) :=
    .tail .refl (.app 0 0 _ (by decide) (by decide) (.post createBody 0 rfl rfl rfl))
  have htop := hpost.tail (.service (.top 0 (by decide) rfl))
  have hdrain := htop.tail (.service (.drain 0 (by decide) rfl))
  have hwait := hdrain.tail (.service (.wait 0 _ _ _ (by decide) rfl rfl))
  obtain ⟨s, hs, hshows, -⟩ := loops_refine_job hwait
  exact ⟨_, threadRequest 0 0 .create (some ⟨0, 0, .of 0 createBody⟩), s, rfl, rfl, hs, hshows⟩

end Dthread.MainLoops
