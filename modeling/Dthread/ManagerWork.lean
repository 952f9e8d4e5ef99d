import Dthread.HandlersReturn
import Dthread.RequestLists
import Dthread.Quiescence

/-!
Left to themselves the managers come to rest. Every message and every queued
request has a weight, a JOIN that rank 0 keeps has one, and a rank that has not
started to drain keeps some in reserve for the broadcast; every step of a
manager takes the sum down. At rest nothing is under way, and if no shutdown has
begun the only calls that wait are joins.
-/
namespace Dthread.ManagerWork

open ReqMsg Queuing ManagerTables ManagerHandlers ManagerEffects ManagerOutcomes AppThreads
open FifoNet JobSystem RequestReply LocalSlots RequestLists HandlersReturn Quiescence

/-- One step of a manager; the application threads stand still. -/
inductive MgrStep (job : Job) (s : Sys) : Sys → Prop
  | recv (p : Packet) {s' : Sys} (h : Delivers job s p s') : MgrStep job s s'
  | req (r : ℕ) (rqe : Request) (q : Dtq) (v : View) (hr : r < job.wsize)
      (hq : dtqReqDequeue (s.rk r).dtq = (some rqe, q))
      (h : processReq job ((s.view r).setDtq q) rqe = some v) : MgrStep job s (s.put r v)
  | shutdown (hidle : (s.rk 0).mgr.threadsRunning = 0) (hd : (s.rk 0).mgr.draining = false) :
      MgrStep job s (s.put 0 (broadcastShutdown job (s.view 0)))

theorem MgrStep.step {job : Job} {s s' : Sys} (h : MgrStep job s s') : Step job s s' := by
  cases h with
  | recv p h => exact step_iff.mpr (.inl ⟨p, h⟩)
  | req r rqe q v hr hq h => exact .req r rqe q v hr hq h
  | shutdown hidle hd => exact .shutdown hidle hd

theorem MgrStep.reachable {job : Job} {s s' : Sys} (hs : Reachable job s) (h : MgrStep job s s') :
    Reachable job s' :=
  hs.tail h.step

/-- What is left to do about a message: itself and those that follow from it. -/
def bodyWork : Body → ℕ
  | .create .. => 4
  | .start .. => 3
  | .started .. => 2
  | .join .. => 3
  | .detach .. => 2
  | .cancel .. => 2
  | _ => 1

def reqWork (rqe : Request) : ℕ :=
  match rqe.reqop with
  | .create => 5
  | .join => 4
  | .detach => 3
  | .cancel => 3
  | .retclean => 2
  | _ => 1

def waitWork (rqe : Request) : ℕ := if rqe.reqop = .joinwait then 2 else 0

def postsWork (posts : List Post) : ℕ := (posts.map fun post => bodyWork post.2.body).sum

def queueWork (queue : List Request) : ℕ := (queue.map reqWork).sum

def pendingWork (rpending : List Request) : ℕ := (rpending.map waitWork).sum

def netWork (net : List Packet) : ℕ := (net.map fun p => bodyWork p.frame.body).sum

/-- What a rank will send on when it is told to shut down. -/
def reserve (d : DrainState) : ℕ := if d = .init then 3 else 0

def nodeWork (n : Node) : ℕ :=
  queueWork n.dtq.mgrreqq + pendingWork n.mgr.rpending + reserve n.dtq.mpisqDraindown

def work (job : Job) (s : Sys) : ℕ :=
  netWork s.net + ∑ r ∈ Finset.range job.wsize, nodeWork (s.rk r)

theorem nodeWork_rk (s : Sys) (r : ℕ) : nodeWork (s.rk r) =
    queueWork (s.rk r).dtq.mgrreqq + pendingWork (s.rk r).mgr.rpending + reserve (draindown s r) :=
  rfl

theorem bodyWork_pos (body : Body) : 0 < bodyWork body := by
  cases body <;> simp [bodyWork]

theorem reqWork_pos (rqe : Request) : 0 < reqWork rqe := by
  unfold reqWork
  split <;> omega

/-- A call costs one more than the message it has sent. -/
theorem reqWork_forwarded {rqe : Request} {body : Body} (hop : forwarded rqe.reqop = true)
    (hb : body.op = rqe.reqop) : reqWork rqe = bodyWork body + 1 := by
  cases body <;> simp [Body.op] at hb <;> rw [← hb] at hop <;> simp [forwarded] at hop <;>
    simp [reqWork, bodyWork, ← hb]

theorem pendingWork_append (l : List Request) (rqe : Request) :
    pendingWork (l ++ [rqe]) = pendingWork l + waitWork rqe := by
  simp [pendingWork]

/-- Taking a request off the pending list. -/
theorem pendingWork_find {l : List Request} {f : Request → Bool} {rqe : Request}
    (h : l.find? f = some rqe) : pendingWork l = waitWork rqe + pendingWork (l.eraseP f) := by
  unfold pendingWork
  rw [((perm_eraseP_of_find h).map waitWork).sum_eq]
  simp

theorem pendingWork_eraseP_le (l : List Request) (f : Request → Bool) :
    pendingWork (l.eraseP f) ≤ pendingWork l := by
  cases h : l.find? f with
  | none => rw [List.eraseP_of_forall_not (List.find?_eq_none.mp h)]
  | some rqe =>
    rw [pendingWork_find h]
    omega

theorem netWork_append (net net' : List Packet) :
    netWork (net ++ net') = netWork net + netWork net' := by
  simp [netWork]

theorem netWork_pack (r : ℕ) (posts : List Post) :
    netWork (posts.map (pack r)) = postsWork posts := by
  simp [netWork, postsWork, pack, Function.comp_def]

theorem netWork_deliver {net net' : List Packet} {p : Packet}
    (h : Deliver Packet.chan net p net') : netWork net = netWork net' + bodyWork p.frame.body := by
  obtain ⟨a, b, rfl, rfl, -⟩ := h
  simp only [netWork_append]
  simp only [netWork, List.map_cons, List.sum_cons]
  omega

theorem postsWork_sent_le (s : Sys) (r : ℕ) (out : List Post) :
    postsWork (sent s r out) ≤ postsWork out := by
  unfold sent
  split
  · exact le_rfl
  · simp [postsWork]

section Outcomes

variable {job : Job} {v : View} {m : Mgr} {gt : ℕ → Gtab} {out : List Post}

/-- Whatever a message leads to weighs less than the message. -/
theorem mqeOutcome_work {mqe : Mqe} (h : MqeOutcome job v mqe m gt out) :
    postsWork out + pendingWork m.rpending <
      bodyWork mqe.frame.body + pendingWork v.mgr.rpending := by
  have hwaiter {thread : DThread} {rqe : Request} (hw : joinwaitSearch v thread = some rqe) :
      pendingWork v.mgr.rpending =
        2 + pendingWork (v.mgr.rpending.eraseP (joinwaitMatch thread)) := by
    rw [pendingWork_find hw, waitWork, if_pos (joinwaitSearch_spec hw).1]
  cases h with
  | drop h =>
    have hpos := bodyWork_pos mqe.frame.body
    simp only [postsWork, List.map_nil, List.sum_nil]
    omega
  | createOk attrs dispIdx arg n gidx xidseq hb hdisp hroom hfree hlt hxid hd =>
    rw [hb, pendingWork_append]
    simp [postsWork, bodyWork, waitWork, startRequest, Frame.of]
  | detachWait thread rqe hb h hw =>
    rw [hb, hwaiter hw]
    simp only [postsWork, bodyWork, joinedPost, Frame.of, releaseMgr, dropWaiter, List.map_cons,
      List.map_nil, List.sum_cons, List.sum_nil]
    omega
  | joinWait thread n hb h hdet hz hw =>
    rw [hb, pendingWork_append]
    simp only [postsWork, bodyWork, waitWork, joinwaitRequest, List.map_nil, List.sum_nil, if_true]
    omega
  | terminatedJoined thread fin rqe hb hlen hlt hseq hfin hdet hw =>
    rw [hb, hwaiter hw]
    simp only [postsWork, bodyWork, joinedPost, Frame.of, freeMgr, releaseMgr, dropWaiter,
      List.map_cons, List.map_nil, List.sum_cons, List.sum_nil]
    omega
  | terminatedDetachedJoined thread fin rqe hb hlen hlt hseq hfin hdet hw =>
    rw [hb, hwaiter hw]
    simp only [postsWork, bodyWork, joinedPost, Frame.of, freeMgr, cleanupMgr, releaseMgr,
      dropWaiter, List.map_cons, List.map_nil, List.sum_cons, List.sum_nil]
    omega
  | startedOk rqe hb h =>
    have hle := pendingWork_eraseP_le v.mgr.rpending (pendingMatch .start mqe.frame.xidseq)
    rw [hb]
    simp only [postsWork, bodyWork, Frame.of, releaseMgr, dropPending, List.map_cons,
      List.map_nil, List.sum_cons, List.sum_nil]
    omega
  | startedErr rqe e hb he h =>
    have hle := pendingWork_eraseP_le v.mgr.rpending (pendingMatch .start mqe.frame.xidseq)
    rw [hb]
    simp only [postsWork, bodyWork, Frame.of, releaseMgr, freeMgr, dropPending, List.map_cons,
      List.map_nil, List.sum_cons, List.sum_nil]
    omega
  | reply op rqe rqe' hop h haddr =>
    have hpos := bodyWork_pos mqe.frame.body
    have hle := pendingWork_eraseP_le v.mgr.rpending (pendingMatch op mqe.frame.xidseq)
    simp only [postsWork, releaseMgr, dropPending, List.map_nil, List.sum_nil]
    omega
  | createErr attrs dispIdx arg e next hb he hnext =>
    simp [hb, postsWork, bodyWork, Frame.of]
  | createDrain attrs dispIdx arg gidx xidseq hb hfree hlt hd =>
    simp [hb, postsWork, bodyWork, Frame.of, createMgr]
  | startInvalid thread attrs hb h => simp [hb, postsWork, bodyWork, Frame.of]
  | startOk thread attrs l hb h hfree hlt =>
    simp [hb, postsWork, bodyWork, Frame.of, startedMgr, Mgr.setLtab]
  | startFail thread attrs l e hb h hfree hlt he =>
    simp [hb, postsWork, bodyWork, Frame.of, unstartedMgr, Mgr.setLtab]
  | detachNone thread hb h => simp [hb, postsWork, bodyWork, Frame.of]
  | detachPlain thread hb h hw => simp [hb, postsWork, bodyWork, Frame.of]
  | cancelErr thread e hb he h => simp [hb, postsWork, bodyWork, Frame.of]
  | cancelMiss thread hb h => simp [hb, postsWork, bodyWork, Frame.of]
  | cancelHit thread l hb h hl hhas hlt hseq =>
    simp [hb, postsWork, bodyWork, Frame.of, Mgr.setLtab]
  | joinErr thread e hb h => simp [hb, postsWork, bodyWork, Frame.of]
  | joinZombie thread hb h hdet hz => simp [hb, postsWork, bodyWork, Frame.of, freeMgr]
  | terminatedZombie thread fin hb hlen hlt hseq hfin hdet hw => simp [hb, postsWork, bodyWork]
  | terminatedDetached thread fin hb hlen hlt hseq hfin hdet hw =>
    simp [hb, postsWork, bodyWork, freeMgr, cleanupMgr]

theorem reqOutcome_work {rqe : Request} (h : ReqOutcome job v rqe m gt out)
    (hrqe : ∀ mqe, rqe.mqe = some mqe → mqe.frame.body.op = rqe.reqop) :
    postsWork out + pendingWork m.rpending < reqWork rqe + pendingWork v.mgr.rpending := by
  have hpos := reqWork_pos rqe
  cases h with
  | forward l mqe xidseq haddr hlt hbusy hop hmqe hxid hd =>
    have hwait : waitWork { rqe with mqe := none, xidseq := xidseq } = 0 := by
      refine if_neg fun hwait => ?_
      have hwait' : rqe.reqop = .joinwait := hwait
      rw [hwait'] at hop
      exact Bool.noConfusion hop
    simp only [pendingWork_append, hwait, reqWork_forwarded hop (hrqe mqe hmqe), postsWork,
      List.map_cons, List.map_nil, List.sum_cons, List.sum_nil]
    omega
  | retclean l haddr hlt hbusy hop =>
    simp [postsWork, bodyWork, reqWork, hop, releaseMgr, freeLtabMgr, Frame.of]
  | bad h => simpa [postsWork, releaseMgr] using hpos
  | forwardDrain l xidseq haddr hlt hbusy hop hd => simpa [postsWork, releaseMgr] using hpos
  | app0Other l haddr hop hrank => simpa [postsWork, releaseMgr] using hpos

theorem postsWork_bcasts (job : Job) (r : ℕ) : postsWork (bcasts job r) ≤ 2 := by
  have hlen : (binaryRouter 0 job.wsize r).length ≤ 2 := by
    rw [BroadcastTree.binaryRouter_eq job.wsize_pos]
    split
    · simp
    · split <;> simp
  have hwork : postsWork (bcasts job r) = (binaryRouter 0 job.wsize r).length := by
    simp [postsWork, bcasts, bodyWork, Frame.of, Function.comp_def]
  omega

/-- The broadcast is paid for by the reserve. -/
theorem sent_bcasts_work (job : Job) (s : Sys) {s' : Sys} {r : ℕ} (k : ℕ)
    (hdd : draindown s' r ≠ .init) :
    postsWork (sent s r (bcasts job k)) + reserve (draindown s' r) ≤ reserve (draindown s r) ∧
      (draindown s r = .init →
        postsWork (sent s r (bcasts job k)) + reserve (draindown s' r) <
          reserve (draindown s r)) := by
  have hle := postsWork_bcasts job k
  have hzero : reserve (draindown s' r) = 0 := if_neg hdd
  by_cases hinit : draindown s r = .init
  · have hthree : reserve (draindown s r) = 3 := if_pos hinit
    rw [sent, if_pos hinit, hzero, hthree]
    exact ⟨by omega, fun _ => by omega⟩
  · have hnone : reserve (draindown s r) = 0 := if_neg hinit
    rw [sent, if_neg hinit, hzero, hnone]
    exact ⟨by simp [postsWork], fun hc => absurd hc hinit⟩

end Outcomes

section Steps

variable {job : Job} {s s' : Sys} {r : ℕ} {m : Mgr} {gt : ℕ → Gtab} {rq : List Request}
  {net : List Packet} {posts : List Post}

/-- It is enough to look at the rank that makes the step and at the network. -/
theorem work_lt (hc : Change s s' r m gt rq net posts) (hr : r < job.wsize)
    (h : netWork net + postsWork posts +
      (queueWork rq + pendingWork m.rpending + reserve (draindown s' r)) <
        netWork s.net + nodeWork (s.rk r)) : work job s' < work job s := by
  have hmem : r ∈ Finset.range job.wsize := Finset.mem_range.mpr hr
  have hrest : ∑ k ∈ (Finset.range job.wsize).erase r, nodeWork (s'.rk k) =
      ∑ k ∈ (Finset.range job.wsize).erase r, nodeWork (s.rk k) := by
    refine Finset.sum_congr rfl fun k hk => ?_
    rw [hc.others k (Finset.ne_of_mem_erase hk)]
  have hnode : nodeWork (s'.rk r) =
      queueWork rq + pendingWork m.rpending + reserve (draindown s' r) := by
    rw [nodeWork, hc.mgr, hc.mgrreqq, draindown]
  unfold work
  rw [← Finset.add_sum_erase _ _ hmem, ← Finset.add_sum_erase _ (fun k => nodeWork (s.rk k)) hmem,
    hrest, hnode, hc.net, netWork_append, netWork_pack]
  omega

/-- A rank drains from the moment its send queue is closed. -/
theorem reachable_draining (h : Reachable job s) (r : ℕ) :
    (s.rk r).mgr.draining = true ↔ draindown s r ≠ .init := by
  revert r
  refine h.invariant
    (I := fun s => ∀ r, (s.rk r).mgr.draining = true ↔ draindown s r ≠ .init) ?_ ?_
  · intro r
    refine iff_of_false ?_ (not_not.mpr (sysInit_draindown job r))
    by_cases hr : r = 0
    · subst hr
      exact Bool.noConfusion
    · simp [sysInit, hr, mgrInit]
  · intro o s s' _ ih hs r
    have hput {k : ℕ} {m : Mgr} {gt : ℕ → Gtab} {rq : List Request} {net : List Packet}
        {posts : List Post} (hc : Change s s' k m gt rq net posts)
        (hm : m.draining = true ↔ draindown s' k ≠ .init) :
        (s'.rk r).mgr.draining = true ↔ draindown s' r ≠ .init := by
      by_cases hr : r = k
      · subst hr
        rw [hc.mgr]
        exact hm
      · rw [draindown, hc.others r hr]
        exact ih r
    cases hs with
    | app k l lt gt rq hk hl hdd ho hc => exact hput hc (by rw [hdd]; exact ih k)
    | recv p net addr m gt out hk hd hdd ho hc =>
      refine hput hc ?_
      rw [hdd, ← ih p.dst]
      cases ho <;> rfl
    | recvShutdown p net hk hd hb hdd hc => exact hput hc (iff_of_true rfl hdd)
    | req k rqe rest m gt out hk hq hdd ho hc =>
      refine hput hc ?_
      rw [hdd, ← ih k]
      cases ho <;> rfl
    | reqShutdown k l rqe rest hk hq hop haddr hrank hdd hc => exact hput hc (iff_of_true rfl hdd)
    | shutdown hidle hdrain hdd hc => exact hput hc (iff_of_true rfl hdd)

theorem deliver_work_lt {p : Packet} (hs : StepCase job s s' (some p)) :
    work job s' < work job s := by
  cases hs with
  | recv _ net addr m gt out hr hd hdd ho hc =>
    have hout := mqeOutcome_work ho
    have hsent := postsWork_sent_le s p.dst out
    have hnet := netWork_deliver hd
    refine work_lt hc hr ?_
    simp only [Sys.view] at hout
    rw [nodeWork_rk, hnet, hdd]
    omega
  | recvShutdown _ net hr hd hb hdd hc =>
    obtain ⟨hpaid, -⟩ := sent_bcasts_work job s (s.rk p.dst).mgr.mpiRank hdd
    have hnet := netWork_deliver hd
    have hpos := bodyWork_pos p.frame.body
    refine work_lt hc hr ?_
    rw [nodeWork_rk, hnet]
    simp only at hpaid ⊢
    omega

/-- Every step of a manager leaves less to do. -/
theorem mgrStep_work_lt (h : Reachable job s) (hs : MgrStep job s s') :
    work job s' < work job s := by
  cases hs with
  | recv p hd => exact deliver_work_lt (delivers_cases h.sane.quiet hd)
  | req r rqe q v hr hq hreq =>
    obtain ⟨rest, hrest, ⟨l, hop, haddr, hrank, hdd, hc⟩ | ⟨m, gt, out, hdd, ho, hc⟩⟩ :=
      req_cases h.sane.quiet hq hreq
    · obtain ⟨hpaid, -⟩ := sent_bcasts_work job s (s.rk r).mgr.mpiRank hdd
      have hpos := reqWork_pos rqe
      refine work_lt hc hr ?_
      rw [nodeWork_rk, hrest]
      simp only [queueWork, List.map_cons, List.sum_cons, releaseMgr]
      omega
    · have hmem : rqe ∈ (s.rk r).dtq.mgrreqq := by simp [hrest]
      have hout := reqOutcome_work ho
        fun mqe hmqe => ((reachable_wellformed h).requests r rqe hmem mqe hmqe).2.1
      have hsent := postsWork_sent_le s r out
      refine work_lt hc hr ?_
      simp only [Sys.view] at hout
      rw [nodeWork_rk, hrest, hdd]
      simp only [queueWork, List.map_cons, List.sum_cons]
      omega
  | shutdown hidle hd =>
    obtain ⟨hc, hdd⟩ := shutdown_change s.net
      (broadcastShutdown_spec job (s.view 0) (h.sane.quiet 0).1) (h.sane.quiet 0).1
      (h.sane.quiet 0).2 rfl
    have hdrain : draindown (s.put 0 (broadcastShutdown job (s.view 0))) 0 ≠ .init := hdd
    have hinit : draindown s 0 = .init := by
      by_contra hne
      have htrue := (reachable_draining h 0).mpr hne
      rw [hd] at htrue
      exact Bool.noConfusion htrue
    have hpaid := (sent_bcasts_work job s (s.rk 0).mgr.mpiRank hdrain).2 hinit
    refine work_lt hc job.wsize_pos ?_
    rw [nodeWork_rk]
    simp only [Sys.view] at hpaid ⊢
    omega

end Steps

section Rest

variable {job : Job} {s : Sys}

/-- No message is under way and no request waits for its manager. -/
structure AtRest (job : Job) (s : Sys) : Prop where
  net : s.net = []
  queue : ∀ r, r < job.wsize → (s.rk r).dtq.mgrreqq = []

theorem atRest_of_stuck (h : Reachable job s) (hroom : SeqRoom job)
    (hstuck : Stuck (MgrStep job) s) : AtRest job s where
  net := by
    by_contra hne
    obtain ⟨p, rest, hnet⟩ := List.exists_cons_of_ne_nil hne
    have hmem : p ∈ s.net := by
      rw [hnet]
      exact List.mem_cons_self
    obtain ⟨v, hv⟩ := Option.isSome_iff_exists.mp (processMqe_returns h hroom hmem 0 0)
    -- the message that has been under way longest is the first of its channel
    have hd : Deliver Packet.chan s.net p rest := ⟨[], rest, hnet, rfl, by simp⟩
    exact hstuck _ (.recv p ⟨rest, 0, 0, v, ((reachable_routed h).packet p hmem).2, hd, hv, rfl⟩)
  queue r hr := by
    by_contra hne
    obtain ⟨rqe, rest, hqueue⟩ := List.exists_cons_of_ne_nil hne
    have hmem : rqe ∈ (s.rk r).dtq.mgrreqq := by
      rw [hqueue]
      exact List.mem_cons_self
    have hq : dtqReqDequeue (s.rk r).dtq = (some rqe, { (s.rk r).dtq with mgrreqq := rest }) := by
      simp [dtqReqDequeue, hqueue]
    obtain ⟨v, hv⟩ := Option.isSome_iff_exists.mp (processReq_returns h hroom hr hmem
      { (s.rk r).dtq with mgrreqq := rest })
    exact hstuck _ (.req r rqe _ v hr hq hv)

/-- With nothing under way, what a request waits for is kept by rank 0. -/
theorem exists_kept (h : Reachable job s) (hdrain : ∀ r, draindown s r = .init)
    (hnet : s.net = []) {r : ℕ} {rqe : Request} (hmem : rqe ∈ (s.rk r).mgr.rpending)
    (hop : awaited rqe.reqop = true) :
    ∃ w ∈ (s.rk 0).mgr.rpending, waitKey w = some (requestKey r rqe) := by
  have heq := (reachable_matched h).eq hdrain (requestKey r rqe) hop
  have hpos : 0 < pending s (requestKey r rqe) := by
    refine List.countP_pos_iff.mpr ⟨rqe, hmem, ?_⟩
    simp [pendingMatch, requestKey]
  rw [tokens, hnet, inFlight_nil, Nat.zero_add] at heq
  rw [← heq] at hpos
  obtain ⟨w, hw, hkey⟩ := List.countP_pos_iff.mp hpos
  exact ⟨w, hw, by simpa using hkey⟩

/-- No thread is being started. -/
theorem no_start_at_rest (h : Reachable job s) (hdrain : ∀ r, draindown s r = .init)
    (hnet : s.net = []) {rqe : Request} (hmem : rqe ∈ (s.rk 0).mgr.rpending) :
    rqe.reqop ≠ .start := by
  intro hop
  obtain ⟨w, -, hkey⟩ := exists_kept h hdrain hnet hmem (by simp [awaited, hop])
  unfold waitKey at hkey
  split at hkey <;> simp [requestKey, hop] at hkey

/-- A call that has been sent off is a JOIN that rank 0 has put aside. -/
theorem joinwait_at_rest (h : Reachable job s) (hdrain : ∀ r, draindown s r = .init)
    (hnet : s.net = []) {r : ℕ} {rqe : Request} (hmem : rqe ∈ (s.rk r).mgr.rpending)
    (hop : forwarded rqe.reqop = true) :
    rqe.reqop = .join ∧ ∃ w ∈ (s.rk 0).mgr.rpending,
      w.reqop = .joinwait ∧ w.reqpeer = r ∧ w.xidseq = rqe.xidseq := by
  obtain ⟨w, hw, hkey⟩ := exists_kept h hdrain hnet hmem (by simp [awaited, hop])
  have hstart := no_start_at_rest h hdrain hnet hw
  unfold waitKey at hkey
  split at hkey
  · rename_i hw'
    exact absurd hw' hstart
  · rename_i hw'
    simp only [requestKey, Option.some.injEq, Key.mk.injEq] at hkey
    obtain ⟨hpeer, hjoin, hxid⟩ := hkey
    exact ⟨hjoin.symm, w, hw, hw', hpeer, hxid⟩
  · simp at hkey

/-- Thread `l` of rank `r` is in dthread_join and `w` is what rank 0 keeps for
it. -/
def InJoin (s : Sys) (r l : ℕ) (w : Request) : Prop :=
  w ∈ (s.rk 0).mgr.rpending ∧ w.reqop = .joinwait ∧ w.reqpeer = r ∧
    ∃ rqe ∈ (s.rk r).mgr.rpending, rqe.addr = .ltab l ∧ rqe.reqop = .join ∧ rqe.xidseq = w.xidseq

theorem draindown_of_lt (h : Reachable job s) (hdrain : ∀ r, r < job.wsize → draindown s r = .init)
    (r : ℕ) : draindown s r = .init := by
  by_cases hr : r < job.wsize
  · exact hdrain r hr
  · rw [draindown, h.outside r (not_lt.mp hr)]
    exact sysInit_draindown job r

theorem inJoin_at_rest (h : Reachable job s) (hdrain : ∀ r, r < job.wsize → draindown s r = .init)
    (hrest : AtRest job s) {r l : ℕ} (hr : r < job.wsize)
    (hbusy : ((s.rk r).mgr.ltab l).reqstate = .busy) : ∃ w, InJoin s r l w := by
  obtain ⟨rqe, hmem, haddr⟩ := exists_request_of_busy (reachable_listsOk h r) hbusy
  rw [hrest.queue r hr, List.nil_append] at hmem
  have hop : forwarded rqe.reqop = true := by
    rcases (reachable_slotsOk h r).waiting rqe hmem with ⟨_, -, -, hop, -⟩ | ⟨⟨a, ha⟩, -⟩
    · exact hop
    · rw [haddr] at ha
      exact ReqAddr.noConfusion ha
  obtain ⟨hjoin, w, hw, hwait, hpeer, hxid⟩ :=
    joinwait_at_rest h (draindown_of_lt h hdrain) hrest.net hmem hop
  exact ⟨w, hw, hwait, hpeer, rqe, hmem, haddr, hjoin, hxid.symm⟩

/-- From every state of a job the managers have work for a bounded number of
steps and then come to rest, whatever the order of their steps; at rest nothing
is under way or queued, and unless a shutdown has begun every call that is not
over is a dthread_join that rank 0 has put aside. -/
theorem managers_come_to_rest (h : Reachable job s) (hroom : SeqRoom job) :
    (∀ n s', Runs (MgrStep job) n s s' → n ≤ work job s) ∧
    (∃ n s', Runs (MgrStep job) n s s' ∧ Stuck (MgrStep job) s') ∧
    ∀ n s', Runs (MgrStep job) n s s' → Stuck (MgrStep job) s' →
      AtRest job s' ∧
      ((∀ r, r < job.wsize → draindown s' r = .init) →
        ∀ r < job.wsize, ∀ l, ((s'.rk r).mgr.ltab l).reqstate = .busy → ∃ w, InJoin s' r l w) := by
  have hkeep : ∀ s t, Reachable job s → MgrStep job s t → Reachable job t :=
    fun _ _ hs ht => ht.reachable hs
  have hless : ∀ s t, Reachable job s → MgrStep job s t → work job t < work job s :=
    fun _ _ hs ht => mgrStep_work_lt hs ht
  refine ⟨?_, exists_stuck hkeep hless s h, ?_⟩
  · intro n s' hrun
    have hle := hrun.length_add_work_le hkeep hless h
    omega
  · intro n s' hrun hstuck
    have hs' := hrun.invariant hkeep h
    have hrest := atRest_of_stuck hs' hroom hstuck
    exact ⟨hrest, fun hdrain r hr l hbusy => inJoin_at_rest hs' hdrain hrest hr hbusy⟩

/-- The CREATE of `twoRanks`, its START and the two replies. -/
theorem managers_come_to_rest_forwarded :
    SeqRoom twoRanks ∧ work twoRanks createForwarded = 10 ∧
      ∃ n s', n ≤ 10 ∧ Runs (MgrStep twoRanks) n createForwarded s' ∧ AtRest twoRanks s' := by
  have hroom : SeqRoom twoRanks := by
    unfold SeqRoom
    decide
  have hwork : work twoRanks createForwarded = 10 := by decide
  obtain ⟨hbound, ⟨n, s', hrun, hstuck⟩, hrest⟩ :=
    managers_come_to_rest createForwarded_reachable hroom
  exact ⟨hroom, hwork, n, s', hwork ▸ hbound n s' hrun, hrun, (hrest n s' hrun hstuck).1⟩

end Rest

end Dthread.ManagerWork
