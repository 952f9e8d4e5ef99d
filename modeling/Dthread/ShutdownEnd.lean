import Mathlib.Algebra.Order.BigOperators.Group.Finset
import Dthread.ShutdownDelivery

/-!
The end of a job. Once rank 0 drains, the managers and MPI threads can bring
the job down by themselves: they pass on and handle what is under way, which
there is only a bounded amount of, and then every manager finds its send queue
drained and leaves its loop. Whatever the application threads do meanwhile, the
job is never in a state from which its end cannot be reached.
-/
namespace Dthread.ShutdownEnd

open ReqMsg Queuing ManagerTables ManagerHandlers ManagerEffects ManagerOutcomes
open JobSystem SendDrain HandlersReturn ManagerWork HandlerQueues MainLoops ShutdownDelivery
open FifoNet

/-- How far a manager is from the next dtq_notifywait. -/
def pcWork : LoopPc → ℕ
  | .mqe _ _ => 4
  | .req _ => 3
  | .top => 2
  | .drain => 1
  | .wait | .left => 0

/-- What is left to do at a rank until its messages are with MPI and its
manager waits, when no message or request is handled. -/
def rankWork (n : LoopNode) : ℕ :=
  8 * n.dtq.mpisendq.length + n.dtq.mpindequeuedsends.toNat + 5 * n.dtq.mpirecvq.length +
    5 * n.dtq.mgrreqq.length + pcWork n.pc

def hidden (job : Job) (q : LoopSys) : ℕ :=
  ∑ r ∈ Finset.range job.wsize, rankWork (q.rk r) +
    ∑ c ∈ Finset.range job.wsize ×ˢ Finset.range job.wsize, 6 * (q.wire c.1 c.2).length

/-- Nothing is under way and every manager waits or has left. -/
structure AllQuiet (job : Job) (q : LoopSys) : Prop where
  sendq : ∀ r < job.wsize, (q.rk r).dtq.mpisendq = []
  sends : ∀ r < job.wsize, (q.rk r).dtq.mpindequeuedsends = 0
  wire : ∀ src, ∀ r < job.wsize, q.wire src r = []
  waits : ∀ r < job.wsize, (q.rk r).pc = .left ∨
    (q.rk r).pc = .wait ∧ (q.rk r).dtq.mpirecvq = [] ∧ (q.rk r).dtq.mgrreqq = []

variable {job : Job} {q q' : LoopSys} {s s' : Sys}

section Work

/-- Two sums that differ in one term. -/
theorem sum_add_eq {ι : Type*} [DecidableEq ι] {t : Finset ι} {f g : ι → ℕ} {i : ι} (hi : i ∈ t)
    (h : ∀ j ∈ t, j ≠ i → g j = f j) : ∑ j ∈ t, g j + f i = ∑ j ∈ t, f j + g i := by
  rw [← Finset.add_sum_erase t f hi, ← Finset.add_sum_erase t g hi]
  have hrest : ∑ j ∈ t.erase i, g j = ∑ j ∈ t.erase i, f j :=
    Finset.sum_congr rfl fun j hj => h j (Finset.mem_of_mem_erase hj) (Finset.ne_of_mem_erase hj)
  omega

/-- A step at rank `r` that leaves the network alone. -/
theorem hidden_rank_lt {r : ℕ} (hr : r < job.wsize) (hothers : ∀ k, k ≠ r → q'.rk k = q.rk k)
    (hwire : q'.wire = q.wire) (h : rankWork (q'.rk r) < rankWork (q.rk r)) :
    hidden job q' < hidden job q := by
  have hsum := sum_add_eq (f := fun k => rankWork (q.rk k)) (g := fun k => rankWork (q'.rk k))
    (Finset.mem_range.mpr hr) (fun k _ hk => by rw [hothers k hk])
  unfold hidden
  rw [hwire]
  omega

/-- A step at rank `r` that moves a message to or from the network. -/
theorem hidden_wire_lt {r src dst : ℕ} (hr : r < job.wsize) (hsrc : src < job.wsize)
    (hdst : dst < job.wsize) (hothers : ∀ k, k ≠ r → q'.rk k = q.rk k)
    (hwire : ∀ a b, ¬ (a = src ∧ b = dst) → q'.wire a b = q.wire a b)
    (h : rankWork (q'.rk r) + 6 * (q'.wire src dst).length <
      rankWork (q.rk r) + 6 * (q.wire src dst).length) : hidden job q' < hidden job q := by
  have hranks := sum_add_eq (f := fun k => rankWork (q.rk k)) (g := fun k => rankWork (q'.rk k))
    (Finset.mem_range.mpr hr) (fun k _ hk => by rw [hothers k hk])
  have hmem : (src, dst) ∈ Finset.range job.wsize ×ˢ Finset.range job.wsize := by simp [hsrc, hdst]
  have hwires := sum_add_eq (f := fun c : ℕ × ℕ => 6 * (q.wire c.1 c.2).length)
    (g := fun c : ℕ × ℕ => 6 * (q'.wire c.1 c.2).length) hmem (fun c _ hc => by
      rw [hwire c.1 c.2 (fun hab => hc (Prod.ext hab.1 hab.2))])
  unfold hidden
  simp only at hranks hwires
  omega

end Work

/-- A step of the library that brings it closer to rest. -/
def Nearer (job : Job) (q : LoopSys) (s : Sys) : Prop :=
  ∃ q', ServiceStep job q q' ∧
    ((∃ s', MgrStep job s s' ∧ Shows q' s') ∨ Shows q' s ∧ hidden job q' < hidden job q)

section Steps

variable {r : ℕ}

/-- Messages are under way between ranks of the job only. -/
theorem channel_ranks (hs : Reachable job s) (h : Shows q s) {src dst : ℕ}
    (hne : q.channel src dst ≠ []) : src < job.wsize ∧ dst < job.wsize := by
  rw [← h.channels] at hne
  obtain ⟨frame, hframe⟩ := List.exists_mem_of_ne_nil _ hne
  obtain ⟨p, hp, -⟩ := List.mem_map.mp hframe
  obtain ⟨hmem, hchan⟩ := List.mem_filter.mp hp
  obtain ⟨rfl, rfl⟩ : p.src = src ∧ p.dst = dst := by simpa [Packet.chan] using hchan
  exact (reachable_routed hs).packet p hmem

theorem nearer_isend (hs : Reachable job s) (h : Shows q s) (hr : r < job.wsize)
    (hne : (q.rk r).dtq.mpisendq ≠ []) : Nearer job q s := by
  obtain ⟨mqe, rest, hcons⟩ := List.exists_cons_of_ne_nil hne
  have hpeer : (toPost mqe).1 = mqe.peer := rfl
  have hdeq : dtqSendDequeue (q.rk r).dtq = (some mqe, { (q.rk r).dtq with
      mpisendq := rest, mpisqlen := (q.rk r).dtq.mpisqlen - 1,
      mpindequeuedsends := (q.rk r).dtq.mpindequeuedsends + 1 }) := by
    simp [dtqSendDequeue, hcons]
  have hchannel : q.channel r mqe.peer ≠ [] := by
    rw [LoopSys.channel, LoopSys.sendq, hcons, List.map_cons, ofPeer_cons_self hpeer]
    simp
  refine ⟨_, .isend r mqe _ hr hdeq, .inr ⟨h.isend hdeq, ?_⟩⟩
  refine hidden_wire_lt hr hr (channel_ranks hs h hchannel).2 ?_ ?_ ?_
  · exact fun k hk => q.rk_setDtq_of_ne hk _
  · exact fun a b hab => LoopSys.wire_setWire_of_ne _ _ hab
  · rw [LoopSys.wire_setWire]
    change rankWork ((q.setDtq r _).rk r) + _ < _
    rw [LoopSys.rk_setDtq, List.length_append, List.length_singleton]
    simp only [rankWork, hcons, List.length_cons]
    omega

theorem nearer_sent (h : Shows q s) (hr : r < job.wsize)
    (hne : (q.rk r).dtq.mpindequeuedsends ≠ 0) : Nearer job q s := by
  have hcounts := (h.queues r).counts
  have hout : 0 < (q.rk r).dtq.mpindequeuedsends := by
    have := hcounts.out
    omega
  refine ⟨_, .sent r 0 hr hout, .inr ⟨h.sent 0 hout, ?_⟩⟩
  refine hidden_rank_lt hr (fun k hk => q.rk_setDtq_of_ne hk _) rfl ?_
  rw [LoopSys.rk_setDtq]
  obtain ⟨free, dd, hdtq, -⟩ := sendRelease_eq 0 hout hcounts
  rw [hdtq]
  simp only [rankWork]
  omega

theorem nearer_recv (hs : Reachable job s) (h : Shows q s) (hr : r < job.wsize) {src : ℕ}
    (hne : q.wire src r ≠ []) : Nearer job q s := by
  obtain ⟨frame, rest, hcons⟩ := List.exists_cons_of_ne_nil hne
  obtain ⟨addr, dtq, halloc, -⟩ := mqeAlloc_eq_some (q.rk r).dtq (h.queues r).mallocs
  have hchannel : q.channel src r ≠ [] := by
    rw [LoopSys.channel, hcons]
    simp
  refine ⟨_, .recv src r addr frame rest dtq hr hcons halloc, .inr ⟨h.recv hcons halloc, ?_⟩⟩
  refine hidden_wire_lt hr (channel_ranks hs h hchannel).1 hr ?_ ?_ ?_
  · exact fun k hk => q.rk_setDtq_of_ne hk _
  · exact fun a b hab => LoopSys.wire_setWire_of_ne _ _ hab
  · obtain ⟨free, n, ms, hdtq⟩ := mqeAlloc_queues (q.rk r).dtq
    rw [halloc] at hdtq
    simp only at hdtq
    subst hdtq
    rw [LoopSys.wire_setWire, hcons]
    change rankWork ((q.setDtq r _).rk r) + _ < _
    rw [LoopSys.rk_setDtq]
    simp only [rankWork, dtqRecvEnqueue, List.length_append, List.length_cons, List.length_nil]
    omega

/-- A manager between two places of its loop. -/
theorem nearer_put (hr : r < job.wsize) {pc : LoopPc}
    (hstep : ServiceStep job q (q.put r (q.view r) pc)) (h : Shows (q.put r (q.view r) pc) s)
    (hlt : pcWork pc < pcWork (q.rk r).pc) : Nearer job q s := by
  refine ⟨_, hstep, .inr ⟨h, hidden_rank_lt hr (fun k hk => q.rk_put_of_ne hk _ _) rfl ?_⟩⟩
  rw [LoopSys.rk_put]
  simp only [rankWork, LoopSys.view]
  omega

/-- The handler of the message or request in hand returns, so that the manager
goes on. -/
theorem nearer_mqe (hs : Reachable job s) (hroom : SeqRoom job) (h : Shows q s) (hr : r < job.wsize)
    {mqe : Mqe} {req : Option Request} (hpc : (q.rk r).pc = .mqe (some mqe) req) :
    Nearer job q s := by
  obtain ⟨net, hd, -⟩ := exists_packet h hpc
  have hreturns := processMqe_returns hs hroom hd.mem mqe.addr 0
  have hsome : (processMqe job (q.view r) mqe 0).isSome = true :=
    (mqe_like h hs hpc 0).isSome_eq.trans hreturns
  obtain ⟨v, hv⟩ := Option.isSome_iff_exists.mp hsome
  obtain ⟨s', hmgr, hshows⟩ := mqe_step h hs hr hpc hv
  exact ⟨_, .mqe r mqe req 0 v hr hpc hv, .inl ⟨s', hmgr, hshows⟩⟩

theorem nearer_req (hs : Reachable job s) (hroom : SeqRoom job) (h : Shows q s) (hr : r < job.wsize)
    {req : Request} (hpc : (q.rk r).pc = .req (some req)) : Nearer job q s := by
  obtain ⟨req', rest, hcons, hopt⟩ := req_like h hs hpc
  have hmem : req' ∈ (s.rk r).dtq.mgrreqq := by
    rw [hcons]
    exact List.mem_cons_self
  have hsome : (processReq job (q.view r) req).isSome = true :=
    hopt.isSome_eq.trans (processReq_returns hs hroom hr hmem _)
  obtain ⟨v, hv⟩ := Option.isSome_iff_exists.mp hsome
  obtain ⟨s', hmgr, hshows⟩ := req_step h hs hr hpc hv
  exact ⟨_, .req r req v hr hpc hv, .inl ⟨s', hmgr, hshows⟩⟩

theorem nearer_top (hs : Reachable job s) (h : Shows q s) (hr : r < job.wsize)
    (hpc : (q.rk r).pc = .top) : Nearer job q s := by
  have hstep : ServiceStep job q _ := .top r hr hpc
  unfold shutdownTest at hstep
  split at hstep
  · rename_i htest
    obtain ⟨s', hmgr, hshows⟩ := shutdown_step h hs hpc htest.1 htest.2.1 htest.2.2
    exact ⟨_, hstep, .inl ⟨s', hmgr, hshows⟩⟩
  · refine nearer_put hr hstep (h.setPc (by rw [hpc]; rfl) (by rw [hpc]; rfl)) ?_
    rw [hpc]
    exact Nat.lt_succ_self 1

theorem nearer_drain (h : Shows q s) (hr : r < job.wsize) (hpc : (q.rk r).pc = .drain) :
    Nearer job q s := by
  have hstep : ServiceStep job q _ := .drain r hr hpc
  split at hstep
  · refine nearer_put hr hstep (h.setPc (by rw [hpc]; rfl) (by rw [hpc]; rfl)) ?_
    rw [hpc]
    exact Nat.zero_lt_one
  · refine nearer_put hr hstep (h.setPc (by rw [hpc]; rfl) (by rw [hpc]; rfl)) ?_
    rw [hpc]
    exact Nat.zero_lt_one

theorem nearer_pc (hs : Reachable job s) (hroom : SeqRoom job) (h : Shows q s) (hr : r < job.wsize)
    (hwait : (q.rk r).pc ≠ .wait) (hleft : (q.rk r).pc ≠ .left) : Nearer job q s := by
  cases hpc : (q.rk r).pc with
  | top => exact nearer_top hs h hr hpc
  | drain => exact nearer_drain h hr hpc
  | wait => exact absurd hpc hwait
  | mqe mqe req =>
    cases mqe with
    | none =>
      refine nearer_put hr (.noMqe r req hr hpc) (h.setPc (by rw [hpc]; rfl) (by rw [hpc]; rfl)) ?_
      rw [hpc]
      exact Nat.lt_succ_self 3
    | some mqe => exact nearer_mqe hs hroom h hr hpc
  | req req =>
    cases req with
    | none =>
      refine nearer_put hr (.noReq r hr hpc) (h.setPc (by rw [hpc]; rfl) (by rw [hpc]; rfl)) ?_
      rw [hpc]
      exact Nat.lt_succ_self 2
    | some req => exact nearer_req hs hroom h hr hpc
  | left => exact absurd hpc hleft

theorem nearer_wait (h : Shows q s) (hr : r < job.wsize) (hpc : (q.rk r).pc = .wait)
    (hne : ¬ ((q.rk r).dtq.mpirecvq = [] ∧ (q.rk r).dtq.mgrreqq = [])) : Nearer job q s := by
  obtain ⟨mqe, req, dtq, hw⟩ : ∃ mqe req dtq, notifywait (q.rk r).dtq = (mqe, req, dtq) :=
    ⟨_, _, _, rfl⟩
  refine ⟨_, .wait r mqe req dtq hr hpc hw, .inr ⟨h.wait hpc hw, ?_⟩⟩
  refine hidden_rank_lt hr (fun k hk => q.rk_put_of_ne hk _ _) rfl ?_
  obtain ⟨recvs, reqs, rfl, hrecvs, hreqs, hmqe, hreq⟩ := notifywait_eq hw
  rw [LoopSys.rk_put]
  simp only [rankWork, View.setDtq, pcWork, hpc, hrecvs, hreqs, List.length_append]
  cases mqe with
  | some mqe =>
    simp only [Option.toList_some, List.length_singleton]
    omega
  | none =>
    cases req with
    | some req =>
      simp only [Option.toList_some, List.length_singleton]
      omega
    | none => exact absurd ⟨hmqe rfl, hreq rfl⟩ hne

theorem allQuiet_or_nearer (hs : Reachable job s) (hroom : SeqRoom job) (h : Shows q s) :
    AllQuiet job q ∨ Nearer job q s := by
  by_contra hnot
  obtain ⟨hnotQuiet, hnotNearer⟩ := not_or.mp hnot
  apply hnotQuiet
  refine ⟨?_, ?_, ?_, ?_⟩
  · intro r hr
    by_contra hne
    exact hnotNearer (nearer_isend hs h hr hne)
  · intro r hr
    by_contra hne
    exact hnotNearer (nearer_sent h hr hne)
  · intro src r hr
    by_contra hne
    exact hnotNearer (nearer_recv hs h hr hne)
  · intro r hr
    by_contra hnot
    obtain ⟨hleft, hwait⟩ := not_or.mp hnot
    by_cases hpc : (q.rk r).pc = .wait
    · exact hnotNearer (nearer_wait h hr hpc fun hempty => hwait ⟨hpc, hempty⟩)
    · exact hnotNearer (nearer_pc hs hroom h hr hpc hleft)

/-- The library comes to rest. -/
theorem exists_allQuiet (hroom : SeqRoom job) (n m : ℕ) : ∀ {q : LoopSys} {s : Sys},
    Reachable job s → Shows q s → work job s = n → hidden job q = m →
      ∃ q' s', Relation.ReflTransGen (ServiceStep job) q q' ∧
        Relation.ReflTransGen (MgrStep job) s s' ∧ Shows q' s' ∧ AllQuiet job q' := by
  induction n using Nat.strong_induction_on generalizing m with
  | _ n ihn =>
    induction m using Nat.strong_induction_on with
    | _ m ihm =>
      intro q s hs h hn hm
      rcases allQuiet_or_nearer hs hroom h with hquiet | ⟨q₁, hstep, hnear⟩
      · exact ⟨q, s, .refl, .refl, h, hquiet⟩
      · rcases hnear with ⟨s₁, hmgr, h₁⟩ | ⟨h₁, hlt⟩
        · have hlt := mgrStep_work_lt hs hmgr
          obtain ⟨q', s', hq', hs', hshows, hquiet⟩ :=
            ihn (work job s₁) (by omega) (hidden job q₁) (hmgr.reachable hs) h₁ rfl rfl
          exact ⟨q', s', .head hstep hq', .head hmgr hs', hshows, hquiet⟩
        · obtain ⟨q', s', hq', hs', hshows, hquiet⟩ :=
            ihm (hidden job q₁) (by omega) hs h₁ hn rfl
          exact ⟨q', s', .head hstep hq', hs', hshows, hquiet⟩

end Steps

section Drain

theorem drains_step (hs : Reachable job s) (hstep : Step job s s') {r : ℕ}
    (hd : draindown s r ≠ .init) : draindown s' r ≠ .init := by
  have hput {k : ℕ} {m : Mgr} {gt : ℕ → Gtab} {rq : List Request} {net : List Packet}
      {posts : List Post} (hc : Change s s' k m gt rq net posts)
      (hkeep : draindown s k ≠ .init → draindown s' k ≠ .init) : draindown s' r ≠ .init := by
    by_cases hr : r = k
    · subst hr
      exact hkeep hd
    · rwa [draindown, hc.others r hr]
  obtain ⟨o, hcase⟩ := step_cases hs.sane.quiet hstep
  cases hcase with
  | app r l lt gt rq hr hl hdd ho hc => exact hput hc (by rw [hdd]; exact id)
  | recv p net addr m gt out hr hd hdd ho hc => exact hput hc (by rw [hdd]; exact id)
  | recvShutdown p net hr hd hb hdd hc => exact hput hc fun _ => hdd
  | req r rqe rest m gt out hr hq hdd ho hc => exact hput hc (by rw [hdd]; exact id)
  | reqShutdown r l rqe rest hr hq hop haddr hrank hdd hc => exact hput hc fun _ => hdd
  | shutdown hidle hdrain hdd hc => exact hput hc fun _ => hdd

theorem drains_run (hs : Reachable job s) (h : Relation.ReflTransGen (MgrStep job) s s') {r : ℕ}
    (hd : draindown s r ≠ .init) : Reachable job s' ∧ draindown s' r ≠ .init := by
  induction h with
  | refl => exact ⟨hs, hd⟩
  | tail _ hstep ih => exact ⟨hstep.reachable ih.1, drains_step ih.1 hstep.step ih.2⟩

/-- When nothing is under way, the shutdown has reached every rank. -/
theorem allQuiet_drains (hq : LoopReachable job q) (hs : Reachable job s) (h : Shows q s)
    (hquiet : AllQuiet job q) (hd : draindown s 0 ≠ .init) {r : ℕ} (hr : r < job.wsize) :
    draindown s r ≠ .init := by
  have hchild {a b : ℕ} (ha : a < job.wsize) (hda : draindown s a ≠ .init)
      (hb : b ∈ binaryRouter 0 job.wsize a) (hbr : b < job.wsize) : draindown s b ≠ .init := by
    rcases reachable_passedOn hs a hda b hb with hpassed | ⟨p, hp, hchan, -⟩
    · exact hpassed
    · rcases hquiet.waits b hbr with hleft | ⟨hwait, hrecvs, -⟩
      · rw [← reachable_draining hs, h.mgr]
        exact (reachable_leftDrained hq b hleft).1
      · have hmem : p.frame ∈ netChannel s.net a b :=
          List.mem_map_of_mem (List.mem_filter.mpr ⟨hp, by simpa using hchan⟩)
        rw [h.channels, LoopSys.channel, LoopSys.inbox, LoopSys.recvq, LoopSys.sendq, hwait,
          hrecvs, hquiet.wire a b hbr, hquiet.sendq a ha] at hmem
        exact absurd hmem (by simp [ofPeer, LoopPc.heldMqe])
  have hspan := BroadcastTree.binaryRouter_spanning (r := 0) (n := job.wsize) job.wsize_pos
  have hpath := hspan.reach r (List.mem_range.mpr hr)
  have hall : r < job.wsize ∧ draindown s r ≠ .init := by
    clear hr
    induction hpath with
    | refl => exact ⟨job.wsize_pos, hd⟩
    | tail _ hb ih =>
      have hbr := List.mem_range.mp (hspan.closed _ (List.mem_range.mpr ih.1) _ hb)
      exact ⟨hbr, hchild ih.1 ih.2 hb hbr⟩
  exact hall.2

end Drain

section Leave

theorem put_put (q : LoopSys) (r : ℕ) (v v' : View) (pc pc' : LoopPc) :
    (q.put r v pc).put r v' pc' = q.put r v' pc' := by
  simp [LoopSys.put]

theorem view_put (q : LoopSys) (r : ℕ) (v : View) (pc : LoopPc) : (q.put r v pc).view r = v := by
  simp [LoopSys.put, LoopSys.view]

/-- A manager that drains and has nothing to do goes once more through its loop
and leaves it. -/
theorem leave_rank {r : ℕ} (hr : r < job.wsize) (hpc : (q.rk r).pc = .wait)
    (hrecvs : (q.rk r).dtq.mpirecvq = []) (hreqs : (q.rk r).dtq.mgrreqq = [])
    (hdraining : (q.rk r).mgr.draining = true)
    (hdrained : (q.rk r).dtq.mpisqDraindown = .drained) :
    Relation.ReflTransGen (ServiceStep job) q (q.put r (q.view r) .left) := by
  have hnothing : notifywait (q.rk r).dtq = (none, none, (q.rk r).dtq) := by
    simp [notifywait, dtqRecvDequeue, dtqReqDequeue, hrecvs, hreqs]
  have hgo {pc pc' : LoopPc} {v : View} (hv : v = (q.put r (q.view r) pc).view r)
      (hstep : ServiceStep job (q.put r (q.view r) pc) ((q.put r (q.view r) pc).put r v pc')) :
      ServiceStep job (q.put r (q.view r) pc) (q.put r (q.view r) pc') := by
    rwa [put_put, hv, view_put] at hstep
  have hpcs (pc : LoopPc) : ((q.put r (q.view r) pc).rk r).pc = pc := by rw [LoopSys.rk_put]
  have hwait : ServiceStep job q (q.put r (q.view r) (.mqe none none)) :=
    .wait r none none _ hr hpc hnothing
  have hmqe := hgo rfl (.noMqe r none hr (hpcs _))
  have hreq := hgo rfl (.noReq r hr (hpcs _))
  have htop : ServiceStep job (q.put r (q.view r) .top) (q.put r (q.view r) .drain) := by
    refine hgo ?_ (.top r hr (hpcs _))
    rw [view_put, shutdownTest, if_neg]
    simp [LoopSys.view, hdraining]
  have hleave : ServiceStep job (q.put r (q.view r) .drain) (q.put r (q.view r) .left) := by
    have hleaves : leavesLoop ((q.put r (q.view r) .drain).rk r).mgr.draining
        ((q.put r (q.view r) .drain).rk r).dtq = true := by
      rw [LoopSys.rk_put]
      simp [leavesLoop, dtqSendDrainstate, LoopSys.view, hdraining, hdrained]
    have hstep : ServiceStep job (q.put r (q.view r) .drain) _ := .drain r hr (hpcs _)
    rwa [if_pos hleaves, put_put, view_put] at hstep
  exact ((((Relation.ReflTransGen.single hwait).tail hmqe).tail hreq).tail htop).tail hleave

/-- The managers leave one after the other. -/
theorem leave_all (hquiet : AllQuiet job q) (hdrain : ∀ r < job.wsize,
      (q.rk r).mgr.draining = true ∧ (q.rk r).dtq.mpisqDraindown = .drained) (k : ℕ)
    (hk : k ≤ job.wsize) :
    ∃ q', Relation.ReflTransGen (ServiceStep job) q q' ∧ (∀ r < k, (q'.rk r).pc = .left) ∧
      ∀ r, k ≤ r → q'.rk r = q.rk r := by
  induction k with
  | zero => exact ⟨q, .refl, by simp, fun _ _ => rfl⟩
  | succ k ih =>
    obtain ⟨q₁, hpath, hleft, hsame⟩ := ih (by omega)
    have hnode := hsame k (le_refl k)
    rcases hquiet.waits k hk with hdone | ⟨hpc, hrecvs, hreqs⟩
    · refine ⟨q₁, hpath, ?_, fun r hr => hsame r (by omega)⟩
      intro r hr
      rcases Nat.lt_succ_iff_lt_or_eq.mp hr with hlt | rfl
      · exact hleft r hlt
      · rw [hnode, hdone]
    · obtain ⟨hdraining, hdrained⟩ := hdrain k hk
      rw [← hnode] at hpc hrecvs hreqs hdraining hdrained
      refine ⟨_, hpath.trans (leave_rank hk hpc hrecvs hreqs hdraining hdrained), ?_, ?_⟩
      · intro r hr
        rcases Nat.lt_succ_iff_lt_or_eq.mp hr with hlt | rfl
        · rw [q₁.rk_put_of_ne (by omega)]
          exact hleft r hlt
        · rw [q₁.rk_put]
      · intro r hr
        rw [q₁.rk_put_of_ne (by omega)]
        exact hsame r (by omega)

end Leave

theorem loopReachable_service (h : LoopReachable job q)
    (hpath : Relation.ReflTransGen (ServiceStep job) q q') : LoopReachable job q' := by
  induction hpath with
  | refl => exact h
  | tail _ hstep ih => exact ih.tail (.service hstep)

/-- From every state of a job whose rank 0 drains, the managers and MPI threads
can bring the job down: every manager leaves its loop. -/
theorem shutdown_completes (h : LoopReachable job q) (hroom : SeqRoom job)
    (hdraining : (q.rk 0).mgr.draining = true) :
    ∃ q', Relation.ReflTransGen (ServiceStep job) q q' ∧
      ∀ r < job.wsize, (q'.rk r).pc = .left := by
  obtain ⟨s, hs, hshows⟩ := exists_shows h
  have hd : draindown s 0 ≠ .init := by
    rw [← reachable_draining hs, hshows.mgr]
    exact hdraining
  obtain ⟨q₁, s₁, hpath, hrun, hshows₁, hquiet⟩ := exists_allQuiet hroom _ _ hs hshows rfl rfl
  obtain ⟨hs₁, hd₁⟩ := drains_run hs hrun hd
  have hq₁ := loopReachable_service h hpath
  have hdrain (r : ℕ) (hr : r < job.wsize) : (q₁.rk r).mgr.draining = true ∧
      (q₁.rk r).dtq.mpisqDraindown = .drained := by
    have hdd := allQuiet_drains hq₁ hs₁ hshows₁ hquiet hd₁ hr
    have hcounts := (hshows₁.queues r).counts
    refine ⟨?_, ?_⟩
    · rw [← hshows₁.mgr, reachable_draining hs₁]
      exact hdd
    · cases hstate : (q₁.rk r).dtq.mpisqDraindown with
      | init => exact absurd ((hshows₁.queues r).drain.mpr hstate) hdd
      | draining => exact absurd ⟨hquiet.sendq r hr, hquiet.sends r hr⟩ (hcounts.draining hstate)
      | drained => rfl
  obtain ⟨q', hleave, hleft, -⟩ := leave_all hquiet hdrain job.wsize (le_refl _)
  exact ⟨q', hpath.trans hleave, hleft⟩

/-- The main function of `twoRanks` has returned and rank 0 has started the
shutdown; from there both managers can leave. -/
theorem shutdown_completes_returned : ∃ q q', (q.rk 0).mgr.draining = true ∧
    (q.rk 1).mgr.draining = false ∧ Relation.ReflTransGen (ServiceStep twoRanks) q q' ∧
      (q'.rk 0).pc = .left ∧ (q'.rk 1).pc = .left := by
  have hroom : SeqRoom twoRanks := by
    unfold SeqRoom
    decide
  have hret : LoopReachable twoRanks ((loopInit twoRanks).put 0
      (AppThreads.app0Return ((loopInit twoRanks).view 0) 0) .top) :=
    .tail .refl (.app 0 0 _ (by decide) (by decide) (.app0Return rfl rfl rfl))
  have htop := hret.tail (.service (.top 0 (by decide) rfl))
  have hdrain := htop.tail (.service (.drain 0 (by decide) rfl))
  have hwait := hdrain.tail (.service (.wait 0 _ _ _ (by decide) rfl rfl))
  have hmqe := hwait.tail (.service (.noMqe 0 _ (by decide) rfl))
  have hreq := hmqe.tail (.service (.req 0 _ _ (by decide) rfl rfl))
  obtain ⟨q', hpath, hleft⟩ := shutdown_completes hreq hroom rfl
  exact ⟨_, q', rfl, rfl, hpath, hleft 0 (by decide), hleft 1 (by decide)⟩

end Dthread.ShutdownEnd
