import Dthread.MainLoops
import Dthread.ShutdownBroadcast
import Dthread.ManagerWork

/-!
What a manager leaves behind when it leaves its main loop. It does so when the
job shuts down and its send queue is drained, and stops its MPI thread then. By
that time MPI has taken over the BCASTSHUTDOWN for each of its children in the
broadcast tree, so that none is lost with the queue.
-/
namespace Dthread.ShutdownDelivery

open ReqMsg Queuing ManagerTables ManagerHandlers ManagerEffects ManagerOutcomes AppThreads
open JobSystem RequestReply SendDrain ShutdownBroadcast ManagerWork HandlerQueues MainLoops FifoNet

/-- The BCASTSHUTDOWN of `r` has reached its child, or is on its way there. -/
def Passed (s : Sys) (r child : ℕ) : Prop :=
  draindown s child ≠ .init ∨
    ∃ p ∈ s.net, p.chan = (r, child) ∧ p.frame.body = .bcastshutdown

/-- Every rank that drains has passed the shutdown on. -/
def PassedOn (job : Job) (s : Sys) : Prop :=
  ∀ r, draindown s r ≠ .init → ∀ child ∈ binaryRouter 0 job.wsize r, Passed s r child

section Job

variable {job : Job} {s s' : Sys} {k : ℕ} {m : Mgr} {gt : ℕ → Gtab} {rq : List Request}
  {net : List Packet} {posts : List Post}

/-- A step of rank `k` that takes no BCASTSHUTDOWN off the network, or starts to
drain. -/
theorem passedOn_change (h : PassedOn job s) (hc : Change s s' k m gt rq net posts)
    (hkeep : draindown s k ≠ .init → draindown s' k ≠ .init)
    (hstart : draindown s k = .init → draindown s' k ≠ .init →
      ∀ child ∈ binaryRouter 0 job.wsize k, (child, Frame.of 0 .bcastshutdown) ∈ posts)
    (hnet : ∀ p ∈ s.net, p.frame.body = .bcastshutdown →
      p ∈ net ∨ p.dst = k ∧ draindown s' k ≠ .init) : PassedOn job s' := by
  have hdrain {r : ℕ} (hr : draindown s r ≠ .init) : draindown s' r ≠ .init := by
    by_cases hrk : r = k
    · subst hrk
      exact hkeep hr
    · rwa [draindown, hc.others r hrk]
  have hpassed {r child : ℕ} (hp : Passed s r child) : Passed s' r child := by
    rcases hp with hp | ⟨p, hp, hchan, hbody⟩
    · exact .inl (hdrain hp)
    · rcases hnet p hp hbody with hin | ⟨hdst, hdrains⟩
      · refine .inr ⟨p, ?_, hchan, hbody⟩
        rw [hc.net]
        exact List.mem_append_left _ hin
      · obtain rfl : child = k := (congrArg Prod.snd hchan).symm.trans hdst
        exact .inl hdrains
  intro r hr child hchild
  by_cases hold : draindown s r = .init
  · -- only rank `k` can have started to drain
    have hrk : r = k := by
      by_contra hrk
      rw [draindown, hc.others r hrk] at hr
      exact hr hold
    subst hrk
    refine .inr ⟨pack r (child, .of 0 .bcastshutdown), ?_, rfl, rfl⟩
    rw [hc.net]
    exact List.mem_append_right _ (List.mem_map_of_mem (hstart hold hr child hchild))
  · exact hpassed (h r hold child hchild)

theorem mem_sent_bcasts {r child : ℕ} (hrank : (s.rk r).mgr.mpiRank = r)
    (hinit : draindown s r = .init) (hchild : child ∈ binaryRouter 0 job.wsize r) :
    (child, Frame.of 0 .bcastshutdown) ∈ sent s r (bcasts job (s.rk r).mgr.mpiRank) := by
  rw [sent, if_pos hinit, hrank, bcasts]
  exact List.mem_map_of_mem hchild

theorem reachable_passedOn (h : Reachable job s) : PassedOn job s := by
  refine h.invariant ?_ ?_
  · intro r hr
    exact absurd (sysInit_draindown job r) hr
  · intro o s s' hs ih hstep
    have hrank := hs.sane.rank
    cases hstep with
    | app r l lt gt rq hr hl hdd ho hc =>
      refine passedOn_change ih hc (by rw [hdd]; exact id) ?_ (fun p hp _ => .inl hp)
      intro hinit hdrains
      exact absurd (hdd.trans hinit) hdrains
    | recv p net addr m gt out hr hd hdd ho hc =>
      refine passedOn_change ih hc (by rw [hdd]; exact id) ?_ ?_
      · intro hinit hdrains
        exact absurd (hdd.trans hinit) hdrains
      · intro p' hp' hbody
        rcases hd.mem_or hp' with rfl | hin
        · exact absurd ho (not_mqeOutcome hbody ((reachable_wellformed hs).frames p' hp'))
        · exact .inl hin
    | recvShutdown p net hr hd hb hdd hc =>
      refine passedOn_change ih hc (fun _ => hdd) ?_ ?_
      · intro hinit _ child hchild
        exact mem_sent_bcasts (hrank p.dst) hinit hchild
      · intro p' hp' _
        rcases hd.mem_or hp' with rfl | hin
        · exact .inr ⟨rfl, hdd⟩
        · exact .inl hin
    | req r rqe rest m gt out hr hq hdd ho hc =>
      refine passedOn_change ih hc (by rw [hdd]; exact id) ?_ (fun p hp _ => .inl hp)
      intro hinit hdrains
      exact absurd (hdd.trans hinit) hdrains
    | reqShutdown r l rqe rest hr hq hop haddr hrank0 hdd hc =>
      refine passedOn_change ih hc (fun _ => hdd) ?_ (fun p hp _ => .inl hp)
      intro hinit _ child hchild
      exact mem_sent_bcasts (hrank r) hinit hchild
    | shutdown hidle hdrain hdd hc =>
      refine passedOn_change ih hc (fun _ => hdd) ?_ (fun p hp _ => .inl hp)
      intro hinit _ child hchild
      exact mem_sent_bcasts (hrank 0) hinit hchild

end Job

section Loops

variable {job : Job} {q q' : LoopSys}

/-- A manager that has left its loop. -/
def LeftDrained (q : LoopSys) : Prop :=
  ∀ r, (q.rk r).pc = .left → (q.rk r).mgr.draining = true ∧ (q.rk r).dtq.mpisqDraindown = .drained

theorem leftDrained_put (h : LeftDrained q) {r : ℕ} {v : View} {pc : LoopPc}
    (hpc : pc = .left → v.mgr.draining = true ∧ v.dtq.mpisqDraindown = .drained) :
    LeftDrained (q.put r v pc) := by
  intro r' hleft
  by_cases hr : r' = r
  · subst hr
    rw [q.rk_put] at hleft ⊢
    exact hpc hleft
  · rw [q.rk_put_of_ne hr] at hleft ⊢
    exact h r' hleft

theorem leftDrained_setDtq (h : LeftDrained q) {r : ℕ} {dtq : Dtq}
    (hdd : (q.rk r).dtq.mpisqDraindown = .drained → dtq.mpisqDraindown = .drained) :
    LeftDrained (q.setDtq r dtq) := by
  intro r' hleft
  by_cases hr : r' = r
  · subst hr
    rw [q.rk_setDtq] at hleft ⊢
    exact ⟨(h r' hleft).1, hdd (h r' hleft).2⟩
  · rw [q.rk_setDtq_of_ne hr] at hleft ⊢
    exact h r' hleft

theorem leftDrained_step {s : Sys} (h : LeftDrained q) (hshows : Shows q s)
    (hs : LoopStep job q q') : LeftDrained q' := by
  cases hs with
  | app r l v hr hl ha =>
    apply leftDrained_put h
    intro hleft
    obtain ⟨lt, gt, rq, -, he⟩ := appStep_outcome job l _ v (hshows.queues r).mallocs ha
    rw [he.mgr, he.draindown]
    exact h r hleft
  | service hs =>
    cases hs with
    | drain r hr hpc =>
      apply leftDrained_put h
      intro hleft
      split at hleft
      · rename_i hleaves
        simpa [leavesLoop, dtqSendDrainstate, LoopSys.view] using hleaves
      · cases hleft
    | isend r mqe dtq hr hd =>
      obtain ⟨rest, -, rfl⟩ := sendDequeue_some hd
      exact leftDrained_setDtq h id
    | sent r addr hr hout =>
      apply leftDrained_setDtq h
      intro hdrained
      have hnone := ((hshows.queues r).counts.drained hdrained).2
      omega
    | recv src r addr frame rest dtq hr hwire ha =>
      obtain ⟨free, n, ms, hdtq⟩ := mqeAlloc_queues (q.rk r).dtq
      rw [ha] at hdtq
      simp only at hdtq
      subst hdtq
      exact leftDrained_setDtq h id
    -- the other steps stay in the loop
    | _ => exact leftDrained_put h (by simp)

theorem reachable_leftDrained (h : LoopReachable job q) : LeftDrained q := by
  induction h with
  | refl =>
    intro r hleft
    cases hleft
  | tail hreach hstep ih =>
    obtain ⟨s, -, hshows⟩ := exists_shows hreach
    exact leftDrained_step ih hshows hstep

/-- A manager that leaves its main loop has nothing left to send, and MPI has
taken its BCASTSHUTDOWN to each of its children in the tree. -/
theorem left_passed_on (h : LoopReachable job q) {r : ℕ} (hleft : (q.rk r).pc = .left) :
    q.sendq r = [] ∧ (q.rk r).dtq.mpindequeuedsends = 0 ∧
      ∀ child ∈ binaryRouter 0 job.wsize r, (q.rk child).mgr.draining = true ∨
        ∃ frame ∈ ofPeer r (q.inbox child) ++ q.wire r child, frame.body = .bcastshutdown := by
  obtain ⟨hdraining, hdrained⟩ := reachable_leftDrained h r hleft
  obtain ⟨s, hs, hshows⟩ := exists_shows h
  obtain ⟨hsends, hout⟩ := (hshows.queues r).counts.drained hdrained
  have hsendq : q.sendq r = [] := by rw [LoopSys.sendq, hsends, List.map_nil]
  refine ⟨hsendq, hout, ?_⟩
  intro child hchild
  have hdd : draindown s r ≠ .init := by
    rw [← reachable_draining hs, hshows.mgr]
    exact hdraining
  rcases reachable_passedOn hs r hdd child hchild with hpassed | ⟨p, hp, hchan, hbody⟩
  · left
    rw [← hshows.mgr, reachable_draining hs]
    exact hpassed
  · right
    have hmem : p.frame ∈ netChannel s.net r child :=
      List.mem_map_of_mem (List.mem_filter.mpr ⟨hp, by simpa using hchan⟩)
    rw [hshows.channels, LoopSys.channel, hsendq] at hmem
    exact ⟨p.frame, by simpa [ofPeer] using hmem, hbody⟩

/-- The main function of `twoRanks` returns, and rank 0 leaves its loop before
rank 1 has heard of it. -/
theorem left_passed_on_returned : ∃ q : LoopSys, (q.rk 0).pc = .left ∧
    (q.rk 1).mgr.draining = false ∧
    ∃ frame ∈ ofPeer 0 (q.inbox 1) ++ q.wire 0 1, frame.body = .bcastshutdown := by
  have hret : LoopReachable twoRanks ((loopInit twoRanks).put 0
      (app0Return ((loopInit twoRanks).view 0) 0) .top) :=
    .tail .refl (.app 0 0 _ (by decide) (by decide) (.app0Return rfl rfl rfl))
  have htop := hret.tail (.service (.top 0 (by decide) rfl))
  have hdrain := htop.tail (.service (.drain 0 (by decide) rfl))
  have hwait := hdrain.tail (.service (.wait 0 _ _ _ (by decide) rfl rfl))
  have hmqe := hwait.tail (.service (.noMqe 0 _ (by decide) rfl))
  have hreq := hmqe.tail (.service (.req 0 _ _ (by decide) rfl rfl))
  have hisend := hreq.tail (.service (.isend 0 _ _ (by decide) rfl))
  have hsent := hisend.tail (.service (.sent 0 0 (by decide) (by decide)))
  have htop' := hsent.tail (.service (.top 0 (by decide) rfl))
  have hleft := htop'.tail (.service (.drain 0 (by decide) rfl))
  obtain ⟨-, -, hpassed⟩ := left_passed_on hleft (r := 0) rfl
  have hwire := (hpassed 1 (by decide)).resolve_left (by decide)
  exact ⟨_, rfl, rfl, hwire⟩

end Loops

end Dthread.ShutdownDelivery
