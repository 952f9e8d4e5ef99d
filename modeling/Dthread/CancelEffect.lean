import Dthread.LifeRefinement

/-!
Cancellation. A thread is found for a cancel through the link from the shared
table to its local slot, which dthreadwrap sets up some time after the slot was
taken. Before that a cancel is acknowledged and does nothing.
-/
namespace Dthread.CancelEffect

open ReqMsg Queuing ManagerTables ManagerHandlers ManagerEffects ManagerOutcomes AppThreads
open FifoNet JobSystem TableWrites RequestReply LocalSlots ThreadLife LifeRefinement

/-- The thread's control point is inside its application function or on the
way out of it. -/
def Published (lt : Ltab) : Prop :=
  lt.pc = .app ∨ lt.pc = .exiting ∨ ∃ returned, lt.pc = .cleanup returned

/-- What the shared entry of a thread says about its slot `l`. -/
structure Linked (gt : Gtab) (l : ℕ) (lt : Ltab) : Prop where
  seq : gt.seq = lt.seq
  -- dthreadwrap writes the link after it has found its entry
  unpublished : lt.pc = .starting → gt.hasLtab = false
  published : Published lt → gt.hasLtab = true ∧ gt.ltabIdx = l

/-- The part of an entry that the link reads. -/
def SameLink (gt gt' : Gtab) : Prop :=
  gt'.seq = gt.seq ∧ gt'.hasLtab = gt.hasLtab ∧ gt'.ltabIdx = gt.ltabIdx

theorem Linked.congr {gt gt' : Gtab} {l : ℕ} {lt lt' : Ltab} (h : Linked gt l lt)
    (hgt : SameLink gt gt') (hseq : lt'.seq = lt.seq) (hpc : lt'.pc = lt.pc) :
    Linked gt' l lt' where
  seq := hgt.1.trans (h.seq.trans hseq.symm)
  unpublished hstarting := hgt.2.1.trans (h.unpublished (hpc.symm.trans hstarting))
  published hpub := by
    have hold : Published lt := by
      unfold Published at hpub ⊢
      rwa [← hpc]
    rw [hgt.2.1, hgt.2.2]
    exact h.published hold

def LinkOk (job : Job) (s : Sys) : Prop :=
  ∀ r l, ((s.rk r).mgr.ltab l).pthState ≠ .none → l < job.nmaxthread ∧
    Linked (s.gtab ((s.rk r).mgr.ltab l).gtabIdx) l ((s.rk r).mgr.ltab l)

theorem slots_eq_some {job : Job} {s : Sys} {r l : ℕ}
    (h : ((s.rk r).mgr.ltab l).pthState ≠ .none) :
    (life job s).slots r l = some ((s.rk r).mgr.ltab l).gtabIdx := by
  simp [life, slotOf, h]

theorem sameLink_of_ne {gtab gt : ℕ → Gtab} {i k : ℕ} (hothers : ∀ j, j ≠ k → gt j = gtab j)
    (hne : i ≠ k) : SameLink (gtab i) (gt i) := by
  rw [hothers i hne]
  exact ⟨rfl, rfl, rfl⟩

/-- No message touches the link of a thread that has a slot. -/
theorem recv_sameLink {job : Job} {s : Sys} {p : Packet} {net : List Packet} {addr : ℕ} {m : Mgr}
    {gt : ℕ → Gtab} {out : List Post} (hf : Facts job s) (hok : LifeOk (life job s))
    (hd : Deliver Packet.chan s.net p net)
    (ho : MqeOutcome job (s.view p.dst) ⟨addr, p.src, p.frame⟩ m gt out) {r l i : ℕ}
    (hslot : (life job s).slots r l = some i) : SameLink (s.gtab i) (gt i) := by
  have hlive : isLive (s.gtab i) = true := by
    have hmem := hok.hostLive hslot
    simp only [life, liveSet, Finset.mem_filter] at hmem
    exact hmem.2
  have hsame : SameLink (s.gtab i) (s.gtab i) := ⟨rfl, rfl, rfl⟩
  have halloc : (s.gtab i).allocated = true := by
    simp only [isLive, Bool.and_eq_true] at hlive
    exact hlive.1
  -- a thread whose letter arrives has no slot any more
  have hletter {q : Letter} {k : ℕ} (hq : letterOf p = some q)
      (hclaim : claims (life job s).starts k q = true) : i ≠ k := by
    rintro rfl
    have hmem : q ∈ (life job s).net := List.mem_filterMap.mpr ⟨p, hd.mem, hq⟩
    exact hok.not_hosted hmem hclaim hslot
  have hended {thread : DThread} {fin : LtState} (hb : p.frame.body = .terminated thread fin) :
      i ≠ thread.dtIndex := by
    refine hletter (q := ⟨p.src, p.dst, .ended thread.dtIndex⟩) (by simp [letterOf, hb]) ?_
    simp [claims]
  -- a detach writes a flag that the link does not read
  have hdetach (k : ℕ) : SameLink (s.gtab i)
      (Function.update s.gtab k { s.gtab k with detached := true } i) := by
    by_cases hi : i = k
    · rw [hi, Function.update_self]
      exact ⟨rfl, rfl, rfl⟩
    · exact sameLink_of_ne (fun j hj => Function.update_of_ne hj _ _) hi
  -- a new thread gets an entry that was free
  have hfree {k : ℕ} (hk : (s.gtab k).allocated = false) : i ≠ k := by
    rintro rfl
    rw [halloc] at hk
    exact Bool.noConfusion hk
  cases ho with
  | createOk attrs dispIdx arg n gidx xidseq hb hdisp hroom hgidx hlt hxid hinit =>
    exact sameLink_of_ne (fun j hj => Function.update_of_ne hj _ _) (hfree hgidx)
  | createDrain attrs dispIdx arg gidx xidseq hb hgidx hlt hdrain =>
    exact sameLink_of_ne (fun j hj => Function.update_of_ne hj _ _) (hfree hgidx)
  | detachPlain thread hb h hw => exact hdetach _
  | detachWait thread rqe hb h hw => exact hdetach _
  | joinZombie thread hb h hdet hz =>
    -- the joined thread has ended, so it is not the one in the slot
    refine sameLink_of_ne (fun j hj => freeGtab_of_ne _ hj) ?_
    rintro rfl
    have hz' : (s.gtab thread.dtIndex).terminated.needFinalstate = false := hz
    simp [isLive, hz'] at hlive
  | terminatedZombie thread fin hb hlen hlt hseq hfin hdet hw =>
    exact sameLink_of_ne (fun j hj => zombieGtab_of_ne _ _ _ hj) (hended hb)
  | terminatedDetached thread fin hb hlen hlt hseq hfin hdet hw =>
    exact sameLink_of_ne (fun j hj => freeGtab_cleanup_of_ne hj) (hended hb)
  | terminatedJoined thread fin rqe hb hlen hlt hseq hfin hdet hw =>
    exact sameLink_of_ne (fun j hj => freeGtab_zombie_of_ne hj) (hended hb)
  | terminatedDetachedJoined thread fin rqe hb hlen hlt hseq hfin hdet hw =>
    exact sameLink_of_ne (fun j hj => freeGtab_cleanup_of_ne hj) (hended hb)
  | startedErr rqe e hb he h =>
    simp only at hb
    have hdst : p.dst = 0 := hf.wellformed.rank0 p hd.mem (by rw [hb]; rfl)
    simp only [Sys.view, hdst] at h
    -- the START that failed still claims its entry
    obtain ⟨hxid, hop⟩ := findPendingReq_spec h
    refine sameLink_of_ne (fun j hj => freeGtab_of_ne _ hj)
      (hletter (q := ⟨p.src, p.dst, .started false p.frame.xidseq⟩) ?_ ?_)
    · simp [letterOf, hb, he]
    · exact List.any_eq_true.mpr ⟨_, mem_starts (List.mem_of_find?_eq_some h) hop, by simp [hxid]⟩
  | _ => exact hsame

/-- A slot whose entry in the local table changes only in its request or by a
cancel. -/
def SameThread (lt lt' : Ltab) : Prop :=
  lt'.gtabIdx = lt.gtabIdx ∧ lt'.seq = lt.seq ∧ lt'.pc = lt.pc ∧
    (lt'.pthState ≠ .none → lt.pthState ≠ .none)

theorem SameThread.refl (lt : Ltab) : SameThread lt lt := ⟨rfl, rfl, rfl, id⟩

theorem sameThread_update {ltab : ℕ → Ltab} {k : ℕ} {lt : Ltab} (h : SameThread (ltab k) lt)
    (l : ℕ) : SameThread (ltab l) (Function.update ltab k lt l) := by
  by_cases hl : l = k
  · rw [hl, Function.update_self]
    exact h
  · rw [Function.update_of_ne hl]
    exact .refl _

theorem sameThread_release (ltab : ℕ → Ltab) (rqe : Request) (notify : Bool) (l : ℕ) :
    SameThread (ltab l) (releaseLtab ltab rqe notify l) := by
  cases haddr : rqe.addr with
  | internal n =>
    simp only [releaseLtab, haddr]
    exact .refl _
  | ltab k =>
    simp only [releaseLtab, haddr]
    exact sameThread_update (by exact ⟨rfl, rfl, rfl, id⟩) l

section Steps

variable {job : Job} {s s' : Sys} {k : ℕ} {m : Mgr} {gt : ℕ → Gtab} {rq : List Request}
  {net : List Packet} {posts : List Post}

/-- A step of rank `k` that keeps the links of the other ranks' threads. -/
theorem LinkOk.change (h : LinkOk job s) (hc : Change s s' k m gt rq net posts)
    (hothers : ∀ r l i, r ≠ k → (life job s).slots r l = some i → SameLink (s.gtab i) (gt i))
    (hself : ∀ l, (m.ltab l).pthState ≠ .none → l < job.nmaxthread ∧
      Linked (gt (m.ltab l).gtabIdx) l (m.ltab l)) : LinkOk job s' := by
  intro r l hused
  by_cases hr : r = k
  · subst hr
    rw [hc.mgr] at hused ⊢
    rw [hc.gtab]
    exact hself l hused
  · rw [hc.others r hr] at hused ⊢
    obtain ⟨hl, hlink⟩ := h r l hused
    rw [hc.gtab]
    exact ⟨hl, hlink.congr (hothers r l _ hr (slots_eq_some hused)) rfl rfl⟩

/-- A slot of rank `k` that keeps its thread keeps its link. -/
theorem LinkOk.keep (h : LinkOk job s) {l : ℕ} {lt : Ltab}
    (hsame : SameThread ((s.rk k).mgr.ltab l) lt) (hused : lt.pthState ≠ .none)
    (hgt : SameLink (s.gtab ((s.rk k).mgr.ltab l).gtabIdx)
      (gt ((s.rk k).mgr.ltab l).gtabIdx)) :
    l < job.nmaxthread ∧ Linked (gt lt.gtabIdx) l lt := by
  obtain ⟨hidx, hseq, hpc, hold⟩ := hsame
  obtain ⟨hl, hlink⟩ := h k l (hold hused)
  rw [hidx]
  exact ⟨hl, hlink.congr hgt hseq hpc⟩

theorem linkOk_app (h : LinkOk job s) (hf : Facts job s) (hok : LifeOk (life job s)) {l : ℕ}
    (hl : l < job.nmaxthread) {lt : Ltab} {g : Gtab}
    (ho : AppOutcome job l ((s.rk k).mgr.ltab l) s.gtab lt g rq)
    (hc : Change s s' k ((s.rk k).mgr.setLtab l lt)
      (Function.update s.gtab ((s.rk k).mgr.ltab l).gtabIdx g)
      ((s.rk k).dtq.mgrreqq ++ rq) s.net []) : LinkOk job s' := by
  have hentry := (hf.slots k).entry l
  have hpc : ((s.rk k).mgr.ltab l).pc ≠ .none := by
    cases ho with
    | silent hpc hbad => simp [hpc]
    | retclean state ret hpc hfinal hkeep => rcases hpc with hpc | ⟨b, hpc⟩ <;> simp [hpc]
    | publish hpc hseq => simp [hpc]
    | post body peer addr hpc hidle hpeer => simp [hpc]
    | collect hpc hdone => simp [hpc]
    | leave pc state ret hpc hpc' hstate => rcases hpc with ⟨hpc, -⟩ | hpc <;> simp [hpc]
    | app0Return hpc hidle hdisp => simp [hpc]
  -- a thread that takes a step has a slot
  have hused := hentry.used_of_pc hpc
  obtain ⟨-, hlink⟩ := h k l hused
  -- the other slots have other threads
  have hother (r l' i : ℕ) (hne : ¬ (r = k ∧ l' = l)) (hslot : (life job s).slots r l' = some i) :
      SameLink (s.gtab i)
        (Function.update s.gtab ((s.rk k).mgr.ltab l).gtabIdx g i) := by
    refine sameLink_of_ne (fun j hj => Function.update_of_ne hj _ _) ?_
    rintro rfl
    exact hne (hok.unique (slots_eq_some hused) hslot)
  refine h.change hc (fun r l' i hr hslot => hother r l' i (fun hrl => hr hrl.1) hslot)
    fun l' hused' => ?_
  by_cases hl' : l' = l
  · subst hl'
    simp only [Mgr.setLtab, Function.update_self]
    refine ⟨hl, ?_⟩
    cases ho with
    -- the ways out leave a control point that asks nothing of the link
    | silent hpc hbad =>
      rw [Function.update_self]
      exact ⟨hlink.seq, by simp, by simp [Published]⟩
    | retclean state ret hpc hfinal hkeep =>
      rw [Function.update_self]
      exact ⟨hlink.seq, by simp, by simp [Published]⟩
    | publish hpc hseq =>
      rw [Function.update_self]
      exact ⟨hlink.seq, by simp, fun _ => ⟨rfl, rfl⟩⟩
    | post body peer addr hpc hidle hpeer =>
      rw [Function.update_self]
      exact hlink.congr ⟨rfl, rfl, rfl⟩ rfl rfl
    | collect hpc hdone =>
      rw [Function.update_self]
      exact hlink.congr ⟨rfl, rfl, rfl⟩ rfl rfl
    | leave pc state ret hpc hpc' hstate =>
      rw [Function.update_self]
      have hpub : Published ((s.rk k).mgr.ltab l') := by
        rcases hpc with ⟨hpc, -⟩ | hpc
        · exact .inl hpc
        · exact .inr (.inl hpc)
      refine ⟨hlink.seq, fun hstarting => ?_, fun _ => hlink.published hpub⟩
      rcases hpc' with rfl | ⟨b, rfl⟩ <;> simp at hstarting
    | app0Return hpc hidle hdisp =>
      rw [Function.update_self]
      exact ⟨hlink.seq, by simp, by simp [Published]⟩
  · simp only [Mgr.setLtab, Function.update_of_ne hl'] at hused' ⊢
    exact h.keep (.refl _) hused' (hother k l' _ (fun hrl => hl' hrl.2) (slots_eq_some hused'))

theorem linkOk_recv (h : LinkOk job s) (hf : Facts job s) (hok : LifeOk (life job s))
    {p : Packet} {addr : ℕ} {out : List Post} (hd : Deliver Packet.chan s.net p net)
    (ho : MqeOutcome job (s.view p.dst) ⟨addr, p.src, p.frame⟩ m gt out)
    (hc : Change s s' p.dst m gt rq net posts) : LinkOk job s' := by
  have hlink {r l i : ℕ} (hslot : (life job s).slots r l = some i) :
      SameLink (s.gtab i) (gt i) := recv_sameLink hf hok hd ho hslot
  refine h.change hc (fun r l i _ hslot => hlink hslot) fun l hused => ?_
  have hkeep (hsame : SameThread ((s.rk p.dst).mgr.ltab l) (m.ltab l)) :
      l < job.nmaxthread ∧ Linked (gt (m.ltab l).gtabIdx) l (m.ltab l) :=
    h.keep hsame hused (hlink (slots_eq_some (hsame.2.2.2 hused)))
  cases ho with
  | startOk thread attrs l₀ hb hvalid hfree hlt =>
    by_cases hl : l = l₀
    · subst hl
      unfold startInvalid at hvalid
      push Not at hvalid
      -- start_thread has checked that the entry has no link yet
      obtain ⟨-, hseq, -, -, -, hnolink⟩ := hvalid
      simp only [startedMgr, Mgr.setLtab, Function.update_self]
      exact ⟨hlt, hseq.symm, fun _ => by simpa using hnolink, by simp [Published]⟩
    · refine hkeep ?_
      simp only [startedMgr, Mgr.setLtab, Function.update_of_ne hl]
      exact .refl _
  | startFail thread attrs l₀ e hb hvalid hfree hlt he =>
    by_cases hl : l = l₀
    · subst hl
      simp [unstartedMgr, Mgr.setLtab] at hused
    · refine hkeep ?_
      simp only [unstartedMgr, Mgr.setLtab, Function.update_of_ne hl]
      exact .refl _
  | cancelHit thread l₀ hb hgt hl hhas hlt hseq =>
    refine hkeep (sameThread_update ?_ l)
    unfold cancelLtab
    split
    · rename_i hrun
      have hrun' : ((s.rk p.dst).mgr.ltab l₀).pthState = .running := hrun
      exact ⟨rfl, rfl, rfl, fun _ => by simp [hrun']⟩
    · exact .refl _
  | detachWait | terminatedJoined | terminatedDetachedJoined | startedOk | startedErr | reply =>
    exact hkeep (sameThread_release _ _ _ _)
  | _ => exact hkeep (.refl _)

theorem linkOk_req (h : LinkOk job s) (hf : Facts job s) (hok : LifeOk (life job s))
    {rqe : Request} {rest : List Request} {out : List Post}
    (hq : (s.rk k).dtq.mgrreqq = rqe :: rest) (ho : ReqOutcome job (s.view k) rqe m gt out)
    (hc : Change s s' k m gt rest net posts) : LinkOk job s' := by
  cases ho with
  | retclean l haddr hlt hbusy hop =>
    have hmem : rqe ∈ (s.rk k).dtq.mgrreqq := by
      rw [hq]
      exact List.mem_cons_self
    have hused := ((hf.slots k).issued_of_mem (List.mem_append_left _ hmem) haddr).1
    have hother (r l' i : ℕ) (hne : ¬ (r = k ∧ l' = l))
        (hslot : (life job s).slots r l' = some i) :
        SameLink (s.gtab i) (retcleanGtab (s.rk k).mgr s.gtab l i) := by
      have hi : i ≠ ((s.rk k).mgr.ltab l).gtabIdx := by
        rintro rfl
        exact hne (hok.unique (slots_eq_some hused) hslot)
      unfold retcleanGtab
      split
      · exact sameLink_of_ne (fun j hj => Function.update_of_ne hj _ _) hi
      · exact ⟨rfl, rfl, rfl⟩
    refine h.change hc (fun r l' i hr hslot => hother r l' i (fun hrl => hr hrl.1) hslot)
      fun l' hused' => ?_
    simp only [Sys.view] at hused' ⊢
    rw [retclean_ltab haddr hused] at hused' ⊢
    by_cases hl : l' = l
    -- the slot is free again
    · subst hl
      simp at hused'
    · rw [Function.update_of_ne hl] at hused' ⊢
      exact h.keep (.refl _) hused' (hother k l' _ (fun hrl => hl hrl.2) (slots_eq_some hused'))
  | bad hbad =>
    exact h.change hc (fun _ _ _ _ _ => ⟨rfl, rfl, rfl⟩) fun l hused =>
      h.keep (sameThread_release _ _ _ _) hused ⟨rfl, rfl, rfl⟩
  | forward l mqe xidseq haddr hlt hbusy hop hmqe hxid hd =>
    exact h.change hc (fun _ _ _ _ _ => ⟨rfl, rfl, rfl⟩) fun l hused =>
      h.keep (.refl _) hused ⟨rfl, rfl, rfl⟩
  | forwardDrain l xidseq haddr hlt hbusy hop hd =>
    exact h.change hc (fun _ _ _ _ _ => ⟨rfl, rfl, rfl⟩) fun l hused =>
      h.keep (sameThread_release _ _ _ _) hused ⟨rfl, rfl, rfl⟩
  | app0Other l haddr hop hrank =>
    exact h.change hc (fun _ _ _ _ _ => ⟨rfl, rfl, rfl⟩) fun l hused =>
      h.keep (sameThread_release _ _ _ _) hused ⟨rfl, rfl, rfl⟩

end Steps

theorem linkOk_init (job : Job) : LinkOk job (sysInit job) := by
  intro r l hused
  by_cases hr : r = 0
  · subst hr
    by_cases hl : l = 0
    · subst hl
      refine ⟨job.nmaxthread_pos, ?_⟩
      exact ⟨by simp [sysInit, mgrStartapp, Mgr.setLtab],
        by simp [sysInit, mgrStartapp, Mgr.setLtab], by simp [sysInit, mgrStartapp, Mgr.setLtab]⟩
    · simp [sysInit, mgrStartapp, Mgr.setLtab, mgrInit, hl, Ltab.zero] at hused
  · simp [sysInit, hr, mgrInit, Ltab.zero] at hused

theorem linkOk_step {job : Job} {s s' : Sys} (h : LinkOk job s) (hf : Facts job s)
    (hok : LifeOk (life job s)) {o : Option Packet} (hs : StepCase job s s' o) : LinkOk job s' := by
  cases hs with
  | app r l lt gt rq hr hl hdd ho hc => exact linkOk_app h hf hok hl ho hc
  | recv p net addr m gt out hr hd hdd ho hc => exact linkOk_recv h hf hok hd ho hc
  | recvShutdown p net hr hd hb hdd hc =>
    exact h.change hc (fun _ _ _ _ _ => ⟨rfl, rfl, rfl⟩) fun l hused =>
      h.keep (.refl _) hused ⟨rfl, rfl, rfl⟩
  | req r rqe rest m gt out hr hq hdd ho hc => exact linkOk_req h hf hok hq ho hc
  | reqShutdown r l rqe rest hr hq hop haddr hrank hdd hc =>
    exact h.change hc (fun _ _ _ _ _ => ⟨rfl, rfl, rfl⟩) fun l hused =>
      h.keep (sameThread_release _ _ _ _) hused ⟨rfl, rfl, rfl⟩
  | shutdown hidle hdrain hdd hc =>
    exact h.change hc (fun _ _ _ _ _ => ⟨rfl, rfl, rfl⟩) fun l hused =>
      h.keep (.refl _) hused ⟨rfl, rfl, rfl⟩

theorem reachable_linkOk {job : Job} {s : Sys} (h : Reachable job s) : LinkOk job s :=
  h.invariant (I := LinkOk job) (linkOk_init job) fun _ _ hr hi hs =>
    linkOk_step hi (reachable_facts hr) (reachable_lifeOk hr) hs

/-- The reply that tells the caller its cancel succeeded. -/
def canceledPost (mqe : Mqe) : Post := (mqe.peer, .of mqe.frame.xidseq (.canceled 0))

/-- The local table after cancel_thread, for a handle of a thread of this rank
that has the slot its link names. -/
theorem cancelThread_hit {job : Job} {v : View} {thread : DThread} (mqe : Mqe)
    (hgt : dt2gtab job v.gtab thread = some thread.dtIndex)
    (hrank : (v.gtab thread.dtIndex).rank = v.mgr.mpiRank)
    (hlink : (v.gtab thread.dtIndex).hasLtab = true ∧
      (v.gtab thread.dtIndex).ltabIdx < job.nmaxthread ∧
      (v.mgr.ltab (v.gtab thread.dtIndex).ltabIdx).seq = (v.gtab thread.dtIndex).seq) :
    (cancelThread job v mqe thread).mgr.ltab (v.gtab thread.dtIndex).ltabIdx =
      cancelLtab (v.mgr.ltab (v.gtab thread.dtIndex).ltabIdx) := by
  simp [cancelThread, hgt, hrank, hlink, sendOrUnalloc_mgr, View.setMgr, Mgr.setLtab]

theorem cancelThread_miss {job : Job} {v : View} {thread : DThread} (mqe : Mqe)
    (hgt : dt2gtab job v.gtab thread = some thread.dtIndex)
    (hrank : (v.gtab thread.dtIndex).rank = v.mgr.mpiRank)
    (hlink : (v.gtab thread.dtIndex).hasLtab = false) :
    cancelThread job v mqe thread =
      sendOrUnalloc v (mqe.recycle mqe.frame.xidseq (.canceled 0)) := by
  simp [cancelThread, hgt, hrank, hlink]

/-- A cancel leaves a thread that is past its start in a final state. -/
theorem cancelLtab_final {lt : Ltab} (hnone : lt.pthState ≠ .none)
    (hstarting : lt.pthState ≠ .starting) :
    (cancelLtab lt).pthState.needFinalstate = false := by
  unfold cancelLtab
  split
  · rfl
  · cases hstate : lt.pthState <;> simp_all [LtState.needFinalstate, LtState.code]

theorem sendOrUnalloc_posts {v : View} (hquiet : v.dtq.accepted = []) (mqe : Mqe) :
    (sendOrUnalloc v mqe).dtq.accepted.map toPost =
      if v.dtq.mpisqDraindown = .init then [toPost mqe] else [] := by
  have hp := ((Effect.refl v).send mqe).posted
  simpa [hquiet] using hp

/-- cancel_thread ends in one reply, whatever it found. -/
theorem cancelThread_draining {job : Job} {v : View} (mqe : Mqe) (thread : DThread)
    (hquiet : v.dtq.accepted = []) (hdrain : v.dtq.mpisqDraindown ≠ .init) :
    (cancelThread job v mqe thread).dtq.accepted.map toPost = [] := by
  have hreply (w : View) (reply : Mqe) (hw : w.dtq = v.dtq) :
      (sendOrUnalloc w reply).dtq.accepted.map toPost = [] := by
    rw [← hw] at hquiet hdrain
    rw [sendOrUnalloc_posts hquiet, if_neg hdrain]
  unfold cancelThread
  simp only
  split
  · exact hreply v _ rfl
  · split
    · exact hreply v _ rfl
    · split
      · exact hreply _ _ rfl
      · exact hreply v _ rfl

/-- For a thread that has a slot and has not posted its RETCLEAN: if a cancel is
acknowledged with success the thread is in a final state, exactly when the
thread had published its slot before, or the rank is draining and does not
reply. -/
theorem cancel_takes_effect_iff {job : Job} {s : Sys} (h : Reachable job s) {r l : ℕ}
    {thread : DThread} (mqe : Mqe)
    (hgt : dt2gtab job s.gtab thread = some thread.dtIndex)
    (hrank : (s.gtab thread.dtIndex).rank = r)
    (hidx : ((s.rk r).mgr.ltab l).gtabIdx = thread.dtIndex)
    (hused : ((s.rk r).mgr.ltab l).pthState ≠ .none)
    (hended : ((s.rk r).mgr.ltab l).pc ≠ .ended) :
    (canceledPost mqe ∈ (cancelThread job (s.view r) mqe thread).dtq.accepted.map toPost →
        ((cancelThread job (s.view r) mqe thread).mgr.ltab l).pthState.needFinalstate = false) ↔
      ((s.rk r).mgr.ltab l).pc ≠ .starting ∨ draindown s r ≠ .init := by
  have hquiet := (h.sane.quiet r).2
  have hself : (s.gtab thread.dtIndex).rank = (s.view r).mgr.mpiRank := by
    rw [hrank]
    exact (h.sane.rank r).symm
  obtain ⟨hl, hlink⟩ := reachable_linkOk h r l hused
  have hentry := (reachable_slotsOk h r).entry l
  rw [hidx] at hlink
  constructor
  · intro hprop
    by_contra hcontra
    push Not at hcontra
    obtain ⟨hstarting, hinit⟩ := hcontra
    -- without a link the cancel is acknowledged and the slot stays in LT_STARTING
    have hmiss := cancelThread_miss (v := s.view r) mqe hgt hself (hlink.unpublished hstarting)
    rw [hmiss, sendOrUnalloc_posts hquiet] at hprop
    have hinit' : (s.view r).dtq.mpisqDraindown = .init := hinit
    rw [if_pos hinit', sendOrUnalloc_mgr] at hprop
    have hfinal := hprop (List.mem_singleton_self _)
    have hstate : ((s.rk r).mgr.ltab l).pthState = .starting := by
      simpa [LtabOk, hstarting] using hentry
    simp [Sys.view, hstate, LtState.needFinalstate, LtState.code] at hfinal
  · rintro (hpc | hdrain) hreply
    -- the link leads to this slot, which is past its start
    · have hstate : ((s.rk r).mgr.ltab l).pthState ≠ .starting ∧
          Published ((s.rk r).mgr.ltab l) := by
        unfold LtabOk at hentry
        unfold Published
        cases hcase : ((s.rk r).mgr.ltab l).pc <;> simp_all
      obtain ⟨hhas, hslot⟩ := hlink.published hstate.2
      have hhit := cancelThread_hit (v := s.view r) mqe hgt hself
        ⟨hhas, hslot.trans_lt hl, by
          rw [show (s.view r).gtab = s.gtab from rfl, hslot]
          exact hlink.seq.symm⟩
      rw [show (s.view r).gtab = s.gtab from rfl, hslot] at hhit
      rw [hhit]
      exact cancelLtab_final hused hstate.1
    · rw [cancelThread_draining mqe thread hquiet hdrain] at hreply
      exact absurd hreply List.not_mem_nil

/-- A cancel of the main thread of `twoRanks`, which is running. -/
theorem cancel_takes_effect_iff_main :
    canceledPost ⟨0, 1, .of 3 (.cancel ⟨0, 2⟩)⟩ ∈ (cancelThread twoRanks
        ((sysInit twoRanks).view 0) ⟨0, 1, .of 3 (.cancel ⟨0, 2⟩)⟩
        ⟨0, 2⟩).dtq.accepted.map toPost ∧
      ((cancelThread twoRanks ((sysInit twoRanks).view 0) ⟨0, 1, .of 3 (.cancel ⟨0, 2⟩)⟩
        ⟨0, 2⟩).mgr.ltab 0).pthState.needFinalstate = false := by
  have hposted : canceledPost ⟨0, 1, .of 3 (.cancel ⟨0, 2⟩)⟩ ∈ (cancelThread twoRanks
      ((sysInit twoRanks).view 0) ⟨0, 1, .of 3 (.cancel ⟨0, 2⟩)⟩
      ⟨0, 2⟩).dtq.accepted.map toPost := by
    have hlist : (cancelThread twoRanks ((sysInit twoRanks).view 0)
        ⟨0, 1, .of 3 (.cancel ⟨0, 2⟩)⟩ ⟨0, 2⟩).dtq.accepted.map toPost =
        [canceledPost ⟨0, 1, .of 3 (.cancel ⟨0, 2⟩)⟩] := rfl
    simp [hlist]
  exact ⟨hposted, (cancel_takes_effect_iff (r := 0) (l := 0) Relation.ReflTransGen.refl _ rfl rfl
    rfl (by decide) (by decide)).mpr (.inl (by decide)) hposted⟩

/-- A thread of `twoRanks` is created and cancelled before its dthreadwrap has
published it. The CANCELED reports success, the thread stays in LT_STARTING,
and then it enters its application function as LT_RUNNING. -/
theorem canceled_before_publish_runs :
    ∃ s s' : Sys, Reachable twoRanks s ∧ Reachable twoRanks s' ∧
      (s.gtab 1).allocated = true ∧ (s.gtab 1).seq = 6 ∧ (s.gtab 1).rank = 1 ∧
      ((s.rk 1).mgr.ltab 0).gtabIdx = 1 ∧ ((s.rk 1).mgr.ltab 0).pthState = .starting ∧
      s.net = [⟨0, 1, .of 10 (.cancel ⟨1, 6⟩)⟩] ∧
      (cancelThread twoRanks (s.view 1) ⟨0, 0, .of 10 (.cancel ⟨1, 6⟩)⟩
        ⟨1, 6⟩).dtq.accepted.map toPost = [canceledPost ⟨0, 0, .of 10 (.cancel ⟨1, 6⟩)⟩] ∧
      ((cancelThread twoRanks (s.view 1) ⟨0, 0, .of 10 (.cancel ⟨1, 6⟩)⟩
        ⟨1, 6⟩).mgr.ltab 0).pthState.needFinalstate = true ∧
      s'.net = [⟨1, 0, .of 10 (.canceled 0)⟩] ∧
      ((s'.rk 1).mgr.ltab 0).pthState = .running := by
  -- CREATE, START, STARTED and CREATED are delivered in turn
  have hcreated : Reachable twoRanks _ := .tail (.tail (.tail (.tail createForwarded_reachable
    (.recv ⟨0, 0, _⟩ _ 0 0 _ (by decide) ⟨[], [], rfl, rfl, by simp⟩ rfl))
    (.recv ⟨0, 1, _⟩ _ 0 0 _ (by decide) ⟨[], [], rfl, rfl, by simp⟩ rfl))
    (.recv ⟨1, 0, _⟩ _ 0 0 _ (by decide) ⟨[], [], rfl, rfl, by simp⟩ rfl))
    (.recv ⟨0, 0, _⟩ _ 0 0 _ (by decide) ⟨[], [], rfl, rfl, by simp⟩ rfl)
  -- the main thread cancels the new thread
  have hcancel : Reachable twoRanks _ := .tail (.tail (.tail hcreated
    (.app 0 0 _ (by decide) (by decide) (.collect rfl rfl)))
    (.app 0 0 _ (by decide) (by decide) (.post (.cancel ⟨1, 6⟩) 1 rfl rfl rfl)))
    (.req 0 _ _ _ (by decide) rfl rfl)
  have hrun : Reachable twoRanks _ := .tail (.tail hcancel
    (.recv ⟨0, 1, _⟩ _ 0 0 _ (by decide) ⟨[], [], rfl, rfl, by simp⟩ rfl))
    (.app 1 0 _ (by decide) (by decide) (.publish rfl (by decide) rfl (by decide)))
  exact ⟨_, _, hcancel, hrun, rfl, rfl, rfl, rfl, rfl, rfl, rfl, rfl, rfl, rfl⟩

end Dthread.CancelEffect
