import Dthread.FateRuns
import Dthread.Joins
import Dthread.ManagerWork
import Dthread.ThreadPlaces

/-!
When nothing moves any more. A job that is not shutting down and in which no
step is possible has threads that join each other in a circle; the library adds
no deadlock of its own. A thread that has ended has its last request in the
queue, a thread that runs can go on unless it is inside a call, and a call that
stays open is a join of a thread that sits in a slot.
-/
namespace Dthread.JoinDeadlock

open ReqMsg Queuing ManagerTables ManagerHandlers ManagerEffects ManagerOutcomes AppThreads
open FifoNet JobSystem TableWrites RequestReply LocalSlots ThreadLife LifeRefinement TableSteps
open RequestLists HandlersReturn ManagerWork ThreadPlaces Quiescence
open Joins (Waits Waitable)

section Endings

/-- The slots that are in use, and the threads that have ended. Only the thread
of rank 0 that runs the application's main function ends with an APP0_RET. -/
structure Endings (job : Job) (s : Sys) : Prop where
  used : ∀ r l, ((s.rk r).mgr.ltab l).pthState ≠ .none → l < job.nmaxthread
  main : ∀ i, (s.gtab i).allocated = true → (s.gtab i).dispIdx = 0 → (s.gtab i).rank = 0
  queued : ∀ r, ∀ rqe ∈ (s.rk r).dtq.mgrreqq, rqe.reqop = .app0Ret → r = 0
  ended : ∀ r l, ((s.rk r).mgr.ltab l).pc = .ended →
    ((s.rk r).mgr.ltab l).reqstate = .busy ∨ draindown s 0 ≠ .init

/-- A slot that is not taken and whose thread does not end in this step. -/
def SlotKept (lt lt' : Ltab) : Prop :=
  (lt'.pthState ≠ .none → lt.pthState ≠ .none) ∧
    (lt'.pc = .ended → lt.pc = .ended ∧ lt'.reqstate = lt.reqstate)

def SlotMoves (job : Job) (ltab ltab' : ℕ → Ltab) : Prop :=
  ∀ l, SlotKept (ltab l) (ltab' l) ∨ l < job.nmaxthread ∧ (ltab' l).pc ≠ .ended

variable {job : Job} {s s' : Sys}

theorem SlotKept.refl (lt : Ltab) : SlotKept lt lt := ⟨id, fun h => ⟨h, rfl⟩⟩

theorem SlotMoves.refl (job : Job) (ltab : ℕ → Ltab) : SlotMoves job ltab ltab :=
  fun l => .inl (.refl (ltab l))

theorem slotMoves_update {ltab : ℕ → Ltab} {l : ℕ} {lt : Ltab}
    (h : SlotKept (ltab l) lt ∨ l < job.nmaxthread ∧ lt.pc ≠ .ended) :
    SlotMoves job ltab (Function.update ltab l lt) := by
  intro k
  by_cases hk : k = l
  · rw [hk, Function.update_self]
    exact h
  · rw [Function.update_of_ne hk]
    exact .inl (.refl _)

/-- A request is released for a thread that has not ended. -/
theorem slotMoves_release {ltab : ℕ → Ltab} {rqe : Request} (notify : Bool)
    (hpc : ∀ l, rqe.addr = .ltab l → (ltab l).pc ≠ .ended) :
    SlotMoves job ltab (releaseLtab ltab rqe notify) := by
  cases haddr : rqe.addr with
  | internal n =>
    simp only [releaseLtab, haddr]
    exact .refl _ _
  | ltab l =>
    simp only [releaseLtab, haddr]
    exact slotMoves_update (.inl ⟨id, fun hended => absurd hended (hpc l haddr)⟩)

/-- The requests that a message releases belong to threads inside a call. -/
theorem pending_not_ended {n : ℕ} {ltab : ℕ → Ltab} {ltabAlloc : ℤ} {queue rpending : List Request}
    (h : SlotsOk n ltab ltabAlloc queue rpending) {rqe : Request} (hrqe : rqe ∈ rpending) (l : ℕ)
    (haddr : rqe.addr = .ltab l) : (ltab l).pc ≠ .ended := by
  intro hended
  rcases h.waiting rqe hrqe with ⟨l', -, haddr', hop, hissued⟩ | ⟨⟨a, ha⟩, -⟩
  · obtain rfl : l = l' := by simpa [haddr] using haddr'
    obtain ⟨-, -, ⟨-, hpc⟩ | ⟨hop', -⟩ | ⟨hop', -⟩⟩ := hissued
    · simp [hpc] at hended
    · simp [hop', forwarded] at hop
    · simp [hop', forwarded] at hop
  · simp [haddr] at ha

theorem mqeOutcome_slotMoves {v : View} {mqe : Mqe} {m : Mgr} {gt : ℕ → Gtab} {out : List Post}
    (ho : MqeOutcome job v mqe m gt out)
    (hslots : SlotsOk job.nmaxthread v.mgr.ltab v.mgr.ltabAlloc v.dtq.mgrreqq v.mgr.rpending) :
    SlotMoves job v.mgr.ltab m.ltab := by
  have hrelease {rqe rqe' : Request} (notify : Bool) (hrqe : rqe ∈ v.mgr.rpending)
      (haddr : rqe'.addr = rqe.addr) :
      SlotMoves job v.mgr.ltab (releaseLtab v.mgr.ltab rqe' notify) :=
    slotMoves_release notify fun l hl => pending_not_ended hslots hrqe l (haddr ▸ hl)
  cases ho with
  | startOk thread attrs l hb h hfree hlt =>
    exact slotMoves_update (.inr ⟨hlt, by simp⟩)
  | startFail thread attrs l e hb h hfree hlt he =>
    exact slotMoves_update (.inr ⟨hlt, by simp⟩)
  | cancelHit thread l hb h hl hhas hlt hseq =>
    refine slotMoves_update (.inl ?_)
    unfold cancelLtab
    split
    · rename_i hrunning
      exact ⟨fun _ => by simp [hrunning], fun hended => ⟨hended, rfl⟩⟩
    · exact .refl _
  | detachWait thread rqe hb h hw => exact hrelease true (List.mem_of_find?_eq_some hw) rfl
  | terminatedJoined thread fin rqe hb hlen hlt hseq hfin hdet hw =>
    exact hrelease true (List.mem_of_find?_eq_some hw) rfl
  | terminatedDetachedJoined thread fin rqe hb hlen hlt hseq hfin hdet hw =>
    exact hrelease true (List.mem_of_find?_eq_some hw) rfl
  | startedOk rqe hb h => exact hrelease false (List.mem_of_find?_eq_some h) rfl
  | startedErr rqe e hb he h => exact hrelease false (List.mem_of_find?_eq_some h) rfl
  | reply op rqe rqe' hop h haddr => exact hrelease true (List.mem_of_find?_eq_some h) haddr
  | _ => exact .refl _ _

theorem reqOutcome_slotMoves {v : View} {rqe : Request} {m : Mgr} {gt : ℕ → Gtab}
    {out : List Post} (ho : ReqOutcome job v rqe m gt out)
    (hslots : SlotsOk job.nmaxthread v.mgr.ltab v.mgr.ltabAlloc v.dtq.mgrreqq v.mgr.rpending)
    (hmem : rqe ∈ v.dtq.mgrreqq) (hrank : rqe.reqop = .app0Ret → v.mgr.mpiRank = 0) :
    SlotMoves job v.mgr.ltab m.ltab := by
  obtain ⟨l, hl, haddr, hused, hbusy, hissued⟩ := hslots.queued rqe hmem
  cases ho with
  | bad h =>
    exfalso
    rcases h l haddr with hlt | hidle | ⟨hop, hclean, happ0⟩
    · omega
    · exact hidle hbusy
    · rcases hissued with ⟨hop', -⟩ | ⟨hop', -⟩ | ⟨hop', -⟩
      · rw [hop] at hop'
        exact Bool.noConfusion hop'
      · exact hclean hop'
      · exact happ0 hop'
  | forward l' mqe xidseq haddr' hlt hbusy' hop hmqe hxid hd => exact .refl _ _
  | forwardDrain l' xidseq haddr' hlt hbusy' hop hd =>
    refine slotMoves_release true fun k hk => ?_
    obtain rfl : l = k := by simpa [haddr] using hk
    rcases hissued with ⟨-, hpc⟩ | ⟨hop', -⟩ | ⟨hop', -⟩
    · simp [hpc]
    · simp [hop', forwarded] at hop
    · simp [hop', forwarded] at hop
  | retclean l' haddr' hlt hbusy' hop =>
    obtain rfl : l = l' := by simpa [haddr] using haddr'
    intro k
    simp only [releaseMgr, freeLtabMgr, releaseLtab, haddr, freeLtab, if_pos hused]
    by_cases hk : k = l
    · subst hk
      exact .inr ⟨hlt, by simp⟩
    · simp only [Function.update_of_ne hk]
      exact .inl (.refl _)
  | app0Other l' haddr' hop hother => exact absurd (hrank hop) hother

theorem Endings.init (job : Job) : Endings job (sysInit job) where
  used r l hused := by
    have hslot : (life job (sysInit job)).slots r l = _ := CancelEffect.slots_eq_some hused
    rw [life_init] at hslot
    simp only [setSlot] at hslot
    split at hslot
    · rename_i hrl
      rw [hrl.2]
      exact job.nmaxthread_pos
    · simp at hslot
  main i halloc hdisp := by
    by_cases hi : i = 0
    · subst hi
      rfl
    · simp [sysInit, mgrStartapp, hi, Gtab.zero] at halloc
  queued r rqe hrqe := by
    by_cases hr : r = 0
    · exact fun _ => hr
    · simp [sysInit, hr, dtqInit] at hrqe
  ended r l hended := by
    by_cases hr : r = 0
    · subst hr
      by_cases hl : l = 0
      · subst hl
        simp [sysInit, mgrStartapp, Mgr.setLtab] at hended
      · simp [sysInit, mgrStartapp, Mgr.setLtab, hl, mgrInit, Ltab.zero] at hended
    · simp [sysInit, hr, mgrInit, Ltab.zero] at hended

theorem created_dispIdx {v : View} {mqe : Mqe} {m : Mgr} {gt : ℕ → Gtab} {out : List Post} {i : ℕ}
    (ho : MqeOutcome job v mqe m gt out) (hop : mqe.frame.body.op = .create)
    (hold : (v.gtab i).allocated = false) (hnew : (gt i).allocated = true) :
    (gt i).dispIdx ≠ 0 := by
  have hupdate {k : ℕ} {x : Gtab} (h : (Function.update v.gtab k x i).allocated = true) :
      i = k := by
    by_contra hi
    rw [Function.update_of_ne hi, hold] at h
    exact Bool.noConfusion h
  cases ho with
  | createOk attrs dispIdx arg n gidx xidseq hb hdisp hroom hfree hlt hxid hinit =>
    rw [hupdate hnew, Function.update_self]
    exact hdisp.1
  | createDrain attrs dispIdx arg gidx xidseq hb hfree hlt hdrain =>
    rw [hupdate hnew, Function.update_self] at hnew
    exact absurd hnew (by simp)
  | createErr attrs dispIdx arg e next hb he hnext =>
    rw [hold] at hnew
    exact Bool.noConfusion hnew
  | drop h =>
    rw [hold] at hnew
    exact Bool.noConfusion hnew
  | reply op rqe rqe' hop h haddr =>
    rw [hold] at hnew
    exact Bool.noConfusion hnew
  | _ => simp_all [Body.op]

/-- A new thread does not run the application's main function. -/
theorem opened_dispIdx {o : Option Packet} (hs : StepCase job s s' o) {i : ℕ}
    (hold : (s.gtab i).allocated = false)
    (hnew : (s'.gtab i).allocated = true) : (s'.gtab i).dispIdx ≠ 0 := by
  have hsame (h : SameEntry (s.gtab i) (s'.gtab i)) : False := by
    rw [h.allocated, hold] at hnew
    exact Bool.noConfusion hnew
  cases hs with
  | app r l lt gt rq hr hl hdd ho hc =>
    refine (hsame ?_).elim
    rw [hc.gtab]
    exact sameEntry_update (appOutcome_sameEntry ho) i
  | recv p net addr m gt out hr hd hdd ho hc =>
    rw [hc.gtab] at hnew ⊢
    obtain ⟨-, -, -, -, -, -, -, -, hop⟩ := FateRuns.mqeOutcome_opens ho hold hnew
    exact created_dispIdx ho hop hold hnew
  | recvShutdown p net hr hd hb hdd hc =>
    refine (hsame ?_).elim
    rw [hc.gtab]
    exact .refl _
  | req r rqe rest m gt out hr hq hdd ho hc =>
    refine (hsame ?_).elim
    rw [hc.gtab]
    cases ho with
    | retclean l haddr hlt hbusy hop => exact retcleanGtab_sameEntry _ _ _ _
    | _ => exact .refl _
  | reqShutdown r l rqe rest hr hq hop haddr hrank hdd hc =>
    refine (hsame ?_).elim
    rw [hc.gtab]
    exact .refl _
  | shutdown hidle hdrain hdd hc =>
    refine (hsame ?_).elim
    rw [hc.gtab]
    exact .refl _

namespace Endings

variable {r : ℕ} {m : Mgr} {gt : ℕ → Gtab} {rq : List Request} {net : List Packet}
  {posts : List Post}

/-- It is enough to look at the rank that makes the step. -/
theorem change (h : Endings job s) {o : Option Packet} (hs : StepCase job s s' o)
    (hr : Reachable job s)
    (hc : Change s s' r m gt rq net posts)
    (hdrain : draindown s 0 ≠ .init → draindown s' 0 ≠ .init)
    (hused : ∀ l, (m.ltab l).pthState ≠ .none → l < job.nmaxthread)
    (hqueued : ∀ rqe ∈ rq, rqe.reqop = .app0Ret → r = 0)
    (hended : ∀ l, (m.ltab l).pc = .ended →
      (m.ltab l).reqstate = .busy ∨ draindown s' 0 ≠ .init) : Endings job s' where
  used k l hk := by
    by_cases hkr : k = r
    · subst hkr
      rw [hc.mgr] at hk
      exact hused l hk
    · rw [hc.others k hkr] at hk
      exact h.used k l hk
  main i halloc hdisp := by
    cases hold : (s.gtab i).allocated with
    | false => exact absurd hdisp (opened_dispIdx hs hold halloc)
    | true =>
      have hsame := (tableStep (reachable_facts hr) (reachable_lifeOk hr) hs).sameEntry hold halloc
      rw [hsame.dispIdx hold] at hdisp
      rw [hsame.rank hold]
      exact h.main i hold hdisp
  queued k rqe hrqe hop := by
    by_cases hkr : k = r
    · subst hkr
      rw [hc.mgrreqq] at hrqe
      exact hqueued rqe hrqe hop
    · rw [hc.others k hkr] at hrqe
      exact h.queued k rqe hrqe hop
  ended k l hk := by
    by_cases hkr : k = r
    · subst hkr
      rw [hc.mgr] at hk ⊢
      exact hended l hk
    · rw [hc.others k hkr] at hk ⊢
      exact (h.ended k l hk).imp_right hdrain

/-- A step that only moves slots. -/
theorem slotMoves (h : Endings job s) {o : Option Packet} (hs : StepCase job s s' o)
    (hr : Reachable job s)
    (hc : Change s s' r m gt rq net posts)
    (hdrain : draindown s 0 ≠ .init → draindown s' 0 ≠ .init)
    (hmoves : SlotMoves job (s.rk r).mgr.ltab m.ltab)
    (hqueued : ∀ rqe ∈ rq, rqe ∈ (s.rk r).dtq.mgrreqq) : Endings job s' := by
  refine h.change hs hr hc hdrain (fun l hl => ?_)
    (fun rqe hrqe => h.queued r rqe (hqueued rqe hrqe))
    fun l hl => ?_
  · rcases hmoves l with hkept | ⟨hlt, -⟩
    · exact h.used r l (hkept.1 hl)
    · exact hlt
  · rcases hmoves l with hkept | ⟨-, hne⟩
    · obtain ⟨hended, hstate⟩ := hkept.2 hl
      rw [hstate]
      exact (h.ended r l hended).imp_right hdrain
    · exact absurd hl hne

/-- A thread that ends has its request queued; only the main thread of rank 0
queues an APP0_RET. -/
theorem app (h : Endings job s) {o : Option Packet} (hs : StepCase job s s' o)
    (hr : Reachable job s) {l : ℕ} {lt : Ltab}
    {g : Gtab} {rq : List Request} (hl : l < job.nmaxthread)
    (hdd : draindown s' r = draindown s r)
    (ho : AppOutcome job l ((s.rk r).mgr.ltab l) s.gtab lt g rq)
    (hc : Change s s' r ((s.rk r).mgr.setLtab l lt)
      (Function.update s.gtab ((s.rk r).mgr.ltab l).gtabIdx g)
      ((s.rk r).dtq.mgrreqq ++ rq) s.net []) : Endings job s' := by
  have hok := (reachable_slotsOk hr r).entry l
  have hdrain : draindown s 0 ≠ .init → draindown s' 0 ≠ .init := by
    by_cases h0 : r = 0
    · subst h0
      rw [hdd]
      exact id
    · rw [draindown, draindown, hc.others 0 (Ne.symm h0)]
      exact id
  have hentry (hpc : ((s.rk r).mgr.ltab l).pc ≠ .none) :
      ((s.rk r).mgr.ltab l).gtabIdx ∈ (life job s).live ∧
        EntryOf s.gtab r ⟨((s.rk r).mgr.ltab l).gtabIdx, ((s.rk r).mgr.ltab l).seq⟩ := by
    have hused := hok.used_of_pc hpc
    exact ⟨(reachable_lifeOk hr).hostLive (CancelEffect.slots_eq_some hused),
      reachable_namesOk hr r _ (.slot r l hused)⟩
  refine h.change hs hr hc hdrain (fun k hk => ?_) (fun rqe hrqe hop => ?_) fun k hk => ?_
  · by_cases hkl : k = l
    · exact hkl ▸ hl
    · simp only [Mgr.setLtab, Function.update_of_ne hkl] at hk
      exact h.used r k hk
  · rw [List.mem_append] at hrqe
    rcases hrqe with hrqe | hrqe
    · exact h.queued r rqe hrqe hop
    · cases ho with
      | app0Return hpc hidle hdisp =>
        obtain ⟨hlive, hrank, -⟩ := hentry (by simp [hpc])
        rw [← hrank]
        exact h.main _ (isLive_of_mem hlive).2.1 hdisp
      | retclean state ret hpc hfinal hkeep =>
        obtain rfl : rqe = _ := by simpa using hrqe
        simp [threadRequest] at hop
      | post body peer addr hpc hidle hpeer =>
        obtain rfl : rqe = _ := by simpa using hrqe
        cases body <;> simp [threadRequest, Body.op] at hop hpeer
      | _ => simp at hrqe
  · by_cases hkl : k = l
    · subst hkl
      simp only [Mgr.setLtab, Function.update_self] at hk ⊢
      cases ho with
      | silent hpc hbad =>
        obtain ⟨hlive, -, hseq⟩ := hentry (by simp [hpc])
        rcases hbad with hlt | hne
        · have hlt' := (isLive_of_mem hlive).1
          omega
        · exact absurd hseq hne
      | retclean state ret hpc hfinal hkeep => exact .inl rfl
      | app0Return hpc hidle hdisp => exact .inl rfl
      | publish hpc hseq => simp at hk
      | post body peer addr hpc hidle hpeer => simp [hpc] at hk
      | collect hpc hdone => simp [hpc] at hk
      | leave pc state ret hpc hpc' hstate =>
        rcases hpc' with rfl | ⟨b, rfl⟩
        · simp at hk
        · simp at hk
    · simp only [Mgr.setLtab, Function.update_of_ne hkl] at hk ⊢
      exact (h.ended r k hk).imp_right hdrain

theorem step (h : Endings job s) {o : Option Packet} (hs : StepCase job s s' o)
    (hr : Reachable job s) :
    Endings job s' := by
  have hslots := reachable_slotsOk hr
  have hsame {r : ℕ} {m : Mgr} {gt : ℕ → Gtab} {rq : List Request} {net : List Packet}
      {posts : List Post} (hc : Change s s' r m gt rq net posts)
      (hdd : draindown s' r = draindown s r) (hd : draindown s 0 ≠ .init) :
      draindown s' 0 ≠ .init := by
    by_cases h0 : r = 0
    · subst h0
      rwa [hdd]
    · rwa [draindown, hc.others 0 (Ne.symm h0)]
  have hdrains {r : ℕ} {m : Mgr} {gt : ℕ → Gtab} {rq : List Request} {net : List Packet}
      {posts : List Post} (hc : Change s s' r m gt rq net posts)
      (hdd : draindown s' r ≠ .init) (hd : draindown s 0 ≠ .init) : draindown s' 0 ≠ .init := by
    by_cases h0 : r = 0
    · subst h0
      exact hdd
    · rwa [draindown, hc.others 0 (Ne.symm h0)]
  cases id hs with
  | app r l lt gt rq hrk hl hdd ho hc => exact h.app hs hr hl hdd ho hc
  | recv p net addr m gt out hrk hd hdd ho hc =>
    exact h.slotMoves hs hr hc (hsame hc hdd) (mqeOutcome_slotMoves ho (hslots p.dst))
      fun _ hrqe => hrqe
  | recvShutdown p net hrk hd hb hdd hc =>
    exact h.slotMoves hs hr hc (hdrains hc hdd) (.refl _ _) fun _ hrqe => hrqe
  | req r rqe rest m gt out hrk hq hdd ho hc =>
    have hmem : rqe ∈ (s.rk r).dtq.mgrreqq := by simp [hq]
    have hmoves := reqOutcome_slotMoves ho (hslots r) hmem fun hop => by
      rw [← h.queued r rqe hmem hop]
      exact hr.sane.rank r
    exact h.slotMoves hs hr hc (hsame hc hdd) hmoves fun _ hrqe => by simp [hq, hrqe]
  | reqShutdown r l rqe rest hrk hq hop haddr hrank hdd hc =>
    have hmem : rqe ∈ (s.rk r).dtq.mgrreqq := by simp [hq]
    obtain rfl := h.queued r rqe hmem hop
    refine h.change hs hr hc (hdrains hc hdd) (fun k hk => ?_)
      (fun rqe' hrqe' => h.queued 0 rqe' (by simp [hq, hrqe'])) fun _ _ => .inr hdd
    have hslot := slotOf_release (s.rk 0).mgr.ltab rqe false k
    refine h.used 0 k fun hnone => hk ?_
    simpa [slotOf, hnone, releaseMgr] using hslot
  | shutdown hidle hdrain hdd hc =>
    exact h.slotMoves hs hr hc (hdrains hc hdd) (.refl _ _) fun _ hrqe => hrqe

end Endings

theorem reachable_allocated_lt (h : Reachable job s) (i : ℕ)
    (halloc : (s.gtab i).allocated = true) : i < job.nmaxthread := by
  revert i
  refine h.invariant (I := fun s => ∀ i, (s.gtab i).allocated = true → i < job.nmaxthread) ?_ ?_
  · intro i halloc
    by_cases hi : i = 0
    · rw [hi]
      exact job.nmaxthread_pos
    · simp [sysInit, mgrStartapp, hi, Gtab.zero] at halloc
  · intro o s s' hr ih hs i halloc
    cases tableStep (reachable_facts hr) (reachable_lifeOk hr) hs with
    | keep h hcount =>
      rw [(h i).allocated] at halloc
      exact ih i halloc
    | alloc k hk hold hnew hothers hcount =>
      by_cases hi : i = k
      · exact hi ▸ hk
      · rw [hothers i hi] at halloc
        exact ih i halloc
    | free k hk hold hnew hothers hcount =>
      by_cases hi : i = k
      · exact hi ▸ hk
      · rw [hothers i hi] at halloc
        exact ih i halloc

theorem reachable_endings (h : Reachable job s) : Endings job s :=
  h.invariant (.init job) fun _ _ hr hi hs => hi.step hs hr

end Endings

section Waiting

/-- Nobody waits for a thread whose start has failed. A handle that was not
guessed names a thread that has been started. -/
def NoFailedJoin (s : Sys) : Prop :=
  ∀ p ∈ s.net, ∀ e, p.frame.body = .started e → e ≠ 0 →
    ∀ rqe ∈ (s.rk 0).mgr.rpending, pendingMatch .start p.frame.xidseq rqe = true →
      ∀ w ∈ (s.rk 0).mgr.rpending, w.reqop = .joinwait →
        w.waitthread.dtIndex ≠ rqe.creinfo.cThread.dtIndex

/-- The states of runs in which nobody waits for a thread whose start fails. -/
def Careful (job : Job) (s : Sys) : Prop :=
  Relation.ReflTransGen (fun s s' => NoFailedJoin s ∧ Step job s s') (sysInit job) s

variable {job : Job} {s s' : Sys}

theorem Careful.reachable (h : Careful job s) : Reachable job s := by
  induction h with
  | refl => exact .refl
  | tail _ hs ih => exact ih.tail hs.2

/-- What a thread writes to its entry does not matter to those who wait. -/
theorem waits_update {rpending : List Request} {gtab : ℕ → Gtab} {i : ℕ} {gt : Gtab}
    (h : Waits rpending gtab) (halloc : gt.allocated = (gtab i).allocated)
    (hdet : gt.detached = (gtab i).detached) (hterm : gt.terminated = (gtab i).terminated)
    (hseq : gt.seq = (gtab i).seq) : Waits rpending (Function.update gtab i gt) where
  waiting rqe hrqe hop := by
    obtain ⟨hwait, hzero⟩ := h.waiting rqe hrqe hop
    refine ⟨?_, hzero⟩
    unfold Waitable at hwait ⊢
    by_cases hi : rqe.waitthread.dtIndex = i
    · rw [hi] at hwait ⊢
      rw [Function.update_self, halloc, hdet, hterm, hseq]
      exact hwait
    · rw [Function.update_of_ne hi]
      exact hwait
  single := h.single

theorem mqeOutcome_waits {v : View} {mqe : Mqe} {m : Mgr} {gt : ℕ → Gtab} {out : List Post}
    (ho : MqeOutcome job v mqe m gt out) (hw : Waits v.mgr.rpending v.gtab)
    (hd : v.dtq.mpisqDraindown = .init)
    (hfail : ∀ e, mqe.frame.body = .started e → e ≠ 0 →
      ∀ rqe ∈ v.mgr.rpending, pendingMatch .start mqe.frame.xidseq rqe = true →
        ∀ w ∈ v.mgr.rpending, w.reqop = .joinwait →
          w.waitthread.dtIndex ≠ rqe.creinfo.cThread.dtIndex) : Waits m.rpending gt := by
  by_cases hb : ∃ e, mqe.frame.body = .started e ∧ e ≠ 0
  · obtain ⟨e, hb, he⟩ := hb
    cases ho with
    | startedErr rqe e' hb' he' hfind =>
      have hnone := hfail e hb he rqe (List.mem_of_find?_eq_some hfind) (List.find?_some hfind)
      exact (hw.of_sublist List.eraseP_sublist).update_entry _
        (fun w hmem => hnone w (List.mem_of_mem_eraseP hmem)) fun j hj => freeGtab_of_ne _ hj
    | drop hdrop => exact hw
    | reply op rqe rqe' hop h haddr => simp [hb, replyTo] at hop
    | _ => simp_all
  · refine Joins.mqeOutcome_waits ho hw hd fun e he => ?_
    by_contra hne
    exact hb ⟨e, he, hne⟩

/-- A message that any rank may get leaves the table. -/
theorem mqeOutcome_gtab {v : View} {mqe : Mqe} {m : Mgr} {gt : ℕ → Gtab} {out : List Post}
    (ho : MqeOutcome job v mqe m gt out) (h : rank0Only mqe.frame.body.op = false) :
    gt = v.gtab := by
  cases ho with
  | createOk attrs dispIdx arg n gidx xidseq hb => simp [hb, Body.op, rank0Only] at h
  | createDrain attrs dispIdx arg gidx xidseq hb => simp [hb, Body.op, rank0Only] at h
  | detachPlain thread hb => simp [hb, Body.op, rank0Only] at h
  | detachWait thread rqe hb => simp [hb, Body.op, rank0Only] at h
  | joinZombie thread hb => simp [hb, Body.op, rank0Only] at h
  | terminatedZombie thread fin hb => simp [hb, Body.op, rank0Only] at h
  | terminatedDetached thread fin hb => simp [hb, Body.op, rank0Only] at h
  | terminatedJoined thread fin rqe hb => simp [hb, Body.op, rank0Only] at h
  | terminatedDetachedJoined thread fin rqe hb => simp [hb, Body.op, rank0Only] at h
  | startedErr rqe e hb => simp [hb, Body.op, rank0Only] at h
  | _ => rfl

theorem reqOutcome_waits {v : View} {rqe : Request} {m : Mgr} {gt : ℕ → Gtab} {out : List Post}
    (ho : ReqOutcome job v rqe m gt out) {rpending : List Request}
    (hw : Waits rpending v.gtab) : Waits rpending gt := by
  cases ho with
  | retclean l haddr hlt hbusy hop =>
    unfold retcleanGtab
    split
    · exact waits_update hw rfl rfl rfl rfl
    · exact hw
  | _ => exact hw

theorem waits_step (h : Reachable job s) (hinit : ∀ r, draindown s r = .init)
    (hfail : NoFailedJoin s) {o : Option Packet} (hs : StepCase job s s' o)
    (hw : Waits (s.rk 0).mgr.rpending s.gtab) : Waits (s'.rk 0).mgr.rpending s'.gtab := by
  have hkept {r : ℕ} {m : Mgr} {gt : ℕ → Gtab} {rq : List Request} {net : List Packet}
      {posts : List Post} (hc : Change s s' r m gt rq net posts)
      (hm : r = 0 → Waits m.rpending gt) (ho : r ≠ 0 → Waits (s.rk 0).mgr.rpending gt) :
      Waits (s'.rk 0).mgr.rpending s'.gtab := by
    rw [hc.gtab]
    by_cases h0 : r = 0
    · subst h0
      rw [hc.mgr]
      exact hm rfl
    · rw [hc.others 0 (Ne.symm h0)]
      exact ho h0
  cases hs with
  | app r l lt gt rq hr hl hdd ho hc =>
    have hentry : Waits (s.rk 0).mgr.rpending
        (Function.update s.gtab ((s.rk r).mgr.ltab l).gtabIdx gt) := by
      cases ho <;> exact waits_update hw rfl rfl rfl rfl
    refine hkept hc (fun h0 => ?_) fun _ => hentry
    subst h0
    exact hentry
  | recv p net addr m gt out hr hd hdd ho hc =>
    refine hkept hc (fun h0 => ?_) fun h0 => ?_
    · rw [h0] at ho
      exact mqeOutcome_waits ho hw (hinit 0) (hfail p hd.mem)
    · have hany : rank0Only p.frame.body.op = false := by
        by_contra honly
        exact h0 ((reachable_wellformed h).rank0 p hd.mem (by simpa using honly))
      rw [mqeOutcome_gtab ho hany]
      exact hw
  | recvShutdown p net hr hd hb hdd hc =>
    refine hkept hc (fun h0 => ?_) fun _ => hw
    rw [h0]
    exact hw
  | req r rqe rest m gt out hr hq hdd ho hc =>
    have hgt := reqOutcome_waits ho hw
    refine hkept hc (fun h0 => ?_) fun _ => hgt
    subst h0
    cases ho with
    | forward l mqe xidseq haddr hlt hbusy hop hmqe hxid hd =>
      refine hw.add_other fun hwait => ?_
      have hwait' : rqe.reqop = .joinwait := hwait
      rw [hwait'] at hop
      exact Bool.noConfusion hop
    | _ => exact hgt
  | reqShutdown r l rqe rest hr hq hop haddr hrank hdd hc =>
    refine hkept hc (fun h0 => ?_) fun _ => hw
    subst h0
    exact hw
  | shutdown hidle hdrain hdd hc => exact hkept hc (fun _ => hw) fun _ => hw

/-- Every JOIN that rank 0 keeps is for a thread that may still end. -/
theorem Careful.waits (h : Careful job s) (hinit : ∀ r, draindown s r = .init) :
    Waits (s.rk 0).mgr.rpending s.gtab := by
  induction h with
  | refl =>
    rw [sysInit_rpending]
    exact ⟨by simp, by simp⟩
  | @tail t u hr hs ih =>
    have hr' : Reachable job t := Careful.reachable hr
    obtain ⟨o, hcase⟩ := step_cases hr'.sane.quiet hs.2
    have hlife := step_life (reachable_facts hr') hcase
    have hinit' : ∀ r, draindown t r = .init := by
      intro r
      by_contra hne
      have hmute := mute_step hlife (show (life job t).mute r = true by simpa [life] using hne)
      simp [life, hinit r] at hmute
    exact waits_step hr' hinit' hs.1 hcase (ih hinit')

end Waiting

section Deadlock

variable {job : Job} {s : Sys}

/-- Thread `t` is in dthread_join for thread `u`; threads are given by their
rank and slot. -/
def JoinsOn (s : Sys) (t u : ℕ × ℕ) : Prop :=
  ∃ w, InJoin s t.1 t.2 w ∧ ((s.rk u.1).mgr.ltab u.2).pthState ≠ .none ∧
    w.waitthread = ⟨((s.rk u.1).mgr.ltab u.2).gtabIdx, ((s.rk u.1).mgr.ltab u.2).seq⟩

/-- The slots in use. -/
def InUse (job : Job) (s : Sys) : Set (ℕ × ℕ) :=
  { t | t.1 < job.wsize ∧ t.2 < job.nmaxthread ∧
    ((s.rk t.1).mgr.ltab t.2).pthState ≠ .none }

theorem inUse_of_used (h : Reachable job s) {r l : ℕ}
    (hused : ((s.rk r).mgr.ltab l).pthState ≠ .none) : (r, l) ∈ InUse job s := by
  refine ⟨?_, (reachable_endings h).used r l hused, hused⟩
  by_contra hr
  have hpos := job.wsize_pos
  have hne : r ≠ 0 := by
    rintro rfl
    exact hr hpos
  rw [h.outside r (not_lt.mp hr)] at hused
  simp [sysInit, hne, mgrInit, Ltab.zero] at hused

theorem finite_inUse (job : Job) (s : Sys) : (InUse job s).Finite :=
  ((Set.finite_lt_nat job.wsize).prod (Set.finite_lt_nat job.nmaxthread)).subset
    fun _ ht => ⟨ht.1, ht.2.1⟩

/-- With nothing under way a live thread sits in a slot. -/
theorem hosted_of_live (h : Reachable job s) (hinit : ∀ r, draindown s r = .init)
    (hnet : s.net = []) {i : ℕ} (hi : i ∈ (life job s).live) :
    ∃ t ∈ InUse job s, ((s.rk t.1).mgr.ltab t.2).gtabIdx = i := by
  rcases reachable_placed h hinit hi with ⟨r, l, hslot⟩ | ⟨p, hp, -⟩
  · obtain ⟨pc, st, hidx, -, hst, hne⟩ := FateRefinement.hosts_slots.mp hslot
    exact ⟨(r, l), inUse_of_used h (by rwa [hst]), hidx⟩
  · simp [life, hnet] at hp

/-- A join that stays open is for a thread in a slot. -/
theorem joinsOn_of_inJoin (h : Careful job s) (hinit : ∀ r, draindown s r = .init)
    (hnet : s.net = []) {r l : ℕ} {w : Request} (hw : InJoin s r l w) :
    ∃ u ∈ InUse job s, JoinsOn s (r, l) u := by
  have hr := h.reachable
  obtain ⟨⟨halloc, -, hneed, hseq⟩, -⟩ := (h.waits hinit).waiting w hw.1 hw.2.1
  have hlt := reachable_allocated_lt hr _ halloc
  have hlive : w.waitthread.dtIndex ∈ (life job s).live := by
    simp [life, liveSet, isLive, hlt, halloc, hneed]
  obtain ⟨u, hu, hidx⟩ := hosted_of_live hr hinit hnet hlive
  have hentry := (reachable_namesOk hr u.1 _ (.slot u.1 u.2 hu.2.2)).2
  simp only at hentry
  refine ⟨u, hu, w, hw, hu.2.2, ?_⟩
  rw [← hentry, hidx, hseq]

/-- A thread that can make no step is inside a call. -/
theorem busy_of_stuck (h : Reachable job s)
    (hinit : ∀ r, draindown s r = .init) (hstuck : Stuck (Step job) s) {r l : ℕ}
    (ht : (r, l) ∈ InUse job s) : ((s.rk r).mgr.ltab l).reqstate = .busy := by
  obtain ⟨hr, hl, hused⟩ := ht
  have hnone {v : View} (hstep : AppStep job l (s.view r) v) : False :=
    hstuck _ (.app r l v hr hl hstep)
  by_contra hbusy
  cases hpc : ((s.rk r).mgr.ltab l).pc with
  | none =>
    have hok := (reachable_slotsOk h r).entry l
    simp [LtabOk, hpc, hused] at hok
  | starting =>
    by_cases hbad : job.nmaxthread ≤ ((s.rk r).mgr.ltab l).gtabIdx ∨
        (s.gtab ((s.rk r).mgr.ltab l).gtabIdx).seq ≠ ((s.rk r).mgr.ltab l).seq
    · exact hnone (.wrapBad hpc hbad)
    · push Not at hbad
      exact hnone (.wrapFail hpc hbad.1 hbad.2)
  | app =>
    cases hstate : ((s.rk r).mgr.ltab l).reqstate with
    | idle => exact hnone (.tearDown hpc hstate)
    | busy => exact hbusy hstate
    | done => exact hnone (.collect hpc hstate)
  | exiting => exact hnone (.exited hpc)
  | cleanup b => exact hnone (.cleanup b none hpc)
  | ended =>
    rcases (reachable_endings h).ended r l hpc with hbusy' | hdrain
    · exact hbusy hbusy'
    · exact hdrain (hinit 0)

/-- As long as no shutdown has begun, some thread is in a slot. -/
theorem inUse_nonempty (h : Reachable job s) (hinit : ∀ r, draindown s r = .init)
    (hnet : s.net = []) (hstuck : Stuck (Step job) s) : (InUse job s).Nonempty := by
  have hok := reachable_lifeOk h
  have hrunning : (s.rk 0).mgr.threadsRunning ≠ 0 := by
    intro hidle
    have hopen : (s.rk 0).mgr.draining = false := by
      by_contra hne
      exact (reachable_draining h 0).mp (by simpa using hne) (hinit 0)
    exact hstuck _ (.shutdown hidle hopen)
  have hcard : (runningSet (life job s).live (life job s).starts).card ≠ 0 := by
    intro hzero
    apply hrunning
    have heq : (s.rk 0).mgr.threadsRunning = _ := hok.running
    rw [heq, hzero]
    rfl
  obtain ⟨i, hi⟩ := Finset.card_ne_zero.mp hcard
  obtain ⟨t, ht, -⟩ := hosted_of_live h hinit hnet (Finset.mem_filter.mp hi).1
  exact ⟨t, ht⟩

/-- As long as no shutdown has begun, a job can go on, or its threads join each
other in a circle and every thread that is there is inside dthread_join for one
that is there. -/
theorem goes_on_or_joins_in_circle (h : Careful job s) (hroom : SeqRoom job)
    (hdrain : ∀ r, r < job.wsize → draindown s r = .init) :
    (∃ s', Step job s s') ∨
      (∀ t ∈ InUse job s, ∃ u ∈ InUse job s, JoinsOn s t u) ∧
        ∃ t ∈ InUse job s, Relation.TransGen (JoinsOn s) t t := by
  by_cases hstuck : Stuck (Step job) s
  · right
    have hr := h.reachable
    have hinit := draindown_of_lt hr hdrain
    have hrest : AtRest job s := atRest_of_stuck hr hroom fun s' hs' => hstuck s' hs'.step
    have hall : ∀ t ∈ InUse job s, ∃ u ∈ InUse job s, JoinsOn s t u := by
      intro t ht
      have hbusy := busy_of_stuck hr hinit hstuck ht
      obtain ⟨w, hw⟩ := inJoin_at_rest hr hdrain hrest ht.1 hbusy
      exact joinsOn_of_inJoin h hinit hrest.net hw
    exact ⟨hall, exists_cycle (finite_inUse job s) (inUse_nonempty hr hinit hrest.net hstuck) hall⟩
  · left
    unfold Stuck at hstuck
    push Not at hstuck
    exact hstuck

/-- The main thread waits for its CREATE and nobody joins anybody. -/
theorem goes_on_or_joins_in_circle_forwarded :
    SeqRoom twoRanks ∧ Careful twoRanks createForwarded ∧
      ∃ s', Step twoRanks createForwarded s' := by
  have hroom : SeqRoom twoRanks := by
    unfold SeqRoom
    decide
  have hquiet {s : Sys} (hnet : s.net = []) : NoFailedJoin s := by
    intro p hp
    simp [hnet] at hp
  have hposted : Careful twoRanks createPosted :=
    .tail .refl ⟨hquiet rfl, .app 0 0 _ (by decide) (by decide) (.post createBody 0 rfl rfl rfl)⟩
  have hcareful : Careful twoRanks createForwarded :=
    .tail hposted ⟨hquiet rfl, .req 0 _ _ _ (by decide) rfl rfl⟩
  have hdrain : ∀ r, r < twoRanks.wsize → draindown createForwarded r = .init := by
    intro r hr
    have hr' : r < 2 := hr
    interval_cases r
    · rfl
    · rfl
  refine ⟨hroom, hcareful, ?_⟩
  rcases goes_on_or_joins_in_circle hcareful hroom hdrain with hstep | ⟨hall, -⟩
  · exact hstep
  · -- rank 0 keeps nothing for a join
    obtain ⟨u, -, w, hw, -⟩ := hall (0, 0) ⟨by decide, by decide, by decide⟩
    have hnone : (createForwarded.rk 0).mgr.rpending.all (·.reqop != .joinwait) = true := by decide
    simpa [hw.2.1] using List.all_eq_true.mp hnone w hw.1

end Deadlock

end Dthread.JoinDeadlock
