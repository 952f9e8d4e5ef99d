import Dthread.TableSteps
import Dthread.SlotSearch

/-!
start_thread uses the result of ltab_alloc without a look at it. The threads
that have a slot on a rank have entries of their own in the shared table, and
the thread to be started has one more, so a slot is always free; and the
circular search visits every slot.
-/
namespace Dthread.StartSlots

open ReqMsg Queuing ManagerTables ManagerHandlers ManagerEffects ManagerOutcomes AppThreads
open FifoNet JobSystem TableWrites RequestReply LocalSlots ThreadLife LifeRefinement CancelEffect
open TableSteps

/-- ltab_lastslot stays inside the local table. -/
theorem lastslot_lt {job : Job} {s : Sys} (h : Reachable job s) (r : ℕ) :
    (s.rk r).mgr.ltabLastslot < job.nmaxthread := by
  revert r
  refine h.invariant (I := fun s => ∀ r, (s.rk r).mgr.ltabLastslot < job.nmaxthread) ?_ ?_
  · intro r
    have hzero : ((sysInit job).rk r).mgr.ltabLastslot = 0 := by
      by_cases hr : r = 0
      · subst hr
        rfl
      · simp [sysInit, hr, mgrInit]
    rw [hzero]
    exact job.nmaxthread_pos
  · intro o s s' _ ih hs r
    have hkeep {k : ℕ} {m : Mgr} {gt : ℕ → Gtab} {rq : List Request} {net : List Packet}
        {posts : List Post} (hc : Change s s' k m gt rq net posts)
        (hm : m.ltabLastslot < job.nmaxthread) : (s'.rk r).mgr.ltabLastslot < job.nmaxthread := by
      by_cases hr : r = k
      · subst hr
        rw [hc.mgr]
        exact hm
      · rw [hc.others r hr]
        exact ih r
    cases hs with
    | app k l lt gt rq hk hl hdd ho hc => exact hkeep hc (ih k)
    | recv p net addr m gt out hk hd hdd ho hc =>
      apply hkeep hc
      cases ho with
      | startOk thread attrs l hb h hfree hlt => exact hlt
      | startFail thread attrs l e hb h hfree hlt he => exact hlt
      | _ => exact ih p.dst
    | recvShutdown p net hk hd hb hdd hc => exact hkeep hc (ih p.dst)
    | req k rqe rest m gt out hk hq hdd ho hc =>
      apply hkeep hc
      cases ho <;> exact ih k
    | reqShutdown k l rqe rest hk hq hop haddr hrank hdd hc => exact hkeep hc (ih k)
    | shutdown hidle hdrain hdd hc => exact hkeep hc (ih 0)

section Room

variable {job : Job} {s : Sys}

/-- The slots of rank `r` that are in use. -/
def usedSlots (job : Job) (s : Sys) (r : ℕ) : Finset ℕ :=
  (Finset.range job.nmaxthread).filter fun l => ((s.rk r).mgr.ltab l).pthState ≠ .none

/-- A thread whose START is under way has no slot, and the threads that have
one are other live threads. -/
theorem card_usedSlots_lt (hok : LifeOk (life job s)) {p : Packet} (hp : p ∈ s.net)
    {thread : DThread} {attrs : Attr} (hb : p.frame.body = .start thread attrs) (r : ℕ) :
    (usedSlots job s r).card < job.nmaxthread := by
  have hletter : (⟨p.src, p.dst, .start p.frame.xidseq thread.dtIndex⟩ : Letter) ∈
      (life job s).net := List.mem_filterMap.mpr ⟨p, hp, by simp [letterOf, hb]⟩
  have hlive := live_of_start hok hp hb
  have hmaps : ∀ l ∈ usedSlots job s r,
      ((s.rk r).mgr.ltab l).gtabIdx ∈ (life job s).live.erase thread.dtIndex := by
    intro l hl
    have hslot : (life job s).slots r l = _ := slots_eq_some (Finset.mem_filter.mp hl).2
    refine Finset.mem_erase.mpr ⟨fun hidx => ?_, hok.hostLive hslot⟩
    rw [hidx] at hslot
    exact hok.not_hosted hletter (by simp [claims]) hslot
  have hinj : Set.InjOn (fun l => ((s.rk r).mgr.ltab l).gtabIdx) (usedSlots job s r) := by
    intro l hl l' hl' heq
    have hslot : (life job s).slots r l = _ := slots_eq_some (Finset.mem_filter.mp hl).2
    have hslot' : (life job s).slots r l' = _ := slots_eq_some (Finset.mem_filter.mp hl').2
    simp only at heq
    rw [heq] at hslot
    exact (hok.unique hslot' hslot).2
  calc (usedSlots job s r).card
      ≤ ((life job s).live.erase thread.dtIndex).card := Finset.card_le_card_of_injOn _ hmaps hinj
    _ < (life job s).live.card := Finset.card_erase_lt_of_mem hlive
    _ ≤ (Finset.range job.nmaxthread).card := Finset.card_le_card (Finset.filter_subset _ _)
    _ = job.nmaxthread := Finset.card_range _

/-- So some slot of the rank is free. -/
theorem exists_free_slot {r : ℕ} (h : (usedSlots job s r).card < job.nmaxthread) :
    ∃ l < job.nmaxthread, ((s.rk r).mgr.ltab l).pthState = .none := by
  by_contra hnone
  push Not at hnone
  have hall : usedSlots job s r = Finset.range job.nmaxthread := by
    apply Finset.filter_true_of_mem
    intro l hl
    exact hnone l (Finset.mem_range.mp hl)
  rw [hall, Finset.card_range] at h
  exact lt_irrefl _ h

/-- ltab_alloc and ltab_lastslot are right in every reachable state. -/
theorem ltabCounted_of_reachable (h : Reachable job s) (r : ℕ) (q : Dtq) :
    SlotSearch.LtabCounted job ((s.view r).setDtq q) where
  alloc := by
    have halloc := (reachable_slotsOk h r).alloc
    rw [usedCount_eq_card] at halloc
    rw [SlotSearch.usedSlots]
    simp only [SlotSearch.ltabUsed_eq_true]
    exact halloc
  last := lastslot_lt h r

end Room

/-- A START that passes the checks of start_thread gets a local slot: whatever
the queues hold, ltab_alloc returns the index of an entry that is free, and the
handler returns. -/
theorem start_gets_slot {job : Job} {s : Sys} (h : Reachable job s) {p : Packet} (hp : p ∈ s.net)
    {thread : DThread} {attrs : Attr} (hb : p.frame.body = .start thread attrs)
    (hvalid : ¬ startInvalid job s.gtab thread) (q : Dtq) (addr err : ℕ) :
    (∃ l v, ltabAlloc job ((s.view p.dst).setDtq q) thread = some (some l, v) ∧
        l < job.nmaxthread ∧ ((s.rk p.dst).mgr.ltab l).pthState = .none) ∧
      (processMqe job ((s.view p.dst).setDtq q) ⟨addr, p.src, p.frame⟩ err).isSome = true := by
  have hcard := card_usedSlots_lt (reachable_lifeOk h) hp hb p.dst
  obtain ⟨k, hk, hfree⟩ := exists_free_slot hcard
  have hfinds (q : Dtq) : ∃ l v, ltabAlloc job ((s.view p.dst).setDtq q) thread =
      some (some l, v) ∧ l < job.nmaxthread ∧ ((s.rk p.dst).mgr.ltab l).pthState = .none := by
    obtain ⟨l, hl, hlt, hnone, -⟩ := SlotSearch.ltabAlloc_free thread
      (ltabCounted_of_reachable h p.dst q) hk (SlotSearch.ltabUsed_eq_false.mpr hfree)
    exact ⟨l, _, hl, hlt, SlotSearch.ltabUsed_eq_false.mp hnone⟩
  constructor
  · exact hfinds q
  · have hlen := (reachable_wellformed h).frames p hp
    have hsize := Body.headerSize_le_size p.frame.body
    have hrank0 : rank0Only p.frame.body.op = false := by
      rw [hb]
      rfl
    have hstart : (startThread job ((s.view p.dst).setDtq q) ⟨addr, p.src, p.frame⟩ thread
        err).isSome = true := by
      unfold startThread
      split
      · rfl
      · rename_i a q' halloc
        have hvalid' : ¬ startInvalid job (((s.view p.dst).setDtq q).setDtq q').gtab thread :=
          hvalid
        obtain ⟨l, v, hl, -⟩ := hfinds q'
        simp only
        rw [if_neg hvalid']
        have hl' : ltabAlloc job (((s.view p.dst).setDtq q).setDtq q') thread =
            some (some l, v) := hl
        rw [hl']
        simp only
        split <;> rfl
    unfold processMqe
    simp only
    rw [if_neg (by omega), if_neg (by simp [hrank0])]
    simp only [hb]
    rw [hb] at hlen
    rw [if_pos hlen.ge, Option.isSome_map]
    exact hstart

/-- The START of the second thread of `twoRanks`, on its way to rank 1. -/
theorem start_gets_slot_second :
    ∃ s p, Reachable twoRanks s ∧ p ∈ s.net ∧ p.frame.body.op = .start ∧
      ∃ l v, ltabAlloc twoRanks ((s.view p.dst).setDtq dtqInit) ⟨1, 6⟩ = some (some l, v) ∧
        l < twoRanks.nmaxthread ∧ ((s.rk p.dst).mgr.ltab l).pthState = .none := by
  have hcreated : Reachable twoRanks _ := .tail createForwarded_reachable
    (.recv ⟨0, 0, _⟩ _ 0 0 _ (by decide) ⟨[], [], rfl, rfl, by simp⟩ rfl)
  have hstart := @start_gets_slot twoRanks _ hcreated ⟨0, 1, _⟩ (List.mem_singleton_self _) ⟨1, 6⟩
    (startAttrs ⟨.joinable, 0, 0⟩) rfl (by decide) dtqInit 0 0
  exact ⟨_, _, hcreated, List.mem_singleton_self _, rfl, hstart.1⟩

end Dthread.StartSlots
