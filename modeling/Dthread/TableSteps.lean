import Dthread.CancelEffect

/-!
What the steps of a job do to the shared thread table: an entry stays with its
thread from the allocation until it is freed, and wherever a live thread is
named, its entry has that generation and that rank.
-/
namespace Dthread.TableSteps

open ReqMsg Queuing ManagerTables ManagerHandlers ManagerEffects ManagerOutcomes AppThreads
open FifoNet JobSystem TableWrites RequestReply LocalSlots ThreadLife LifeRefinement CancelEffect

/-- An entry that keeps its thread, or stays free. -/
structure SameEntry (gt gt' : Gtab) : Prop where
  allocated : gt'.allocated = gt.allocated
  rank : gt.allocated = true → gt'.rank = gt.rank
  seq : gt.allocated = true → gt'.seq = gt.seq
  dispIdx : gt.allocated = true → gt'.dispIdx = gt.dispIdx

theorem SameEntry.refl (gt : Gtab) : SameEntry gt gt :=
  ⟨rfl, fun _ => rfl, fun _ => rfl, fun _ => rfl⟩

theorem sameEntry_update {gtab : ℕ → Gtab} {k : ℕ} {gt : Gtab} (h : SameEntry (gtab k) gt)
    (i : ℕ) : SameEntry (gtab i) (Function.update gtab k gt i) := by
  by_cases hi : i = k
  · rw [hi, Function.update_self]
    exact h
  · rw [Function.update_of_ne hi]
    exact .refl _

/-- The changes of the table, with rank 0's count of its entries. -/
inductive TableStep (job : Job) (gtab : ℕ → Gtab) (count : ℤ) (gtab' : ℕ → Gtab) (count' : ℤ) :
    Prop
  | keep (h : ∀ i, SameEntry (gtab i) (gtab' i)) (hcount : count' = count)
  | alloc (i : ℕ) (hi : i < job.nmaxthread) (hold : (gtab i).allocated = false)
      (hnew : (gtab' i).allocated = true) (hothers : ∀ j, j ≠ i → gtab' j = gtab j)
      (hcount : count' = count + 1)
  | free (i : ℕ) (hi : i < job.nmaxthread) (hold : (gtab i).allocated = true)
      (hnew : (gtab' i).allocated = false) (hothers : ∀ j, j ≠ i → gtab' j = gtab j)
      (hcount : count' = count - 1)

/-- An entry that is in use before and after a change has the same thread. -/
theorem TableStep.sameEntry {job : Job} {gtab gtab' : ℕ → Gtab} {count count' : ℤ}
    (h : TableStep job gtab count gtab' count') {i : ℕ} (hold : (gtab i).allocated = true)
    (hnew : (gtab' i).allocated = true) : SameEntry (gtab i) (gtab' i) := by
  cases h with
  | keep h hcount => exact h i
  | alloc k hk hfree _ hothers hcount =>
    by_cases hi : i = k
    · rw [hi, hfree] at hold
      exact Bool.noConfusion hold
    · rw [hothers i hi]
      exact .refl _
  | free k hk _ hfree hothers hcount =>
    by_cases hi : i = k
    · rw [hi, hfree] at hnew
      exact Bool.noConfusion hnew
    · rw [hothers i hi]
      exact .refl _

def allocCount (job : Job) (gtab : ℕ → Gtab) : ℕ :=
  ((Finset.range job.nmaxthread).filter fun i => (gtab i).allocated = true).card

theorem allocCount_congr {job : Job} {gtab gtab' : ℕ → Gtab}
    (h : ∀ i, (gtab' i).allocated = (gtab i).allocated) :
    allocCount job gtab' = allocCount job gtab := by
  simp [allocCount, h]

/-- Two tables that differ in one entry, which only the second one has in use. -/
theorem allocCount_insert {job : Job} {gtab gtab' : ℕ → Gtab} {i : ℕ} (hi : i < job.nmaxthread)
    (hold : (gtab i).allocated = false) (hnew : (gtab' i).allocated = true)
    (hothers : ∀ j, j ≠ i → gtab' j = gtab j) :
    allocCount job gtab' = allocCount job gtab + 1 := by
  have hset : (Finset.range job.nmaxthread).filter (fun j => (gtab' j).allocated = true) =
      insert i ((Finset.range job.nmaxthread).filter fun j => (gtab j).allocated = true) := by
    ext j
    simp only [Finset.mem_filter, Finset.mem_range, Finset.mem_insert]
    by_cases hj : j = i
    · subst hj
      simp [hi, hnew]
    · simp [hj, hothers j hj]
  unfold allocCount
  rw [hset, Finset.card_insert_of_notMem (by simp [hold])]

theorem TableStep.count {job : Job} {gtab gtab' : ℕ → Gtab} {count count' : ℤ}
    (h : TableStep job gtab count gtab' count') (hc : count = allocCount job gtab) :
    count' = allocCount job gtab' := by
  cases h with
  | keep h hcount => rw [hcount, hc, allocCount_congr fun i => (h i).allocated]
  | alloc i hi hold hnew hothers hcount =>
    rw [hcount, hc, allocCount_insert hi hold hnew hothers]
    push_cast
    rfl
  | free i hi hold hnew hothers hcount =>
    have hback := allocCount_insert hi hnew hold fun j hj => (hothers j hj).symm
    omega

section Steps

variable {job : Job} {s s' : Sys} {r : ℕ} {m : Mgr} {gt : ℕ → Gtab} {rq : List Request}
  {net : List Packet} {posts : List Post}

theorem threadsAlloc_keep (hc : Change s s' r m gt rq net posts)
    (h : m.threadsAlloc = (s.rk r).mgr.threadsAlloc) :
    (s'.rk 0).mgr.threadsAlloc = (s.rk 0).mgr.threadsAlloc := by
  by_cases hr : r = 0
  · subst hr
    rw [hc.mgr, h]
  · rw [hc.others 0 (Ne.symm hr)]

theorem isLive_of_mem {i : ℕ} (h : i ∈ (life job s).live) :
    i < job.nmaxthread ∧ (s.gtab i).allocated = true ∧
      (s.gtab i).terminated.needFinalstate = true := by
  simp only [life, liveSet, Finset.mem_filter, Finset.mem_range, isLive, Bool.and_eq_true] at h
  exact h

/-- The thread of a TERMINATED under way has its entry. -/
theorem live_of_terminated (hok : LifeOk (life job s)) {p : Packet} {thread : DThread}
    {fin : LtState} (hp : p ∈ s.net) (hb : p.frame.body = .terminated thread fin) :
    thread.dtIndex ∈ (life job s).live := by
  have hmem : (⟨p.src, p.dst, .ended thread.dtIndex⟩ : Letter) ∈ (life job s).net :=
    List.mem_filterMap.mpr ⟨p, hp, by simp [letterOf, hb]⟩
  exact hok.live_of_mem hmem (by simp [claims])

theorem live_of_start (hok : LifeOk (life job s)) {p : Packet} {thread : DThread} {attrs : Attr}
    (hp : p ∈ s.net) (hb : p.frame.body = .start thread attrs) :
    thread.dtIndex ∈ (life job s).live := by
  have hmem : (⟨p.src, p.dst, .start p.frame.xidseq thread.dtIndex⟩ : Letter) ∈ (life job s).net :=
    List.mem_filterMap.mpr ⟨p, hp, by simp [letterOf, hb]⟩
  exact hok.live_of_mem hmem (by simp [claims])

theorem live_of_request (hok : LifeOk (life job s)) {rqe : Request}
    (hrqe : rqe ∈ (s.rk 0).mgr.rpending) (hop : rqe.reqop = .start) :
    rqe.creinfo.cThread.dtIndex ∈ (life job s).live :=
  hok.startLive _ (mem_starts hrqe hop)

theorem tableStep_recv (hf : Facts job s) (hok : LifeOk (life job s)) {p : Packet} {addr : ℕ}
    {out : List Post} (hd : Deliver Packet.chan s.net p net)
    (ho : MqeOutcome job (s.view p.dst) ⟨addr, p.src, p.frame⟩ m gt out)
    (hc : Change s s' p.dst m gt rq net posts) :
    TableStep job s.gtab (s.rk 0).mgr.threadsAlloc s'.gtab (s'.rk 0).mgr.threadsAlloc := by
  have hrank0 := hf.wellformed.rank0 p hd.mem
  rw [hc.gtab]
  have hkeep (hgt : ∀ i, SameEntry (s.gtab i) (gt i))
      (hcount : m.threadsAlloc = (s.rk p.dst).mgr.threadsAlloc) :
      TableStep job s.gtab (s.rk 0).mgr.threadsAlloc gt (s'.rk 0).mgr.threadsAlloc :=
    .keep hgt (threadsAlloc_keep hc hcount)
  -- the handlers that give an entry back run at rank 0
  have hfree {i : ℕ} (h0 : rank0Only p.frame.body.op = true)
      (hi : i < job.nmaxthread) (hold : (s.gtab i).allocated = true)
      (hnew : (gt i).allocated = false) (hothers : ∀ j, j ≠ i → gt j = s.gtab j)
      (hcount : m.threadsAlloc = (s.rk p.dst).mgr.threadsAlloc - 1) :
      TableStep job s.gtab (s.rk 0).mgr.threadsAlloc gt (s'.rk 0).mgr.threadsAlloc := by
    refine .free i hi hold hnew hothers ?_
    have hmgr := hc.mgr
    rw [hrank0 h0] at hmgr hcount
    rw [hmgr, hcount]
  have hdetach (k : ℕ) (i : ℕ) : SameEntry (s.gtab i)
      (Function.update s.gtab k { s.gtab k with detached := true } i) := by
    apply sameEntry_update
    exact ⟨rfl, fun _ => rfl, fun _ => rfl, fun _ => rfl⟩
  cases ho with
  | createOk attrs dispIdx arg n gidx xidseq hb hdisp hroom hgidx hlt hxid hinit =>
    have hdst : p.dst = 0 := hrank0 (by simp only at hb; rw [hb]; rfl)
    have hmgr := hc.mgr
    rw [hdst] at hmgr
    refine .alloc gidx hlt hgidx ?_ (fun j hj => Function.update_of_ne hj _ _) ?_
    · rw [Function.update_self]
      rfl
    · rw [hmgr]
      rfl
  | createDrain attrs dispIdx arg gidx xidseq hb hgidx hlt hdrain =>
    have hgidx' : (s.gtab gidx).allocated = false := hgidx
    refine hkeep (fun i => sameEntry_update ?_ i) rfl
    constructor <;> simp [hgidx']
  | detachPlain thread hb h hw => exact hkeep (hdetach thread.dtIndex) rfl
  | detachWait thread rqe hb h hw => exact hkeep (hdetach thread.dtIndex) rfl
  | joinZombie thread hb h hdet hz =>
    simp only at hb
    obtain ⟨hlt, halloc, -⟩ := dt2gtab_valid.mp h
    refine hfree (by rw [hb]; rfl) hlt halloc (freeGtab_allocated _ _)
      (fun j hj => freeGtab_of_ne _ hj) ?_
    simp only [freeMgr, halloc, if_true]
    rfl
  | terminatedZombie thread fin hb hlen hlt hseq hfin hdet hw =>
    exact hkeep (sameEntry_update ⟨rfl, fun _ => rfl, fun _ => rfl, fun _ => rfl⟩) rfl
  | terminatedDetached thread fin hb hlen hlt hseq hfin hdet hw =>
    simp only at hb
    obtain ⟨-, halloc, -⟩ := isLive_of_mem (live_of_terminated hok hd.mem hb)
    refine hfree (by rw [hb]; rfl) hlt halloc (freeGtab_allocated _ _)
      (fun j hj => freeGtab_cleanup_of_ne hj) ?_
    simp [freeMgr, Sys.view, halloc, cleanupMgr]
  | terminatedJoined thread fin rqe hb hlen hlt hseq hfin hdet hw =>
    simp only at hb
    obtain ⟨-, halloc, -⟩ := isLive_of_mem (live_of_terminated hok hd.mem hb)
    refine hfree (by rw [hb]; rfl) hlt halloc (freeGtab_allocated _ _)
      (fun j hj => freeGtab_zombie_of_ne hj) ?_
    simp [freeMgr, Sys.view, halloc, releaseMgr, dropWaiter]
  | terminatedDetachedJoined thread fin rqe hb hlen hlt hseq hfin hdet hw =>
    simp only at hb
    obtain ⟨-, halloc, -⟩ := isLive_of_mem (live_of_terminated hok hd.mem hb)
    refine hfree (by rw [hb]; rfl) hlt halloc (freeGtab_allocated _ _)
      (fun j hj => freeGtab_cleanup_of_ne hj) ?_
    simp [freeMgr, Sys.view, halloc, releaseMgr, dropWaiter, cleanupMgr]
  | startedErr rqe e hb he h =>
    simp only at hb
    have h0 : rank0Only p.frame.body.op = true := by
      rw [hb]
      rfl
    have hfind : findPendingReq (s.rk 0).mgr.rpending .start p.frame.xidseq = some rqe := by
      simpa only [Sys.view, hrank0 h0] using h
    obtain ⟨hlt, halloc, -⟩ := isLive_of_mem
      (live_of_request hok (List.mem_of_find?_eq_some hfind) (findPendingReq_spec hfind).2)
    refine hfree h0 hlt halloc (freeGtab_allocated _ _) (fun j hj => freeGtab_of_ne _ hj) ?_
    simp [freeMgr, Sys.view, halloc, releaseMgr, dropPending]
  | _ => exact hkeep (fun _ => .refl _) rfl

/-- A thread changes the return value and the link of its own entry only. -/
theorem appOutcome_sameEntry {l : ℕ} {lt₀ lt : Ltab} {gtab : ℕ → Gtab} {g : Gtab}
    (h : AppOutcome job l lt₀ gtab lt g rq) : SameEntry (gtab lt₀.gtabIdx) g := by
  cases h <;> exact ⟨rfl, fun _ => rfl, fun _ => rfl, fun _ => rfl⟩

theorem retcleanGtab_sameEntry (mgr : Mgr) (gtab : ℕ → Gtab) (l i : ℕ) :
    SameEntry (gtab i) (retcleanGtab mgr gtab l i) := by
  unfold retcleanGtab
  split
  · apply sameEntry_update
    exact ⟨rfl, fun _ => rfl, fun _ => rfl, fun _ => rfl⟩
  · exact .refl _

theorem tableStep (hf : Facts job s) (hok : LifeOk (life job s)) {o : Option Packet}
    (hs : StepCase job s s' o) :
    TableStep job s.gtab (s.rk 0).mgr.threadsAlloc s'.gtab (s'.rk 0).mgr.threadsAlloc := by
  cases hs with
  | app r l lt gt rq hr hl hdd ho hc =>
    refine .keep (fun i => ?_) (threadsAlloc_keep hc rfl)
    rw [hc.gtab]
    exact sameEntry_update (appOutcome_sameEntry ho) i
  | recv p net addr m gt out hr hd hdd ho hc => exact tableStep_recv hf hok hd ho hc
  | recvShutdown p net hr hd hb hdd hc =>
    refine .keep (fun i => ?_) (threadsAlloc_keep hc rfl)
    rw [hc.gtab]
    exact .refl _
  | req r rqe rest m gt out hr hq hdd ho hc =>
    refine .keep (fun i => ?_) (threadsAlloc_keep hc ?_)
    · rw [hc.gtab]
      cases ho with
      | retclean l haddr hlt hbusy hop => exact retcleanGtab_sameEntry _ _ l i
      | _ => exact .refl _
    · cases ho <;> rfl
  | reqShutdown r l rqe rest hr hq hop haddr hrank hdd hc =>
    refine .keep (fun i => ?_) (threadsAlloc_keep hc rfl)
    rw [hc.gtab]
    exact .refl _
  | shutdown hidle hdrain hdd hc =>
    refine .keep (fun i => ?_) (threadsAlloc_keep hc rfl)
    rw [hc.gtab]
    exact .refl _

/-- A slot that keeps its thread, or stays free. -/
def SameSlot (lt lt' : Ltab) : Prop :=
  lt'.gtabIdx = lt.gtabIdx ∧ lt'.seq = lt.seq ∧ (lt'.pthState = .none ↔ lt.pthState = .none)

theorem SameSlot.refl (lt : Ltab) : SameSlot lt lt := ⟨rfl, rfl, Iff.rfl⟩

theorem sameSlot_update {ltab : ℕ → Ltab} {k : ℕ} {lt : Ltab} (h : SameSlot (ltab k) lt)
    (l : ℕ) : SameSlot (ltab l) (Function.update ltab k lt l) := by
  by_cases hl : l = k
  · rw [hl, Function.update_self]
    exact h
  · rw [Function.update_of_ne hl]
    exact .refl _

theorem sameSlot_release (ltab : ℕ → Ltab) (rqe : Request) (notify : Bool) (l : ℕ) :
    SameSlot (ltab l) (releaseLtab ltab rqe notify l) := by
  cases haddr : rqe.addr with
  | internal n =>
    simp only [releaseLtab, haddr]
    exact .refl _
  | ltab k =>
    simp only [releaseLtab, haddr]
    apply sameSlot_update
    exact ⟨rfl, rfl, Iff.rfl⟩

theorem appOutcome_sameSlot {l : ℕ} {lt₀ lt : Ltab} {gtab : ℕ → Gtab} {g : Gtab}
    (h : AppOutcome job l lt₀ gtab lt g rq) (hok : LtabOk lt₀) : SameSlot lt₀ lt := by
  have hslot := (appOutcome_life h hok).1
  have hnone : lt.pthState = .none ↔ lt₀.pthState = .none := by
    unfold slotOf at hslot
    by_cases hlt : lt.pthState = .none
    · by_cases hlt₀ : lt₀.pthState = .none
      · exact iff_of_true hlt hlt₀
      · simp [hlt, hlt₀] at hslot
    · by_cases hlt₀ : lt₀.pthState = .none
      · simp [hlt, hlt₀] at hslot
      · exact iff_of_false hlt hlt₀
  cases h <;> exact ⟨rfl, rfl, hnone⟩

/-- What a step does to slot `l` of rank `r`. -/
inductive SlotStep (s s' : Sys) (r l : ℕ) : Prop
  | keep (h : SameSlot ((s.rk r).mgr.ltab l) ((s'.rk r).mgr.ltab l))
  | start (p : Packet) (thread : DThread) (attrs : Attr) (hp : p ∈ s.net) (hdst : p.dst = r)
      (hb : p.frame.body = .start thread attrs)
      (hfree : ((s.rk r).mgr.ltab l).pthState = .none)
      (hidx : ((s'.rk r).mgr.ltab l).gtabIdx = thread.dtIndex)
      (hseq : ((s'.rk r).mgr.ltab l).seq = thread.dtSeq)
  | refuse (hfree : ((s.rk r).mgr.ltab l).pthState = .none)
      (hfree' : ((s'.rk r).mgr.ltab l).pthState = .none)
  | leave (hfree : ((s'.rk r).mgr.ltab l).pthState = .none)
      (hgt : s'.gtab = retcleanGtab (s.rk r).mgr s.gtab l)

theorem slotStep_recv (hf : Facts job s) {p : Packet} {addr : ℕ} {out : List Post}
    (hd : Deliver Packet.chan s.net p net)
    (ho : MqeOutcome job (s.view p.dst) ⟨addr, p.src, p.frame⟩ m gt out)
    (hc : Change s s' p.dst m gt rq net posts) (l : ℕ) : SlotStep s s' p.dst l := by
  have hkeep (h : SameSlot ((s.rk p.dst).mgr.ltab l) (m.ltab l)) : SlotStep s s' p.dst l :=
    .keep (hc.mgr ▸ h)
  cases ho with
  | startOk thread attrs k hb h hfree hlt =>
    by_cases hl : l = k
    · subst hl
      refine .start p thread attrs hd.mem rfl hb ((hf.slots p.dst).free_slot hlt hfree) ?_ ?_
      · rw [hc.mgr]
        simp [startedMgr, Mgr.setLtab]
      · rw [hc.mgr]
        simp [startedMgr, Mgr.setLtab]
    · apply hkeep
      simp only [startedMgr, Mgr.setLtab, Function.update_of_ne hl]
      exact .refl _
  | startFail thread attrs k e hb h hfree hlt he =>
    by_cases hl : l = k
    · subst hl
      refine .refuse ((hf.slots p.dst).free_slot hlt hfree) ?_
      rw [hc.mgr]
      simp [unstartedMgr, Mgr.setLtab]
    · apply hkeep
      simp only [unstartedMgr, Mgr.setLtab, Function.update_of_ne hl]
      exact .refl _
  | cancelHit thread k hb h hl hhas hlt hseq =>
    apply hkeep
    apply sameSlot_update
    unfold cancelLtab
    split
    · rename_i hrun
      have hrun' : ((s.rk p.dst).mgr.ltab k).pthState = .running := hrun
      exact ⟨rfl, rfl, by simp [hrun']⟩
    · exact .refl _
  | detachWait => exact hkeep (sameSlot_release _ _ _ _)
  | terminatedJoined => exact hkeep (sameSlot_release _ _ _ _)
  | terminatedDetachedJoined => exact hkeep (sameSlot_release _ _ _ _)
  | startedOk => exact hkeep (sameSlot_release _ _ _ _)
  | startedErr => exact hkeep (sameSlot_release _ _ _ _)
  | reply => exact hkeep (sameSlot_release _ _ _ _)
  | _ => exact hkeep (.refl _)

theorem slotStep_req (hf : Facts job s) {rqe : Request} {rest : List Request} {out : List Post}
    (hq : (s.rk r).dtq.mgrreqq = rqe :: rest) (ho : ReqOutcome job (s.view r) rqe m gt out)
    (hc : Change s s' r m gt rest net posts) (l : ℕ) : SlotStep s s' r l := by
  have hkeep (h : SameSlot ((s.rk r).mgr.ltab l) (m.ltab l)) : SlotStep s s' r l :=
    .keep (hc.mgr ▸ h)
  cases ho with
  | retclean k haddr hlt hbusy hop =>
    have hmem : rqe ∈ (s.rk r).dtq.mgrreqq := by
      rw [hq]
      exact List.mem_cons_self
    have hused := ((hf.slots r).issued_of_mem (List.mem_append_left _ hmem) haddr).1
    have hltab := retclean_ltab (m := (s.rk r).mgr) haddr hused
    by_cases hl : l = k
    · subst hl
      refine .leave ?_ hc.gtab
      rw [hc.mgr]
      simp only [Sys.view]
      rw [hltab, Function.update_self]
    · apply hkeep
      simp only [Sys.view]
      rw [hltab, Function.update_of_ne hl]
      exact .refl _
  | bad => exact hkeep (sameSlot_release _ _ _ _)
  | forward => exact hkeep (.refl _)
  | forwardDrain => exact hkeep (sameSlot_release _ _ _ _)
  | app0Other => exact hkeep (sameSlot_release _ _ _ _)

theorem slotStep (hf : Facts job s) {o : Option Packet} (hs : StepCase job s s' o) (r l : ℕ) :
    SlotStep s s' r l := by
  have hother {k : ℕ} {m : Mgr} {gt : ℕ → Gtab} {rq : List Request} {net : List Packet}
      {posts : List Post} (hc : Change s s' k m gt rq net posts) (hr : r ≠ k) :
      SlotStep s s' r l := by
    refine .keep ?_
    rw [hc.others r hr]
    exact .refl _
  cases hs with
  | app k l₀ lt gt rq hk hl hdd ho hc =>
    by_cases hr : r = k
    · subst hr
      refine .keep ?_
      rw [hc.mgr]
      exact sameSlot_update (appOutcome_sameSlot ho ((hf.slots r).entry l₀)) l
    · exact hother hc hr
  | recv p net addr m gt out hk hd hdd ho hc =>
    by_cases hr : r = p.dst
    · subst hr
      exact slotStep_recv hf hd ho hc l
    · exact hother hc hr
  | recvShutdown p net hk hd hb hdd hc =>
    by_cases hr : r = p.dst
    · subst hr
      exact .keep (hc.mgr ▸ .refl _)
    · exact hother hc hr
  | req k rqe rest m gt out hk hq hdd ho hc =>
    by_cases hr : r = k
    · subst hr
      exact slotStep_req hf hq ho hc l
    · exact hother hc hr
  | reqShutdown k l₀ rqe rest hk hq hop haddr hrank hdd hc =>
    by_cases hr : r = k
    · subst hr
      refine .keep ?_
      rw [hc.mgr]
      exact sameSlot_release _ _ _ _
    · exact hother hc hr
  | shutdown hidle hdrain hdd hc =>
    by_cases hr : r = 0
    · subst hr
      exact .keep (hc.mgr ▸ .refl _)
    · exact hother hc hr

end Steps

/-- Where a thread is named while it lives, with the rank it is on: in rank 0's
request for its START, in the START, in its slot and in the report of its end. -/
inductive Named (s : Sys) : ℕ → DThread → Prop
  | request (rqe : Request) (hrqe : rqe ∈ (s.rk 0).mgr.rpending) (hop : rqe.reqop = .start) :
      Named s rqe.reqpeer rqe.creinfo.cThread
  | start (p : Packet) (thread : DThread) (attrs : Attr) (hp : p ∈ s.net)
      (hb : p.frame.body = .start thread attrs) : Named s p.dst thread
  | slot (r l : ℕ) (hused : ((s.rk r).mgr.ltab l).pthState ≠ .none) :
      Named s r ⟨((s.rk r).mgr.ltab l).gtabIdx, ((s.rk r).mgr.ltab l).seq⟩
  | ended (p : Packet) (thread : DThread) (fin : LtState) (hp : p ∈ s.net)
      (hb : p.frame.body = .terminated thread fin) : Named s p.src thread

/-- The entry that a handle names belongs to that thread and to rank `r`. -/
def EntryOf (gtab : ℕ → Gtab) (r : ℕ) (thread : DThread) : Prop :=
  (gtab thread.dtIndex).rank = r ∧ (gtab thread.dtIndex).seq = thread.dtSeq

section Names

variable {job : Job} {s s' : Sys} {r : ℕ} {thread : DThread}

theorem Named.live (h : Named s r thread) (hok : LifeOk (life job s)) :
    thread.dtIndex ∈ (life job s).live := by
  cases h with
  | request rqe hrqe hop => exact live_of_request hok hrqe hop
  | start p _ attrs hp hb => exact live_of_start hok hp hb
  | slot _ l hused => exact hok.hostLive (slots_eq_some hused)
  | ended p _ fin hp hb => exact live_of_terminated hok hp hb

/-- A START request that a message adds is for an entry made for it. -/
theorem mqeOutcome_request {v : View} {mqe : Mqe} {m : Mgr} {gt : ℕ → Gtab} {out : List Post}
    (h : MqeOutcome job v mqe m gt out) {rqe : Request} (hrqe : rqe ∈ m.rpending)
    (hop : rqe.reqop = .start) :
    rqe ∈ v.mgr.rpending ∨ EntryOf gt rqe.reqpeer rqe.creinfo.cThread := by
  cases h with
  | createOk attrs dispIdx arg n gidx xidseq hb hdisp hroom hfree hlt hxid hinit =>
    rw [List.mem_append, List.mem_singleton] at hrqe
    rcases hrqe with hrqe | rfl
    · exact .inl hrqe
    · right
      simp [EntryOf, startRequest, gtabInit]
  | joinWait thread n hb hgt hdet hz hw =>
    rw [List.mem_append, List.mem_singleton] at hrqe
    rcases hrqe with hrqe | rfl
    · exact .inl hrqe
    · simp [joinwaitRequest] at hop
  | detachWait => exact .inl (List.mem_of_mem_eraseP hrqe)
  | terminatedJoined => exact .inl (List.mem_of_mem_eraseP hrqe)
  | terminatedDetachedJoined => exact .inl (List.mem_of_mem_eraseP hrqe)
  | startedOk => exact .inl (List.mem_of_mem_eraseP hrqe)
  | startedErr => exact .inl (List.mem_of_mem_eraseP hrqe)
  | reply => exact .inl (List.mem_of_mem_eraseP hrqe)
  | _ => exact .inl hrqe

/-- So is the START that a message causes. -/
theorem mqeOutcome_start {v : View} {mqe : Mqe} {m : Mgr} {gt : ℕ → Gtab} {out : List Post}
    (h : MqeOutcome job v mqe m gt out) :
    ∀ post ∈ out, ∀ attrs, post.2.body = .start thread attrs → EntryOf gt post.1 thread := by
  cases h with
  | createOk attrs' dispIdx arg n gidx xidseq hb' hdisp hroom hfree hlt hxid hinit =>
    intro post hpost attrs hb
    obtain rfl : post = _ := by simpa using hpost
    obtain ⟨rfl, -⟩ : _ = thread ∧ _ := by simpa [Frame.of] using hb
    simp [EntryOf, gtabInit]
  | _ => simp [Frame.of, joinedPost]

/-- A forwarded request is not about a START or an end. -/
theorem reqOutcome_posts (hf : Facts job s) {rqe : Request} {rest : List Request} {m : Mgr}
    {gt : ℕ → Gtab} {out : List Post} (hq : (s.rk r).dtq.mgrreqq = rqe :: rest)
    (ho : ReqOutcome job (s.view r) rqe m gt out) {post : Post} (hpost : post ∈ out) :
    (∀ attrs, post.2.body ≠ .start thread attrs) ∧
      ∀ fin, post.2.body = .terminated thread fin → Named s r thread := by
  have hmem : rqe ∈ (s.rk r).dtq.mgrreqq := by
    rw [hq]
    exact List.mem_cons_self
  cases ho with
  | forward l mqe xidseq haddr hlt hbusy hop hmqe hxid hd =>
    obtain ⟨-, hbody, -⟩ := hf.wellformed.requests r rqe hmem mqe hmqe
    obtain rfl : post = _ := by simpa using hpost
    rw [← hbody] at hop
    constructor
    · intro attrs hb
      simp only at hb
      rw [hb] at hop
      exact Bool.noConfusion hop
    · intro fin hb
      simp only at hb
      rw [hb] at hop
      exact Bool.noConfusion hop
  | retclean l haddr hlt hbusy hop =>
    have hused := ((hf.slots r).issued_of_mem (List.mem_append_left _ hmem) haddr).1
    obtain rfl : post = _ := by simpa using hpost
    refine ⟨by simp [Frame.of], fun fin hb => ?_⟩
    obtain ⟨rfl, -⟩ : _ = thread ∧ _ := by simpa [Frame.of] using hb
    exact .slot r l hused
  | _ => simp at hpost

/-- Where a name comes from: it was there before, or the entry was made for it. -/
theorem Named.origin (hf : Facts job s) {o : Option Packet} (hs : StepCase job s s' o)
    (h : Named s' r thread) :
    Named s r thread ∨ EntryOf s'.gtab r thread := by
  have hbcasts (k r : ℕ) (post : Post) (hpost : post ∈ sent s r (bcasts job k)) :
      post.2.body = .bcastshutdown := by
    obtain ⟨child, -, rfl⟩ := List.mem_map.mp (mem_sent hpost)
    rfl
  cases h with
  | request rqe hrqe hop =>
    have hkeep {k : ℕ} {m : Mgr} {gt : ℕ → Gtab} {rq : List Request} {net : List Packet}
        {posts : List Post} (hc : Change s s' k m gt rq net posts)
        (hm : ∀ rqe ∈ m.rpending, rqe.reqop = .start → rqe ∈ (s.rk k).mgr.rpending) :
        Named s rqe.reqpeer rqe.creinfo.cThread := by
      refine .request rqe ?_ hop
      by_cases hk : k = 0
      · subst hk
        rw [hc.mgr] at hrqe
        exact hm rqe hrqe hop
      · rwa [hc.others 0 (Ne.symm hk)] at hrqe
    cases hs with
    | app k l lt gt rq hk hl hdd ho hc => exact .inl (hkeep hc fun _ hold _ => hold)
    | recv p net addr m gt out hk hd hdd ho hc =>
      by_cases hdst : p.dst = 0
      · have hmgr := hc.mgr
        rw [hdst] at hmgr
        rw [hmgr] at hrqe
        rw [hc.gtab]
        refine (mqeOutcome_request ho hrqe hop).imp_left fun hold => .request rqe ?_ hop
        simpa only [Sys.view, hdst] using hold
      · rw [hc.others 0 (Ne.symm hdst)] at hrqe
        exact .inl (.request rqe hrqe hop)
    | recvShutdown p net hk hd hb hdd hc => exact .inl (hkeep hc fun _ hold _ => hold)
    | req k rqe' rest m gt out hk hq hdd ho hc =>
      refine .inl (hkeep hc fun rqe₁ hrqe₁ hop₁ => ?_)
      cases ho with
      | forward l mqe xidseq haddr hlt hbusy hfwd hmqe hxid hd =>
        rw [List.mem_append, List.mem_singleton] at hrqe₁
        rcases hrqe₁ with hold | rfl
        · exact hold
        · simp only at hop₁
          rw [hop₁] at hfwd
          exact Bool.noConfusion hfwd
      | _ => exact hrqe₁
    | reqShutdown k l rqe' rest hk hq hop' haddr hrank hdd hc =>
      exact .inl (hkeep hc fun _ hold _ => hold)
    | shutdown hidle hdrain hdd hc => exact .inl (hkeep hc fun _ hold _ => hold)
  | start p _ attrs hp hb =>
    have hkeep {k : ℕ} {m : Mgr} {gt : ℕ → Gtab} {rq : List Request} {net : List Packet}
        {posts : List Post} (hc : Change s s' k m gt rq net posts)
        (hnet : ∀ p ∈ net, p ∈ s.net)
        (hposts : ∀ post ∈ posts, post.2.body = .start thread attrs →
          EntryOf s'.gtab post.1 thread) :
        Named s p.dst thread ∨ EntryOf s'.gtab p.dst thread := by
      rw [hc.net, List.mem_append, List.mem_map] at hp
      rcases hp with hp | ⟨post, hpost, rfl⟩
      · exact .inl (.start p thread attrs (hnet p hp) hb)
      · exact .inr (hposts post hpost hb)
    cases hs with
    | app k l lt gt rq hk hl hdd ho hc => exact hkeep hc (fun _ => id) (by simp)
    | recv p' net addr m gt out hk hd hdd ho hc =>
      refine hkeep hc (fun _ => hd.mem_of_mem) fun post hpost hstart => ?_
      rw [hc.gtab]
      exact mqeOutcome_start ho post (mem_sent hpost) attrs hstart
    | recvShutdown p' net hk hd hb' hdd hc =>
      refine hkeep hc (fun _ => hd.mem_of_mem) fun post hpost hstart => ?_
      simp [hbcasts _ _ post hpost] at hstart
    | req k rqe rest m gt out hk hq hdd ho hc =>
      refine hkeep hc (fun _ => id) fun post hpost hstart => ?_
      exact absurd hstart ((reqOutcome_posts hf hq ho (mem_sent hpost)).1 attrs)
    | reqShutdown k l rqe rest hk hq hop haddr hrank hdd hc =>
      refine hkeep hc (fun _ => id) fun post hpost hstart => ?_
      simp [hbcasts _ _ post hpost] at hstart
    | shutdown hidle hdrain hdd hc =>
      refine hkeep hc (fun _ => id) fun post hpost hstart => ?_
      simp [hbcasts _ _ post hpost] at hstart
  | slot _ l hused =>
    left
    cases slotStep hf hs r l with
    | keep hsame =>
      rw [hsame.1, hsame.2.1]
      exact .slot r l fun hnone => hused (hsame.2.2.mpr hnone)
    | start p thread attrs hp hdst hb hfree hidx hseq =>
      rw [hidx, hseq, ← hdst]
      exact .start p thread attrs hp hb
    | refuse hfree hfree' => exact absurd hfree' hused
    | leave hfree hgt => exact absurd hfree hused
  | ended p _ fin hp hb =>
    left
    have hkeep {k : ℕ} {m : Mgr} {gt : ℕ → Gtab} {rq : List Request} {net : List Packet}
        {posts : List Post} (hc : Change s s' k m gt rq net posts)
        (hnet : ∀ p ∈ net, p ∈ s.net)
        (hposts : ∀ post ∈ posts, post.2.body = .terminated thread fin → Named s k thread) :
        Named s p.src thread := by
      rw [hc.net, List.mem_append, List.mem_map] at hp
      rcases hp with hp | ⟨post, hpost, rfl⟩
      · exact .ended p thread fin (hnet p hp) hb
      · exact hposts post hpost hb
    cases hs with
    | app k l lt gt rq hk hl hdd ho hc => exact hkeep hc (fun _ => id) (by simp)
    | recv p' net addr m gt out hk hd hdd ho hc =>
      refine hkeep hc (fun _ => hd.mem_of_mem) fun post hpost hend => ?_
      exact absurd hend (mqeOutcome_no_terminated ho post (mem_sent hpost) thread fin)
    | recvShutdown p' net hk hd hb' hdd hc =>
      refine hkeep hc (fun _ => hd.mem_of_mem) fun post hpost hend => ?_
      simp [hbcasts _ _ post hpost] at hend
    | req k rqe rest m gt out hk hq hdd ho hc =>
      refine hkeep hc (fun _ => id) fun post hpost hend => ?_
      exact (reqOutcome_posts hf hq ho (mem_sent hpost)).2 fin hend
    | reqShutdown k l rqe rest hk hq hop haddr hrank hdd hc =>
      refine hkeep hc (fun _ => id) fun post hpost hend => ?_
      simp [hbcasts _ _ post hpost] at hend
    | shutdown hidle hdrain hdd hc =>
      refine hkeep hc (fun _ => id) fun post hpost hend => ?_
      simp [hbcasts _ _ post hpost] at hend

/-- Every name of a live thread agrees with the thread's entry. -/
def NamesOk (s : Sys) : Prop := ∀ r thread, Named s r thread → EntryOf s.gtab r thread

theorem namesOk_init (job : Job) : NamesOk (sysInit job) := by
  intro r thread h
  cases h with
  | request rqe hrqe hop => simp [sysInit_rpending] at hrqe
  | start p _ attrs hp hb => simp [sysInit] at hp
  | slot _ l hused =>
    have hslot : (life job (sysInit job)).slots r l = _ := slots_eq_some hused
    rw [life_init] at hslot
    simp only [setSlot] at hslot
    split at hslot
    · rename_i hrl
      obtain ⟨rfl, rfl⟩ := hrl
      exact ⟨rfl, rfl⟩
    · simp at hslot
  | ended p _ fin hp hb => simp [sysInit] at hp

theorem namesOk_step (h : NamesOk s) (hf : Facts job s) (hok : LifeOk (life job s))
    {o : Option Packet} (hs : StepCase job s s' o) : NamesOk s' := by
  intro r thread hnamed
  have hok' : LifeOk (life job s') := hok.step (step_life hf hs)
  rcases hnamed.origin hf hs with hold | hnew
  · obtain ⟨-, halloc, -⟩ := isLive_of_mem (hold.live hok)
    obtain ⟨-, halloc', -⟩ := isLive_of_mem (hnamed.live hok')
    have hsame := (tableStep hf hok hs).sameEntry halloc halloc'
    obtain ⟨hrank, hseq⟩ := h r thread hold
    exact ⟨(hsame.rank halloc).trans hrank, (hsame.seq halloc).trans hseq⟩
  · exact hnew

theorem reachable_namesOk (h : Reachable job s) : NamesOk s :=
  h.invariant (I := NamesOk) (namesOk_init job) fun _ _ hr hi hs =>
    namesOk_step hi (reachable_facts hr) (reachable_lifeOk hr) hs

end Names

/-- An entry with a link names a slot in use, which names the entry. -/
def LinkBack (s : Sys) : Prop :=
  ∀ i, (s.gtab i).hasLtab = true →
    ((s.rk (s.gtab i).rank).mgr.ltab (s.gtab i).ltabIdx).pthState ≠ .none ∧
      ((s.rk (s.gtab i).rank).mgr.ltab (s.gtab i).ltabIdx).gtabIdx = i ∧
      ((s.rk (s.gtab i).rank).mgr.ltab (s.gtab i).ltabIdx).seq = (s.gtab i).seq

section Links

variable {job : Job} {s s' : Sys}

/-- What is left of a link: it is as it was or it is gone. -/
def LinkKept (gt gt' : Gtab) : Prop :=
  gt'.hasLtab = true → gt.hasLtab = true ∧ gt'.ltabIdx = gt.ltabIdx

theorem LinkKept.refl (gt : Gtab) : LinkKept gt gt := fun h => ⟨h, rfl⟩

theorem LinkKept.trans {gt gt' gt'' : Gtab} (h : LinkKept gt gt') (h' : LinkKept gt' gt'') :
    LinkKept gt gt'' := by
  intro hlink
  obtain ⟨hlink', hidx'⟩ := h' hlink
  obtain ⟨hlink'', hidx⟩ := h hlink'
  exact ⟨hlink'', hidx'.trans hidx⟩

theorem linkKept_update {gtab : ℕ → Gtab} {k : ℕ} {gt : Gtab} (h : LinkKept (gtab k) gt)
    (i : ℕ) : LinkKept (gtab i) (Function.update gtab k gt i) := by
  by_cases hi : i = k
  · rw [hi, Function.update_self]
    exact h
  · rw [Function.update_of_ne hi]
    exact .refl _

theorem linkKept_freeGtab (gtab : ℕ → Gtab) (k i : ℕ) :
    LinkKept (gtab i) (freeGtab gtab k i) := by
  unfold freeGtab
  split
  · exact linkKept_update (by simp [LinkKept]) i
  · exact .refl _

theorem linkKept_cleanupGtab (job : Job) (gtab : ℕ → Gtab) (k i : ℕ) :
    LinkKept (gtab i) (cleanupGtab job gtab k i) := by
  unfold cleanupGtab
  split
  · exact .refl _
  · apply linkKept_update
    exact fun h => ⟨h, rfl⟩

theorem linkKept_zombieGtab (gtab : ℕ → Gtab) (thread : DThread) (fin : LtState) (i : ℕ) :
    LinkKept (gtab i) (zombieGtab gtab thread fin i) :=
  linkKept_update (by simp [LinkKept]) i

theorem mqeOutcome_linkKept {v : View} {mqe : Mqe} {m : Mgr} {gt : ℕ → Gtab} {out : List Post}
    (h : MqeOutcome job v mqe m gt out) (i : ℕ) : LinkKept (v.gtab i) (gt i) := by
  have hdetach (k : ℕ) : LinkKept (v.gtab i)
      (Function.update v.gtab k { v.gtab k with detached := true } i) := by
    apply linkKept_update
    exact fun hlink => ⟨hlink, rfl⟩
  cases h with
  | createOk => exact linkKept_update (by simp [LinkKept, gtabInit]) i
  | createDrain => exact linkKept_update (by simp [LinkKept]) i
  | detachPlain => exact hdetach _
  | detachWait => exact hdetach _
  | joinZombie => exact linkKept_freeGtab _ _ i
  | terminatedZombie => exact linkKept_zombieGtab _ _ _ i
  | terminatedDetached =>
    exact ((linkKept_zombieGtab _ _ _ i).trans (linkKept_cleanupGtab job _ _ i)).trans
      (linkKept_freeGtab _ _ i)
  | terminatedJoined => exact (linkKept_zombieGtab _ _ _ i).trans (linkKept_freeGtab _ _ i)
  | terminatedDetachedJoined =>
    exact ((linkKept_zombieGtab _ _ _ i).trans (linkKept_cleanupGtab job _ _ i)).trans
      (linkKept_freeGtab _ _ i)
  | startedErr => exact linkKept_freeGtab _ _ i
  | _ => exact .refl _

theorem linkKept_retcleanGtab (mgr : Mgr) (gtab : ℕ → Gtab) (l i : ℕ) :
    LinkKept (gtab i) (retcleanGtab mgr gtab l i) := by
  unfold retcleanGtab
  split
  · exact linkKept_update (by simp [LinkKept]) i
  · exact .refl _

/-- Where a link comes from: it was there before, or a thread has published
its slot. -/
theorem link_origin {o : Option Packet} (hs : StepCase job s s' o) (i : ℕ) :
    LinkKept (s.gtab i) (s'.gtab i) ∨
      ∃ r, ((s'.rk r).mgr.ltab (s'.gtab i).ltabIdx).pthState ≠ .none ∧
        ((s'.rk r).mgr.ltab (s'.gtab i).ltabIdx).gtabIdx = i := by
  cases hs with
  | app r l lt gt rq hr hl hdd ho hc =>
    rw [hc.gtab]
    by_cases hi : i = ((s.rk r).mgr.ltab l).gtabIdx
    · subst hi
      rw [Function.update_self]
      cases ho with
      | publish hpc hseq =>
        right
        refine ⟨r, ?_, ?_⟩
        · rw [hc.mgr]
          simp [Mgr.setLtab]
        · rw [hc.mgr]
          simp [Mgr.setLtab]
      | _ => exact .inl fun hlink => ⟨hlink, rfl⟩
    · rw [Function.update_of_ne hi]
      exact .inl (.refl _)
  | recv p net addr m gt out hr hd hdd ho hc =>
    rw [hc.gtab]
    exact .inl (mqeOutcome_linkKept ho i)
  | recvShutdown p net hr hd hb hdd hc =>
    rw [hc.gtab]
    exact .inl (.refl _)
  | req r rqe rest m gt out hr hq hdd ho hc =>
    rw [hc.gtab]
    cases ho with
    | retclean l haddr hlt hbusy hop => exact .inl (linkKept_retcleanGtab _ _ l i)
    | _ => exact .inl (.refl _)
  | reqShutdown r l rqe rest hr hq hop haddr hrank hdd hc =>
    rw [hc.gtab]
    exact .inl (.refl _)
  | shutdown hidle hdrain hdd hc =>
    rw [hc.gtab]
    exact .inl (.refl _)

/-- A thread that keeps its slot and whose entry names the slot. -/
theorem linked_of_slot (hnames : NamesOk s') {i r l : ℕ} (hl : (s'.gtab i).ltabIdx = l)
    (hused : ((s'.rk r).mgr.ltab l).pthState ≠ .none)
    (hidx : ((s'.rk r).mgr.ltab l).gtabIdx = i) :
    ((s'.rk (s'.gtab i).rank).mgr.ltab (s'.gtab i).ltabIdx).pthState ≠ .none ∧
      ((s'.rk (s'.gtab i).rank).mgr.ltab (s'.gtab i).ltabIdx).gtabIdx = i ∧
      ((s'.rk (s'.gtab i).rank).mgr.ltab (s'.gtab i).ltabIdx).seq = (s'.gtab i).seq := by
  obtain ⟨hrank, hseq⟩ := hnames r _ (.slot r l hused)
  simp only [hidx] at hrank hseq
  rw [hrank, hl]
  exact ⟨hused, hidx, hseq.symm⟩

theorem linkBack_step (h : LinkBack s) (hnames : NamesOk s) (hf : Facts job s)
    (hok : LifeOk (life job s)) {o : Option Packet} (hs : StepCase job s s' o) : LinkBack s' := by
  intro i hlink
  have hnames' := namesOk_step hnames hf hok hs
  rcases link_origin hs i with hkept | ⟨r, hused, hgi⟩
  · obtain ⟨hold, hidx⟩ := hkept hlink
    obtain ⟨hused, hgi, hseq⟩ := h i hold
    cases slotStep hf hs (s.gtab i).rank (s.gtab i).ltabIdx with
    | keep hsame =>
      exact linked_of_slot hnames' hidx (fun hnone => hused (hsame.2.2.mp hnone))
        (hsame.1.trans hgi)
    | start p thread attrs hp hdst hb hfree hidx' hseq' => exact absurd hfree hused
    | refuse hfree hfree' => exact absurd hfree hused
    | leave hfree hgt =>
      -- the RETCLEAN that frees the slot has cleared the link
      rw [hgt] at hlink
      simp [retcleanGtab, hgi, hold, hseq] at hlink
  · exact linked_of_slot hnames' rfl hused hgi

theorem linkBack_init (job : Job) : LinkBack (sysInit job) := by
  intro i hlink
  by_cases hi : i = 0
  · subst hi
    simp [sysInit, mgrStartapp, Mgr.setLtab]
  · simp [sysInit, mgrStartapp, hi, Gtab.zero] at hlink

theorem reachable_linkBack (h : Reachable job s) : LinkBack s :=
  h.invariant (I := LinkBack) (linkBack_init job) fun _ _ hr hi hs =>
    linkBack_step hi (reachable_namesOk hr) (reachable_facts hr) (reachable_lifeOk hr) hs

theorem reachable_threadsAlloc (h : Reachable job s) :
    (s.rk 0).mgr.threadsAlloc = allocCount job s.gtab := by
  refine h.invariant (I := fun s => (s.rk 0).mgr.threadsAlloc = allocCount job s.gtab) ?_
    fun _ _ hr hi hs => (tableStep (reachable_facts hr) (reachable_lifeOk hr) hs).count hi
  have hone : allocCount job (sysInit job).gtab = allocCount job (fun _ => .zero) + 1 :=
    allocCount_insert job.nmaxthread_pos rfl rfl fun j hj => by simp [sysInit, mgrStartapp, hj]
  rw [hone]
  simp [allocCount, Gtab.zero, sysInit, mgrStartapp]

end Links

end Dthread.TableSteps
