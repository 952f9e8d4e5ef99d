import Dthread.RequestReply
import Dthread.LocalSlots
import Dthread.ThreadLife
import Dthread.TableWrites

/-!
The job refines the protocol of thread lives. The live threads are the entries
of the shared table that are allocated and have not ended, the STARTs and the
calls are pending requests, and every step of the job is a step of the
protocol.
-/
namespace Dthread.LifeRefinement

open ReqMsg Queuing ManagerTables ManagerHandlers ManagerEffects ManagerOutcomes AppThreads
open FifoNet JobSystem TableWrites RequestReply LocalSlots ThreadLife

def isLive (gt : Gtab) : Bool := gt.allocated && gt.terminated.needFinalstate

def liveSet (job : Job) (gtab : ℕ → Gtab) : Finset ℕ :=
  (Finset.range job.nmaxthread).filter fun i => isLive (gtab i) = true

def startOf (rqe : Request) : Option Start :=
  if rqe.reqop = .start then
    some ⟨rqe.xidseq, rqe.creinfo.cThread.dtIndex, rqe.creinfo.cPeer, rqe.creinfo.cXidseq⟩
  else none

def letterOf (p : Packet) : Option Letter :=
  match p.frame.body with
  | .create .. => some ⟨p.src, p.dst, .create p.frame.xidseq⟩
  | .start thread _ => some ⟨p.src, p.dst, .start p.frame.xidseq thread.dtIndex⟩
  | .started e => some ⟨p.src, p.dst, .started (e == 0) p.frame.xidseq⟩
  | .terminated thread _ => some ⟨p.src, p.dst, .ended thread.dtIndex⟩
  | _ => none

def slotOf (lt : Ltab) : Option ℕ := if lt.pthState = .none then none else some lt.gtabIdx

def callsOf (rpending : List Request) (x l : ℕ) : Prop :=
  ∃ rqe ∈ rpending, rqe.reqop = .create ∧ rqe.xidseq = x ∧ rqe.addr = .ltab l

def life (job : Job) (s : Sys) : Life where
  live := liveSet job s.gtab
  starts := (s.rk 0).mgr.rpending.filterMap startOf
  slots r l := slotOf ((s.rk r).mgr.ltab l)
  calls r x l := callsOf (s.rk r).mgr.rpending x l
  mute r := draindown s r != .init
  net := s.net.filterMap letterOf
  running := (s.rk 0).mgr.threadsRunning
  starting := (s.rk 0).mgr.threadsStarting

theorem letterOf_chan (p : Packet) (q : Letter) (h : letterOf p = some q) : q.chan = p.chan := by
  unfold letterOf at h
  split at h <;> simp only [Option.some.injEq, reduceCtorEq] at h <;> subst h <;> rfl

section LiveSet

variable {job : Job} {gtab gt : ℕ → Gtab}

theorem liveSet_congr (h : ∀ i, isLive (gt i) = isLive (gtab i)) :
    liveSet job gt = liveSet job gtab := by
  simp [liveSet, h]

theorem liveSet_insert {i : ℕ} (hi : i < job.nmaxthread) (hlive : isLive (gt i) = true)
    (h : ∀ j, j ≠ i → gt j = gtab j) : liveSet job gt = insert i (liveSet job gtab) := by
  ext j
  simp only [liveSet, Finset.mem_filter, Finset.mem_range, Finset.mem_insert]
  by_cases hj : j = i
  · subst hj
    simp [hi, hlive]
  · simp [hj, h j hj]

theorem liveSet_erase {i : ℕ} (hdead : isLive (gt i) = false)
    (h : ∀ j, j ≠ i → gt j = gtab j) : liveSet job gt = (liveSet job gtab).erase i := by
  ext j
  simp only [liveSet, Finset.mem_filter, Finset.mem_range, Finset.mem_erase]
  by_cases hj : j = i
  · subst hj
    simp [hdead]
  · simp [hj, h j hj]

theorem liveSet_update_dead {i : ℕ} (hold : isLive (gtab i) = false)
    (hdead : isLive (gt i) = false) (h : ∀ j, j ≠ i → gt j = gtab j) :
    liveSet job gt = liveSet job gtab := by
  refine liveSet_congr fun j => ?_
  by_cases hj : j = i
  · rw [hj, hold, hdead]
  · rw [h j hj]

end LiveSet

section Lists

variable {rpending : List Request}

theorem filterMap_eraseP_start (y : ℕ) :
    (rpending.eraseP (pendingMatch .start y)).filterMap startOf =
      dropStart (rpending.filterMap startOf) y := by
  unfold dropStart
  induction rpending with
  | nil => rfl
  | cons rqe rpending ih =>
    by_cases hop : rqe.reqop = .start
    · by_cases hy : rqe.xidseq = y
      · simp [startOf, pendingMatch, hop, hy]
      · rw [List.eraseP_cons_of_neg (by simp [pendingMatch, hop, hy])]
        simp only [List.filterMap_cons, startOf, hop, if_true]
        rw [List.eraseP_cons_of_neg (by simpa using hy)]
        exact congrArg _ ih
    · rw [List.eraseP_cons_of_neg (by simp [pendingMatch, hop])]
      simpa [List.filterMap_cons, startOf, hop] using ih

theorem filterMap_eraseP_other {f : Request → Bool}
    (h : ∀ rqe, f rqe = true → rqe.reqop ≠ .start) :
    (rpending.eraseP f).filterMap startOf = rpending.filterMap startOf := by
  induction rpending with
  | nil => rfl
  | cons rqe rpending ih =>
    by_cases hf : f rqe = true
    · simp [hf, startOf, h rqe hf]
    · rw [List.eraseP_cons_of_neg hf, List.filterMap_cons, List.filterMap_cons, ih]

theorem callsOf_eraseP {f : Request → Bool} (h : ∀ rqe, f rqe = true → rqe.reqop ≠ .create) :
    callsOf (rpending.eraseP f) = callsOf rpending := by
  funext x l
  refine propext ⟨?_, ?_⟩
  · rintro ⟨rqe, hrqe, hcall⟩
    exact ⟨rqe, List.mem_of_mem_eraseP hrqe, hcall⟩
  · rintro ⟨rqe, hrqe, hcall⟩
    have hf : ¬ f rqe = true := fun hf => h rqe hf hcall.1
    exact ⟨rqe, (List.mem_eraseP_of_neg hf).mpr hrqe, hcall⟩

theorem callsOf_append {rqe : Request} (h : rqe.reqop ≠ .create) :
    callsOf (rpending ++ [rqe]) = callsOf rpending := by
  funext x l
  refine propext ⟨?_, ?_⟩
  · rintro ⟨rqe', hrqe', hcall⟩
    rw [List.mem_append, List.mem_singleton] at hrqe'
    rcases hrqe' with hrqe' | rfl
    · exact ⟨rqe', hrqe', hcall⟩
    · exact absurd hcall.1 h
  · rintro ⟨rqe', hrqe', hcall⟩
    exact ⟨rqe', List.mem_append_left _ hrqe', hcall⟩

end Lists

section Change

variable {job : Job} {s s' : Sys} {r : ℕ} {m : Mgr} {gt : ℕ → Gtab} {rq : List Request}
  {net : List Packet} {posts : List Post}

/-- The letters of a rank that has posted `posts`. -/
def lettersOf (r : ℕ) (posts : List Post) : List Letter := (posts.map (pack r)).filterMap letterOf

theorem lettersOf_sent_single (s : Sys) (r : ℕ) {post : Post} {note : Note}
    (h : letterOf (pack r post) = some ⟨r, 0, note⟩) :
    lettersOf r (sent s r [post]) = said (life job s) r note := by
  by_cases hd : draindown s r = .init
  · simp [lettersOf, sent, said, life, hd, h]
  · simp [lettersOf, sent, said, life, hd]

theorem lettersOf_eq_nil (h : ∀ post ∈ posts, letterOf (pack r post) = none) :
    lettersOf r posts = [] := by
  simp only [lettersOf, List.filterMap_eq_nil_iff, List.mem_map]
  rintro _ ⟨post, hpost, rfl⟩
  exact h post hpost

/-- What a step of rank `r` can change of the protocol's state. -/
theorem life_change (job : Job) (hc : Change s s' r m gt rq net posts) :
    (life job s').live = liveSet job gt ∧
      (life job s').net = net.filterMap letterOf ++ lettersOf r posts ∧
      (life job s').starts = (if r = 0 then m else (s.rk 0).mgr).rpending.filterMap startOf ∧
      (∀ r' l, (life job s').slots r' l =
        if r' = r then slotOf (m.ltab l) else (life job s).slots r' l) ∧
      (∀ r' x l, (life job s').calls r' x l =
        if r' = r then callsOf m.rpending x l else (life job s).calls r' x l) ∧
      (∀ r', r' ≠ r → (life job s').mute r' = (life job s).mute r') ∧
      (life job s').running = (if r = 0 then m else (s.rk 0).mgr).threadsRunning ∧
      (life job s').starting = (if r = 0 then m else (s.rk 0).mgr).threadsStarting := by
  have hmgr : (s'.rk 0).mgr = if r = 0 then m else (s.rk 0).mgr := by
    split
    · rename_i hr
      subst hr
      exact hc.mgr
    · rename_i hr
      rw [hc.others 0 (Ne.symm hr)]
  refine ⟨by simp [life, hc.gtab], ?_, by simp only [life, hmgr], fun r' l => ?_, fun r' x l => ?_,
    fun r' hr' => ?_, by simp only [life, hmgr], by simp only [life, hmgr]⟩
  · simp [life, hc.net, lettersOf]
  · by_cases hr : r' = r
    · subst hr
      simp [life, hc.mgr]
    · simp [life, hr, hc.others r' hr]
  · by_cases hr : r' = r
    · subst hr
      simp [life, hc.mgr]
    · simp [life, hr, hc.others r' hr]
  · simp [life, draindown, hc.others r' hr']

/-- A step that keeps the live threads, the STARTs, the slots and the counters
changes the calls, the mute ranks and the letters only. -/
theorem life_keep (hc : Change s s' r m gt rq net posts)
    (hlive : liveSet job gt = liveSet job s.gtab)
    (hstarts : m.rpending.filterMap startOf = (s.rk r).mgr.rpending.filterMap startOf)
    (hslots : ∀ l, slotOf (m.ltab l) = slotOf ((s.rk r).mgr.ltab l))
    (hrunning : m.threadsRunning = (s.rk r).mgr.threadsRunning)
    (hstarting : m.threadsStarting = (s.rk r).mgr.threadsStarting) :
    life job s' = { life job s with
      calls := (life job s').calls
      mute := (life job s').mute
      net := net.filterMap letterOf ++ lettersOf r posts } := by
  obtain ⟨hl, hn, hst, hsl, -, -, hru, hsg⟩ := life_change job hc
  refine Life.ext ?_ ?_ ?_ rfl rfl ?_ ?_ ?_
  · exact hl.trans hlive
  · rw [hst]
    split
    · rename_i hr
      subst hr
      exact hstarts
    · rfl
  · funext r' l
    rw [hsl]
    split
    · rename_i hr
      subst hr
      exact hslots l
    · rfl
  · exact hn
  · rw [hru]
    split
    · rename_i hr
      subst hr
      exact hrunning
    · rfl
  · rw [hsg]
    split
    · rename_i hr
      subst hr
      exact hstarting
    · rfl

theorem lifeStep_still (hc : Change s s' r m gt rq net posts)
    (hlive : liveSet job gt = liveSet job s.gtab)
    (hstarts : m.rpending.filterMap startOf = (s.rk r).mgr.rpending.filterMap startOf)
    (hslots : ∀ l, slotOf (m.ltab l) = slotOf ((s.rk r).mgr.ltab l))
    (hrunning : m.threadsRunning = (s.rk r).mgr.threadsRunning)
    (hstarting : m.threadsStarting = (s.rk r).mgr.threadsStarting)
    (hcalls : ∀ x l, callsOf m.rpending x l → callsOf (s.rk r).mgr.rpending x l)
    (hmute : draindown s' r = .init → draindown s r = .init)
    (hnet : net.filterMap letterOf = s.net.filterMap letterOf)
    (hposts : ∀ post ∈ posts, letterOf (pack r post) = none) :
    LifeStep (life job s) (life job s') := by
  obtain ⟨-, -, -, -, hca, hmu, -, -⟩ := life_change job hc
  rw [life_keep hc hlive hstarts hslots hrunning hstarting, lettersOf_eq_nil hposts, hnet,
    List.append_nil]
  refine .still _ _ (fun r' x l hcall => ?_) (fun r' hm => ?_)
  · rw [hca] at hcall
    split at hcall
    · rename_i hr
      subst hr
      exact hcalls x l hcall
    · exact hcall
  · by_cases hr : r' = r
    · subst hr
      simp only [life, bne_iff_ne, ne_eq] at hm ⊢
      exact fun hinit => hm (hmute hinit)
    · rw [hmu r' hr]
      exact hm

/-- The calls and the mute ranks stay when rank `r` keeps its pending calls. -/
theorem calls_keep (hc : Change s s' r m gt rq net posts)
    (hcalls : callsOf m.rpending = callsOf (s.rk r).mgr.rpending) :
    (life job s').calls = (life job s).calls := by
  obtain ⟨-, -, -, -, hca, -⟩ := life_change job hc
  funext r' x l
  rw [hca]
  split
  · rename_i hr
    subst hr
    rw [hcalls]
    rfl
  · rfl

theorem mute_keep (hc : Change s s' r m gt rq net posts)
    (hdd : draindown s' r = draindown s r) : (life job s').mute = (life job s).mute := by
  obtain ⟨-, -, -, -, -, hmu, -⟩ := life_change job hc
  funext r'
  by_cases hr : r' = r
  · subst hr
    simp [life, hdd]
  · exact hmu r' hr

/-- A step of rank `r` that changes slot `l` and sends letters. -/
theorem life_slot (job : Job) (hc : Change s s' r m gt rq net posts)
    (hdd : draindown s' r = draindown s r)
    (hlive : liveSet job gt = liveSet job s.gtab)
    (hrpending : m.rpending = (s.rk r).mgr.rpending)
    (hrunning : m.threadsRunning = (s.rk r).mgr.threadsRunning)
    (hstarting : m.threadsStarting = (s.rk r).mgr.threadsStarting) {l : ℕ} {lt : Ltab}
    (hltab : m.ltab = Function.update (s.rk r).mgr.ltab l lt) :
    life job s' = { life job s with
      slots := setSlot (life job s).slots r l (slotOf lt)
      net := net.filterMap letterOf ++ lettersOf r posts } := by
  obtain ⟨hl, hn, hst, hsl, -, -, hru, hsg⟩ := life_change job hc
  have hrank0 : (if r = 0 then m else (s.rk 0).mgr).rpending = (s.rk 0).mgr.rpending ∧
      (if r = 0 then m else (s.rk 0).mgr).threadsRunning = (s.rk 0).mgr.threadsRunning ∧
      (if r = 0 then m else (s.rk 0).mgr).threadsStarting = (s.rk 0).mgr.threadsStarting := by
    split
    · rename_i hr
      subst hr
      exact ⟨hrpending, hrunning, hstarting⟩
    · exact ⟨rfl, rfl, rfl⟩
  refine Life.ext (hl.trans hlive) ?_ ?_ (calls_keep hc (by rw [hrpending])) (mute_keep hc hdd) hn
    (hru.trans hrank0.2.1) (hsg.trans hrank0.2.2)
  · rw [hst, hrank0.1]
    rfl
  · funext r' l'
    rw [hsl, hltab]
    by_cases hr : r' = r
    · subst hr
      by_cases hl' : l' = l
      · subst hl'
        simp [setSlot_self]
      · simp [setSlot_of_ne, hl', life]
    · simp [hr, setSlot_of_ne, life]

/-- A step of rank 0 that keeps its slots and its pending calls. -/
theorem life_rank0 (job : Job) (hc : Change s s' 0 m gt rq net posts)
    (hdd : draindown s' 0 = draindown s 0)
    (hslots : ∀ l, slotOf (m.ltab l) = slotOf ((s.rk 0).mgr.ltab l))
    (hcalls : callsOf m.rpending = callsOf (s.rk 0).mgr.rpending) :
    life job s' = { life job s with
      live := liveSet job gt
      starts := m.rpending.filterMap startOf
      running := m.threadsRunning
      starting := m.threadsStarting
      net := net.filterMap letterOf ++ lettersOf 0 posts } := by
  obtain ⟨hl, hn, hst, hsl, -, -, hru, hsg⟩ := life_change job hc
  refine Life.ext hl hst ?_ (calls_keep hc hcalls) (mute_keep hc hdd) hn hru hsg
  funext r' l
  rw [hsl]
  split
  · rename_i hr
    subst hr
    exact hslots l
  · rfl

/-- A letter is taken in and nothing else happens. -/
theorem lifeStep_lose (hc : Change s s' r m gt rq net posts)
    (hdd : draindown s' r = draindown s r)
    (hlive : liveSet job gt = liveSet job s.gtab)
    (hrpending : m.rpending = (s.rk r).mgr.rpending)
    (hltab : m.ltab = (s.rk r).mgr.ltab)
    (hrunning : m.threadsRunning = (s.rk r).mgr.threadsRunning)
    (hstarting : m.threadsStarting = (s.rk r).mgr.threadsStarting) {p : Packet} {q : Letter}
    (hd : Deliver Packet.chan s.net p net) (hq : letterOf p = some q)
    (hstarted : ∀ ok y, q.note = .started ok y → ∀ st ∈ (life job s).starts, st.xid ≠ y)
    (hposts : ∀ post ∈ posts, letterOf (pack r post) = none) :
    LifeStep (life job s) (life job s') := by
  have heq : life job s' = { life job s with net := net.filterMap letterOf } := by
    rw [life_keep hc hlive (by rw [hrpending]) (fun l => by rw [hltab]) hrunning hstarting,
      lettersOf_eq_nil hposts, List.append_nil, calls_keep hc (by rw [hrpending]),
      mute_keep hc hdd]
  rw [heq]
  exact .lose q _ (hd.filterMap letterOf_chan hq) hstarted

/-- The end of thread `i` reaches rank 0. -/
theorem lifeStep_ended (hc : Change s s' 0 m gt rq net posts)
    (hdd : draindown s' 0 = draindown s 0)
    (hslots : ∀ l, slotOf (m.ltab l) = slotOf ((s.rk 0).mgr.ltab l))
    (hcalls : callsOf m.rpending = callsOf (s.rk 0).mgr.rpending)
    (hstarts : m.rpending.filterMap startOf = (s.rk 0).mgr.rpending.filterMap startOf)
    (hrunning : m.threadsRunning = (s.rk 0).mgr.threadsRunning - 1)
    (hstarting : m.threadsStarting = (s.rk 0).mgr.threadsStarting) {p : Packet} {src i : ℕ}
    (hd : Deliver Packet.chan s.net p net) (hq : letterOf p = some ⟨src, 0, .ended i⟩)
    (hdead : isLive (gt i) = false) (hothers : ∀ j, j ≠ i → gt j = s.gtab j)
    (hposts : ∀ post ∈ posts, letterOf (pack 0 post) = none) :
    LifeStep (life job s) (life job s') := by
  have heq : life job s' = { life job s with
      live := (life job s).live.erase i
      running := (life job s).running - 1
      net := net.filterMap letterOf } := by
    rw [life_rank0 job hc hdd hslots hcalls, lettersOf_eq_nil hposts, List.append_nil, hstarts,
      hrunning, hstarting, liveSet_erase hdead hothers]
    rfl
  rw [heq]
  exact .ended src i _ (hd.filterMap letterOf_chan hq)

end Change

theorem slotOf_update {ltab : ℕ → Ltab} {l : ℕ} {lt : Ltab} (h : slotOf lt = slotOf (ltab l))
    (l' : ℕ) : slotOf (Function.update ltab l lt l') = slotOf (ltab l') := by
  by_cases hl : l' = l
  · rw [hl, Function.update_self, h]
  · rw [Function.update_of_ne hl]

theorem slotOf_release (ltab : ℕ → Ltab) (rqe : Request) (notify : Bool) (l : ℕ) :
    slotOf (releaseLtab ltab rqe notify l) = slotOf (ltab l) := by
  cases haddr : rqe.addr with
  | internal n => simp only [releaseLtab, haddr]
  | ltab k =>
    simp only [releaseLtab, haddr]
    exact slotOf_update (by rfl) l

theorem isLive_detached (gtab : ℕ → Gtab) (k i : ℕ) :
    isLive (Function.update gtab k { gtab k with detached := true } i) = isLive (gtab i) := by
  by_cases hi : i = k
  · rw [hi, Function.update_self]
    rfl
  · rw [Function.update_of_ne hi]

/-- A thread's step keeps its slot and its place among the live threads. -/
theorem appOutcome_life {job : Job} {l : ℕ} {lt₀ lt : Ltab} {gtab : ℕ → Gtab} {gt : Gtab}
    {rq : List Request} (h : AppOutcome job l lt₀ gtab lt gt rq) (hok : LtabOk lt₀) :
    slotOf lt = slotOf lt₀ ∧ isLive gt = isLive (gtab lt₀.gtabIdx) := by
  have hslot (hpc : lt₀.pc ≠ .none) (hstate : lt.pthState ≠ .none)
      (hidx : lt.gtabIdx = lt₀.gtabIdx) : slotOf lt = slotOf lt₀ := by
    simp [slotOf, hidx, hstate, hok.used_of_pc hpc]
  cases h with
  | silent hpc hbad => exact ⟨rfl, rfl⟩
  | retclean state ret hpc hfinal hkeep =>
    refine ⟨hslot ?_ (fun hnone => ?_) rfl, rfl⟩
    · rcases hpc with hpc | ⟨b, hpc⟩ <;> simp [hpc]
    · simp only at hnone
      simp [hnone, LtState.needFinalstate, LtState.code] at hfinal
  | publish hpc hseq => exact ⟨hslot (by simp [hpc]) (by simp) rfl, rfl⟩
  | post body peer addr hpc hidle hpeer => exact ⟨rfl, rfl⟩
  | collect hpc hdone => exact ⟨rfl, rfl⟩
  | leave pc state ret hpc hpc' hstate =>
    refine ⟨?_, rfl⟩
    rcases hstate with rfl | rfl
    · rfl
    · refine hslot ?_ (by simp) rfl
      rcases hpc with ⟨hpc, -⟩ | hpc <;> simp [hpc]
  | app0Return hpc hidle hdisp => exact ⟨hslot (by simp [hpc]) (by simp) rfl, rfl⟩

theorem lifeStep_app {job : Job} {s s' : Sys} {r l : ℕ} {lt : Ltab} {gt : Gtab}
    {rq : List Request} (hok : LtabOk ((s.rk r).mgr.ltab l))
    (hdd : draindown s' r = draindown s r)
    (ho : AppOutcome job l ((s.rk r).mgr.ltab l) s.gtab lt gt rq)
    (hc : Change s s' r ((s.rk r).mgr.setLtab l lt)
      (Function.update s.gtab ((s.rk r).mgr.ltab l).gtabIdx gt)
      ((s.rk r).dtq.mgrreqq ++ rq) s.net []) :
    LifeStep (life job s) (life job s') := by
  obtain ⟨hslot, hlive⟩ := appOutcome_life ho hok
  refine lifeStep_still hc (liveSet_congr fun i => ?_) rfl (slotOf_update hslot) rfl rfl
    (fun _ _ hcall => hcall) (fun hinit => hdd ▸ hinit) rfl (by simp)
  by_cases hi : i = ((s.rk r).mgr.ltab l).gtabIdx
  · rw [hi, Function.update_self, hlive]
  · rw [Function.update_of_ne hi]

/-- A rank only reports an end after the thread's final state was set. -/
def FinalNotes (s : Sys) : Prop :=
  ∀ p ∈ s.net, ∀ thread fin, p.frame.body = .terminated thread fin → fin.needFinalstate = false

/-- The facts about a state that the protocol's steps rest on. -/
structure Facts (job : Job) (s : Sys) : Prop where
  sane : Sane s
  wellformed : Wellformed s
  matched : Matched s
  slots : ∀ r, SlotsOk job.nmaxthread (s.rk r).mgr.ltab (s.rk r).mgr.ltabAlloc
    (s.rk r).dtq.mgrreqq (s.rk r).mgr.rpending
  final : FinalNotes s

section Recv

variable {job : Job} {s s' : Sys} {p : Packet} {net : List Packet} {addr : ℕ} {m : Mgr}
  {gt : ℕ → Gtab} {out : List Post}

theorem mem_starts {rpending : List Request} {rqe : Request} (hrqe : rqe ∈ rpending)
    (hop : rqe.reqop = .start) :
    (⟨rqe.xidseq, rqe.creinfo.cThread.dtIndex, rqe.creinfo.cPeer, rqe.creinfo.cXidseq⟩ : Start) ∈
      rpending.filterMap startOf :=
  List.mem_filterMap.mpr ⟨rqe, hrqe, by simp [startOf, hop]⟩

theorem xid_ne_of_find {rpending : List Request} {y : ℕ}
    (h : findPendingReq rpending .start y = none) :
    ∀ st ∈ rpending.filterMap startOf, st.xid ≠ y := by
  intro st hst hy
  obtain ⟨rqe, hrqe, hof⟩ := List.mem_filterMap.mp hst
  have hop : rqe.reqop = .start := by
    by_contra hop
    simp [startOf, hop] at hof
  obtain rfl : _ = st := by simpa [startOf, hop] using hof
  have hnone := List.find?_eq_none.mp h rqe hrqe
  simp [pendingMatch, hop] at hnone
  exact hnone hy

/-- A CREATE that rank 0 accepts. -/
theorem lifeStep_create {attrs : Attr} {dispIdx n gidx xidseq : ℕ} {arg : Argret}
    (hd : Deliver Packet.chan s.net p net) (hdst : p.dst = 0)
    (hdd : draindown s' 0 = draindown s 0)
    (hb : p.frame.body = .create attrs dispIdx arg)
    (hfree : (s.gtab gidx).allocated = false) (hlt : gidx < job.nmaxthread)
    (hxid : findPendingReq (s.rk 0).mgr.rpending .start xidseq = none)
    (hinit : draindown s 0 = .init)
    (hc : Change s s' 0
      { createMgr job (s.rk 0).mgr gidx xidseq with
        threadsAlloc := (s.rk 0).mgr.threadsAlloc + 1
        threadsStarting := (s.rk 0).mgr.threadsStarting + 1
        rpending := (s.rk 0).mgr.rpending ++ [startRequest n (s.rk 0).mgr.nextRank xidseq
          ⟨⟨gidx, (s.rk 0).mgr.seqsrc⟩, p.src, p.frame.xidseq⟩] }
      (Function.update s.gtab gidx (gtabInit (s.rk 0).mgr.nextRank (s.rk 0).mgr.seqsrc dispIdx arg
        (s.gtab gidx))) (s.rk 0).dtq.mgrreqq net
      (sent s 0 [((s.rk 0).mgr.nextRank, .of xidseq
        (.start ⟨gidx, (s.rk 0).mgr.seqsrc⟩ (startAttrs attrs)))])) :
    LifeStep (life job s) (life job s') := by
  have hletter : letterOf p = some ⟨p.src, 0, .create p.frame.xidseq⟩ := by
    simp [letterOf, hb, hdst]
  have hnew : gidx ∉ (life job s).live := by
    simp [life, liveSet, isLive, hfree]
  have hlive : liveSet job (Function.update s.gtab gidx (gtabInit (s.rk 0).mgr.nextRank
      (s.rk 0).mgr.seqsrc dispIdx arg (s.gtab gidx))) = insert gidx (liveSet job s.gtab) := by
    refine liveSet_insert hlt ?_ (fun j hj => Function.update_of_ne hj _ _)
    rw [Function.update_self]
    rfl
  have heq : life job s' = { life job s with
      live := insert gidx (life job s).live
      starts := (life job s).starts ++ [⟨xidseq, gidx, p.src, p.frame.xidseq⟩]
      starting := (life job s).starting + 1
      net := net.filterMap letterOf ++
        [⟨0, (s.rk 0).mgr.nextRank, .start xidseq gidx⟩] } := by
    rw [life_rank0 job hc hdd (fun _ => rfl) (callsOf_append (by simp [startRequest])), hlive]
    simp [life, lettersOf, sent, hinit, letterOf, pack, Frame.of, startOf, startRequest,
      createMgr]
  rw [heq]
  exact .create p.src p.frame.xidseq xidseq gidx _ _ (hd.filterMap letterOf_chan hletter) hnew
    (xid_ne_of_find hxid)

/-- A START that its rank refuses. -/
theorem lifeStep_fail {r e : ℕ} {thread : DThread} {attrs : Attr} {rq : List Request}
    (hd : Deliver Packet.chan s.net p net) (hsrc : p.src = 0) (hdst : p.dst = r)
    (hdd : draindown s' r = draindown s r) (hb : p.frame.body = .start thread attrs)
    (he : e ≠ 0)
    (hrpending : m.rpending = (s.rk r).mgr.rpending)
    (hslots : ∀ l, slotOf (m.ltab l) = slotOf ((s.rk r).mgr.ltab l))
    (hrunning : m.threadsRunning = (s.rk r).mgr.threadsRunning)
    (hstarting : m.threadsStarting = (s.rk r).mgr.threadsStarting)
    (hc : Change s s' r m s.gtab rq net
      (sent s r [(0, .of p.frame.xidseq (.started e))])) :
    LifeStep (life job s) (life job s') := by
  have hletter : letterOf p = some ⟨0, r, .start p.frame.xidseq thread.dtIndex⟩ := by
    simp [letterOf, hb, hsrc, hdst]
  have hanswer : letterOf (pack r (0, .of p.frame.xidseq (.started e))) =
      some ⟨r, 0, .started false p.frame.xidseq⟩ := by
    simp [letterOf, pack, Frame.of, he]
  have heq : life job s' = { life job s with
      net := net.filterMap letterOf ++ said (life job s) r (.started false p.frame.xidseq) } := by
    rw [life_keep hc rfl (by rw [hrpending]) hslots hrunning hstarting,
      calls_keep hc (by rw [hrpending]), mute_keep hc hdd, lettersOf_sent_single s r hanswer]
  rw [heq]
  exact .fail r _ _ _ (hd.filterMap letterOf_chan hletter)

theorem lifeStep_start {r l : ℕ} {thread : DThread} {attrs : Attr} {rq : List Request}
    (hd : Deliver Packet.chan s.net p net) (hsrc : p.src = 0) (hdst : p.dst = r)
    (hdd : draindown s' r = draindown s r) (hb : p.frame.body = .start thread attrs)
    (hfree : ((s.rk r).mgr.ltab l).pthState = .none)
    (hc : Change s s' r (startedMgr (s.rk r).mgr thread l) s.gtab rq net
      (sent s r [(0, .of p.frame.xidseq (.started 0))])) :
    LifeStep (life job s) (life job s') := by
  have hletter : letterOf p = some ⟨0, r, .start p.frame.xidseq thread.dtIndex⟩ := by
    simp [letterOf, hb, hsrc, hdst]
  have hanswer : letterOf (pack r (0, .of p.frame.xidseq (.started 0))) =
      some ⟨r, 0, .started true p.frame.xidseq⟩ := by
    simp [letterOf, pack, Frame.of]
  have heq := life_slot job hc hdd rfl rfl rfl rfl rfl
  rw [lettersOf_sent_single s r hanswer] at heq
  rw [heq]
  exact .start r l _ _ _ (hd.filterMap letterOf_chan hletter) (by simp [life, slotOf, hfree])

theorem lifeStep_started {rqe : Request} (hd : Deliver Packet.chan s.net p net) (hdst : p.dst = 0)
    (hdd : draindown s' 0 = draindown s 0) (hb : p.frame.body = .started 0)
    (hfind : findPendingReq (s.rk 0).mgr.rpending .start p.frame.xidseq = some rqe)
    (hc : Change s s' 0
      (releaseMgr { dropPending (s.rk 0).mgr .start p.frame.xidseq with
        threadsStarting := (s.rk 0).mgr.threadsStarting - 1
        threadsRunning := (s.rk 0).mgr.threadsRunning + 1 } rqe false)
      s.gtab (s.rk 0).dtq.mgrreqq net
      (sent s 0 [(rqe.creinfo.cPeer, .of rqe.creinfo.cXidseq
        (.created 0 rqe.creinfo.cThread))])) :
    LifeStep (life job s) (life job s') := by
  obtain ⟨hxid, hop⟩ := findPendingReq_spec hfind
  have hletter : letterOf p = some ⟨p.src, 0, .started true p.frame.xidseq⟩ := by
    simp [letterOf, hb, hdst]
  have hnone : lettersOf 0 (sent s 0 [(rqe.creinfo.cPeer, .of rqe.creinfo.cXidseq
      (.created 0 rqe.creinfo.cThread))]) = [] := by
    refine lettersOf_eq_nil fun post hpost => ?_
    obtain rfl : post = _ := by simpa using mem_sent hpost
    rfl
  have heq := life_rank0 job hc hdd (slotOf_release _ _ _)
    (callsOf_eraseP fun rqe' hmatch => by
      simp only [pendingMatch, Bool.and_eq_true, beq_iff_eq] at hmatch
      simp [hmatch.2])
  rw [hnone, List.append_nil] at heq
  simp only [releaseMgr, dropPending, filterMap_eraseP_start] at heq
  rw [heq]
  exact .started p.src _ _ _ (hd.filterMap letterOf_chan hletter)
    (mem_starts (List.mem_of_find?_eq_some hfind) hop) hxid

theorem lifeStep_failed {rqe : Request} {e : ℕ} (hd : Deliver Packet.chan s.net p net)
    (hdst : p.dst = 0) (hdd : draindown s' 0 = draindown s 0) (hb : p.frame.body = .started e)
    (he : e ≠ 0)
    (hfind : findPendingReq (s.rk 0).mgr.rpending .start p.frame.xidseq = some rqe)
    (hc : Change s s' 0
      (releaseMgr (freeMgr { dropPending (s.rk 0).mgr .start p.frame.xidseq with
        threadsStarting := (s.rk 0).mgr.threadsStarting - 1 } s.gtab
          rqe.creinfo.cThread.dtIndex) rqe false)
      (freeGtab s.gtab rqe.creinfo.cThread.dtIndex) (s.rk 0).dtq.mgrreqq net
      (sent s 0 [(rqe.creinfo.cPeer, .of rqe.creinfo.cXidseq (.created e ⟨0, 0⟩))])) :
    LifeStep (life job s) (life job s') := by
  obtain ⟨hxid, hop⟩ := findPendingReq_spec hfind
  have hletter : letterOf p = some ⟨p.src, 0, .started false p.frame.xidseq⟩ := by
    simp [letterOf, hb, hdst, he]
  have hnone : lettersOf 0 (sent s 0 [(rqe.creinfo.cPeer, .of rqe.creinfo.cXidseq
      (.created e ⟨0, 0⟩))]) = [] := by
    refine lettersOf_eq_nil fun post hpost => ?_
    obtain rfl : post = _ := by simpa using mem_sent hpost
    rfl
  have hlive : liveSet job (freeGtab s.gtab rqe.creinfo.cThread.dtIndex) =
      (liveSet job s.gtab).erase rqe.creinfo.cThread.dtIndex :=
    liveSet_erase (by simp [isLive, freeGtab_allocated]) fun j hj => freeGtab_of_ne _ hj
  have heq := life_rank0 job hc hdd (slotOf_release _ _ _)
    (callsOf_eraseP fun rqe' hmatch => by
      simp only [pendingMatch, Bool.and_eq_true, beq_iff_eq] at hmatch
      simp [hmatch.2])
  rw [hnone, List.append_nil, hlive] at heq
  simp only [releaseMgr, dropPending, freeMgr, filterMap_eraseP_start] at heq
  rw [heq]
  exact .failed p.src _ ⟨rqe.xidseq, rqe.creinfo.cThread.dtIndex, rqe.creinfo.cPeer,
    rqe.creinfo.cXidseq⟩ _ (hd.filterMap letterOf_chan hletter)
    (mem_starts (List.mem_of_find?_eq_some hfind) hop) hxid

/-- Taking a JOINWAIT off the list touches no START and no call. -/
theorem waiter_erased (rpending : List Request) (thread : DThread) :
    (rpending.eraseP (joinwaitMatch thread)).filterMap startOf = rpending.filterMap startOf ∧
      callsOf (rpending.eraseP (joinwaitMatch thread)) = callsOf rpending := by
  have hop (rqe : Request) (hmatch : joinwaitMatch thread rqe = true) :
      rqe.reqop = .joinwait := by
    simp only [joinwaitMatch, Bool.and_eq_true, beq_iff_eq] at hmatch
    exact hmatch.1
  exact ⟨filterMap_eraseP_other fun rqe hmatch => by simp [hop rqe hmatch],
    callsOf_eraseP fun rqe hmatch => by simp [hop rqe hmatch]⟩

/-- A message that carries no letter. -/
theorem lifeStep_quiet (hd : Deliver Packet.chan s.net p net)
    (hdd : draindown s' p.dst = draindown s p.dst)
    (hc : Change s s' p.dst m gt (s.rk p.dst).dtq.mgrreqq net (sent s p.dst out))
    (hletter : letterOf p = none) (hout : ∀ post ∈ out, letterOf (pack p.dst post) = none)
    (hlive : liveSet job gt = liveSet job s.gtab)
    (hstarts : m.rpending.filterMap startOf = (s.rk p.dst).mgr.rpending.filterMap startOf)
    (hsl : ∀ l, slotOf (m.ltab l) = slotOf ((s.rk p.dst).mgr.ltab l))
    (hrunning : m.threadsRunning = (s.rk p.dst).mgr.threadsRunning)
    (hstarting : m.threadsStarting = (s.rk p.dst).mgr.threadsStarting)
    (hcalls : ∀ x l, callsOf m.rpending x l → callsOf (s.rk p.dst).mgr.rpending x l) :
    LifeStep (life job s) (life job s') :=
  lifeStep_still hc hlive hstarts hsl hrunning hstarting hcalls (fun hinit => hdd ▸ hinit)
    (hd.filterMap_none hletter) fun post hpost => hout post (mem_sent hpost)

/-- The end of a thread, reported to rank 0. -/
theorem lifeStep_terminated (hf : Facts job s) (hd : Deliver Packet.chan s.net p net)
    (hdd : draindown s' p.dst = draindown s p.dst)
    (hc : Change s s' p.dst m gt (s.rk p.dst).dtq.mgrreqq net (sent s p.dst out))
    {thread : DThread} {fin : LtState} (hb : p.frame.body = .terminated thread fin)
    (hgt : ∀ j, j ≠ thread.dtIndex → gt j = s.gtab j)
    (hdead : fin.needFinalstate = false → isLive (gt thread.dtIndex) = false)
    (hout : ∀ post ∈ out, letterOf (pack p.dst post) = none)
    (hrpending : m.rpending.filterMap startOf = (s.rk p.dst).mgr.rpending.filterMap startOf)
    (hcalls : callsOf m.rpending = callsOf (s.rk p.dst).mgr.rpending)
    (hsl : ∀ l, slotOf (m.ltab l) = slotOf ((s.rk p.dst).mgr.ltab l))
    (hrunning : m.threadsRunning = (s.rk p.dst).mgr.threadsRunning - 1)
    (hstarting : m.threadsStarting = (s.rk p.dst).mgr.threadsStarting) :
    LifeStep (life job s) (life job s') := by
  have hdst : p.dst = 0 := hf.wellformed.rank0 p hd.mem (by rw [hb]; rfl)
  have hletter : letterOf p = some ⟨p.src, 0, .ended thread.dtIndex⟩ := by
    simp [letterOf, hb, hdst]
  rw [hdst] at hc hdd hsl hcalls hrpending hrunning hstarting hout
  exact lifeStep_ended hc hdd hsl hcalls hrpending hrunning hstarting hd hletter
    (hdead (hf.final p hd.mem thread fin hb)) hgt fun post hpost => hout post (mem_sent hpost)

/-- A message that is discarded. Its letter is lost. -/
theorem lifeStep_dropped (hf : Facts job s) (hd : Deliver Packet.chan s.net p net)
    (hdd : draindown s' p.dst = draindown s p.dst)
    (h : Dropped job (s.view p.dst) ⟨addr, p.src, p.frame⟩)
    (hc : Change s s' p.dst (s.rk p.dst).mgr s.gtab (s.rk p.dst).dtq.mgrreqq net
      (sent s p.dst [])) : LifeStep (life job s) (life job s') := by
  cases h with
  | runt hshort =>
    have hlen := hf.wellformed.frames p hd.mem
    simp only at hshort
    omega
  | wrongRank hrank h0 =>
    have hdst := hf.wellformed.rank0 p hd.mem h0
    simp only [Sys.view, hf.sane.rank] at hrank
    exact absurd hdst hrank
  | unmatchedReply op hop hnone =>
    refine lifeStep_quiet hd hdd hc ?_ (by simp) rfl rfl (fun _ => rfl) rfl rfl
      fun _ _ hcall => hcall
    simp only at hop
    cases hb : p.frame.body <;> simp [hb, replyTo] at hop <;> simp [letterOf, hb]
  | unmatchedStarted e hb hnone =>
    simp only at hb
    have hdst : p.dst = 0 := hf.wellformed.rank0 p hd.mem (by rw [hb]; rfl)
    have hletter : letterOf p = some ⟨p.src, 0, .started (e == 0) p.frame.xidseq⟩ := by
      simp [letterOf, hb, hdst]
    refine lifeStep_lose hc hdd rfl rfl rfl rfl rfl hd hletter (fun ok y hnote => ?_)
      fun post hpost => by simpa using mem_sent hpost
    obtain ⟨-, rfl⟩ : _ ∧ p.frame.xidseq = y := by simpa using hnote
    simp only [Sys.view, hdst] at hnone
    exact xid_ne_of_find hnone
  | badTerminated thread fin hb hbad =>
    simp only at hb
    have hletter : letterOf p = some ⟨p.src, p.dst, .ended thread.dtIndex⟩ := by
      simp [letterOf, hb]
    exact lifeStep_lose hc hdd rfl rfl rfl rfl rfl hd hletter (by simp)
      fun post hpost => by simpa using mem_sent hpost
  | unknown code hb =>
    simp only at hb
    exact lifeStep_quiet hd hdd hc (by simp [letterOf, hb]) (by simp) rfl rfl (fun _ => rfl) rfl rfl
      fun _ _ hcall => hcall

/-- A CREATE that is answered with an error. -/
theorem lifeStep_refused (hd : Deliver Packet.chan s.net p net)
    (hdd : draindown s' p.dst = draindown s p.dst)
    (hc : Change s s' p.dst m gt (s.rk p.dst).dtq.mgrreqq net (sent s p.dst out))
    {attrs : Attr} {dispIdx : ℕ} {arg : Argret} (hb : p.frame.body = .create attrs dispIdx arg)
    (hlive : liveSet job gt = liveSet job s.gtab)
    (hrpending : m.rpending = (s.rk p.dst).mgr.rpending)
    (hltab : m.ltab = (s.rk p.dst).mgr.ltab)
    (hrunning : m.threadsRunning = (s.rk p.dst).mgr.threadsRunning)
    (hstarting : m.threadsStarting = (s.rk p.dst).mgr.threadsStarting)
    (hout : ∀ post ∈ out, letterOf (pack p.dst post) = none) :
    LifeStep (life job s) (life job s') := by
  have hletter : letterOf p = some ⟨p.src, p.dst, .create p.frame.xidseq⟩ := by
    simp [letterOf, hb]
  exact lifeStep_lose hc hdd hlive hrpending hltab hrunning hstarting hd hletter (by simp)
    fun post hpost => hout post (mem_sent hpost)

/-- A request that is answered from the tables as they are. -/
theorem lifeStep_answered {post : Post} (hd : Deliver Packet.chan s.net p net)
    (hdd : draindown s' p.dst = draindown s p.dst)
    (hc : Change s s' p.dst (s.rk p.dst).mgr s.gtab (s.rk p.dst).dtq.mgrreqq net
      (sent s p.dst [post]))
    (hletter : letterOf p = none) (hout : letterOf (pack p.dst post) = none) :
    LifeStep (life job s) (life job s') :=
  lifeStep_quiet hd hdd hc hletter (by simpa using hout) rfl rfl (fun _ => rfl) rfl rfl
    fun _ _ hcall => hcall

/-- A DETACH, of a thread that is waited for or not. -/
theorem lifeStep_detach {thread : DThread} (hd : Deliver Packet.chan s.net p net)
    (hdd : draindown s' p.dst = draindown s p.dst)
    (hc : Change s s' p.dst m
      (Function.update s.gtab thread.dtIndex { s.gtab thread.dtIndex with detached := true })
      (s.rk p.dst).dtq.mgrreqq net (sent s p.dst out))
    (hb : p.frame.body = .detach thread)
    (hout : ∀ post ∈ out, letterOf (pack p.dst post) = none)
    (hstarts : m.rpending.filterMap startOf = (s.rk p.dst).mgr.rpending.filterMap startOf)
    (hsl : ∀ l, slotOf (m.ltab l) = slotOf ((s.rk p.dst).mgr.ltab l))
    (hrunning : m.threadsRunning = (s.rk p.dst).mgr.threadsRunning)
    (hstarting : m.threadsStarting = (s.rk p.dst).mgr.threadsStarting)
    (hcalls : callsOf m.rpending = callsOf (s.rk p.dst).mgr.rpending) :
    LifeStep (life job s) (life job s') :=
  lifeStep_quiet hd hdd hc (by simp [letterOf, hb]) hout
    (liveSet_congr fun i => isLive_detached s.gtab thread.dtIndex i) hstarts hsl hrunning hstarting
    fun _ _ hcall => hcalls ▸ hcall

/-- A canceled slot is still taken by a thread of the library. -/
theorem slotOf_cancelLtab (lt : Ltab) : slotOf (cancelLtab lt) = slotOf lt := by
  unfold cancelLtab
  split
  · rename_i hrun
    simp [slotOf, hrun]
  · rfl

/-- A JOIN of a thread that has ended frees an entry that is not live. -/
theorem lifeStep_joinZombie {thread : DThread} {post : Post} (hd : Deliver Packet.chan s.net p net)
    (hdd : draindown s' p.dst = draindown s p.dst)
    (hc : Change s s' p.dst (freeMgr (s.rk p.dst).mgr s.gtab thread.dtIndex)
      (freeGtab s.gtab thread.dtIndex) (s.rk p.dst).dtq.mgrreqq net (sent s p.dst [post]))
    (hb : p.frame.body = .join thread) (hout : letterOf (pack p.dst post) = none)
    (hz : (s.gtab thread.dtIndex).terminated.needFinalstate = false) :
    LifeStep (life job s) (life job s') := by
  refine lifeStep_quiet hd hdd hc (by simp [letterOf, hb]) (by simpa using hout) ?_ rfl
    (fun _ => rfl) rfl rfl fun _ _ hcall => hcall
  exact liveSet_update_dead (by simp [isLive, hz]) (by simp [isLive, freeGtab_allocated])
    fun j hj => freeGtab_of_ne _ hj

/-- A JOIN of a thread that runs is kept as a JOINWAIT. -/
theorem lifeStep_joinWait {thread : DThread} {n : ℕ} (hd : Deliver Packet.chan s.net p net)
    (hdd : draindown s' p.dst = draindown s p.dst)
    (hc : Change s s' p.dst { (s.rk p.dst).mgr with rpending := (s.rk p.dst).mgr.rpending ++
        [joinwaitRequest n p.src p.frame.xidseq thread] } s.gtab (s.rk p.dst).dtq.mgrreqq net
      (sent s p.dst []))
    (hb : p.frame.body = .join thread) : LifeStep (life job s) (life job s') := by
  have hcalls : callsOf ((s.rk p.dst).mgr.rpending ++
      [joinwaitRequest n p.src p.frame.xidseq thread]) = callsOf (s.rk p.dst).mgr.rpending :=
    callsOf_append (by simp [joinwaitRequest])
  refine lifeStep_quiet hd hdd hc (by simp [letterOf, hb]) (by simp) rfl ?_ (fun _ => rfl) rfl rfl
    fun x l hcall => hcalls ▸ hcall
  simp [startOf, joinwaitRequest]

/-- The end of a thread whose entry is freed at once: it is detached, or waited for. -/
theorem lifeStep_freed (hf : Facts job s) (hd : Deliver Packet.chan s.net p net)
    (hdd : draindown s' p.dst = draindown s p.dst) {thread : DThread} {fin : LtState}
    {gt : ℕ → Gtab}
    (hc : Change s s' p.dst m (freeGtab gt thread.dtIndex) (s.rk p.dst).dtq.mgrreqq net
      (sent s p.dst out))
    (hb : p.frame.body = .terminated thread fin)
    (hgt : ∀ j, j ≠ thread.dtIndex → gt j = s.gtab j)
    (hout : ∀ post ∈ out, letterOf (pack p.dst post) = none)
    (hrpending : m.rpending.filterMap startOf = (s.rk p.dst).mgr.rpending.filterMap startOf)
    (hcalls : callsOf m.rpending = callsOf (s.rk p.dst).mgr.rpending)
    (hsl : ∀ l, slotOf (m.ltab l) = slotOf ((s.rk p.dst).mgr.ltab l))
    (hrunning : m.threadsRunning = (s.rk p.dst).mgr.threadsRunning - 1)
    (hstarting : m.threadsStarting = (s.rk p.dst).mgr.threadsStarting) :
    LifeStep (life job s) (life job s') := by
  refine lifeStep_terminated hf hd hdd hc hb (fun j hj => ?_)
    (fun _ => by simp [isLive, freeGtab_allocated]) hout hrpending hcalls hsl hrunning hstarting
  rw [freeGtab_of_ne _ hj, hgt j hj]

/-- The reply to a call of a thread other than `dthread_create`. -/
theorem lifeStep_reply {op : Op} {rqe : Request} (hd : Deliver Packet.chan s.net p net)
    (hdd : draindown s' p.dst = draindown s p.dst)
    (hc : Change s s' p.dst
      (releaseMgr (dropPending (s.rk p.dst).mgr op p.frame.xidseq) rqe true) s.gtab
      (s.rk p.dst).dtq.mgrreqq net (sent s p.dst []))
    (hop : replyTo p.frame.body = some op) : LifeStep (life job s) (life job s') := by
  refine lifeStep_quiet hd hdd hc ?_ (by simp) rfl ?_ (slotOf_release _ _ _) rfl rfl
    fun x l hcall => ?_
  · cases hb : p.frame.body <;> simp [hb, replyTo] at hop <;> simp [letterOf, hb]
  · have hforward := forwarded_of_replyTo hop
    refine filterMap_eraseP_other fun rqe₁ hmatch hstart => ?_
    simp only [pendingMatch, Bool.and_eq_true, beq_iff_eq] at hmatch
    rw [← hmatch.2, hstart] at hforward
    exact Bool.noConfusion hforward
  · obtain ⟨rqe₁, hrqe₁, hcall⟩ := hcall
    exact ⟨rqe₁, List.mem_of_mem_eraseP hrqe₁, hcall⟩

/-- The manager of rank `p.dst` handles a message. -/
theorem lifeStep_recv (hf : Facts job s) (hd : Deliver Packet.chan s.net p net)
    (hdd : draindown s' p.dst = draindown s p.dst)
    (ho : MqeOutcome job (s.view p.dst) ⟨addr, p.src, p.frame⟩ m gt out)
    (hc : Change s s' p.dst m gt (s.rk p.dst).dtq.mgrreqq net (sent s p.dst out)) :
    LifeStep (life job s) (life job s') := by
  have hmem := hd.mem
  have hrank0 := hf.wellformed.rank0 p hmem
  have hslots := hf.slots p.dst
  cases ho with
  | drop h => exact lifeStep_dropped hf hd hdd h hc
  | createErr attrs dispIdx arg e next hb he hnext =>
    exact lifeStep_refused hd hdd hc hb rfl rfl rfl rfl rfl (by simp [letterOf, pack, Frame.of])
  | createOk attrs dispIdx arg n gidx xidseq hb hdisp hroom hfree hlt hxid hinit =>
    simp only at hb
    have hdst : p.dst = 0 := hrank0 (by rw [hb]; rfl)
    simp only [hdst, Sys.view] at hc hdd hfree hxid hinit
    exact lifeStep_create hd hdst hdd hb hfree hlt hxid hinit hc
  | createDrain attrs dispIdx arg gidx xidseq hb hfree hlt hdrain =>
    have hfree' : (s.gtab gidx).allocated = false := hfree
    refine lifeStep_refused hd hdd hc hb ?_ rfl rfl rfl rfl (by simp [letterOf, pack, Frame.of])
    exact liveSet_update_dead (i := gidx) (by simp [isLive, hfree']) (by simp [isLive])
      fun j hj => Function.update_of_ne hj _ _
  | startInvalid thread attrs hb h =>
    simp only at hb
    have hsrc := hf.wellformed.starts p hmem (by rw [hb]; rfl)
    exact lifeStep_fail hd hsrc rfl hdd hb (by decide) rfl (fun _ => rfl) rfl rfl hc
  | startOk thread attrs l hb h hfree hlt =>
    simp only at hb
    have hsrc := hf.wellformed.starts p hmem (by rw [hb]; rfl)
    exact lifeStep_start hd hsrc rfl hdd hb (hslots.free_slot hlt hfree) hc
  | startFail thread attrs l e hb h hfree hlt he =>
    simp only at hb
    have hsrc := hf.wellformed.starts p hmem (by rw [hb]; rfl)
    refine lifeStep_fail (m := unstartedMgr (s.rk p.dst).mgr thread l) hd hsrc rfl hdd hb he rfl
      (slotOf_update ?_) rfl rfl hc
    simp [slotOf, hslots.free_slot hlt hfree]
  | detachNone _ hb | cancelErr _ _ hb | cancelMiss _ hb | joinErr _ _ hb =>
    simp only at hb
    exact lifeStep_answered hd hdd hc (by simp [letterOf, hb]) (by simp [letterOf, pack, Frame.of])
  | detachPlain thread hb h hw =>
    exact lifeStep_detach hd hdd hc hb (by simp [letterOf, pack, Frame.of]) rfl (fun _ => rfl) rfl
      rfl rfl
  | detachWait thread rqe hb h hw =>
    exact lifeStep_detach hd hdd hc hb (by simp [letterOf, pack, Frame.of, joinedPost])
      (waiter_erased _ thread).1 (slotOf_release _ _ _) rfl rfl (waiter_erased _ thread).2
  | cancelHit thread l hb h hl hhas hlt hseq =>
    simp only at hb
    exact lifeStep_quiet hd hdd hc (by simp [letterOf, hb]) (by simp [letterOf, pack, Frame.of])
      rfl rfl (slotOf_update (slotOf_cancelLtab _)) rfl rfl fun _ _ hcall => hcall
  | joinZombie thread hb h hdet hz =>
    exact lifeStep_joinZombie hd hdd hc hb (by simp [letterOf, pack, Frame.of]) hz
  | joinWait thread n hb h hdet hz hw => exact lifeStep_joinWait hd hdd hc hb
  | terminatedZombie thread fin hb hlen hlt hseq hfin hdet hw =>
    exact lifeStep_terminated hf hd hdd hc hb (fun j hj => zombieGtab_of_ne _ _ _ hj)
      (fun hfinal => by simp [isLive, zombieGtab, hfinal]) (by simp) rfl rfl (fun _ => rfl) rfl rfl
  | terminatedDetached thread fin hb hlen hlt hseq hfin hdet hw =>
    exact lifeStep_freed hf hd hdd hc hb (fun j hj => cleanupGtab_zombie_of_ne hj) (by simp) rfl
      rfl (fun _ => rfl) rfl rfl
  | terminatedJoined thread fin rqe hb hlen hlt hseq hfin hdet hw =>
    exact lifeStep_freed hf hd hdd hc hb (fun j hj => zombieGtab_of_ne _ _ _ hj)
      (by simp [letterOf, pack, Frame.of, joinedPost]) (waiter_erased _ thread).1
      (waiter_erased _ thread).2 (slotOf_release _ _ _) rfl rfl
  | terminatedDetachedJoined thread fin rqe hb hlen hlt hseq hfin hdet hw =>
    exact lifeStep_freed hf hd hdd hc hb (fun j hj => cleanupGtab_zombie_of_ne hj)
      (by simp [letterOf, pack, Frame.of, joinedPost]) (waiter_erased _ thread).1
      (waiter_erased _ thread).2 (slotOf_release _ _ _) rfl rfl
  | startedOk rqe hb h =>
    simp only at hb
    have hdst : p.dst = 0 := hrank0 (by rw [hb]; rfl)
    simp only [hdst, Sys.view] at hc hdd h
    exact lifeStep_started hd hdst hdd hb h hc
  | startedErr rqe e hb he h =>
    simp only at hb
    have hdst : p.dst = 0 := hrank0 (by rw [hb]; rfl)
    simp only [hdst, Sys.view] at hc hdd h
    exact lifeStep_failed hd hdst hdd hb he h hc
  | reply op rqe rqe' hop h haddr => exact lifeStep_reply hd hdd hc hop

end Recv

section Req

variable {job : Job} {s s' : Sys} {r : ℕ} {rqe : Request} {rest : List Request} {m : Mgr}
  {gt : ℕ → Gtab} {out : List Post}

/-- A call number that no pending request has is not in use. -/
theorem tokens_eq_zero (hm : Matched s) {op : Op} {x : ℕ} (hop : awaited op = true)
    (hfind : findPendingReq (s.rk r).mgr.rpending op x = none) : tokens s ⟨r, op, x⟩ = 0 := by
  have hle := hm.le ⟨r, op, x⟩ hop
  have hzero : pending s ⟨r, op, x⟩ = 0 := countP_eq_zero_of_find hfind
  omega

theorem call_unused (job : Job) (hm : Matched s) {x : ℕ}
    (hfind : findPendingReq (s.rk r).mgr.rpending .create x = none) :
    (∀ st ∈ (life job s).starts, ¬ (st.peer = r ∧ st.call = x)) ∧
      (⟨r, 0, .create x⟩ : Letter) ∉ (life job s).net := by
  have hzero := tokens_eq_zero hm rfl hfind
  unfold tokens at hzero
  constructor
  · rintro st hst ⟨hpeer, hcall⟩
    obtain ⟨rqe, hrqe, hof⟩ := List.mem_filterMap.mp hst
    have hop : rqe.reqop = .start := by
      by_contra hop
      simp [startOf, hop] at hof
    obtain rfl : _ = st := by simpa [startOf, hop] using hof
    simp only at hpeer hcall
    have hpos : 0 < kept (s.rk 0).mgr.rpending ⟨r, .create, x⟩ :=
      List.countP_pos_iff.mpr ⟨rqe, hrqe, by simp [waitKey, hop, hpeer, hcall]⟩
    omega
  · intro hmem
    obtain ⟨p, hp, hletter⟩ := List.mem_filterMap.mp hmem
    have hkey : packetKey p = some ⟨r, .create, x⟩ := by
      unfold letterOf at hletter
      unfold packetKey
      cases hb : p.frame.body <;> simp [hb] at hletter ⊢
      exact ⟨hletter.1, hletter.2.2⟩
    have hpos : 0 < inFlight s.net ⟨r, .create, x⟩ :=
      List.countP_pos_iff.mpr ⟨p, hp, by simp [hkey]⟩
    omega

theorem lifeStep_ask {l xidseq : ℕ} {mqe : Mqe} (hf : Facts job s)
    (hq : (s.rk r).dtq.mgrreqq = rqe :: rest) (hdd : draindown s' r = draindown s r)
    (haddr : rqe.addr = .ltab l) (hop : rqe.reqop = .create) (hmqe : rqe.mqe = some mqe)
    (hxid : findPendingReq (s.rk r).mgr.rpending .create xidseq = none)
    (hinit : draindown s r = .init)
    (hc : Change s s' r
      { (s.rk r).mgr with
        seqsrc := seqNext job (s.rk r).mgr.mpiRank xidseq
        rpending := (s.rk r).mgr.rpending ++ [{ rqe with mqe := none, xidseq := xidseq }] }
      s.gtab rest s.net (sent s r [(mqe.peer, { mqe.frame with xidseq := xidseq })])) :
    LifeStep (life job s) (life job s') := by
  have hmem : rqe ∈ (s.rk r).dtq.mgrreqq := by
    rw [hq]
    exact List.mem_cons_self
  obtain ⟨-, hbody, hpeer⟩ := hf.wellformed.requests r rqe hmem mqe hmqe
  rw [hop] at hbody hpeer
  have hiss := (hf.slots r).issued_of_mem (List.mem_append_left _ hmem) haddr
  have hslot : (life job s).slots r l = some ((s.rk r).mgr.ltab l).gtabIdx := by
    simp [life, slotOf, hiss.1]
  have hletter : letterOf (pack r (mqe.peer, { mqe.frame with xidseq := xidseq })) =
      some ⟨r, 0, .create xidseq⟩ := by
    cases hb : mqe.frame.body <;> simp [hb, Body.op] at hbody
    simp [letterOf, pack, hb, hpeer rfl]
  have hstarts : ((s.rk r).mgr.rpending ++ [{ rqe with mqe := none, xidseq := xidseq }]).filterMap
      startOf = (s.rk r).mgr.rpending.filterMap startOf := by
    simp [startOf, hop]
  have heq : life job s' = { life job s with
      calls := fun r' x' l' => (life job s).calls r' x' l' ∨ r' = r ∧ x' = xidseq ∧ l' = l
      net := (life job s).net ++ [⟨r, 0, .create xidseq⟩] } := by
    obtain ⟨-, -, -, -, hca, -⟩ := life_change job hc
    have hcalls : (life job s').calls =
        fun r' x' l' => (life job s).calls r' x' l' ∨ r' = r ∧ x' = xidseq ∧ l' = l := by
      funext r' x' l'
      rw [hca]
      by_cases hr : r' = r
      · subst hr
        simp only [if_true, true_and, callsOf, List.mem_append, List.mem_singleton, or_and_right,
          exists_or, exists_eq_left, hop, haddr, life]
        simp [eq_comm]
      · simp [hr]
    have hsaid : said (life job s) r (.create xidseq) = [⟨r, 0, .create xidseq⟩] := by
      simp [said, life, hinit]
    rw [life_keep hc rfl hstarts (fun _ => rfl) rfl rfl, lettersOf_sent_single s r hletter, hsaid,
      hcalls, mute_keep hc hdd]
    rfl
  obtain ⟨hnew, hnet⟩ := call_unused job hf.matched hxid
  rw [heq]
  exact .ask r xidseq l _ hslot (by simp [life, hinit]) hnew hnet

theorem isLive_retclean (mgr : Mgr) (gtab : ℕ → Gtab) (l i : ℕ) :
    isLive (retcleanGtab mgr gtab l i) = isLive (gtab i) := by
  unfold retcleanGtab
  split
  · by_cases hi : i = (mgr.ltab l).gtabIdx
    · rw [hi, Function.update_self]
      rfl
    · rw [Function.update_of_ne hi]
  · rfl

/-- The protocol's state after a RETCLEAN. -/
theorem life_leave {l : ℕ} (hdd : draindown s' r = draindown s r) (haddr : rqe.addr = .ltab l)
    (hused : ((s.rk r).mgr.ltab l).pthState ≠ .none)
    (hc : Change s s' r (releaseMgr (freeLtabMgr (s.rk r).mgr l) rqe false)
      (retcleanGtab (s.rk r).mgr s.gtab l) rest s.net
      (sent s r [(0, .of 0 (.terminated
        ⟨((s.rk r).mgr.ltab l).gtabIdx, ((s.rk r).mgr.ltab l).seq⟩
        ((s.rk r).mgr.ltab l).pthState))])) :
    life job s' = { life job s with
      slots := setSlot (life job s).slots r l none
      net := (life job s).net ++
        said (life job s) r (.ended ((s.rk r).mgr.ltab l).gtabIdx) } := by
  have hletter : letterOf (pack r (0, .of 0 (.terminated
      ⟨((s.rk r).mgr.ltab l).gtabIdx, ((s.rk r).mgr.ltab l).seq⟩
      ((s.rk r).mgr.ltab l).pthState))) =
      some ⟨r, 0, .ended ((s.rk r).mgr.ltab l).gtabIdx⟩ := rfl
  have heq := life_slot job hc hdd (liveSet_congr (isLive_retclean _ _ _)) rfl rfl rfl
    (retclean_ltab haddr hused)
  rw [lettersOf_sent_single s r hletter] at heq
  exact heq

theorem lifeStep_leave {l : ℕ} (hf : Facts job s) (hq : (s.rk r).dtq.mgrreqq = rqe :: rest)
    (hdd : draindown s' r = draindown s r) (haddr : rqe.addr = .ltab l)
    (hc : Change s s' r (releaseMgr (freeLtabMgr (s.rk r).mgr l) rqe false)
      (retcleanGtab (s.rk r).mgr s.gtab l) rest s.net
      (sent s r [(0, .of 0 (.terminated
        ⟨((s.rk r).mgr.ltab l).gtabIdx, ((s.rk r).mgr.ltab l).seq⟩
        ((s.rk r).mgr.ltab l).pthState))])) :
    LifeStep (life job s) (life job s') := by
  have hslots := hf.slots r
  rw [hq] at hslots
  have hiss := hslots.issued_of_mem (List.mem_append_left _ List.mem_cons_self) haddr
  have hslot : (life job s).slots r l = some ((s.rk r).mgr.ltab l).gtabIdx := by
    simp [life, slotOf, hiss.1]
  -- the request in the queue is the only one of the slot, so no call waits
  have hcalls (x : ℕ) : ¬ (life job s).calls r x l := by
    rintro ⟨rqe', hrqe', -, -, haddr'⟩
    have hone := hslots.one l
    have hown : owns l rqe = true := by simp [owns, haddr]
    have hpos : 0 < (s.rk r).mgr.rpending.countP (owns l) :=
      List.countP_pos_iff.mpr ⟨rqe', hrqe', by simp [owns, haddr']⟩
    simp only [List.cons_append, List.countP_cons, List.countP_append, hown, if_true] at hone
    omega
  rw [life_leave hdd haddr hiss.1 hc]
  exact .leave r l _ hslot hcalls

/-- The manager of rank `r` takes a request of one of its threads. -/
theorem lifeStep_req (hf : Facts job s) (hq : (s.rk r).dtq.mgrreqq = rqe :: rest)
    (hdd : draindown s' r = draindown s r) (ho : ReqOutcome job (s.view r) rqe m gt out)
    (hc : Change s s' r m gt rest s.net (sent s r out)) :
    LifeStep (life job s) (life job s') := by
  have hmute (hinit : draindown s' r = .init) : draindown s r = .init := hdd ▸ hinit
  cases ho with
  | bad h =>
    exact lifeStep_still hc rfl rfl (slotOf_release _ _ _) rfl rfl (fun _ _ hcall => hcall) hmute
      rfl fun post hpost => by simpa using mem_sent hpost
  | forwardDrain l xidseq haddr hlt hbusy hop hd =>
    exact lifeStep_still hc rfl rfl (slotOf_release _ _ _) rfl rfl (fun _ _ hcall => hcall) hmute
      rfl fun post hpost => by simpa using mem_sent hpost
  | app0Other l haddr hop hrank =>
    exact lifeStep_still hc rfl rfl (slotOf_release _ _ _) rfl rfl (fun _ _ hcall => hcall) hmute
      rfl fun post hpost => by simpa using mem_sent hpost
  | retclean l haddr hlt hbusy hop => exact lifeStep_leave hf hq hdd haddr hc
  | forward l mqe xidseq haddr hlt hbusy hop hmqe hxid hd =>
    by_cases hcreate : rqe.reqop = .create
    · rw [hcreate] at hxid
      exact lifeStep_ask hf hq hdd haddr hcreate hmqe hxid hd hc
    · have hmem : rqe ∈ (s.rk r).dtq.mgrreqq := by
        rw [hq]
        exact List.mem_cons_self
      obtain ⟨-, hbody, -⟩ := hf.wellformed.requests r rqe hmem mqe hmqe
      have hstart : rqe.reqop ≠ .start := by
        intro hc
        rw [hc] at hop
        exact Bool.noConfusion hop
      have hcalls : callsOf ((s.rk r).mgr.rpending ++
          [{ rqe with mqe := none, xidseq := xidseq }]) = callsOf (s.rk r).mgr.rpending :=
        callsOf_append hcreate
      refine lifeStep_still hc rfl ?_ (fun _ => rfl) rfl rfl (fun x l hcall => hcalls ▸ hcall) hmute
        rfl fun post hpost => ?_
      · simp [Sys.view, startOf, hstart]
      · obtain rfl : post = _ := by simpa using mem_sent hpost
        rw [← hbody] at hop hcreate
        cases hb : mqe.frame.body <;> simp [hb, forwarded, Body.op] at hop hcreate <;>
          simp [letterOf, pack]

end Req

theorem mqeOutcome_no_terminated {job : Job} {v : View} {mqe : Mqe} {m : Mgr} {gt : ℕ → Gtab}
    {out : List Post} (h : MqeOutcome job v mqe m gt out) :
    ∀ post ∈ out, ∀ thread fin, post.2.body ≠ .terminated thread fin := by
  cases h <;> simp [Frame.of, joinedPost]

theorem FinalNotes.change {s s' : Sys} {r : ℕ} {m : Mgr} {gt : ℕ → Gtab} {rq : List Request}
    {net : List Packet} {posts : List Post} (h : FinalNotes s)
    (hc : Change s s' r m gt rq net posts) (hnet : ∀ p ∈ net, p ∈ s.net)
    (hposts : ∀ post ∈ posts, ∀ thread fin, post.2.body = .terminated thread fin →
      fin.needFinalstate = false) : FinalNotes s' := by
  intro p hp
  rw [hc.net, List.mem_append, List.mem_map] at hp
  rcases hp with hp | ⟨post, hpost, rfl⟩
  · exact h p (hnet p hp)
  · exact hposts post hpost

theorem finalNotes_step {job : Job} {s s' : Sys} (h : FinalNotes s) (hwf : Wellformed s)
    (hslots : ∀ r, SlotsOk job.nmaxthread (s.rk r).mgr.ltab (s.rk r).mgr.ltabAlloc
      (s.rk r).dtq.mgrreqq (s.rk r).mgr.rpending)
    {o : Option Packet} (hs : StepCase job s s' o) : FinalNotes s' := by
  have hbcasts (k r : ℕ) : ∀ post ∈ sent s r (bcasts job k), ∀ thread fin,
      post.2.body = .terminated thread fin → fin.needFinalstate = false := by
    intro post hpost thread fin hb
    obtain ⟨child, -, rfl⟩ := List.mem_map.mp (mem_sent hpost)
    simp [Frame.of] at hb
  cases hs with
  | app r l lt gt rq hr hl hdd ho hc => exact h.change hc (fun _ => id) (by simp)
  | recv p net addr m gt out hr hd hdd ho hc =>
    refine h.change hc (fun _ => hd.mem_of_mem) fun post hpost thread fin hb => ?_
    exact absurd hb (mqeOutcome_no_terminated ho post (mem_sent hpost) thread fin)
  | recvShutdown p net hr hd hb hdd hc =>
    exact h.change hc (fun _ => hd.mem_of_mem) (hbcasts _ _)
  | req r rqe rest m gt out hr hq hdd ho hc =>
    refine h.change hc (fun _ => id) fun post hpost thread fin hb => ?_
    have hmem : rqe ∈ (s.rk r).dtq.mgrreqq := by
      rw [hq]
      exact List.mem_cons_self
    have hpost' := mem_sent hpost
    cases ho with
    | forward l mqe xidseq haddr hlt hbusy hop hmqe hxid hd =>
      obtain ⟨-, hbody, -⟩ := hwf.requests r rqe hmem mqe hmqe
      obtain rfl : post = _ := by simpa using hpost'
      simp only at hb
      rw [hb] at hbody
      rw [← hbody] at hop
      exact Bool.noConfusion hop
    | retclean l haddr hlt hbusy hop =>
      obtain rfl : post = _ := by simpa using hpost'
      obtain ⟨-, rfl⟩ : _ ∧ _ = fin := by simpa [Frame.of] using hb
      have hiss := (hslots r).issued_of_mem (List.mem_append_left _ hmem) haddr
      rcases hiss.2.2 with ⟨hfwd, -⟩ | ⟨-, -, hfinal⟩ | ⟨happ, -⟩
      · rw [hop] at hfwd
        exact Bool.noConfusion hfwd
      · exact hfinal
      · rw [hop] at happ
        exact Op.noConfusion happ
    | _ => simp at hpost'
  | reqShutdown r l rqe rest hr hq hop haddr hrank hdd hc =>
    exact h.change hc (fun _ => id) (hbcasts _ _)
  | shutdown hidle hdrain hdd hc => exact h.change hc (fun _ => id) (hbcasts _ _)

theorem reachable_facts {job : Job} {s : Sys} (h : Reachable job s) : Facts job s where
  sane := h.sane
  wellformed := reachable_wellformed h
  matched := reachable_matched h
  slots := reachable_slotsOk h
  final := h.invariant (I := FinalNotes) (by simp [FinalNotes, sysInit]) fun _ _ hr hi hs =>
    finalNotes_step hi (reachable_wellformed hr) (reachable_slotsOk hr) hs

/-- Every step of the job is a step of the protocol. -/
theorem step_life {job : Job} {s s' : Sys} (hf : Facts job s) {o : Option Packet}
    (hs : StepCase job s s' o) :
    LifeStep (life job s) (life job s') := by
  have hbcasts (k r : ℕ) : ∀ post ∈ sent s r (bcasts job k), letterOf (pack r post) = none := by
    intro post hpost
    obtain ⟨child, -, rfl⟩ := List.mem_map.mp (mem_sent hpost)
    rfl
  cases hs with
  | app r l lt gt rq hr hl hdd ho hc => exact lifeStep_app ((hf.slots r).entry l) hdd ho hc
  | recv p net addr m gt out hr hd hdd ho hc => exact lifeStep_recv hf hd hdd ho hc
  | recvShutdown p net hr hd hb hdd hc =>
    exact lifeStep_still hc rfl rfl (fun _ => rfl) rfl rfl (fun _ _ hcall => hcall)
      (fun hinit => absurd hinit hdd) (hd.filterMap_none (by simp [letterOf, hb])) (hbcasts _ _)
  | req r rqe rest m gt out hr hq hdd ho hc => exact lifeStep_req hf hq hdd ho hc
  | reqShutdown r l rqe rest hr hq hop haddr hrank hdd hc =>
    exact lifeStep_still hc rfl rfl (slotOf_release _ _ _) rfl rfl (fun _ _ hcall => hcall)
      (fun hinit => absurd hinit hdd) rfl (hbcasts _ _)
  | shutdown hidle hdrain hdd hc =>
    exact lifeStep_still hc rfl rfl (fun _ => rfl) rfl rfl (fun _ _ hcall => hcall)
      (fun hinit => absurd hinit hdd) rfl (hbcasts _ _)

theorem life_init (job : Job) : life job (sysInit job) =
    { live := {0}, starts := [], slots := setSlot (fun _ _ => none) 0 0 (some 0)
      calls := fun _ _ _ => False, mute := fun _ => false, net := [], running := 1
      starting := 0 } := by
  refine Life.ext ?_ rfl ?_ ?_ ?_ rfl rfl rfl
  · ext i
    by_cases hi : i = 0
    · subst hi
      simp [life, liveSet, isLive, sysInit, mgrStartapp, Gtab.zero, LtState.needFinalstate,
        LtState.code, job.nmaxthread_pos]
    · simp [life, liveSet, isLive, sysInit, mgrStartapp, Gtab.zero, hi]
  · funext r l
    by_cases hr : r = 0
    · subst hr
      by_cases hl : l = 0
      · subst hl
        rfl
      · simp [life, sysInit, mgrStartapp, Mgr.setLtab, mgrInit, slotOf, setSlot, hl, Ltab.zero]
    · simp [life, sysInit, hr, mgrInit, slotOf, setSlot, Ltab.zero]
  · funext r x l
    simp [life, callsOf, sysInit_rpending]
  · funext r
    simp [life, sysInit_draindown]

theorem lifeOk_init (job : Job) : LifeOk (life job (sysInit job)) := by
  rw [life_init]
  have hslot {r l i : ℕ} (hs : setSlot (fun _ _ => none) 0 0 (some 0) r l = some i) :
      r = 0 ∧ l = 0 ∧ i = 0 := by
    simp only [setSlot] at hs
    split at hs
    · rename_i hrl
      exact ⟨hrl.1, hrl.2, by simpa using hs.symm⟩
    · simp at hs
  exact {
    unique := fun hs hs' => ⟨(hslot hs').1.trans (hslot hs).1.symm,
      (hslot hs').2.1.trans (hslot hs).2.1.symm⟩
    flight := fun i => Nat.zero_le 1
    apart := fun _ => rfl
    hostLive := fun hs => by simp [(hslot hs).2.2]
    flightLive := fun hpos => by simp at hpos
    startLive := by simp
    distinct := List.Pairwise.nil
    token := fun y => Nat.zero_le 1
    tokenStart := fun hpos => by simp at hpos
    startMatch := fun hmem => by simp at hmem
    reported := by simp
    endOrder := by simp
    askOrder := by simp
    creator := by simp
    callSlot := fun hcall => hcall.elim
    running := by simp [runningSet]
    starting := rfl }

theorem reachable_lifeOk {job : Job} {s : Sys} (h : Reachable job s) : LifeOk (life job s) :=
  h.invariant (I := fun s => LifeOk (life job s)) (lifeOk_init job) fun _ _ hr hi hs =>
    hi.step (step_life (reachable_facts hr) hs)

end Dthread.LifeRefinement
