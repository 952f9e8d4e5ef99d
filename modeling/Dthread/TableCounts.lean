import Dthread.TableSteps
import Dthread.JobRuns

/-!
The counters of the thread tables. Rank 0's count of running threads is
compared with the STARTED and TERMINATED messages that were handled in a run.
-/
namespace Dthread.TableCounts

open ReqMsg Queuing ManagerTables ManagerHandlers ManagerEffects ManagerOutcomes AppThreads
open FifoNet JobSystem JobRuns TableWrites RequestReply LocalSlots ThreadLife LifeRefinement
open CancelEffect TableSteps

/-- The thread that a successful STARTED reports when it is handled in `s`. -/
def startedThread (s : Sys) (p : Packet) : Option DThread :=
  match p.frame.body with
  | .started 0 =>
    (findPendingReq (s.rk 0).mgr.rpending .start p.frame.xidseq).map fun rqe => rqe.creinfo.cThread
  | _ => none

def endedThread (p : Packet) : Option DThread :=
  match p.frame.body with
  | .terminated thread _ => some thread
  | _ => none

/-- The thread that mgr_startapp sets up for the main function of the
application. -/
def app0 (job : Job) : DThread := ⟨0, job.wsize⟩

def startedThreads (job : Job) (hist : List (Sys × Packet)) : Multiset DThread :=
  app0 job ::ₘ (hist.filterMap fun e => startedThread e.1 e.2 : List DThread)

def endedThreads (hist : List (Sys × Packet)) : Multiset DThread :=
  (hist.filterMap fun e => endedThread e.2 : List DThread)

/-- The threads whose successful STARTED was handled and whose TERMINATED was
not. -/
def runningThreads (job : Job) (hist : List (Sys × Packet)) : Multiset DThread :=
  startedThreads job hist - endedThreads hist

/-- The handles of the threads that the protocol of thread lives has running. -/
def runningHandles (job : Job) (s : Sys) : Multiset DThread :=
  (runningSet (life job s).live (life job s).starts).val.map fun i => ⟨i, (s.gtab i).seq⟩

section Steps

variable {job : Job} {s s' : Sys} {p : Packet} {net : List Packet} {addr : ℕ} {r : ℕ} {m : Mgr}
  {gt : ℕ → Gtab} {out : List Post} {rq : List Request} {posts : List Post}

theorem starts_keep (job : Job) (hc : Change s s' r m gt rq net posts)
    (h : m.rpending.filterMap startOf = (s.rk r).mgr.rpending.filterMap startOf) :
    (life job s').starts = (life job s).starts := by
  obtain ⟨-, -, hst, -⟩ := life_change job hc
  rw [hst]
  split
  · rename_i hr
    subst hr
    exact h
  · rfl

/-- While a thread lives its handle stays the same. -/
theorem seq_keep (hf : Facts job s) (hok : LifeOk (life job s)) {o : Option Packet}
    (hs : StepCase job s s' o) {i : ℕ}
    (hi : i ∈ (life job s).live) (hi' : i ∈ (life job s').live) :
    (s'.gtab i).seq = (s.gtab i).seq := by
  obtain ⟨-, halloc, -⟩ := isLive_of_mem hi
  obtain ⟨-, halloc', -⟩ := isLive_of_mem hi'
  exact ((tableStep hf hok hs).sameEntry halloc halloc').seq halloc

theorem mem_live_of_running {i : ℕ} (h : i ∈ runningSet (life job s).live (life job s).starts) :
    i ∈ (life job s).live :=
  (Finset.mem_filter.mp h).1

theorem runningHandles_congr
    (hset : runningSet (life job s').live (life job s').starts =
      runningSet (life job s).live (life job s).starts)
    (hseq : ∀ i ∈ (life job s).live, i ∈ (life job s').live → (s'.gtab i).seq = (s.gtab i).seq) :
    runningHandles job s' = runningHandles job s := by
  unfold runningHandles
  rw [hset]
  apply Multiset.map_congr rfl
  intro i hi
  rw [Finset.mem_val] at hi
  rw [hseq i (mem_live_of_running hi) (mem_live_of_running (hset ▸ hi))]

/-- One thread more is running in `s'` than in `s`. -/
theorem runningHandles_cons {thread : DThread}
    (hset : runningSet (life job s').live (life job s').starts =
      insert thread.dtIndex (runningSet (life job s).live (life job s).starts))
    (hnew : thread.dtIndex ∉ runningSet (life job s).live (life job s).starts)
    (hthread : (s'.gtab thread.dtIndex).seq = thread.dtSeq)
    (hseq : ∀ i ∈ (life job s).live, i ∈ (life job s').live → (s'.gtab i).seq = (s.gtab i).seq) :
    runningHandles job s' = thread ::ₘ runningHandles job s := by
  unfold runningHandles
  rw [hset, Finset.insert_val_of_notMem hnew, Multiset.map_cons, hthread]
  congr 1
  apply Multiset.map_congr rfl
  intro i hi
  rw [Finset.mem_val] at hi
  have hi' : i ∈ runningSet (life job s').live (life job s').starts := by
    rw [hset]
    exact Finset.mem_insert_of_mem hi
  rw [hseq i (mem_live_of_running hi) (mem_live_of_running hi')]

/-- What the handling of `p` does to the running threads. -/
def Reported (job : Job) (s : Sys) (p : Packet) (s' : Sys) : Prop :=
  ((endedThread p).toList : Multiset DThread) + runningHandles job s' =
    ((startedThread s p).toList : Multiset DThread) + runningHandles job s

theorem reported_none
    (hset : runningSet (life job s').live (life job s').starts =
      runningSet (life job s).live (life job s).starts)
    (hseq : ∀ i ∈ (life job s).live, i ∈ (life job s').live → (s'.gtab i).seq = (s.gtab i).seq)
    (hend : endedThread p = none) (hstart : startedThread s p = none) :
    Reported job s p s' := by
  unfold Reported
  rw [runningHandles_congr hset hseq, hend, hstart]

theorem reported_terminated (hf : Facts job s) (hok : LifeOk (life job s)) (hnames : NamesOk s)
    (hseq : ∀ i ∈ (life job s).live, i ∈ (life job s').live → (s'.gtab i).seq = (s.gtab i).seq)
    (hd : Deliver Packet.chan s.net p net) {thread : DThread} {fin : LtState}
    (hb : p.frame.body = .terminated thread fin)
    (hc : Change s s' p.dst m gt rq net posts)
    (hgt : ∀ j, j ≠ thread.dtIndex → gt j = s.gtab j)
    (hdead : fin.needFinalstate = false → isLive (gt thread.dtIndex) = false)
    (hstarts : m.rpending.filterMap startOf = (s.rk p.dst).mgr.rpending.filterMap startOf) :
    Reported job s p s' := by
  have hdst : p.dst = 0 := hf.wellformed.rank0 p hd.mem (by rw [hb]; rfl)
  have hletter : letterOf p = some ⟨p.src, 0, .ended thread.dtIndex⟩ := by
    simp [letterOf, hb, hdst]
  have hin := hok.mem_runningSet_of_ended (hd.filterMap letterOf_chan hletter)
  have hset : runningSet (life job s').live (life job s').starts =
      (runningSet (life job s).live (life job s).starts).erase thread.dtIndex := by
    rw [starts_keep job hc hstarts, (life_change job hc).1,
      liveSet_erase (hdead (hf.final p hd.mem thread fin hb)) hgt]
    exact Finset.filter_erase _ _ _
  have hcons : runningHandles job s = thread ::ₘ runningHandles job s' := by
    refine runningHandles_cons ?_ ?_ (hnames _ _ (.ended p thread fin hd.mem hb)).2
      fun i hi' hi => (hseq i hi hi').symm
    · rw [hset, Finset.insert_erase hin]
    · rw [hset]
      exact Finset.notMem_erase _ _
  unfold Reported
  rw [hcons]
  simp [endedThread, startedThread, hb]

theorem reported_started (hf : Facts job s) (hok : LifeOk (life job s)) (hnames : NamesOk s)
    (hseq : ∀ i ∈ (life job s).live, i ∈ (life job s').live → (s'.gtab i).seq = (s.gtab i).seq)
    (hd : Deliver Packet.chan s.net p net) (hb : p.frame.body = .started 0) {rqe : Request}
    (hfind : findPendingReq (s.rk p.dst).mgr.rpending .start p.frame.xidseq = some rqe)
    (hc : Change s s' p.dst m s.gtab rq net posts)
    (hm : m.rpending = (s.rk p.dst).mgr.rpending.eraseP (pendingMatch .start p.frame.xidseq)) :
    Reported job s p s' := by
  have hdst : p.dst = 0 := hf.wellformed.rank0 p hd.mem (by rw [hb]; rfl)
  rw [hdst] at hfind hm
  obtain ⟨hxid, hop⟩ := findPendingReq_spec hfind
  have hrqe := List.mem_of_find?_eq_some hfind
  have hst := mem_starts hrqe hop
  obtain ⟨hlive, -, hstarts, -⟩ := life_change job hc
  rw [if_pos hdst, hm, filterMap_eraseP_start, ← hxid] at hstarts
  have hset : runningSet (life job s').live (life job s').starts =
      insert rqe.creinfo.cThread.dtIndex (runningSet (life job s).live (life job s).starts) := by
    rw [hlive, hstarts]
    exact hok.runningSet_started hst
  have hcons := runningHandles_cons hset (notMem_runningSet hst)
    (by rw [hc.gtab]; exact (hnames _ _ (.request rqe hrqe hop)).2) hseq
  unfold Reported
  rw [hcons]
  simp [endedThread, startedThread, hb, hfind]

theorem reported_failed (hf : Facts job s) (hok : LifeOk (life job s))
    (hseq : ∀ i ∈ (life job s).live, i ∈ (life job s').live → (s'.gtab i).seq = (s.gtab i).seq)
    (hd : Deliver Packet.chan s.net p net) {e : ℕ} (hb : p.frame.body = .started e) (he : e ≠ 0)
    {rqe : Request}
    (hfind : findPendingReq (s.rk p.dst).mgr.rpending .start p.frame.xidseq = some rqe)
    (hc : Change s s' p.dst m (freeGtab s.gtab rqe.creinfo.cThread.dtIndex) rq net posts)
    (hm : m.rpending = (s.rk p.dst).mgr.rpending.eraseP (pendingMatch .start p.frame.xidseq)) :
    Reported job s p s' := by
  have hdst : p.dst = 0 := hf.wellformed.rank0 p hd.mem (by rw [hb]; rfl)
  rw [hdst] at hfind hm
  obtain ⟨hxid, hop⟩ := findPendingReq_spec hfind
  have hst := mem_starts (List.mem_of_find?_eq_some hfind) hop
  obtain ⟨hlive, -, hstarts, -⟩ := life_change job hc
  rw [if_pos hdst, hm, filterMap_eraseP_start, ← hxid] at hstarts
  rw [liveSet_erase (by simp [isLive, freeGtab_allocated]) fun j hj => freeGtab_of_ne _ hj] at hlive
  refine reported_none ?_ hseq (by simp [endedThread, hb]) ?_
  · rw [hlive, hstarts]
    exact hok.runningSet_failed hst
  · cases e with
    | zero => exact absurd rfl he
    | succ e => simp [startedThread, hb]

theorem reported_created (hf : Facts job s)
    (hseq : ∀ i ∈ (life job s).live, i ∈ (life job s').live → (s'.gtab i).seq = (s.gtab i).seq)
    (hd : Deliver Packet.chan s.net p net) {attrs : Attr} {dispIdx gidx : ℕ} {arg : Argret}
    (hb : p.frame.body = .create attrs dispIdx arg) (hfree : (s.gtab gidx).allocated = false)
    (hlt : gidx < job.nmaxthread) {g : Gtab} (hg : isLive g = true)
    (hc : Change s s' p.dst m (Function.update s.gtab gidx g) rq net posts) {rqe : Request}
    (hm : m.rpending = (s.rk p.dst).mgr.rpending ++ [rqe]) (hop : rqe.reqop = .start)
    (hidx : rqe.creinfo.cThread.dtIndex = gidx) : Reported job s p s' := by
  have hdst : p.dst = 0 := hf.wellformed.rank0 p hd.mem (by rw [hb]; rfl)
  obtain ⟨hlive, -, hstarts, -⟩ := life_change job hc
  rw [if_pos hdst, hm, hdst] at hstarts
  rw [liveSet_insert hlt (by rwa [Function.update_self])
    fun j hj => Function.update_of_ne hj _ _] at hlive
  refine reported_none ?_ hseq (by simp [endedThread, hb]) (by simp [startedThread, hb])
  have hnew : gidx ∉ (life job s).live := by simp [life, liveSet, isLive, hfree]
  have hset : runningSet (insert gidx (life job s).live) ((life job s).starts ++
      [⟨rqe.xidseq, gidx, rqe.creinfo.cPeer, rqe.creinfo.cXidseq⟩]) = _ := runningSet_create hnew
  rw [hlive, hstarts, ← hset]
  congr 1
  simp [life, startOf, hop, hidx]

/-- A message moves the threads whose start or end it reports. -/
theorem reported_recv (hf : Facts job s) (hok : LifeOk (life job s)) (hnames : NamesOk s)
    (hd : Deliver Packet.chan s.net p net)
    (hseq : ∀ i ∈ (life job s).live, i ∈ (life job s').live → (s'.gtab i).seq = (s.gtab i).seq)
    (ho : MqeOutcome job (s.view p.dst) ⟨addr, p.src, p.frame⟩ m gt out)
    (hc : Change s s' p.dst m gt rq net posts) : Reported job s p s' := by
  have hmem := hd.mem
  have hrank0 := hf.wellformed.rank0 p hmem
  have hkeep (hlive : liveSet job gt = liveSet job s.gtab)
      (hstarts : m.rpending.filterMap startOf = (s.rk p.dst).mgr.rpending.filterMap startOf)
      (hend : endedThread p = none) (hstart : startedThread s p = none) :
      Reported job s p s' := by
    refine reported_none ?_ hseq hend hstart
    rw [starts_keep job hc hstarts, (life_change job hc).1, hlive]
    rfl
  have hsilent (hop : p.frame.body.op ≠ .started ∧ p.frame.body.op ≠ .terminated)
      (hlive : liveSet job gt = liveSet job s.gtab)
      (hstarts : m.rpending.filterMap startOf = (s.rk p.dst).mgr.rpending.filterMap startOf) :
      Reported job s p s' := by
    refine hkeep hlive hstarts ?_ ?_
    · cases hb : p.frame.body <;> simp [hb, Body.op] at hop <;> simp [endedThread, hb]
    · cases hb : p.frame.body <;> simp [hb, Body.op] at hop <;> simp [startedThread, hb]
  have hreply {op : Op} (hop : replyTo p.frame.body = some op) :
      p.frame.body.op ≠ .started ∧ p.frame.body.op ≠ .terminated := by
    cases hb : p.frame.body <;> simp [hb, replyTo] at hop <;> simp [Body.op]
  have hwaiter (thread : DThread) :
      ((s.rk p.dst).mgr.rpending.eraseP (joinwaitMatch thread)).filterMap startOf =
        (s.rk p.dst).mgr.rpending.filterMap startOf := by
    refine filterMap_eraseP_other fun rqe hmatch => ?_
    simp only [joinwaitMatch, Bool.and_eq_true, beq_iff_eq] at hmatch
    simp [hmatch.1]
  cases ho with
  | drop h =>
    cases h with
    | runt hshort =>
      have hlen := hf.wellformed.frames p hmem
      simp only at hshort
      omega
    | wrongRank hrank h0 =>
      have hdst := hrank0 h0
      simp only [Sys.view, hf.sane.rank] at hrank
      exact absurd hdst hrank
    | unmatchedReply op hop hnone => exact hsilent (hreply hop) rfl rfl
    | unmatchedStarted e hb hnone =>
      simp only at hb
      have hdst : p.dst = 0 := hrank0 (by rw [hb]; rfl)
      simp only [Sys.view, hdst] at hnone
      refine hkeep rfl rfl (by simp [endedThread, hb]) ?_
      cases e <;> simp [startedThread, hb, hnone]
    | badTerminated thread fin hb hbad =>
      -- no TERMINATED of a job is bad
      simp only at hb hbad
      obtain ⟨hlt, -⟩ := isLive_of_mem (live_of_terminated hok hmem hb)
      have hfin := hf.final p hmem thread fin hb
      rcases hbad with hlen | hidx | hgen | hrun
      · exact absurd (hf.wellformed.frames p hmem) hlen
      · omega
      · exact absurd (hnames _ _ (.ended p thread fin hmem hb)).2 hgen
      · rw [hrun] at hfin
        exact Bool.noConfusion hfin
    | unknown code hb => exact hsilent (by simp only at hb; simp [hb, Body.op]) rfl rfl
  | createErr attrs dispIdx arg e next hb he hnext =>
    exact hsilent (by simp only at hb; simp [hb, Body.op]) rfl rfl
  | createOk attrs dispIdx arg n gidx xidseq hb hdisp hroom hfree hlt hxid hinit =>
    exact reported_created hf hseq hd hb hfree hlt rfl hc rfl rfl rfl
  | createDrain attrs dispIdx arg gidx xidseq hb hfree hlt hdrain =>
    refine hsilent (by simp only at hb; simp [hb, Body.op]) ?_ rfl
    have hfree' : (s.gtab gidx).allocated = false := hfree
    exact liveSet_update_dead (by simp [isLive, hfree']) (by simp [isLive])
      fun j hj => Function.update_of_ne hj _ _
  | startInvalid thread attrs hb h =>
    exact hsilent (by simp only at hb; simp [hb, Body.op]) rfl rfl
  | startOk thread attrs l hb h hfree hlt =>
    exact hsilent (by simp only at hb; simp [hb, Body.op]) rfl rfl
  | startFail thread attrs l e hb h hfree hlt he =>
    exact hsilent (by simp only at hb; simp [hb, Body.op]) rfl rfl
  | detachNone thread hb h => exact hsilent (by simp only at hb; simp [hb, Body.op]) rfl rfl
  | detachPlain thread hb h hw =>
    exact hsilent (by simp only at hb; simp [hb, Body.op])
      (liveSet_congr fun i => isLive_detached _ _ _) rfl
  | detachWait thread rqe hb h hw =>
    exact hsilent (by simp only at hb; simp [hb, Body.op])
      (liveSet_congr fun i => isLive_detached _ _ _) (hwaiter thread)
  | cancelErr thread e hb he h => exact hsilent (by simp only at hb; simp [hb, Body.op]) rfl rfl
  | cancelMiss thread hb h => exact hsilent (by simp only at hb; simp [hb, Body.op]) rfl rfl
  | cancelHit thread l hb h hl hhas hlt hgen =>
    exact hsilent (by simp only at hb; simp [hb, Body.op]) rfl rfl
  | joinErr thread e hb h => exact hsilent (by simp only at hb; simp [hb, Body.op]) rfl rfl
  | joinZombie thread hb h hdet hz =>
    refine hsilent (by simp only at hb; simp [hb, Body.op]) ?_ rfl
    have hz' : (s.gtab thread.dtIndex).terminated.needFinalstate = false := hz
    exact liveSet_update_dead (by simp [isLive, hz']) (by simp [isLive, freeGtab_allocated])
      fun j hj => freeGtab_of_ne _ hj
  | joinWait thread n hb h hdet hz hw =>
    exact hsilent (by simp only at hb; simp [hb, Body.op]) rfl
      (by simp [Sys.view, startOf, joinwaitRequest])
  | terminatedZombie thread fin hb hlen hlt hgen hfin hdet hw =>
    exact reported_terminated hf hok hnames hseq hd hb hc (fun j hj => zombieGtab_of_ne _ _ _ hj)
      (fun hfinal => by simp [isLive, zombieGtab, hfinal]) rfl
  | terminatedDetached thread fin hb hlen hlt hgen hfin hdet hw =>
    exact reported_terminated hf hok hnames hseq hd hb hc (fun j hj => freeGtab_cleanup_of_ne hj)
      (fun _ => by simp [isLive, freeGtab_allocated]) rfl
  | terminatedJoined thread fin rqe hb hlen hlt hgen hfin hdet hw =>
    exact reported_terminated hf hok hnames hseq hd hb hc (fun j hj => freeGtab_zombie_of_ne hj)
      (fun _ => by simp [isLive, freeGtab_allocated]) (hwaiter thread)
  | terminatedDetachedJoined thread fin rqe hb hlen hlt hgen hfin hdet hw =>
    exact reported_terminated hf hok hnames hseq hd hb hc (fun j hj => freeGtab_cleanup_of_ne hj)
      (fun _ => by simp [isLive, freeGtab_allocated]) (hwaiter thread)
  | startedOk rqe hb h => exact reported_started hf hok hnames hseq hd hb h hc rfl
  | startedErr rqe e hb he h => exact reported_failed hf hok hseq hd hb he h hc rfl
  | reply op rqe rqe' hop h haddr =>
    have hforward := forwarded_of_replyTo hop
    refine hsilent (hreply hop) rfl ?_
    refine filterMap_eraseP_other fun rqe₁ hmatch hstart => ?_
    simp only [pendingMatch, Bool.and_eq_true, beq_iff_eq] at hmatch
    rw [← hmatch.2, hstart] at hforward
    exact Bool.noConfusion hforward

theorem reported_delivers (hf : Facts job s) (hok : LifeOk (life job s)) (hnames : NamesOk s)
    (hs : StepCase job s s' (some p)) : Reported job s p s' := by
  have hseq (i : ℕ) (hi : i ∈ (life job s).live) (hi' : i ∈ (life job s').live) :=
    seq_keep hf hok hs hi hi'
  cases hs with
  | recv _ net addr m gt out hr hd hdd ho hc => exact reported_recv hf hok hnames hd hseq ho hc
  | recvShutdown _ net hr hd hb hdd hc =>
    refine reported_none ?_ hseq (by simp [endedThread, hb]) (by simp [startedThread, hb])
    rw [starts_keep job hc rfl, (life_change job hc).1]
    rfl

/-- No thread starts or ends for rank 0 without a message. -/
theorem runningHandles_local (hf : Facts job s) (hok : LifeOk (life job s))
    (hs : StepCase job s s' none) : runningHandles job s' = runningHandles job s := by
  have hseq (i : ℕ) (hi : i ∈ (life job s).live) (hi' : i ∈ (life job s').live) :=
    seq_keep hf hok hs hi hi'
  have hkeep {k : ℕ} {m : Mgr} {gt : ℕ → Gtab} {rq : List Request} {net : List Packet}
      {posts : List Post} (hc : Change s s' k m gt rq net posts)
      (hlive : ∀ i, isLive (gt i) = isLive (s.gtab i))
      (hstarts : m.rpending.filterMap startOf = (s.rk k).mgr.rpending.filterMap startOf) :
      runningHandles job s' = runningHandles job s := by
    refine runningHandles_congr ?_ hseq
    rw [starts_keep job hc hstarts, (life_change job hc).1, liveSet_congr hlive]
    rfl
  cases hs with
  | app r l lt gt rq hr hl hdd ho hc =>
    refine hkeep hc (fun i => ?_) rfl
    by_cases hi : i = ((s.rk r).mgr.ltab l).gtabIdx
    · rw [hi, Function.update_self, (appOutcome_life ho ((hf.slots r).entry l)).2]
    · rw [Function.update_of_ne hi]
  | req r rqe rest m gt out hr hq hdd ho hc =>
    cases ho with
    | forward l mqe xidseq haddr hlt hbusy hop hmqe hxid hd =>
      refine hkeep hc (fun _ => rfl) ?_
      have hstart : rqe.reqop ≠ .start := by
        intro hstart
        rw [hstart] at hop
        exact Bool.noConfusion hop
      simp [Sys.view, startOf, hstart]
    | retclean l haddr hlt hbusy hop => exact hkeep hc (isLive_retclean _ _ _) rfl
    | _ => exact hkeep hc (fun _ => rfl) rfl
  | reqShutdown r l rqe rest hr hq hop haddr hrank hdd hc => exact hkeep hc (fun _ => rfl) rfl
  | shutdown hidle hdrain hdd hc => exact hkeep hc (fun _ => rfl) rfl

end Steps

theorem runningHandles_init (job : Job) : runningHandles job (sysInit job) = {app0 job} := by
  have hlt := job.wsize_lt
  have hseq : ((sysInit job).gtab 0).seq = job.wsize := by
    simp only [sysInit, mgrStartapp, Function.update_self, mgrInit]
    omega
  unfold runningHandles
  rw [life_init]
  simp [runningSet, app0, hseq]

/-- In every run the threads that were started are those that have ended and
those that are running. -/
theorem startedThreads_eq {job : Job} {hist : List (Sys × Packet)} {s : Sys}
    (h : Run job hist s) : startedThreads job hist = endedThreads hist + runningHandles job s := by
  induction h with
  | init =>
    rw [runningHandles_init]
    simp [startedThreads, endedThreads]
  | @deliver hist s s' h p hs ih =>
    have hr := h.reachable
    have hrep := reported_delivers (reachable_facts hr) (reachable_lifeOk hr)
      (reachable_namesOk hr) (delivers_cases hr.sane.quiet hs)
    have hstarted : startedThreads job (hist ++ [(s, p)]) =
        startedThreads job hist + ((startedThread s p).toList : Multiset DThread) := by
      unfold startedThreads
      rw [List.filterMap_append, ← Multiset.coe_add, Multiset.cons_add]
      cases hp : startedThread s p <;> simp [hp]
    have hended : endedThreads (hist ++ [(s, p)]) =
        endedThreads hist + ((endedThread p).toList : Multiset DThread) := by
      unfold endedThreads
      rw [List.filterMap_append, ← Multiset.coe_add]
      cases hp : endedThread p <;> simp [hp]
    unfold Reported at hrep
    rw [hstarted, hended, ih, add_assoc, add_assoc, hrep, add_comm (runningHandles job s)]
  | quiet h hs ih =>
    have hr := h.reachable
    rw [runningHandles_local (reachable_facts hr) (reachable_lifeOk hr)
      (local_cases hr.sane.quiet hs)]
    exact ih

/-- The counters of the tables and the links between them, after any run. -/
structure CountsOk (job : Job) (hist : List (Sys × Packet)) (s : Sys) : Prop where
  threadsAlloc : (s.rk 0).mgr.threadsAlloc = allocCount job s.gtab
  threadsStarting : (s.rk 0).mgr.threadsStarting =
    (s.rk 0).mgr.rpending.countP fun rqe => rqe.reqop == .start
  threadsRunning : (s.rk 0).mgr.threadsRunning = (runningThreads job hist).card
  running_nonneg : 0 ≤ (s.rk 0).mgr.threadsRunning
  ltabAlloc : ∀ r, (s.rk r).mgr.ltabAlloc =
    ((Finset.range job.nmaxthread).filter fun l => ((s.rk r).mgr.ltab l).pthState ≠ .none).card
  linked : ∀ i, (s.gtab i).hasLtab = true →
    (s.gtab i).ltabIdx < job.nmaxthread ∧
      ((s.rk (s.gtab i).rank).mgr.ltab (s.gtab i).ltabIdx).pthState ≠ .none ∧
      ((s.rk (s.gtab i).rank).mgr.ltab (s.gtab i).ltabIdx).gtabIdx = i ∧
      ((s.rk (s.gtab i).rank).mgr.ltab (s.gtab i).ltabIdx).seq = (s.gtab i).seq

theorem length_filterMap_startOf (rpending : List Request) :
    (rpending.filterMap startOf).length = rpending.countP fun rqe => rqe.reqop == .start := by
  induction rpending with
  | nil => rfl
  | cons rqe rpending ih =>
    by_cases hop : rqe.reqop = .start <;> simp [startOf, hop, ← ih]

/-- After every run, the counters say what they are for, and an entry with a
link is linked both ways. -/
theorem run_countsOk {job : Job} {hist : List (Sys × Packet)} {s : Sys} (h : Run job hist s) :
    CountsOk job hist s := by
  have hr := h.reachable
  have hok := reachable_lifeOk hr
  have hrunning : (s.rk 0).mgr.threadsRunning = (runningThreads job hist).card := by
    have hcard : (runningThreads job hist).card =
        (runningSet (life job s).live (life job s).starts).card := by
      rw [runningThreads, startedThreads_eq h, add_tsub_cancel_left]
      simp [runningHandles]
    rw [hcard]
    exact hok.running
  exact {
    threadsAlloc := reachable_threadsAlloc hr
    threadsStarting := by
      rw [← length_filterMap_startOf]
      exact hok.starting
    threadsRunning := hrunning
    running_nonneg := by
      rw [hrunning]
      exact Int.natCast_nonneg _
    ltabAlloc := fun r => by
      rw [(reachable_slotsOk hr r).alloc, usedCount_eq_card]
    linked := fun i hlink => by
      have hback := reachable_linkBack hr i hlink
      exact ⟨(reachable_linkOk hr _ _ hback.1).1, hback⟩ }

/-- A run of `twoRanks` in which a second thread has started. -/
theorem run_countsOk_started :
    ∃ hist s, Run twoRanks hist s ∧ (s.rk 0).mgr.threadsRunning = 2 ∧
      (s.rk 1).mgr.ltabAlloc = 1 ∧ CountsOk twoRanks hist s := by
  have hforwarded : Run twoRanks [] createForwarded :=
    .quiet (.quiet .init (.app 0 0 _ (by decide) (by decide) (.post createBody 0 rfl rfl rfl)))
      (.req 0 _ _ _ (by decide) rfl rfl)
  -- CREATE, START and STARTED are delivered in turn
  have hstarted : Run twoRanks _ _ := .deliver (.deliver (.deliver hforwarded
    ⟨0, 0, _⟩ ⟨_, 0, 0, _, by decide, ⟨[], [], rfl, rfl, by simp⟩, rfl, rfl⟩)
    ⟨0, 1, _⟩ ⟨_, 0, 0, _, by decide, ⟨[], [], rfl, rfl, by simp⟩, rfl, rfl⟩)
    ⟨1, 0, _⟩ ⟨_, 0, 0, _, by decide, ⟨[], [], rfl, rfl, by simp⟩, rfl, rfl⟩
  exact ⟨_, _, hstarted, rfl, rfl, run_countsOk hstarted⟩

end Dthread.TableCounts
