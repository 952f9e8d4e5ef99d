import Dthread.FateRefinement

/-!
The messages that a manager handles, the requests it takes and the shutdown,
each seen from an entry of the shared table. An entry that a step does not
concern keeps its fate, and the others make one of the steps of a fate.
-/
namespace Dthread.FateSteps

open ReqMsg Queuing ManagerTables ManagerHandlers ManagerEffects ManagerOutcomes AppThreads
open FifoNet JobSystem JobLogs TableWrites RequestReply LocalSlots ThreadLife LifeRefinement
open CancelEffect TableSteps ThreadFates FateRefinement
open Joins (joinedValue joinwaitSearch_mem)

/-- Who waits for the end of a thread waits without an error. -/
def Patient (l : List Request) : Prop := ∀ rqe ∈ l, rqe.reqop = .joinwait → rqe.reqerror = 0

theorem Patient.eraseP {l : List Request} (h : Patient l) (f : Request → Bool) :
    Patient (l.eraseP f) :=
  fun rqe hrqe => h rqe (List.mem_of_mem_eraseP hrqe)

theorem Patient.append {l : List Request} (h : Patient l) {rqe : Request}
    (hrqe : rqe.reqop = .joinwait → rqe.reqerror = 0) : Patient (l ++ [rqe]) := by
  intro rqe' hmem
  rw [List.mem_append, List.mem_singleton] at hmem
  rcases hmem with hold | rfl
  · exact h rqe' hold
  · exact hrqe

theorem mqeOutcome_patient {job : Job} {v : View} {mqe : Mqe} {m : Mgr} {gt : ℕ → Gtab}
    {out : List Post} (ho : MqeOutcome job v mqe m gt out) (h : Patient v.mgr.rpending) :
    Patient m.rpending := by
  cases ho with
  | createOk => exact h.append (by simp [startRequest])
  | joinWait => exact h.append fun _ => rfl
  | detachWait => exact h.eraseP _
  | terminatedJoined => exact h.eraseP _
  | terminatedDetachedJoined => exact h.eraseP _
  | startedOk => exact h.eraseP _
  | startedErr => exact h.eraseP _
  | reply => exact h.eraseP _
  | _ => exact h

theorem reqOutcome_patient {job : Job} {v : View} {rqe : Request} {m : Mgr} {gt : ℕ → Gtab}
    {out : List Post} (ho : ReqOutcome job v rqe m gt out) (h : Patient v.mgr.rpending) :
    Patient m.rpending := by
  cases ho with
  | forward l mqe xidseq haddr hlt hbusy hop hmqe hxid hd =>
    refine h.append fun hwait => ?_
    have hwait' : rqe.reqop = .joinwait := hwait
    rw [hwait'] at hop
    exact Bool.noConfusion hop
  | _ => exact h

theorem reachable_patient {job : Job} {s : Sys} (h : Reachable job s) (r : ℕ) :
    Patient (s.rk r).mgr.rpending := by
  refine h.invariant (I := fun s => Patient (s.rk r).mgr.rpending)
    (by simp [Patient, sysInit_rpending]) ?_
  intro o s s' _ hp hs
  have hput {k : ℕ} {m : Mgr} {gt : ℕ → Gtab} {rq : List Request} {net : List Packet}
      {posts : List Post} (hc : Change s s' k m gt rq net posts)
      (hm : Patient (s.rk k).mgr.rpending → Patient m.rpending) :
      Patient (s'.rk r).mgr.rpending := by
    by_cases hr : r = k
    · subst hr
      rw [hc.mgr]
      exact hm hp
    · rw [hc.others r hr]
      exact hp
  cases hs with
  | app r l lt gt rq hr hl hdd ho hc => exact hput hc id
  | recv p net addr m gt out hr hd hdd ho hc => exact hput hc (mqeOutcome_patient ho)
  | recvShutdown p net hr hd hb hdd hc => exact hput hc id
  | req r rqe rest m gt out hr hq hdd ho hc => exact hput hc (reqOutcome_patient ho)
  | reqShutdown r l rqe rest hr hq hop haddr hrank hdd hc => exact hput hc id
  | shutdown hidle hdrain hdd hc => exact hput hc id

theorem hosts_release (ltab : ℕ → Ltab) (rqe : Request) (notify : Bool) (l i : ℕ) (pc : WrapPc)
    (st : LtState) :
    Hosts (releaseLtab ltab rqe notify l) i pc st ↔ Hosts (ltab l) i pc st := by
  cases haddr : rqe.addr with
  | internal n => simp only [releaseLtab, haddr]
  | ltab k =>
    simp only [releaseLtab, haddr]
    by_cases hl : l = k
    · subst hl
      simp only [Function.update_self]
      rfl
    · rw [Function.update_of_ne hl]

/-- A slot that start_thread takes for another thread. -/
theorem hosts_started {m : Mgr} {thread : DThread} {l i : ℕ} (hnone : (m.ltab l).pthState = .none)
    (hi : i ≠ thread.dtIndex) (l' : ℕ) (pc : WrapPc) (st : LtState) :
    Hosts ((startedMgr m thread l).ltab l') i pc st ↔ Hosts (m.ltab l') i pc st := by
  by_cases hl : l' = l
  · subst hl
    refine iff_of_false (fun hh => hi ?_) fun hh => hh.2.2.2 (hh.2.2.1.symm.trans hnone)
    simpa [startedMgr, Mgr.setLtab] using hh.1.symm
  · simp only [startedMgr, Mgr.setLtab, Function.update_of_ne hl]

theorem hosts_unstarted {m : Mgr} {thread : DThread} {l i : ℕ}
    (hnone : (m.ltab l).pthState = .none) (l' : ℕ) (pc : WrapPc) (st : LtState) :
    Hosts ((unstartedMgr m thread l).ltab l') i pc st ↔ Hosts (m.ltab l') i pc st := by
  by_cases hl : l' = l
  · subst hl
    refine iff_of_false (fun hh => hh.2.2.2 ?_) fun hh => hh.2.2.2 (hh.2.2.1.symm.trans hnone)
    simpa [unstartedMgr, Mgr.setLtab] using hh.2.2.1.symm
  · simp only [unstartedMgr, Mgr.setLtab, Function.update_of_ne hl]

/-- A cancel changes the state of a running thread only. -/
theorem hosts_canceled {m : Mgr} {l i : ℕ}
    (h : (m.ltab l).pthState = .running → (m.ltab l).gtabIdx ≠ i) (l' : ℕ) (pc : WrapPc)
    (st : LtState) :
    Hosts ((m.setLtab l (cancelLtab (m.ltab l))).ltab l') i pc st ↔ Hosts (m.ltab l') i pc st := by
  by_cases hl : l' = l
  · subst hl
    by_cases hrun : (m.ltab l').pthState = .running
    · refine iff_of_false (fun hh => h hrun ?_) fun hh => h hrun hh.1
      simpa [Mgr.setLtab, cancelLtab, hrun] using hh.1
    · simp [Mgr.setLtab, cancelLtab, hrun]
  · simp only [Mgr.setLtab, Function.update_of_ne hl]

theorem hosts_used {lt : Ltab} {i : ℕ} :
    lt.pthState ≠ .none ∧ lt.gtabIdx = i ↔ ∃ pc st, Hosts lt i pc st := by
  constructor
  · rintro ⟨hused, hidx⟩
    exact ⟨_, _, hidx, rfl, rfl, hused⟩
  · rintro ⟨pc, st, hidx, -, hst, hne⟩
    exact ⟨hst ▸ hne, hidx⟩

/-- The manager of rank `p.dst` has handled packet `p`. -/
structure Handled (job : Job) (s s' : Sys) (e : Record) (p : Packet) (net : List Packet) (m : Mgr)
    (gt : ℕ → Gtab) (out : List Post) : Prop where
  event : e.event = .msg p
  deliver : Deliver Packet.chan s.net p net
  change : Change s s' p.dst m gt (s.rk p.dst).dtq.mgrreqq net (sent s p.dst out)
  recorded : Recorded s e p.dst m gt (sent s p.dst out)
  noEnd : ∀ post ∈ out, ∀ thread fin, post.2.body ≠ .terminated thread fin
  life : LifeStep (life job s) (life job s')

theorem finalOf_eq_none {i : ℕ} {post : Post}
    (h : ∀ thread fin, post.2.body ≠ .terminated thread fin) : finalOf i post = none := by
  unfold finalOf
  split
  · rename_i thread fin hb
    exact absurd hb (h thread fin)
  · rfl

theorem shows_closed {job : Job} {s : Sys} {i : ℕ} {f : Fate} (hstage : f.stage = .closed)
    (h : (s.gtab i).allocated = false) : Shows job s i f := by
  refine ⟨?_, fun hne => absurd hstage hne⟩
  rw [hstage]
  exact h

/-- A step of the fate that loses nothing. -/
theorem follows_of {job : Job} {s' : Sys} {i : ℕ} {f f' : Fate} {e : Record} {news : News}
    (hnews : e.news job i = news) (hstep : FateStep job f news .none f')
    (hdropped : news.dropped ≠ 0 → e.pre.dtq.mpisqDraindown ≠ .init)
    (hshow : Shows job s' i f') : Follows job e s' i f := by
  subst hnews
  exact ⟨.none, f', hstep, hshow, fun hloss => absurd rfl hloss, hdropped⟩

namespace Handled

variable {job : Job} {s s' : Sys} {i : ℕ} {f : Fate} {e : Record} {p : Packet} {addr : ℕ} {m : Mgr}
  {gt : ℕ → Gtab} {out : List Post} {net : List Packet} {l : ℕ} {lt : Ltab} {pc : WrapPc}
  {thread : DThread} {fin : LtState}

theorem posts (h : Handled job s s' e p net m gt out) (i : ℕ) :
    ∀ post ∈ sent s p.dst out, finalOf i post = none :=
  fun post hpost => finalOf_eq_none (h.noEnd post (mem_sent hpost))

/-- What a message tells about an entry whose slots it leaves alone. -/
theorem news (h : Handled job s s' e p net m gt out)
    (hslots : ∀ l pc st, Hosts (m.ltab l) i pc st ↔ Hosts ((s.rk p.dst).mgr.ltab l) i pc st) :
    e.news job i = { News.none with
      joined := if e.names i then (sent s p.dst out).filterMap joinedValue else []
      freed := if e.names i then m.procFree.drop (s.rk p.dst).mgr.procFree.length else [] } := by
  have hvalues : e.values job i = [] := by simp [Record.values, h.event]
  rw [news_kept job h.recorded (fun l => ?_) (h.posts i), hvalues]
  · rfl
  · rw [hosts_used, hosts_used]
    simp only [hslots]

theorem aside (h : Handled job s s' e p net m gt out) (hend : ∀ fin, ¬ isEnd i fin p)
    (hentry : SameStage (s.gtab i) (gt i))
    (hslots : ∀ l pc st, Hosts (m.ltab l) i pc st ↔ Hosts ((s.rk p.dst).mgr.ltab l) i pc st) :
    Aside s i p.dst m gt (s.rk p.dst).dtq.mgrreqq net (sent s p.dst out) := by
  refine ⟨hentry, hslots, fun _ _ _ _ => Iff.rfl, fun q fin hq => ?_, h.posts i⟩
  refine ⟨h.deliver.mem_of_mem, fun hmem => ?_⟩
  rcases h.deliver.mem_or hmem with rfl | hq'
  · exact absurd hq (hend fin)
  · exact hq'

theorem follows_aside (h : Handled job s s' e p net m gt out) (hshow : Shows job s i f)
    (hok : LifeOk (LifeRefinement.life job s)) (hend : ∀ fin, ¬ isEnd i fin p)
    (hentry : SameUse (s.gtab i) (gt i))
    (hslots : ∀ l pc st, Hosts (m.ltab l) i pc st ↔ Hosts ((s.rk p.dst).mgr.ltab l) i pc st)
    (hnames : e.names i = true → out.filterMap joinedValue = [] ∧
      m.procFree = (s.rk p.dst).mgr.procFree) : Follows job e s' i f := by
  refine hshow.follows_aside hok h.life h.change h.recorded
    (h.aside hend hentry.toSameStage hslots) hentry (by simp [Record.values, h.event])
    fun hn => ⟨?_, (hnames hn).2⟩
  unfold sent
  split
  · exact (hnames hn).1
  · rfl

/-- An entry that is given back. -/
theorem follows_closed (h : Handled job s s' e p net m gt out)
    (hfree : (gt i).allocated = false)
    (hslots : ∀ l pc st, Hosts (m.ltab l) i pc st ↔ Hosts ((s.rk p.dst).mgr.ltab l) i pc st)
    {news : News} {loss : Loss} {ret : Argret} {past : News}
    (hnews : { News.none with
      joined := if e.names i then (sent s p.dst out).filterMap joinedValue else []
      freed := if e.names i then m.procFree.drop (s.rk p.dst).mgr.procFree.length else [] } = news)
    (hstep : FateStep job f news loss (f.go .closed ret past))
    (hloss : loss ≠ .none → (job.dsps f.dispIdx).dtRetproc = true → e.loses job i = true) :
    Follows job e s' i f := by
  refine ⟨loss, f.go .closed ret past, ?_, shows_closed rfl ?_, hloss, ?_⟩
  · rw [h.news hslots, hnews]
    exact hstep
  · rw [h.change.gtab]
    exact hfree
  · rw [h.news hslots]
    exact fun hne => absurd rfl hne

theorem notEnd {body : Body} (hb : p.frame.body = body)
    (hbody : ∀ thread fin, body ≠ .terminated thread fin) : ∀ fin, ¬ isEnd i fin p := by
  rintro fin ⟨seq, hb'⟩
  rw [hb] at hb'
  exact hbody _ _ hb'

/-- The stage of a thread whose START or failed STARTED arrives. -/
theorem waiting (h : Handled job s s' e p net m gt out) (hshow : Shows job s i f)
    (hok : LifeOk (LifeRefinement.life job s)) {q : Letter} (hq : letterOf p = some q)
    (hclaim : claims (LifeRefinement.life job s).starts i q = true)
    (hend : ∀ fin, ¬ isEnd i fin p) : f.stage = .waiting := by
  rcases hshow.of_claim hok h.deliver.mem hq hclaim with ⟨hf, -⟩ | ⟨fin, -, hend'⟩
  · exact hf
  · exact absurd hend' (hend fin)

/-- A START that installs the thread. -/
theorem follows_host (h : Handled job s s' e p net m s.gtab out) (hshow : Shows job s i f)
    (hok : LifeOk (LifeRefinement.life job s)) {seq : ℕ} {attrs : Attr} {l : ℕ}
    (hb : p.frame.body = .start ⟨i, seq⟩ attrs) (hlt : l < job.nmaxthread)
    (hfree : ((s.rk p.dst).mgr.ltab l).pthState = .none)
    (hl : Hosts (m.ltab l) i .starting .starting) : Follows job e s' i f := by
  have hletter : letterOf p = some ⟨p.src, p.dst, .start p.frame.xidseq i⟩ := by
    simp [letterOf, hb]
  have hwaiting := h.waiting hshow hok hletter (by simp [claims]) (notEnd hb (by simp))
  have hstage := hshow.stage
  rw [hwaiting] at hstage
  have hpre : e.pre.mgr = (s.rk p.dst).mgr := by
    rw [h.recorded.pre]
    rfl
  have htakes : e.Takes job i := by
    refine ⟨l, hlt, ?_, ?_, ?_⟩
    · rw [hpre]
      exact hfree
    · rw [h.recorded.mgr, hl.2.2.1]
      exact hl.2.2.2
    · rw [h.recorded.mgr]
      exact hl.1
  have hleaves : ¬ e.Leaves job i := by
    rintro ⟨l', -, hused, hidx, -⟩
    rw [hpre] at hused hidx
    exact hstage.2.1 p.dst l' _ _ ⟨hidx, rfl, rfl, hused⟩
  have hnews : e.news job i = { News.none with started := 1 } := by
    have hfinals : e.finals i = [] := by
      rw [Record.finals, h.recorded.posts, List.filterMap_eq_nil_iff]
      exact h.posts i
    have hvalues : e.values job i = [] := by simp [Record.values, h.event]
    have hnames : e.names i = false := by simp [Record.names, h.event, hb]
    simp only [Record.news, htakes, hleaves, hfinals, hvalues, hnames, if_true, false_and,
      if_false, Bool.false_eq_true]
    rfl
  refine follows_of hnews (.host hwaiting) (fun hne => absurd rfl hne)
    ⟨⟨by simp, p.dst, l, ?_⟩, fun _ => ?_⟩
  · rw [h.change.mgr]
    exact hl
  · rw [h.change.gtab]
    exact hshow.entry (by simp [hwaiting])

/-- A CANCEL that reaches a running thread. -/
theorem follows_cancel (h : Handled job s s' e p net ((s.rk p.dst).mgr.setLtab l lt) s.gtab out)
    (hshow : Shows job s i f) (hok : LifeOk (LifeRefinement.life job s)) (hfate : FateOk job f)
    (hold : Hosts ((s.rk p.dst).mgr.ltab l) i pc .running) (hnew : Hosts lt i pc .canceled)
    (hnames : e.names i = false) : Follows job e s' i f := by
  have hslots (l' : ℕ) : (((s.rk p.dst).mgr.setLtab l lt).ltab l').pthState ≠ .none ∧
      (((s.rk p.dst).mgr.setLtab l lt).ltab l').gtabIdx = i ↔
      ((s.rk p.dst).mgr.ltab l').pthState ≠ .none ∧ ((s.rk p.dst).mgr.ltab l').gtabIdx = i := by
    by_cases hl : l' = l
    · subst hl
      simp only [Mgr.setLtab, Function.update_self]
      exact iff_of_true (hosts_used.mpr ⟨_, _, hnew⟩) (hosts_used.mpr ⟨_, _, hold⟩)
    · simp only [Mgr.setLtab, Function.update_of_ne hl]
  have hnews : e.news job i = .none := by
    rw [news_kept job h.recorded hslots (h.posts i), hnames]
    simp [Record.values, h.event, News.none]
  have hhost : Hosts ((s'.rk p.dst).mgr.ltab l) i pc .canceled := by
    rw [h.change.mgr]
    simpa [Mgr.setLtab] using hnew
  have hentry (hclosed : f.stage ≠ .closed) : (s'.gtab i).ret = f.ret ∧
      (s'.gtab i).detached = f.detached ∧ (s'.gtab i).dispIdx = f.dispIdx := by
    rw [h.change.gtab]
    exact hshow.entry hclosed
  rcases hshow.of_hosts hok hold with ⟨hpc, hstage⟩ | ⟨-, -, hstage⟩ | ⟨rfl, hclean, hstage⟩
  · exact follows_of hnews (.cancel pc hstage) (fun hne => absurd rfl hne)
      ⟨⟨hpc, p.dst, l, hhost⟩, fun _ => hentry (by simp [hstage])⟩
  · have hok' := hfate.stage
    rw [hstage] at hok'
    obtain ⟨values, -, hagree⟩ := hok'
    exact Bool.noConfusion hagree.final
  · refine follows_of hnews .still (fun hne => absurd rfl hne) ⟨?_, hentry⟩
    rw [hstage]
    refine ⟨p.dst, l, .canceled, hhost, ?_⟩
    rw [h.change.mgrreqq]
    exact hclean

/-- A DETACH of a thread with an entry. -/
theorem follows_detach (h : Handled job s s' e p net m
      (Function.update s.gtab thread.dtIndex { s.gtab thread.dtIndex with detached := true }) out)
    (hshow : Shows job s thread.dtIndex f) (hok : LifeOk (LifeRefinement.life job s))
    (hb : p.frame.body = .detach thread)
    (hvalid : dt2gtab job s.gtab thread = some thread.dtIndex)
    (hslots : ∀ l pc st, Hosts (m.ltab l) thread.dtIndex pc st ↔
      Hosts ((s.rk p.dst).mgr.ltab l) thread.dtIndex pc st) :
    Follows job e s' thread.dtIndex f := by
  obtain ⟨-, halloc, -⟩ := dt2gtab_valid.mp hvalid
  have hclosed : f.stage ≠ .closed := by
    intro hclosed
    have hstage := hshow.stage
    rw [hclosed] at hstage
    have hfree : (s.gtab thread.dtIndex).allocated = false := hstage
    rw [halloc] at hfree
    exact Bool.noConfusion hfree
  have hnews : e.news job thread.dtIndex = .none := by
    rw [h.news hslots]
    simp [Record.names, h.event, hb, News.none]
  have haside := h.aside (i := thread.dtIndex)
    (fun fin hend => by
      obtain ⟨seq, hb'⟩ := hend
      rw [hb] at hb'
      exact absurd hb' (by simp))
    ⟨by simp, by simp⟩ hslots
  have hshow' : Shows job s' thread.dtIndex { f with detached := true } := by
    refine ⟨haside.stageAt hok h.life h.change hshow.stage, fun _ => ?_⟩
    obtain ⟨hret, -, hdisp⟩ := hshow.entry hclosed
    rw [h.change.gtab, Function.update_self]
    exact ⟨hret, rfl, hdisp⟩
  by_cases hz : ∃ fin, f.stage = .zombie fin
  · obtain ⟨fin, hz⟩ := hz
    refine ⟨.abandon, _, hnews ▸ .abandon fin hz, hshow', fun _ _ => ?_, ?_⟩
    · have hstage := hshow.stage
      rw [hz] at hstage
      obtain ⟨-, hterm, hfin⟩ := hstage
      simp only [Record.loses, h.event, hb, h.recorded.pre, decide_eq_true_eq]
      exact ⟨hvalid, hterm ▸ hfin⟩
    · rw [hnews]
      exact fun hne => absurd rfl hne
  · push Not at hz
    exact follows_of hnews (.detach hz hclosed) (fun hne => absurd rfl hne) hshow'

/-- The stage of a thread whose TERMINATED arrives. -/
theorem reported (h : Handled job s s' e p net m gt out) (hshow : Shows job s thread.dtIndex f)
    (hok : LifeOk (LifeRefinement.life job s)) (hb : p.frame.body = .terminated thread fin) :
    f.stage = .reported fin :=
  hshow.of_end hok h.deliver.mem ⟨thread.dtSeq, hb⟩

theorem follows_zombie (h : Handled job s s' e p net m (zombieGtab s.gtab thread fin) [])
    (hshow : Shows job s thread.dtIndex f) (hok : LifeOk (LifeRefinement.life job s))
    (hb : p.frame.body = .terminated thread fin) (hfin : fin.needFinalstate = false)
    (hdet : (s.gtab thread.dtIndex).detached = false)
    (hslots : ∀ l pc st, Hosts (m.ltab l) thread.dtIndex pc st ↔
      Hosts ((s.rk p.dst).mgr.ltab l) thread.dtIndex pc st)
    (hproc : m.procFree = (s.rk p.dst).mgr.procFree) : Follows job e s' thread.dtIndex f := by
  have hstage := h.reported hshow hok hb
  obtain ⟨hret, hdet', hdisp⟩ := hshow.entry (by simp [hstage])
  have hnews : e.news job thread.dtIndex = .none := by
    rw [h.news hslots]
    simp [sent, hproc, News.none]
  have halloc := (isLive_of_mem (live_of_terminated hok h.deliver.mem hb)).2.1
  refine follows_of hnews (.terminate fin hstage (hdet' ▸ hdet)) (fun hne => absurd rfl hne)
    ⟨?_, fun _ => ?_⟩
  · refine ⟨?_, ?_, hfin⟩
    · rw [h.change.gtab]
      simpa [zombieGtab] using halloc
    · rw [h.change.gtab]
      simp [zombieGtab]
  · rw [h.change.gtab]
    simpa [zombieGtab, Fate.go] using And.intro hret (And.intro hdet' hdisp)

/-- The TERMINATED of a detached thread. -/
theorem follows_free (h : Handled job s s' e p net m gt out) (hshow : Shows job s thread.dtIndex f)
    (hok : LifeOk (LifeRefinement.life job s)) (hfate : FateOk job f)
    (hb : p.frame.body = .terminated thread fin)
    (hdet : (s.gtab thread.dtIndex).detached = true)
    (hfree : (gt thread.dtIndex).allocated = false)
    (hslots : ∀ l pc st, Hosts (m.ltab l) thread.dtIndex pc st ↔
      Hosts ((s.rk p.dst).mgr.ltab l) thread.dtIndex pc st)
    (hproc : m.procFree = (s.rk p.dst).mgr.procFree ++
      if frees job (s.gtab thread.dtIndex).dispIdx then [(s.gtab thread.dtIndex).ret] else [])
    (hout : out.filterMap joinedValue = []) : Follows job e s' thread.dtIndex f := by
  have hstage := h.reported hshow hok hb
  obtain ⟨hret, hdet', hdisp⟩ := hshow.entry (by simp [hstage])
  rw [hret, hdisp] at hproc
  have hnames : e.names thread.dtIndex = true := by simp [Record.names, h.event, hb]
  have hsent : (sent s p.dst out).filterMap joinedValue = [] := by
    unfold sent
    split
    · exact hout
    · rfl
  refine h.follows_closed hfree hslots ?_ (.free fin hstage (hdet' ▸ hdet)) fun hloss hretproc => ?_
  · rw [if_pos hnames, if_pos hnames, hsent, hproc, List.drop_left]
    rfl
  · have hzero : f.dispIdx = 0 := by
      by_contra hne
      have hlt := hfate.dispIdx
      have hfrees : frees job f.dispIdx = true := by
        simp only [frees, hretproc, Bool.and_true, decide_eq_true_eq]
        omega
      rw [if_pos hfrees] at hloss
      exact hloss rfl
    simp only [Record.loses, h.event, hb, h.recorded.pre, Sys.view, hdet, if_true, hdisp, hzero,
      decide_true, Bool.and_self]

/-- The value of a thread that has ended goes to its joiner. -/
theorem follows_join (h : Handled job s s' e p net m gt out) (hshow : Shows job s i f)
    (hstage : f.stage = .reported fin ∨ f.stage = .zombie fin)
    (hdet : (s.gtab i).detached = false) (hfree : (gt i).allocated = false)
    (hslots : ∀ l pc st, Hosts (m.ltab l) i pc st ↔ Hosts ((s.rk p.dst).mgr.ltab l) i pc st)
    (hnames : e.names i = true) (hproc : m.procFree = (s.rk p.dst).mgr.procFree)
    (hout : out.filterMap joinedValue = [(s.gtab i).ret])
    (hloses : draindown s p.dst ≠ .init → e.loses job i = true) : Follows job e s' i f := by
  have hclosed : f.stage ≠ .closed := by
    rcases hstage with hstage | hstage
    · simp [hstage]
    · simp [hstage]
  obtain ⟨hret, hdet', -⟩ := hshow.entry hclosed
  rw [hret] at hout
  by_cases hinit : draindown s p.dst = .init
  · refine h.follows_closed hfree hslots ?_ (.join fin hstage (hdet' ▸ hdet))
      fun hloss => absurd rfl hloss
    rw [if_pos hnames, if_pos hnames, hproc, List.drop_length, sent, if_pos hinit, hout]
    rfl
  · refine h.follows_closed hfree hslots ?_ (.silence fin hstage (hdet' ▸ hdet))
      fun _ _ => hloses hinit
    rw [if_pos hnames, if_pos hnames, hproc, List.drop_length, sent, if_neg hinit]
    rfl

/-- The messages that only move the queues and counters of a manager. -/
theorem follows_quiet (h : Handled job s s' e p net m gt out) (hshow : Shows job s i f)
    (hok : LifeOk (LifeRefinement.life job s)) {body : Body} (hb : p.frame.body = body)
    (hbody : ∀ thread fin, body ≠ .terminated thread fin) (hgt : gt = s.gtab)
    (hslots : ∀ l pc st, Hosts (m.ltab l) i pc st ↔ Hosts ((s.rk p.dst).mgr.ltab l) i pc st)
    (hout : out.filterMap joinedValue = [])
    (hproc : m.procFree = (s.rk p.dst).mgr.procFree) : Follows job e s' i f := by
  subst hgt
  exact h.follows_aside hshow hok (notEnd hb hbody) (.refl _) hslots fun _ => ⟨hout, hproc⟩

/-- An entry other than the one that a message names. -/
theorem follows_other (h : Handled job s s' e p net m gt out) (hshow : Shows job s i f)
    (hok : LifeOk (LifeRefinement.life job s)) {k : ℕ} (hi : i ≠ k) (hend : ∀ fin, ¬ isEnd i fin p)
    (hgt : ∀ j, j ≠ k → gt j = s.gtab j)
    (hslots : ∀ l pc st, Hosts (m.ltab l) i pc st ↔ Hosts ((s.rk p.dst).mgr.ltab l) i pc st)
    (hnames : e.names i = false) : Follows job e s' i f := by
  refine h.follows_aside hshow hok hend ?_ hslots fun hn => by simp [hnames] at hn
  rw [hgt i hi]
  exact .refl _

/-- A TERMINATED for another entry. -/
theorem terminated_other (h : Handled job s s' e p net m gt out)
    (hb : p.frame.body = .terminated thread fin) (hi : i ≠ thread.dtIndex) :
    (∀ fin, ¬ isEnd i fin p) ∧ e.names i = false := by
  refine ⟨fun fin' hend => ?_, ?_⟩
  · obtain ⟨seq, hb'⟩ := hend
    rw [hb] at hb'
    simp only [Body.terminated.injEq] at hb'
    exact hi (by rw [hb'.1])
  · simpa [Record.names, h.event, hb] using Ne.symm hi

end Handled

theorem procFree_cleanupMgr (job : Job) (m : Mgr) (gt : Gtab) :
    (cleanupMgr job m gt).procFree =
      m.procFree ++ if frees job gt.dispIdx then [gt.ret] else [] := by
  by_cases hskip : gt.dispIdx < 1 ∨ job.ndsps ≤ gt.dispIdx ∨
      (job.dsps gt.dispIdx).dtRetproc = false
  · have hfrees : frees job gt.dispIdx = false := by
      unfold frees
      rcases hskip with hd | hd | hd
      · rw [decide_eq_false (by omega)]
        rfl
      · rw [decide_eq_false (by omega)]
        rfl
      · simp [hd]
    simp only [cleanupMgr, if_pos hskip, hfrees, Bool.false_eq_true, if_false, List.append_nil]
  · have hfrees : frees job gt.dispIdx = true := by
      push Not at hskip
      simp [frees, hskip]
    simp only [cleanupMgr, if_neg hskip, hfrees, if_true]

/-- What every state of the job has. -/
structure Settled (job : Job) (s : Sys) : Prop where
  facts : Facts job s
  life : LifeOk (life job s)
  links : LinkOk job s
  names : NamesOk s
  patient : ∀ r, Patient (s.rk r).mgr.rpending

theorem reachable_settled {job : Job} {s : Sys} (h : Reachable job s) : Settled job s :=
  ⟨reachable_facts h, reachable_lifeOk h, reachable_linkOk h, reachable_namesOk h,
    reachable_patient h⟩

section Deliveries

variable {job : Job} {s s' : Sys} {i : ℕ} {f : Fate} {e : Record} {p : Packet} {addr : ℕ} {m : Mgr}
  {gt : ℕ → Gtab} {out : List Post} {net : List Packet}

/-- No TERMINATED is discarded. -/
theorem dropped_notEnd (hs : Settled job s) (hp : p ∈ s.net)
    (h : Dropped job (s.view p.dst) ⟨addr, p.src, p.frame⟩) : ∀ fin, ¬ isEnd i fin p := by
  rintro fin ⟨seq, hb⟩
  cases h with
  | runt hshort =>
    have hlen := hs.facts.wellformed.frames p hp
    simp only at hshort
    omega
  | wrongRank hrank h0 =>
    have hdst := hs.facts.wellformed.rank0 p hp h0
    simp only [Sys.view, hs.facts.sane.rank] at hrank
    exact hrank hdst
  | unmatchedReply op hop hnone => simp [hb, replyTo] at hop
  | unmatchedStarted e hb' hnone => simp [hb] at hb'
  | badTerminated thread fin' hb' hbad =>
    simp only at hb' hbad
    rcases hbad with hlen | hlt | hseq | hfin
    · exact hlen (hs.facts.wellformed.frames p hp)
    · have hlive := isLive_of_mem (live_of_terminated hs.life hp hb')
      omega
    · exact hseq (hs.names _ _ (.ended p thread fin' hp hb')).2
    · have hfinal := hs.facts.final p hp thread fin' hb'
      rw [hfin] at hfinal
      exact Bool.noConfusion hfinal
  | unknown code hb' => simp [hb] at hb'

/-- A STARTED with an error closes the entry of the thread that did not start. -/
theorem follows_failed (hs : Settled job s) (h : Handled job s s' e p net m gt out) {err : ℕ}
    {rqe : Request} (hb : p.frame.body = .started err) (herr : err ≠ 0)
    (hfind : findPendingReq (s.rk p.dst).mgr.rpending .start p.frame.xidseq = some rqe)
    (hshow : Shows job s rqe.creinfo.cThread.dtIndex f)
    (hfree : (gt rqe.creinfo.cThread.dtIndex).allocated = false)
    (hslots : ∀ l pc st, Hosts (m.ltab l) rqe.creinfo.cThread.dtIndex pc st ↔
      Hosts ((s.rk p.dst).mgr.ltab l) rqe.creinfo.cThread.dtIndex pc st) :
    Follows job e s' rqe.creinfo.cThread.dtIndex f := by
  have hdst : p.dst = 0 := hs.facts.wellformed.rank0 p h.deliver.mem (by rw [hb]; rfl)
  have hfind' : findPendingReq (s.rk 0).mgr.rpending .start p.frame.xidseq = some rqe := by
    rwa [hdst] at hfind
  obtain ⟨hxid, hop⟩ := findPendingReq_spec hfind'
  have hletter : letterOf p = some ⟨p.src, p.dst, .started false p.frame.xidseq⟩ := by
    simp [letterOf, hb, herr]
  have hclaim : claims (life job s).starts rqe.creinfo.cThread.dtIndex
      ⟨p.src, p.dst, .started false p.frame.xidseq⟩ = true :=
    List.any_eq_true.mpr ⟨_, mem_starts (List.mem_of_find?_eq_some hfind') hop, by simp [hxid]⟩
  have hwaiting := h.waiting hshow hs.life hletter hclaim (Handled.notEnd hb (by simp))
  refine h.follows_closed hfree hslots ?_ (.fail hwaiting) fun hloss => absurd rfl hloss
  have hnames : e.names rqe.creinfo.cThread.dtIndex = false := by
    simp [Record.names, h.event, hb]
  simp [hnames, News.none]

/-- A CREATE concerns only the entry that it opens. -/
theorem follows_created {gidx dispIdx target seq : ℕ} {attrs : Attr} {arg : Argret}
    (hs : Settled job s)
    (h : Handled job s s' e p net m
      (Function.update s.gtab gidx (gtabInit target seq dispIdx arg (s.gtab gidx))) out)
    (hb : p.frame.body = .create attrs dispIdx arg) (hfree : (s.gtab gidx).allocated = false)
    (hslots : ∀ l pc st, Hosts (m.ltab l) i pc st ↔ Hosts ((s.rk p.dst).mgr.ltab l) i pc st)
    (hshow : Shows job s i f) (hopened : e.opened i = false) : Follows job e s' i f := by
  by_cases hi : i = gidx
  · subst hi
    have hopens : e.opened i = true := by
      simp [Record.opened, h.recorded.pre, h.recorded.gtab, gtabInit, Sys.view, hfree]
    rw [hopens] at hopened
    exact Bool.noConfusion hopened
  · exact h.follows_other hshow hs.life hi (Handled.notEnd hb (by simp))
      (fun j hj => Function.update_of_ne hj _ _) hslots (by simp [Record.names, h.event, hb])

/-- A CREATE that a closed queue refuses leaves the entry that it tried free. -/
theorem follows_createDrain {gidx dispIdx : ℕ} {attrs : Attr} {arg : Argret} {entry : Gtab}
    (hs : Settled job s) (h : Handled job s s' e p net m (Function.update s.gtab gidx entry) out)
    (hb : p.frame.body = .create attrs dispIdx arg) (hfree : (s.gtab gidx).allocated = false)
    (hentry : entry.allocated = false)
    (hslots : ∀ l pc st, Hosts (m.ltab l) i pc st ↔ Hosts ((s.rk p.dst).mgr.ltab l) i pc st)
    (hout : out.filterMap joinedValue = []) (hproc : m.procFree = (s.rk p.dst).mgr.procFree)
    (hshow : Shows job s i f) : Follows job e s' i f := by
  refine h.follows_aside hshow hs.life (Handled.notEnd hb (by simp)) ?_ hslots
    fun _ => ⟨hout, hproc⟩
  by_cases hi : i = gidx
  · subst hi
    rw [Function.update_self]
    refine ⟨⟨hentry.trans hfree.symm, fun halloc => ?_⟩, fun halloc => ?_⟩
    · rw [hfree] at halloc
      exact Bool.noConfusion halloc
    · rw [hfree] at halloc
      exact Bool.noConfusion halloc
  · rw [Function.update_of_ne hi]
    exact .refl _

/-- A START puts its thread into a slot. -/
theorem follows_started {thread : DThread} {attrs : Attr} {l : ℕ} (hs : Settled job s)
    (h : Handled job s s' e p net (startedMgr (s.rk p.dst).mgr thread l) s.gtab out)
    (hb : p.frame.body = .start thread attrs) (hlt : l < job.nmaxthread)
    (hnone : ((s.rk p.dst).mgr.ltab l).pthState = .none) (hout : out.filterMap joinedValue = [])
    (hshow : Shows job s i f) : Follows job e s' i f := by
  by_cases hi : i = thread.dtIndex
  · subst hi
    refine h.follows_host hshow hs.life hb hlt hnone ?_
    simp [startedMgr, Mgr.setLtab, Hosts]
  · exact h.follows_quiet hshow hs.life hb (by simp) rfl (hosts_started hnone hi) hout rfl

/-- A DETACH marks the entry that it names. -/
theorem follows_detached {thread : DThread} (hs : Settled job s)
    (h : Handled job s s' e p net m
      (Function.update s.gtab thread.dtIndex { s.gtab thread.dtIndex with detached := true }) out)
    (hb : p.frame.body = .detach thread)
    (hvalid : dt2gtab job s.gtab thread = some thread.dtIndex)
    (hslots : ∀ l pc st, Hosts (m.ltab l) i pc st ↔ Hosts ((s.rk p.dst).mgr.ltab l) i pc st)
    (hshow : Shows job s i f) : Follows job e s' i f := by
  by_cases hi : i = thread.dtIndex
  · subst hi
    exact h.follows_detach hshow hs.life hb hvalid hslots
  · exact h.follows_other hshow hs.life hi (Handled.notEnd hb (by simp))
      (fun j hj => Function.update_of_ne hj _ _) hslots (by simp [Record.names, h.event, hb])

/-- A CANCEL that finds the slot of its thread. -/
theorem follows_canceled {thread : DThread} {l : ℕ} (hs : Settled job s)
    (h : Handled job s s' e p net
      ((s.rk p.dst).mgr.setLtab l (cancelLtab ((s.rk p.dst).mgr.ltab l))) s.gtab out)
    (hb : p.frame.body = .cancel thread) (hout : out.filterMap joinedValue = [])
    (hshow : Shows job s i f) (hfate : FateOk job f) : Follows job e s' i f := by
  by_cases hrun : ((s.rk p.dst).mgr.ltab l).pthState = .running ∧
      ((s.rk p.dst).mgr.ltab l).gtabIdx = i
  · refine h.follows_cancel hshow hs.life hfate ⟨hrun.2, rfl, hrun.1, by simp⟩ ?_
      (by simp [Record.names, h.event, hb])
    simp [cancelLtab, hrun.1, Hosts, hrun.2]
  · exact h.follows_quiet hshow hs.life hb (by simp) rfl
      (hosts_canceled fun hst hi => hrun ⟨hst, hi⟩) hout rfl

/-- A JOIN of a thread that has ended takes its value and frees its entry. -/
theorem follows_joined {thread : DThread} (hs : Settled job s)
    (h : Handled job s s' e p net (freeMgr (s.rk p.dst).mgr s.gtab thread.dtIndex)
      (freeGtab s.gtab thread.dtIndex) out)
    (hb : p.frame.body = .join thread)
    (hvalid : dt2gtab job s.gtab thread = some thread.dtIndex)
    (hdet : (s.gtab thread.dtIndex).detached = false)
    (hz : (s.gtab thread.dtIndex).terminated.needFinalstate = false)
    (hout : out.filterMap joinedValue = [(s.gtab thread.dtIndex).ret])
    (hshow : Shows job s i f) : Follows job e s' i f := by
  obtain ⟨-, halloc, -⟩ := dt2gtab_valid.mp hvalid
  by_cases hi : i = thread.dtIndex
  · subst hi
    refine h.follows_join hshow (.inr (hshow.of_zombie hs.life halloc hz)) hdet
      (freeGtab_allocated _ _) (fun _ _ _ => Iff.rfl) (by simp [Record.names, h.event, hb]) rfl hout
      fun hdrain => ?_
    simp only [Record.loses, h.event, hb, h.recorded.pre, decide_eq_true_eq]
    exact ⟨hvalid, hdet, hz, hdrain⟩
  · refine h.follows_other hshow hs.life hi (Handled.notEnd hb (by simp))
      (fun j hj => freeGtab_of_ne _ hj) (fun _ _ _ => Iff.rfl) ?_
    simpa [Record.names, h.event, hb] using Ne.symm hi

/-- The TERMINATED of a thread that nobody has joined or detached. -/
theorem follows_ended {thread : DThread} {fin : LtState} (hs : Settled job s)
    (h : Handled job s s' e p net m (zombieGtab s.gtab thread fin) [])
    (hb : p.frame.body = .terminated thread fin)
    (hdet : (s.gtab thread.dtIndex).detached = false)
    (hslots : ∀ l pc st, Hosts (m.ltab l) i pc st ↔ Hosts ((s.rk p.dst).mgr.ltab l) i pc st)
    (hproc : m.procFree = (s.rk p.dst).mgr.procFree) (hshow : Shows job s i f) :
    Follows job e s' i f := by
  by_cases hi : i = thread.dtIndex
  · subst hi
    exact h.follows_zombie hshow hs.life hb (hs.facts.final p h.deliver.mem thread fin hb) hdet
      hslots hproc
  · exact h.follows_other hshow hs.life hi (h.terminated_other hb hi).1
      (fun j hj => zombieGtab_of_ne _ _ _ hj) hslots (h.terminated_other hb hi).2

/-- The TERMINATED of a detached thread: its value is freed with its entry. -/
theorem follows_freed {thread : DThread} {fin : LtState} {gt : ℕ → Gtab} (hs : Settled job s)
    (h : Handled job s s' e p net m (freeGtab gt thread.dtIndex) out)
    (hb : p.frame.body = .terminated thread fin)
    (hdet : (s.gtab thread.dtIndex).detached = true)
    (hgt : ∀ j, j ≠ thread.dtIndex → gt j = s.gtab j)
    (hslots : ∀ l pc st, Hosts (m.ltab l) i pc st ↔ Hosts ((s.rk p.dst).mgr.ltab l) i pc st)
    (hproc : m.procFree = (s.rk p.dst).mgr.procFree ++
      if frees job (s.gtab thread.dtIndex).dispIdx then [(s.gtab thread.dtIndex).ret] else [])
    (hout : out.filterMap joinedValue = []) (hshow : Shows job s i f) (hfate : FateOk job f) :
    Follows job e s' i f := by
  by_cases hi : i = thread.dtIndex
  · subst hi
    exact h.follows_free hshow hs.life hfate hb hdet (freeGtab_allocated _ _) hslots hproc hout
  · refine h.follows_other hshow hs.life hi (h.terminated_other hb hi).1 (fun j hj => ?_) hslots
      (h.terminated_other hb hi).2
    rw [freeGtab_of_ne _ hj, hgt j hj]

/-- The TERMINATED of a thread that is waited for: its value goes to the joiner. -/
theorem follows_waited {thread : DThread} {fin : LtState} {rqe : Request} (hs : Settled job s)
    (h : Handled job s s' e p net m (freeGtab (zombieGtab s.gtab thread fin) thread.dtIndex)
      [joinedPost rqe (s.gtab thread.dtIndex).ret])
    (hb : p.frame.body = .terminated thread fin)
    (hdet : (s.gtab thread.dtIndex).detached = false)
    (hw : joinwaitSearch (s.view p.dst) thread = some rqe)
    (hslots : ∀ l pc st, Hosts (m.ltab l) i pc st ↔ Hosts ((s.rk p.dst).mgr.ltab l) i pc st)
    (hproc : m.procFree = (s.rk p.dst).mgr.procFree) (hshow : Shows job s i f) :
    Follows job e s' i f := by
  by_cases hi : i = thread.dtIndex
  · subst hi
    have hzero : rqe.reqerror = 0 :=
      hs.patient p.dst rqe (joinwaitSearch_mem hw) (joinwaitSearch_spec hw).1
    refine h.follows_join hshow (.inl (h.reported hshow hs.life hb)) hdet (freeGtab_allocated _ _)
      hslots (by simp [Record.names, h.event, hb]) hproc ?_ fun hdrain => ?_
    · simp [joinedPost, joinedValue, Frame.of, hzero]
    · have hdrain' : (s.view p.dst).dtq.mpisqDraindown ≠ .init := hdrain
      simp only [Record.loses, h.event, hb, h.recorded.pre, hw, Option.isSome_some,
        decide_eq_true hdrain', decide_true, Bool.and_true, Bool.true_and]
      simp only [Sys.view, hdet, Bool.false_eq_true, if_false]
  · exact h.follows_other hshow hs.life hi (h.terminated_other hb hi).1
      (fun j hj => freeGtab_zombie_of_ne hj) hslots (h.terminated_other hb hi).2

/-- A STARTED with an error frees the entry of the request that it answers. -/
theorem follows_startedErr {err : ℕ} {rqe : Request} (hs : Settled job s)
    (h : Handled job s s' e p net m (freeGtab s.gtab rqe.creinfo.cThread.dtIndex) out)
    (hb : p.frame.body = .started err) (herr : err ≠ 0)
    (hfind : findPendingReq (s.rk p.dst).mgr.rpending .start p.frame.xidseq = some rqe)
    (hslots : ∀ l pc st, Hosts (m.ltab l) i pc st ↔ Hosts ((s.rk p.dst).mgr.ltab l) i pc st)
    (hshow : Shows job s i f) : Follows job e s' i f := by
  by_cases hi : i = rqe.creinfo.cThread.dtIndex
  · subst hi
    exact follows_failed hs h hb herr hfind hshow (freeGtab_allocated _ _) hslots
  · exact h.follows_other hshow hs.life hi (Handled.notEnd hb (by simp))
      (fun j hj => freeGtab_of_ne _ hj) hslots (by simp [Record.names, h.event, hb])

/-- A message is a step of the fate of every entry that it does not open. -/
theorem follows_msg (hs : Settled job s) (h : Handled job s s' e p net m gt out)
    (ho : MqeOutcome job (s.view p.dst) ⟨addr, p.src, p.frame⟩ m gt out)
    (hshow : Shows job s i f) (hfate : FateOk job f) (hopened : e.opened i = false) :
    Follows job e s' i f := by
  have hok := hs.life
  have hrelease {m' : Mgr} {rqe : Request} {notify : Bool} (hltab : m'.ltab = (s.rk p.dst).mgr.ltab)
      (l : ℕ) (pc : WrapPc) (st : LtState) :
      Hosts ((releaseMgr m' rqe notify).ltab l) i pc st ↔
        Hosts ((s.rk p.dst).mgr.ltab l) i pc st := by
    rw [← hltab]
    exact hosts_release _ _ _ l i pc st
  cases ho with
  | drop hd =>
    exact h.follows_aside hshow hok (dropped_notEnd hs h.deliver.mem hd) (.refl _)
      (fun _ _ _ => Iff.rfl) fun _ => ⟨rfl, rfl⟩
  | createErr _ _ _ _ _ hb | startInvalid _ _ hb | detachNone _ hb | cancelErr _ _ hb
  | cancelMiss _ hb | joinWait _ _ hb =>
    exact h.follows_quiet hshow hok hb (by simp) rfl (fun _ _ _ => Iff.rfl) rfl rfl
  | createOk attrs dispIdx arg n gidx xidseq hb hdisp hroom hfree hlt hxid hinit =>
    exact follows_created hs h hb hfree (fun _ _ _ => Iff.rfl) hshow hopened
  | createDrain attrs dispIdx arg gidx xidseq hb hfree hlt hdrain =>
    exact follows_createDrain hs h hb hfree rfl (fun _ _ _ => Iff.rfl) rfl rfl hshow
  | startOk thread attrs l hb hvalid hfree hlt =>
    have hnone := (hs.facts.slots p.dst).free_slot hlt hfree
    exact follows_started hs h hb hlt hnone rfl hshow
  | startFail thread attrs l err hb hvalid hfree hlt herr =>
    have hnone := (hs.facts.slots p.dst).free_slot hlt hfree
    exact h.follows_quiet hshow hok hb (by simp) rfl (hosts_unstarted hnone) rfl rfl
  | detachPlain thread hb hvalid hw =>
    exact follows_detached hs h hb hvalid (fun _ _ _ => Iff.rfl) hshow
  | detachWait thread rqe hb hvalid hw =>
    exact follows_detached hs h hb hvalid (hrelease rfl) hshow
  | cancelHit thread l hb hvalid hl hhas hlt hseq =>
    exact follows_canceled hs h hb rfl hshow hfate
  | joinErr thread err hb hno =>
    refine h.follows_quiet hshow hok hb (by simp) rfl (fun _ _ _ => Iff.rfl) ?_ rfl
    -- `EINVAL` and `ESRCH` are not 0, so no value goes out with this reply
    rcases hno with ⟨-, rfl⟩ | ⟨-, rfl, -⟩
    · rfl
    · rfl
  | joinZombie thread hb hvalid hdet hz => exact follows_joined hs h hb hvalid hdet hz rfl hshow
  | terminatedZombie thread fin hb hlen hlt hseq hfin hdet hw =>
    exact follows_ended hs h hb hdet (fun _ _ _ => Iff.rfl) rfl hshow
  | terminatedDetached thread fin hb hlen hlt hseq hfin hdet hw =>
    exact follows_freed hs h hb hdet (fun j hj => cleanupGtab_zombie_of_ne hj)
      (fun _ _ _ => Iff.rfl) (procFree_cleanupMgr _ _ _) rfl hshow hfate
  | terminatedJoined thread fin rqe hb hlen hlt hseq hfin hdet hw =>
    exact follows_waited hs h hb hdet hw (hrelease rfl) rfl hshow
  | terminatedDetachedJoined thread fin rqe hb hlen hlt hseq hfin hdet hw =>
    exact follows_freed hs h hb hdet (fun j hj => cleanupGtab_zombie_of_ne hj) (hrelease rfl)
      (procFree_cleanupMgr _ _ _) rfl hshow hfate
  | startedOk rqe hb hfind =>
    exact h.follows_quiet hshow hok hb (by simp) rfl (hrelease rfl) rfl rfl
  | startedErr rqe err hb herr hfind =>
    exact follows_startedErr hs h hb herr hfind (hrelease rfl) hshow
  | reply op rqe rqe' hop hfind haddr =>
    simp only at hop
    refine h.follows_aside hshow hok (fun fin hend => ?_) (.refl _) (hrelease rfl)
      fun _ => ⟨rfl, rfl⟩
    obtain ⟨seq, hb⟩ := hend
    simp [hb, replyTo] at hop

end Deliveries

theorem cleaning_tail {rqe : Request} {rest : List Request} {l : ℕ}
    (h : rqe.reqop = .retclean → rqe.addr ≠ .ltab l) :
    Cleaning rest l ↔ Cleaning (rqe :: rest) l := by
  unfold Cleaning
  constructor
  · rintro ⟨rqe', hmem, hclean⟩
    exact ⟨rqe', List.mem_cons_of_mem _ hmem, hclean⟩
  · rintro ⟨rqe', hmem, haddr, hop⟩
    rw [List.mem_cons] at hmem
    rcases hmem with rfl | hmem
    · exact absurd haddr (h hop)
    · exact ⟨rqe', hmem, haddr, hop⟩

theorem retcleanGtab_sameUse (mgr : Mgr) (gtab : ℕ → Gtab) (l i : ℕ) :
    SameUse (gtab i) (retcleanGtab mgr gtab l i) := by
  unfold retcleanGtab
  split
  · by_cases hi : i = (mgr.ltab l).gtabIdx
    · rw [hi, Function.update_self]
      exact ⟨⟨rfl, fun _ => rfl⟩, fun _ => ⟨rfl, rfl, rfl⟩⟩
    · rw [Function.update_of_ne hi]
      exact .refl _
  · exact .refl _

/-- A mute rank that gives back the slot of a thread leaves no trace of it. -/
theorem gone_leave {a : Life} (h : LifeOk a) {r l i : ℕ} (hslot : a.slots r l = some i)
    (hmute : a.mute r = true) :
    Gone { a with slots := setSlot a.slots r l none, net := a.net ++ said a r (.ended i) } i where
  live := h.hostLive hslot
  slots r' l' := by
    show setSlot a.slots r l none r' l' ≠ some i
    by_cases hl : r' = r ∧ l' = l
    · simp [setSlot, hl]
    · rw [setSlot_of_ne none hl]
      exact fun hslot' => hl (h.unique hslot hslot')
  quiet := by
    simp only [said, hmute, if_true, List.append_nil]
    exact h.apart hslot

section Requests

variable {job : Job} {s s' : Sys} {i r : ℕ} {f : Fate} {e : Record} {m : Mgr} {gt : ℕ → Gtab}
  {rqe : Request} {rest : List Request} {out : List Post} {l : ℕ}

/-- The RETCLEAN of a thread: the slot is given back, and the end is reported
unless the rank drains. -/
theorem follows_retclean (hs : Settled job s) (hevent : e.event = .req rqe)
    (hq : (s.rk r).dtq.mgrreqq = rqe :: rest) (hdd : draindown s' r = draindown s r)
    (haddr : rqe.addr = .ltab l) (hop : rqe.reqop = .retclean) (hlt : l < job.nmaxthread)
    (hidx : ((s.rk r).mgr.ltab l).gtabIdx = i)
    (hc : Change s s' r (releaseMgr (freeLtabMgr (s.rk r).mgr l) rqe false)
      (retcleanGtab (s.rk r).mgr s.gtab l) rest s.net
      (sent s r [(0, .of 0 (.terminated
        ⟨((s.rk r).mgr.ltab l).gtabIdx, ((s.rk r).mgr.ltab l).seq⟩
        ((s.rk r).mgr.ltab l).pthState))]))
    (hrec : Recorded s e r (releaseMgr (freeLtabMgr (s.rk r).mgr l) rqe false)
      (retcleanGtab (s.rk r).mgr s.gtab l)
      (sent s r [(0, .of 0 (.terminated
        ⟨((s.rk r).mgr.ltab l).gtabIdx, ((s.rk r).mgr.ltab l).seq⟩
        ((s.rk r).mgr.ltab l).pthState))]))
    (hshow : Shows job s i f) : Follows job e s' i f := by
  subst hidx
  have hmem : rqe ∈ (s.rk r).dtq.mgrreqq := by
    rw [hq]
    exact List.mem_cons_self
  have hused : ((s.rk r).mgr.ltab l).pthState ≠ .none :=
    ((hs.facts.slots r).issued_of_mem (List.mem_append_left _ hmem) haddr).1
  have hhost : Hosts ((s.rk r).mgr.ltab l) _ _ _ := ⟨rfl, rfl, rfl, hused⟩
  have hclean : Cleaning (s.rk r).dtq.mgrreqq l := ⟨rqe, hmem, haddr, hop⟩
  have hstage : f.stage = .ended ((s.rk r).mgr.ltab l).pthState := by
    rcases hshow.of_hosts hs.life hhost with ⟨hpc, -⟩ | ⟨-, -, hstage⟩ | ⟨-, hno, -⟩
    · exact absurd (Cleaning.pc hs.facts hclean) hpc
    · exact hstage
    · exact absurd hclean hno
  have hpre : e.pre.mgr = (s.rk r).mgr := by
    rw [hrec.pre]
    rfl
  have hltab := retclean_ltab haddr hused
  have htakes : ¬ e.Takes job ((s.rk r).mgr.ltab l).gtabIdx := by
    rintro ⟨l', -, hfree, hused', -⟩
    rw [hpre] at hfree
    rw [hrec.mgr, hltab] at hused'
    by_cases hl : l' = l
    · subst hl
      exact hused hfree
    · rw [Function.update_of_ne hl] at hused'
      exact hused' hfree
  have hleaves : e.Leaves job ((s.rk r).mgr.ltab l).gtabIdx := by
    refine ⟨l, hlt, ?_, ?_, ?_⟩
    · rwa [hpre]
    · rw [hpre]
    · rw [hrec.mgr, hltab, Function.update_self]
  have hvalues : e.values job ((s.rk r).mgr.ltab l).gtabIdx = [] := by
    simp [Record.values, hevent]
  have hnames : e.names ((s.rk r).mgr.ltab l).gtabIdx = false := by simp [Record.names, hevent]
  have hentry : (s'.gtab ((s.rk r).mgr.ltab l).gtabIdx).ret = f.ret ∧
      (s'.gtab ((s.rk r).mgr.ltab l).gtabIdx).detached = f.detached ∧
      (s'.gtab ((s.rk r).mgr.ltab l).gtabIdx).dispIdx = f.dispIdx := by
    have hsame := (retcleanGtab_sameUse (s.rk r).mgr s.gtab l ((s.rk r).mgr.ltab l).gtabIdx).rest
      (hshow.allocated hs.life (by simp [hstage]))
    obtain ⟨hret, hdet, hdisp⟩ := hshow.entry (by simp [hstage])
    rw [hc.gtab]
    exact ⟨hsame.1.trans hret, hsame.2.1.trans hdet, hsame.2.2.trans hdisp⟩
  by_cases hinit : draindown s r = .init
  · have hfinals : e.finals ((s.rk r).mgr.ltab l).gtabIdx = [((s.rk r).mgr.ltab l).pthState] := by
      rw [Record.finals, hrec.posts, sent, if_pos hinit]
      simp [finalOf, Frame.of]
    have hnews : e.news job ((s.rk r).mgr.ltab l).gtabIdx =
        { News.none with finals := [((s.rk r).mgr.ltab l).pthState] } := by
      simp [Record.news, htakes, hfinals, hvalues, hnames, News.none]
    refine follows_of hnews (.report _ hstage) (fun hne => absurd rfl hne) ⟨?_, fun _ => hentry⟩
    refine ⟨pack r (0, .of 0 (.terminated _ _)), ?_, ((s.rk r).mgr.ltab l).seq, rfl⟩
    rw [hc.net, sent, if_pos hinit]
    simp
  · have hfinals : e.finals ((s.rk r).mgr.ltab l).gtabIdx = [] := by
      rw [Record.finals, hrec.posts, sent, if_neg hinit]
      rfl
    have hnews : e.news job ((s.rk r).mgr.ltab l).gtabIdx = { News.none with dropped := 1 } := by
      simp [Record.news, htakes, hleaves, hfinals, hvalues, hnames, News.none]
    refine follows_of hnews (.drop _ hstage) (fun _ => ?_) ⟨?_, fun _ => hentry⟩
    · rw [hrec.pre]
      exact hinit
    · show Gone (life job s') _
      rw [life_leave hdd haddr hused hc]
      exact gone_leave hs.life (hhost.slots job) (by simpa [life] using hinit)

/-- A step without a message that sends no TERMINATED and gives no slot back. -/
theorem follows_local {rq : List Request} {posts : List Post} (hs : Settled job s)
    (hlife : LifeStep (life job s) (life job s')) (hc : Change s s' r m s.gtab rq s.net posts)
    (hrec : Recorded s e r m s.gtab posts) (hvalues : e.values job i = [])
    (hnames : e.names i = false) (hshow : Shows job s i f)
    (hslots : ∀ l pc st, Hosts (m.ltab l) i pc st ↔ Hosts ((s.rk r).mgr.ltab l) i pc st)
    (hqueue : ∀ l, Cleaning rq l ↔ Cleaning (s.rk r).dtq.mgrreqq l)
    (hposts : ∀ post ∈ posts, ∀ thread fin, post.2.body ≠ .terminated thread fin) :
    Follows job e s' i f := by
  refine hshow.follows_aside hs.life hlife hc hrec
    ⟨(SameUse.refl _).toSameStage, hslots, fun l _ _ _ => hqueue l, fun _ _ _ => Iff.rfl,
      fun post hpost => finalOf_eq_none (hposts post hpost)⟩ (.refl _) hvalues fun hn => ?_
  rw [hnames] at hn
  exact Bool.noConfusion hn

theorem bcasts_no_terminated (job : Job) (k : ℕ) : ∀ post ∈ bcasts job k, ∀ thread fin,
    post.2.body ≠ .terminated thread fin := by
  intro post hpost thread fin hb
  obtain ⟨child, -, rfl⟩ := List.mem_map.mp hpost
  simp [Frame.of] at hb

/-- A request that a manager takes is a step of every fate. -/
theorem follows_req (hs : Settled job s) (hlife : LifeStep (life job s) (life job s'))
    (hevent : e.event = .req rqe) (hq : (s.rk r).dtq.mgrreqq = rqe :: rest)
    (hdd : draindown s' r = draindown s r) (ho : ReqOutcome job (s.view r) rqe m gt out)
    (hc : Change s s' r m gt rest s.net (sent s r out))
    (hrec : Recorded s e r m gt (sent s r out)) (hshow : Shows job s i f) :
    Follows job e s' i f := by
  have hmem : rqe ∈ (s.rk r).dtq.mgrreqq := by
    rw [hq]
    exact List.mem_cons_self
  have hvalues : e.values job i = [] := by simp [Record.values, hevent]
  have hnames : e.names i = false := by simp [Record.names, hevent]
  have hqueue (hop : rqe.reqop ≠ .retclean) (l : ℕ) :
      Cleaning rest l ↔ Cleaning (s.rk r).dtq.mgrreqq l := by
    rw [hq]
    exact cleaning_tail fun h => absurd h hop
  cases ho with
  | bad hbad =>
    -- the requests in a queue are those of busy slots
    obtain ⟨l, hlt, haddr, -, hbusy, hop⟩ := (hs.facts.slots r).queued rqe hmem
    rcases hbad l haddr with hge | hnot | ⟨hfwd, hclean, happ⟩
    · omega
    · exact absurd hbusy hnot
    · rcases hop with ⟨hop, -⟩ | ⟨hop, -⟩ | ⟨hop, -⟩
      · rw [hfwd] at hop
        exact Bool.noConfusion hop
      · exact absurd hop hclean
      · exact absurd hop happ
  | forward l mqe xidseq haddr hlt hbusy hop hmqe hxid hinit =>
    obtain ⟨-, hbody, -⟩ := hs.facts.wellformed.requests r rqe hmem mqe hmqe
    refine follows_local hs hlife hc hrec hvalues hnames hshow (fun _ _ _ => Iff.rfl)
      (hqueue fun h => by simp [h, forwarded] at hop) fun post hpost thread fin hb => ?_
    obtain rfl : post = _ := by simpa using mem_sent hpost
    have hb' : mqe.frame.body = .terminated thread fin := hb
    rw [← hbody, hb'] at hop
    exact Bool.noConfusion hop
  | forwardDrain l xidseq haddr hlt hbusy hop hdrain =>
    exact follows_local hs hlife hc hrec hvalues hnames hshow
      (fun l pc st => hosts_release _ _ _ l i pc st)
      (hqueue fun h => by simp [h, forwarded] at hop) fun post hpost => by
        simpa using mem_sent hpost
  | retclean l haddr hlt hbusy hop =>
    by_cases hi : ((s.rk r).mgr.ltab l).gtabIdx = i
    · exact follows_retclean hs hevent hq hdd haddr hop hlt hi hc hrec hshow
    · have hused : ((s.rk r).mgr.ltab l).pthState ≠ .none :=
        ((hs.facts.slots r).issued_of_mem (List.mem_append_left _ hmem) haddr).1
      have hentry := retcleanGtab_sameUse (s.rk r).mgr s.gtab l i
      refine hshow.follows_aside hs.life hlife hc hrec ⟨hentry.toSameStage, fun l' pc st => ?_,
        fun l' pc st hl => ?_, fun _ _ _ => Iff.rfl, fun post hpost => ?_⟩ hentry hvalues
        fun hn => by simp [hnames] at hn
      · have hltab : (releaseMgr (freeLtabMgr (s.view r).mgr l) rqe false).ltab = _ :=
          retclean_ltab haddr hused
        rw [hltab]
        by_cases hl : l' = l
        · subst hl
          rw [Function.update_self]
          exact iff_of_false (fun hh => hh.2.2.2 hh.2.2.1.symm) fun hh => hi hh.1
        · rw [Function.update_of_ne hl]
          exact Iff.rfl
      · rw [hq]
        refine cleaning_tail fun _ haddr' => hi ?_
        rw [haddr] at haddr'
        obtain rfl : l = l' := by simpa using haddr'
        exact hl.1
      · obtain rfl : post = _ := by simpa using mem_sent hpost
        simp [finalOf, Frame.of, Sys.view, hi]
  | app0Other l haddr hop hrank =>
    exact follows_local hs hlife hc hrec hvalues hnames hshow
      (fun l pc st => hosts_release _ _ _ l i pc st) (hqueue (by simp [hop])) fun post hpost => by
        simpa using mem_sent hpost

end Requests

/-- A step of the job is a step of the fate of every entry that it does not
open. -/
theorem follows_moves {job : Job} {s s' : Sys} {e : Record} {i : ℕ} {f : Fate}
    (hs : Settled job s) (h : Moves job s e s') (hshow : Shows job s i f) (hfate : FateOk job f)
    (hopened : e.opened i = false) : Follows job e s' i f := by
  have hquiet := hs.facts.sane.quiet
  obtain ⟨o, hcase⟩ := step_cases hquiet (step_iff_moves.mpr ⟨e, h⟩)
  have hlife : LifeStep (life job s) (life job s') := step_life hs.facts hcase
  cases h with
  | app r l act hr hl h => exact follows_app hs.facts hs.life hs.links hlife h hshow hfate
  | recv p net addr err v hr hd h =>
    rcases processMqe_outcome job _ v _ err (hquiet p.dst).1 h with ⟨hb, hd'⟩ | ⟨m, gt, out, ho, he⟩
    · obtain ⟨hc, -⟩ := shutdown_change net hd' (hquiet p.dst).1 (hquiet p.dst).2 rfl
      have hh : Handled job s _ _ p net _ _ _ :=
        ⟨rfl, hd, hc, recorded hquiet hc, bcasts_no_terminated job _, hlife⟩
      simp only at hb
      exact hh.follows_aside hshow hs.life (Handled.notEnd hb (by simp)) (.refl _)
        (fun _ _ _ => Iff.rfl) fun hn => by simp [Record.names, hb] at hn
    · obtain ⟨hc, -⟩ := effect_change net he (hquiet p.dst).1 (hquiet p.dst).2 rfl
      have hh : Handled job s _ _ p net m gt out :=
        ⟨rfl, hd, hc, recorded hquiet hc, mqeOutcome_no_terminated ho, hlife⟩
      exact follows_msg hs hh ho hshow hfate hopened
  | req r rqe q v hr hq h =>
    obtain ⟨rest, hrest, ⟨l, hop, haddr, hrank, hdd, hc⟩ | ⟨m, gt, out, hdd, ho, hc⟩⟩ :=
      req_cases hquiet hq h
    · refine follows_local hs hlife hc (recorded hquiet hc) rfl rfl hshow
        (fun l pc st => hosts_release _ _ _ l i pc st) (fun l => ?_)
        fun post hpost => bcasts_no_terminated job _ post (mem_sent hpost)
      rw [hrest]
      exact cleaning_tail fun hclean => by simp [hop] at hclean
    · exact follows_req hs hlife rfl hrest hdd ho hc (recorded hquiet hc) hshow
  | shutdown hidle hdrain =>
    obtain ⟨hc, -⟩ := shutdown_change s.net (broadcastShutdown_spec job (s.view 0) (hquiet 0).1)
      (hquiet 0).1 (hquiet 0).2 rfl
    exact follows_local hs hlife hc (recorded hquiet hc) rfl rfl hshow (fun _ _ _ => Iff.rfl)
      (fun _ => Iff.rfl) fun post hpost => bcasts_no_terminated job _ post (mem_sent hpost)

end Dthread.FateSteps
