import Dthread.TableCounts
import Dthread.Joins
import Dthread.JobLogs
import Dthread.ThreadFates

/-!
Every use of a slot of the shared table runs through the fate of a thread. The
stage is read off the state of the job, what is recorded about the thread is
read off the log, and each step of the job is a step of every fate.
-/
namespace Dthread.JobLogs

open ReqMsg Queuing ManagerTables ManagerEffects AppThreads JobSystem ThreadFates
open Joins (joinedValue)

/-- The state that a TERMINATED for entry `i` carries. -/
def finalOf (i : ℕ) (post : Post) : Option LtState :=
  match post.2.body with
  | .terminated thread fin => if thread.dtIndex = i then some fin else none
  | _ => none

/-- The return values that a thread's step produces: what a native function
returns or passes to dthread_nexit, and what dt_retproc encodes. -/
def AppAct.values (job : Job) (dispIdx : ℕ) : AppAct → List Argret
  | .appReturn ret => if native (job.dsps dispIdx) then [ret] else []
  | .exit nativeExit (some ret) =>
    if dispIdx < job.ndsps ∧ nativeExit = native (job.dsps dispIdx) then [ret] else []
  | .cleanup true (some ret) => if native (job.dsps dispIdx) then [] else [ret]
  | _ => []

namespace Record

/-- Some slot gets the thread of entry `i`. -/
def Takes (job : Job) (e : Record) (i : ℕ) : Prop :=
  ∃ l, l < job.nmaxthread ∧ (e.pre.mgr.ltab l).pthState = .none ∧
    (e.post.mgr.ltab l).pthState ≠ .none ∧ (e.post.mgr.ltab l).gtabIdx = i

/-- Some slot is given back by the thread of entry `i`. -/
def Leaves (job : Job) (e : Record) (i : ℕ) : Prop :=
  ∃ l, l < job.nmaxthread ∧ (e.pre.mgr.ltab l).pthState ≠ .none ∧
    (e.pre.mgr.ltab l).gtabIdx = i ∧ (e.post.mgr.ltab l).pthState = .none

instance (job : Job) (e : Record) (i : ℕ) : Decidable (e.Takes job i) :=
  inferInstanceAs (Decidable (∃ l, l < _ ∧ _))

instance (job : Job) (e : Record) (i : ℕ) : Decidable (e.Leaves job i) :=
  inferInstanceAs (Decidable (∃ l, l < _ ∧ _))

def values (job : Job) (e : Record) (i : ℕ) : List Argret :=
  match e.event with
  | .app l act =>
    if (e.pre.mgr.ltab l).gtabIdx = i then act.values job (e.pre.gtab i).dispIdx else []
  | _ => []

def finals (e : Record) (i : ℕ) : List LtState := e.posts.filterMap (finalOf i)

/-- The JOINs and TERMINATEDs for entry `i`. -/
def names (e : Record) (i : ℕ) : Bool :=
  match e.event with
  | .msg p =>
    match p.frame.body with
    | .join thread => thread.dtIndex == i
    | .terminated thread _ => thread.dtIndex == i
    | _ => false
  | _ => false

def news (job : Job) (e : Record) (i : ℕ) : News where
  started := if e.Takes job i then 1 else 0
  values := e.values job i
  finals := e.finals i
  dropped := if e.Leaves job i ∧ e.finals i = [] then 1 else 0
  joined := if e.names i then e.posts.filterMap joinedValue else []
  freed := if e.names i then e.post.mgr.procFree.drop e.pre.mgr.procFree.length else []

def opened (e : Record) (i : ℕ) : Bool :=
  !(e.pre.gtab i).allocated && (e.post.gtab i).allocated

/-- The steps that lose an encoded return value of entry `i`: a thread that
returns after it was canceled, a DETACH for a thread that has ended, a joiner
that a draining rank 0 does not answer, and the end of a detached main thread. -/
def loses (job : Job) (e : Record) (i : ℕ) : Bool :=
  match e.event with
  | .app l (.cleanup true (some _)) =>
    decide ((e.pre.mgr.ltab l).gtabIdx = i ∧ (e.pre.mgr.ltab l).pthState = .canceled)
  | .msg p =>
    match p.frame.body with
    | .detach thread => decide (dt2gtab job e.pre.gtab thread = some i ∧
        (e.pre.gtab i).terminated.needFinalstate = false)
    | .join thread => decide (dt2gtab job e.pre.gtab thread = some i ∧
        (e.pre.gtab i).detached = false ∧ (e.pre.gtab i).terminated.needFinalstate = false ∧
        e.pre.dtq.mpisqDraindown ≠ .init)
    | .terminated thread _ => decide (thread.dtIndex = i) &&
        if (e.pre.gtab i).detached then decide ((e.pre.gtab i).dispIdx = 0)
        else decide (e.pre.dtq.mpisqDraindown ≠ .init) && (joinwaitSearch e.pre thread).isSome
    | _ => false
  | _ => false

end Record

end Dthread.JobLogs

namespace Dthread.FateRefinement

open ReqMsg Queuing ManagerTables ManagerHandlers ManagerEffects ManagerOutcomes AppThreads
open FifoNet JobSystem JobLogs TableWrites RequestReply LocalSlots ThreadLife LifeRefinement
open CancelEffect TableSteps ThreadFates
open Joins (joinedValue)

/-- A slot in use by the thread of entry `i`, with the point the thread has
reached. -/
def Hosts (lt : Ltab) (i : ℕ) (pc : WrapPc) (state : LtState) : Prop :=
  lt.gtabIdx = i ∧ lt.pc = pc ∧ lt.pthState = state ∧ state ≠ .none

/-- The RETCLEAN of slot `l` waits in a queue. -/
def Cleaning (queue : List Request) (l : ℕ) : Prop :=
  ∃ rqe ∈ queue, rqe.addr = .ltab l ∧ rqe.reqop = .retclean

def isEnd (i : ℕ) (fin : LtState) (p : Packet) : Prop :=
  ∃ seq, p.frame.body = .terminated ⟨i, seq⟩ fin

/-- The stage of entry `i` in a state of the job. -/
def StageAt (job : Job) (s : Sys) (i : ℕ) : Stage → Prop
  | .waiting => i ∈ (life job s).live ∧ (∀ r l pc st, ¬ Hosts ((s.rk r).mgr.ltab l) i pc st) ∧
    ∀ p ∈ s.net, ∀ fin, ¬ isEnd i fin p
  | .hosted pc st => pc ≠ .ended ∧ ∃ r l, Hosts ((s.rk r).mgr.ltab l) i pc st
  | .ended fin => ∃ r l, Hosts ((s.rk r).mgr.ltab l) i .ended fin ∧
    Cleaning (s.rk r).dtq.mgrreqq l
  | .done => ∃ r l st, Hosts ((s.rk r).mgr.ltab l) i .ended st ∧
    ¬ Cleaning (s.rk r).dtq.mgrreqq l
  | .reported fin => ∃ p ∈ s.net, isEnd i fin p
  | .lost => Gone (life job s) i
  | .zombie fin => (s.gtab i).allocated = true ∧ (s.gtab i).terminated = fin ∧
    fin.needFinalstate = false
  | .closed => (s.gtab i).allocated = false

/-- A fate that describes entry `i`. -/
structure Shows (job : Job) (s : Sys) (i : ℕ) (f : Fate) : Prop where
  stage : StageAt job s i f.stage
  entry : f.stage ≠ .closed → (s.gtab i).ret = f.ret ∧ (s.gtab i).detached = f.detached ∧
    (s.gtab i).dispIdx = f.dispIdx

/-- An entry that a step neither opens nor ends nor gives back. -/
structure SameStage (gt gt' : Gtab) : Prop where
  allocated : gt'.allocated = gt.allocated
  terminated : gt.allocated = true → gt'.terminated = gt.terminated

/-- What a step leaves of an entry that it does not concern. -/
structure SameUse (gt gt' : Gtab) : Prop extends SameStage gt gt' where
  rest : gt.allocated = true → gt'.ret = gt.ret ∧ gt'.detached = gt.detached ∧
    gt'.dispIdx = gt.dispIdx

theorem SameUse.refl (gt : Gtab) : SameUse gt gt :=
  ⟨⟨rfl, fun _ => rfl⟩, fun _ => ⟨rfl, rfl, rfl⟩⟩

theorem hosts_slots {job : Job} {s : Sys} {r l i : ℕ} :
    (life job s).slots r l = some i ↔ ∃ pc st, Hosts ((s.rk r).mgr.ltab l) i pc st := by
  simp only [life, slotOf]
  constructor
  · intro h
    split at h
    · simp at h
    · rename_i hne
      exact ⟨_, _, by simpa using h, rfl, rfl, hne⟩
  · rintro ⟨pc, st, hidx, -, hst, hne⟩
    rw [hst, if_neg hne, hidx]

theorem Hosts.slots (job : Job) {s : Sys} {r l i : ℕ} {pc : WrapPc} {st : LtState}
    (h : Hosts ((s.rk r).mgr.ltab l) i pc st) : (life job s).slots r l = some i :=
  hosts_slots.mpr ⟨pc, st, h⟩

theorem isEnd_letter {i : ℕ} {fin : LtState} {p : Packet} (h : isEnd i fin p) :
    letterOf p = some ⟨p.src, p.dst, .ended i⟩ := by
  obtain ⟨seq, hb⟩ := h
  simp [letterOf, hb]

section Stages

variable {job : Job} {s : Sys} {i : ℕ} {f : Fate}

/-- Until its end is reported to rank 0 a thread lives. -/
theorem Shows.live (h : Shows job s i f) (hok : LifeOk (life job s))
    (hzombie : ∀ fin, f.stage ≠ .zombie fin) (hclosed : f.stage ≠ .closed) :
    i ∈ (life job s).live := by
  have hstage := h.stage
  cases hf : f.stage with
  | waiting =>
    rw [hf] at hstage
    exact hstage.1
  | hosted pc st =>
    rw [hf] at hstage
    obtain ⟨-, r, l, hl⟩ := hstage
    exact hok.hostLive (hl.slots job)
  | ended fin =>
    rw [hf] at hstage
    obtain ⟨r, l, hl, -⟩ := hstage
    exact hok.hostLive (hl.slots job)
  | done =>
    rw [hf] at hstage
    obtain ⟨r, l, st, hl, -⟩ := hstage
    exact hok.hostLive (hl.slots job)
  | reported fin =>
    rw [hf] at hstage
    obtain ⟨p, hp, seq, hb⟩ := hstage
    exact live_of_terminated hok hp hb
  | lost =>
    rw [hf] at hstage
    exact Gone.live hstage
  | zombie fin => exact absurd hf (hzombie fin)
  | closed => exact absurd hf hclosed

theorem Shows.allocated (h : Shows job s i f) (hok : LifeOk (life job s))
    (hclosed : f.stage ≠ .closed) : (s.gtab i).allocated = true := by
  by_cases hz : ∃ fin, f.stage = .zombie fin
  · obtain ⟨fin, hz⟩ := hz
    have hstage := h.stage
    rw [hz] at hstage
    exact hstage.1
  · push Not at hz
    exact (isLive_of_mem (h.live hok hz hclosed)).2.1

/-- The stage of an entry whose thread has a slot. -/
theorem Shows.of_hosts (h : Shows job s i f) (hok : LifeOk (life job s)) {r l : ℕ} {pc : WrapPc}
    {st : LtState} (hl : Hosts ((s.rk r).mgr.ltab l) i pc st) :
    pc ≠ .ended ∧ f.stage = .hosted pc st ∨
      pc = .ended ∧ Cleaning (s.rk r).dtq.mgrreqq l ∧ f.stage = .ended st ∨
      pc = .ended ∧ ¬ Cleaning (s.rk r).dtq.mgrreqq l ∧ f.stage = .done := by
  have hstage := h.stage
  have hlive := isLive_of_mem (hok.hostLive (hl.slots job))
  have hsame {r' l' : ℕ} {pc' : WrapPc} {st' : LtState}
      (hl' : Hosts ((s.rk r').mgr.ltab l') i pc' st') :
      r' = r ∧ l' = l ∧ pc' = pc ∧ st' = st := by
    obtain ⟨rfl, rfl⟩ := hok.unique (hl.slots job) (hl'.slots job)
    exact ⟨rfl, rfl, hl'.2.1.symm.trans hl.2.1, hl'.2.2.1.symm.trans hl.2.2.1⟩
  cases hf : f.stage with
  | waiting =>
    rw [hf] at hstage
    exact absurd hl (hstage.2.1 r l pc st)
  | hosted pc' st' =>
    rw [hf] at hstage
    obtain ⟨hne, r', l', hl'⟩ := hstage
    obtain ⟨-, -, rfl, rfl⟩ := hsame hl'
    exact .inl ⟨hne, rfl⟩
  | ended fin =>
    rw [hf] at hstage
    obtain ⟨r', l', hl', hclean⟩ := hstage
    obtain ⟨rfl, rfl, rfl, rfl⟩ := hsame hl'
    exact .inr (.inl ⟨rfl, hclean, rfl⟩)
  | done =>
    rw [hf] at hstage
    obtain ⟨r', l', st', hl', hclean⟩ := hstage
    obtain ⟨rfl, rfl, rfl, rfl⟩ := hsame hl'
    exact .inr (.inr ⟨rfl, hclean, rfl⟩)
  | reported fin =>
    rw [hf] at hstage
    obtain ⟨p, hp, hend⟩ := hstage
    have hmem : (⟨p.src, p.dst, .ended i⟩ : Letter) ∈ (life job s).net :=
      List.mem_filterMap.mpr ⟨p, hp, isEnd_letter hend⟩
    exact absurd (hl.slots job) (hok.not_hosted hmem (by simp [claims]))
  | lost =>
    rw [hf] at hstage
    exact absurd (hl.slots job) (Gone.slots hstage r l)
  | zombie fin =>
    rw [hf] at hstage
    obtain ⟨-, hterm, hfin⟩ := hstage
    rw [← hterm, hlive.2.2] at hfin
    exact Bool.noConfusion hfin
  | closed =>
    rw [hf] at hstage
    have hfree : (s.gtab i).allocated = false := hstage
    rw [hlive.2.1] at hfree
    exact Bool.noConfusion hfree

/-- Two packets that claim a thread are one. -/
theorem claim_unique (hok : LifeOk (life job s)) {p p' : Packet} {q q' : Letter} (hp : p ∈ s.net)
    (hp' : p' ∈ s.net) (hq : letterOf p = some q) (hq' : letterOf p' = some q')
    (hclaim : claims (life job s).starts i q = true)
    (hclaim' : claims (life job s).starts i q' = true) : p = p' := by
  by_contra hne
  have hcount := hok.flight i
  let f : Packet → Bool := fun p => ((letterOf p).map (claims (life job s).starts i)).getD false
  have hmap : (life job s).net.countP (claims (life job s).starts i) =
      s.net.countP f := List.countP_filterMap
  obtain ⟨a, b, hsplit⟩ := List.append_of_mem hp
  rw [hmap, hsplit, List.countP_append, List.countP_cons] at hcount
  have hself : f p = true := by simp [f, hq, hclaim]
  have hrest : p' ∈ a ∨ p' ∈ b := by
    rw [hsplit, List.mem_append, List.mem_cons] at hp'
    rcases hp' with ha | heq | hb
    · exact .inl ha
    · exact absurd heq.symm hne
    · exact .inr hb
  have hother : f p' = true := by simp [f, hq', hclaim']
  rw [if_pos hself] at hcount
  rcases hrest with ha | hb
  · have hpos := List.countP_pos_iff.mpr ⟨p', ha, hother⟩
    omega
  · have hpos := List.countP_pos_iff.mpr ⟨p', hb, hother⟩
    omega

/-- The stage of an entry whose thread has a letter under way. -/
theorem Shows.of_claim (h : Shows job s i f) (hok : LifeOk (life job s)) {p : Packet} {q : Letter}
    (hp : p ∈ s.net) (hq : letterOf p = some q)
    (hclaim : claims (life job s).starts i q = true) :
    f.stage = .waiting ∧ (∀ fin, ¬ isEnd i fin p) ∨
      ∃ fin, f.stage = .reported fin ∧ isEnd i fin p := by
  have hstage := h.stage
  have hmem : q ∈ (life job s).net := List.mem_filterMap.mpr ⟨p, hp, hq⟩
  have hlive := isLive_of_mem (hok.live_of_mem hmem hclaim)
  have hhost {r l : ℕ} {pc : WrapPc} {st : LtState} (hl : Hosts ((s.rk r).mgr.ltab l) i pc st) :
      False := hok.not_hosted hmem hclaim (hl.slots job)
  cases hf : f.stage with
  | waiting =>
    rw [hf] at hstage
    exact .inl ⟨rfl, hstage.2.2 p hp⟩
  | hosted pc st =>
    rw [hf] at hstage
    obtain ⟨-, r, l, hl⟩ := hstage
    exact (hhost hl).elim
  | ended fin =>
    rw [hf] at hstage
    obtain ⟨r, l, hl, -⟩ := hstage
    exact (hhost hl).elim
  | done =>
    rw [hf] at hstage
    obtain ⟨r, l, st, hl, -⟩ := hstage
    exact (hhost hl).elim
  | reported fin =>
    rw [hf] at hstage
    obtain ⟨p', hp', hend⟩ := hstage
    obtain rfl := claim_unique hok hp hp' hq (isEnd_letter hend) hclaim (by simp [claims])
    exact .inr ⟨fin, rfl, hend⟩
  | lost =>
    rw [hf] at hstage
    have hzero := Gone.quiet hstage
    have hpos : 0 < (life job s).net.countP (claims (life job s).starts i) :=
      List.countP_pos_iff.mpr ⟨q, hmem, hclaim⟩
    omega
  | zombie fin =>
    rw [hf] at hstage
    obtain ⟨-, hterm, hfin⟩ := hstage
    rw [← hterm, hlive.2.2] at hfin
    exact Bool.noConfusion hfin
  | closed =>
    rw [hf] at hstage
    have hfree : (s.gtab i).allocated = false := hstage
    rw [hlive.2.1] at hfree
    exact Bool.noConfusion hfree

theorem Shows.of_end (h : Shows job s i f) (hok : LifeOk (life job s)) {p : Packet}
    {fin : LtState} (hp : p ∈ s.net) (hend : isEnd i fin p) : f.stage = .reported fin := by
  rcases h.of_claim hok hp (isEnd_letter hend) (by simp [claims]) with
    ⟨-, hno⟩ | ⟨fin', hf, seq', hb'⟩
  · exact absurd hend (hno fin)
  · obtain ⟨seq, hb⟩ := hend
    rw [hb] at hb'
    obtain ⟨-, rfl⟩ : _ ∧ fin = fin' := by simpa using hb'
    exact hf

/-- The stage of an ended thread that rank 0 knows about. -/
theorem Shows.of_zombie (h : Shows job s i f) (hok : LifeOk (life job s))
    (halloc : (s.gtab i).allocated = true)
    (hfin : (s.gtab i).terminated.needFinalstate = false) :
    f.stage = .zombie (s.gtab i).terminated := by
  have hstage := h.stage
  have hdead (hlive : i ∈ (life job s).live) : False := by
    rw [(isLive_of_mem hlive).2.2] at hfin
    exact Bool.noConfusion hfin
  by_cases hz : ∃ fin, f.stage = .zombie fin
  · obtain ⟨fin, hz⟩ := hz
    rw [hz] at hstage ⊢
    rw [hstage.2.1]
  · push Not at hz
    by_cases hclosed : f.stage = .closed
    · rw [hclosed] at hstage
      have hfree : (s.gtab i).allocated = false := hstage
      rw [halloc] at hfree
      exact Bool.noConfusion hfree
    · exact (hdead (h.live hok hz hclosed)).elim

theorem Shows.of_free (h : Shows job s i f) (hok : LifeOk (life job s))
    (hfree : (s.gtab i).allocated = false) : f.stage = .closed := by
  by_contra hclosed
  rw [h.allocated hok hclosed] at hfree
  exact Bool.noConfusion hfree

end Stages

/-- A record of a step of rank `r` that leaves `m` and `gt` and sends `posts`. -/
structure Recorded (s : Sys) (e : Record) (r : ℕ) (m : Mgr) (gt : ℕ → Gtab) (posts : List Post) :
    Prop where
  pre : e.pre = s.view r
  mgr : e.post.mgr = m
  gtab : e.post.gtab = gt
  posts : e.posts = posts

theorem pack_injective (r : ℕ) : Function.Injective (pack r) := by
  rintro ⟨dst, frame⟩ ⟨dst', frame'⟩ h
  simpa [pack] using h

theorem recorded {s : Sys} {r : ℕ} {event : Event} {v : View} {m : Mgr} {gt : ℕ → Gtab}
    {rq : List Request} {net : List Packet} {posts : List Post} (hquiet : Quiet s)
    (hc : Change s ({ s with net := net }.put r v) r m gt rq net posts) :
    Recorded s ⟨r, s.view r, event, v⟩ r m gt posts where
  pre := rfl
  mgr := by simpa [Sys.put] using hc.mgr
  gtab := hc.gtab
  posts := by
    have hnet : (v.dtq.accepted.map toPost).map (pack r) = posts.map (pack r) :=
      List.append_cancel_left hc.net
    simpa [Record.posts, Sys.view, (hquiet r).2] using
      List.map_injective_iff.mpr (pack_injective r) hnet

/-- A step of rank `r` that passes the thread of entry `i` by. -/
structure Aside (s : Sys) (i r : ℕ) (m : Mgr) (gt : ℕ → Gtab) (rq : List Request)
    (net : List Packet) (posts : List Post) : Prop where
  entry : SameStage (s.gtab i) (gt i)
  slots : ∀ l pc st, Hosts (m.ltab l) i pc st ↔ Hosts ((s.rk r).mgr.ltab l) i pc st
  queue : ∀ l pc st, Hosts ((s.rk r).mgr.ltab l) i pc st →
    (Cleaning rq l ↔ Cleaning (s.rk r).dtq.mgrreqq l)
  ends : ∀ p fin, isEnd i fin p → (p ∈ net ↔ p ∈ s.net)
  posts : ∀ post ∈ posts, finalOf i post = none

theorem isEnd_pack {i r : ℕ} {fin : LtState} {post : Post} (h : isEnd i fin (pack r post)) :
    finalOf i post = some fin := by
  obtain ⟨seq, hb⟩ := h
  have hb' : post.2.body = .terminated ⟨i, seq⟩ fin := hb
  simp [finalOf, hb']

section Steps

variable {job : Job} {s s' : Sys} {i r : ℕ} {f : Fate} {e : Record} {m : Mgr} {gt : ℕ → Gtab}
  {rq : List Request} {net : List Packet} {posts : List Post}

theorem Aside.hosts (ha : Aside s i r m gt rq net posts) (hc : Change s s' r m gt rq net posts)
    (r' l : ℕ) (pc : WrapPc) (st : LtState) :
    Hosts ((s'.rk r').mgr.ltab l) i pc st ↔ Hosts ((s.rk r').mgr.ltab l) i pc st := by
  by_cases hr : r' = r
  · subst hr
    rw [hc.mgr]
    exact ha.slots l pc st
  · rw [hc.others r' hr]

theorem Aside.cleaning (ha : Aside s i r m gt rq net posts)
    (hc : Change s s' r m gt rq net posts) {r' l : ℕ} {pc : WrapPc} {st : LtState}
    (hl : Hosts ((s.rk r').mgr.ltab l) i pc st) :
    Cleaning (s'.rk r').dtq.mgrreqq l ↔ Cleaning (s.rk r').dtq.mgrreqq l := by
  by_cases hr : r' = r
  · subst hr
    rw [hc.mgrreqq]
    exact ha.queue l pc st hl
  · rw [hc.others r' hr]

theorem Aside.endsAt (ha : Aside s i r m gt rq net posts) (hc : Change s s' r m gt rq net posts)
    {p : Packet} {fin : LtState} (hend : isEnd i fin p) : p ∈ s'.net ↔ p ∈ s.net := by
  rw [hc.net, List.mem_append, List.mem_map]
  constructor
  · rintro (hp | ⟨post, hpost, rfl⟩)
    · exact (ha.ends p fin hend).mp hp
    · have hfinal := isEnd_pack hend
      rw [ha.posts post hpost] at hfinal
      exact absurd hfinal nofun
  · intro hp
    exact .inl ((ha.ends p fin hend).mpr hp)

/-- A thread that a step passes by keeps its stage. -/
theorem Aside.stageAt (ha : Aside s i r m gt rq net posts) (hok : LifeOk (life job s))
    (hlife : LifeStep (life job s) (life job s')) (hc : Change s s' r m gt rq net posts)
    {stage : Stage} (hstage : StageAt job s i stage) : StageAt job s' i stage := by
  have hentry : SameStage (s.gtab i) (s'.gtab i) := by
    rw [hc.gtab]
    exact ha.entry
  cases stage with
  | waiting =>
    obtain ⟨hlive, hslots, hends⟩ := hstage
    obtain ⟨hlt, halloc, hneed⟩ := isLive_of_mem hlive
    have hterm := hentry.terminated halloc
    refine ⟨?_, fun r' l pc st hl => ?_, fun p hp fin hend => ?_⟩
    · simp [life, liveSet, isLive, hlt, hentry.allocated, halloc, hterm, hneed]
    · exact hslots r' l pc st ((ha.hosts hc r' l pc st).mp hl)
    · exact hends p ((ha.endsAt hc hend).mp hp) fin hend
  | hosted pc st =>
    obtain ⟨hpc, r', l, hl⟩ := hstage
    exact ⟨hpc, r', l, (ha.hosts hc r' l pc st).mpr hl⟩
  | ended fin =>
    obtain ⟨r', l, hl, hclean⟩ := hstage
    exact ⟨r', l, (ha.hosts hc r' l _ fin).mpr hl, (ha.cleaning hc hl).mpr hclean⟩
  | done =>
    obtain ⟨r', l, st, hl, hclean⟩ := hstage
    exact ⟨r', l, st, (ha.hosts hc r' l _ st).mpr hl, fun hc' =>
      hclean ((ha.cleaning hc hl).mp hc')⟩
  | reported fin =>
    obtain ⟨p, hp, hend⟩ := hstage
    exact ⟨p, (ha.endsAt hc hend).mpr hp, hend⟩
  | lost => exact Gone.step hstage hok hlife
  | zombie fin =>
    obtain ⟨halloc, hterm, hfin⟩ := hstage
    exact ⟨hentry.allocated.trans halloc, (hentry.terminated halloc).trans hterm, hfin⟩
  | closed => exact hentry.allocated.trans hstage

/-- The fate of an entry that a step passes by. -/
theorem Shows.aside (h : Shows job s i f) (hok : LifeOk (life job s))
    (hlife : LifeStep (life job s) (life job s')) (hc : Change s s' r m gt rq net posts)
    (ha : Aside s i r m gt rq net posts) (hentry : SameUse (s.gtab i) (gt i)) :
    Shows job s' i f := by
  refine ⟨ha.stageAt hok hlife hc h.stage, fun hclosed => ?_⟩
  obtain ⟨hret, hdet, hdisp⟩ := hentry.rest (h.allocated hok hclosed)
  obtain ⟨hret', hdet', hdisp'⟩ := h.entry hclosed
  rw [hc.gtab]
  exact ⟨hret.trans hret', hdet.trans hdet', hdisp.trans hdisp'⟩

/-- What a step without a start or an end tells about entry `i`. -/
theorem news_kept (job : Job) (hrec : Recorded s e r m gt posts)
    (hslots : ∀ l, (m.ltab l).pthState ≠ .none ∧ (m.ltab l).gtabIdx = i ↔
      ((s.rk r).mgr.ltab l).pthState ≠ .none ∧ ((s.rk r).mgr.ltab l).gtabIdx = i)
    (hposts : ∀ post ∈ posts, finalOf i post = none) :
    e.news job i = { News.none with
      values := e.values job i
      joined := if e.names i then posts.filterMap joinedValue else []
      freed := if e.names i then m.procFree.drop (s.rk r).mgr.procFree.length else [] } := by
  have hpre : e.pre.mgr = (s.rk r).mgr := by
    rw [hrec.pre]
    rfl
  have htakes : ¬ e.Takes job i := by
    rintro ⟨l, -, hfree, hused, hidx⟩
    rw [hpre] at hfree
    rw [hrec.mgr] at hused hidx
    exact ((hslots l).mp ⟨hused, hidx⟩).1 hfree
  have hleaves : ¬ e.Leaves job i := by
    rintro ⟨l, -, hused, hidx, hfree⟩
    rw [hpre] at hused hidx
    rw [hrec.mgr] at hfree
    exact ((hslots l).mpr ⟨hused, hidx⟩).1 hfree
  have hfinals : e.finals i = [] := by
    rw [Record.finals, hrec.posts, List.filterMap_eq_nil_iff]
    exact hposts
  simp only [Record.news, htakes, hleaves, hfinals, hrec.posts, hrec.mgr, hpre, if_false, false_and]
  rfl

theorem Aside.news (ha : Aside s i r m gt rq net posts) (hrec : Recorded s e r m gt posts)
    (hvalues : e.values job i = [])
    (hnames : e.names i = true → posts.filterMap joinedValue = [] ∧
      m.procFree = (s.rk r).mgr.procFree) : e.news job i = .none := by
  have hslots (l : ℕ) : (m.ltab l).pthState ≠ .none ∧ (m.ltab l).gtabIdx = i ↔
      ((s.rk r).mgr.ltab l).pthState ≠ .none ∧ ((s.rk r).mgr.ltab l).gtabIdx = i := by
    constructor
    · rintro ⟨hused, hidx⟩
      obtain ⟨hidx', -, hst, hne⟩ := (ha.slots l _ _).mp ⟨hidx, rfl, rfl, hused⟩
      exact ⟨hst ▸ hne, hidx'⟩
    · rintro ⟨hused, hidx⟩
      obtain ⟨hidx', -, hst, hne⟩ := (ha.slots l _ _).mpr ⟨hidx, rfl, rfl, hused⟩
      exact ⟨hst ▸ hne, hidx'⟩
  rw [news_kept job hrec hslots ha.posts, hvalues]
  by_cases hn : e.names i = true
  · rw [if_pos hn, if_pos hn, (hnames hn).1, (hnames hn).2, List.drop_length]
    rfl
  · rw [if_neg hn, if_neg hn]
    rfl

/-- A step of the job is a step of the fate. It loses the value of a thread with
proc functions only in the ways that `loses` lists, and it drops a report only
at a rank that drains. -/
def Follows (job : Job) (e : Record) (s' : Sys) (i : ℕ) (f : Fate) : Prop :=
  ∃ loss f', FateStep job f (e.news job i) loss f' ∧ Shows job s' i f' ∧
    (loss ≠ .none → (job.dsps f.dispIdx).dtRetproc = true → e.loses job i = true) ∧
    ((e.news job i).dropped ≠ 0 → e.pre.dtq.mpisqDraindown ≠ .init)

theorem Shows.follows_aside (h : Shows job s i f) (hok : LifeOk (life job s))
    (hlife : LifeStep (life job s) (life job s')) (hc : Change s s' r m gt rq net posts)
    (hrec : Recorded s e r m gt posts) (ha : Aside s i r m gt rq net posts)
    (hentry : SameUse (s.gtab i) (gt i)) (hvalues : e.values job i = [])
    (hnames : e.names i = true → posts.filterMap joinedValue = [] ∧
      m.procFree = (s.rk r).mgr.procFree) : Follows job e s' i f := by
  refine ⟨.none, f, ?_, h.aside hok hlife hc ha hentry, fun hloss => absurd rfl hloss, ?_⟩
  · rw [ha.news hrec hvalues hnames]
    exact .still
  · rw [ha.news hrec hvalues hnames]
    exact fun hne => absurd rfl hne

end Steps

/-- What a thread's step leaves: its point and state, the return value in the
table, and whether it has queued its RETCLEAN. -/
structure Left where
  pc : WrapPc
  state : LtState
  ret : Argret
  cleaning : Bool

def actLeft (job : Job) (lt : Ltab) (gt : Gtab) : AppAct → Left
  | .wrapBad => ⟨.ended, lt.pthState, gt.ret, false⟩
  | .wrapFail =>
    ⟨.ended, sealState lt.pthState .canceled, stamp (sealState lt.pthState .canceled) gt.ret, true⟩
  | .publish => ⟨.app, .running, gt.ret, false⟩
  | .post _ _ => ⟨lt.pc, lt.pthState, gt.ret, false⟩
  | .collect => ⟨lt.pc, lt.pthState, gt.ret, false⟩
  | .exit nativeExit encoded =>
    ⟨.exiting, lt.pthState, exitRetval job gt nativeExit encoded, false⟩
  | .exited => ⟨.cleanup false, .exited, gt.ret, false⟩
  | .appReturn ret =>
    ⟨.cleanup true, lt.pthState, if native (job.dsps gt.dispIdx) then ret else gt.ret, false⟩
  | .tearDown => ⟨.cleanup false, lt.pthState, gt.ret, false⟩
  | .cleanup returned encoded =>
    let retclean (finalstate : LtState) (ret : Argret) : Left :=
      ⟨.ended, sealState lt.pthState finalstate, stamp (sealState lt.pthState finalstate) ret, true⟩
    if native (job.dsps gt.dispIdx) = false ∧ returned then
      match encoded with
      | some ret => retclean .returned ret
      | none => retclean .canceled { gt.ret with dtArgretType := DTHREAD_CANCELED }
    else retclean (if returned then .returned else .cleanup) gt.ret
  | .app0Return => ⟨.ended, .returned, gt.ret, false⟩

/-- A step of slot `l` seen from the entry of its thread. -/
structure Acted (v v' : View) (l : ℕ) (o : Left) (lt : Ltab) (gt : Gtab) (rq : List Request) :
    Prop where
  effect : AppEffect v v' l lt gt rq
  gtabIdx : lt.gtabIdx = (v.mgr.ltab l).gtabIdx
  pc : lt.pc = o.pc
  state : lt.pthState = o.state
  entry : gt = { v.gtab (v.mgr.ltab l).gtabIdx with
    ret := o.ret, hasLtab := gt.hasLtab, ltabIdx := gt.ltabIdx }
  addr : ∀ rqe ∈ rq, rqe.addr = .ltab l
  cleaning : (∃ rqe ∈ rq, rqe.reqop = .retclean) ↔ o.cleaning = true

/-- retclean_request after the return value was set to `ret`. -/
theorem acted_retclean (v : View) (l : ℕ) (finalstate : LtState) (ret : Argret)
    (hm : v.dtq.mallocs = []) :
    ∃ lt gt rq, Acted v (retcleanRequest (v.setGtab (v.mgr.ltab l).gtabIdx
        { v.gtab (v.mgr.ltab l).gtabIdx with ret := ret }) l finalstate) l
      ⟨.ended, sealState (v.mgr.ltab l).pthState finalstate,
        stamp (sealState (v.mgr.ltab l).pthState finalstate) ret, true⟩ lt gt rq := by
  have h := retcleanRequest_effect (v.setGtab (v.mgr.ltab l).gtabIdx
    { v.gtab (v.mgr.ltab l).gtabIdx with ret := ret }) l finalstate hm
  refine ⟨_, { v.gtab (v.mgr.ltab l).gtabIdx with
    ret := stamp (sealState (v.mgr.ltab l).pthState finalstate) ret }, _,
    ⟨h.mgr, ?_, h.mgrreqq, h.draindown, h.accepted, h.mallocs⟩, rfl, rfl, rfl, rfl, ?_, ?_⟩
  · simpa [View.setGtab] using h.gtab
  · simp [threadRequest]
  · simp [threadRequest]

theorem acted_run (job : Job) (v : View) (l : ℕ) (act : AppAct) (hm : v.dtq.mallocs = []) :
    ∃ lt gt rq, Acted v (act.run job v l) l
      (actLeft job (v.mgr.ltab l) (v.gtab (v.mgr.ltab l).gtabIdx) act) lt gt rq := by
  have hself : v.gtab = Function.update v.gtab (v.mgr.ltab l).gtabIdx
      (v.gtab (v.mgr.ltab l).gtabIdx) := (Function.update_eq_self _ _).symm
  have hsame : v = v.setGtab (v.mgr.ltab l).gtabIdx
      { v.gtab (v.mgr.ltab l).gtabIdx with ret := (v.gtab (v.mgr.ltab l).gtabIdx).ret } := by
    simp [View.setGtab]
  have hnone : v.dtq.mgrreqq = v.dtq.mgrreqq ++ [] := (List.append_nil _).symm
  cases act with
  | wrapBad =>
    exact ⟨_, _, [], ⟨rfl, hself, hnone, rfl, rfl, hm⟩, rfl, rfl, rfl, rfl, by simp,
      by simp [actLeft]⟩
  | wrapFail =>
    have h := acted_retclean v l .canceled (v.gtab (v.mgr.ltab l).gtabIdx).ret hm
    rwa [← hsame] at h
  | publish =>
    exact ⟨_, _, [], ⟨rfl, rfl, hnone, rfl, rfl, hm⟩, rfl, rfl, rfl, rfl, by simp,
      by simp [actLeft]⟩
  | post body peer =>
    obtain ⟨addr, q, hq, hs⟩ := mqeAlloc_eq_some v.dtq hm
    refine ⟨{ v.mgr.ltab l with reqstate := .busy, reqerror := 0 },
      v.gtab (v.mgr.ltab l).gtabIdx,
      [threadRequest l peer body.op (some ⟨addr, peer, .of 0 body⟩)], ?_, rfl, rfl, rfl, rfl, ?_,
      ?_⟩
    · simp only [AppAct.run, postRequest, hq]
      refine ⟨rfl, hself, ?_, hs.draindown, hs.accepted, hs.mallocs hm⟩
      simp [View.setDtq, dtqReqEnqueue, hs.mgrreqq]
    · simp [threadRequest]
    · cases body <;> simp [threadRequest, Body.op, actLeft]
  | collect =>
    exact ⟨_, _, [], ⟨rfl, hself, hnone, rfl, rfl, hm⟩, rfl, rfl, rfl, rfl, by simp,
      by simp [actLeft]⟩
  | exit nativeExit encoded =>
    exact ⟨_, _, [], ⟨rfl, rfl, hnone, rfl, rfl, hm⟩, rfl, rfl, rfl, rfl, by simp,
      by simp [actLeft]⟩
  | exited =>
    exact ⟨_, _, [], ⟨rfl, hself, hnone, rfl, rfl, hm⟩, rfl, rfl, rfl, rfl, by simp,
      by simp [actLeft]⟩
  | appReturn ret =>
    simp only [AppAct.run, AppThreads.appReturn, actLeft]
    split
    · exact ⟨_, _, [], ⟨rfl, rfl, hnone, rfl, rfl, hm⟩, rfl, rfl, rfl, rfl, by simp, by simp⟩
    · exact ⟨_, _, [], ⟨rfl, hself, hnone, rfl, rfl, hm⟩, rfl, rfl, rfl, rfl, by simp, by simp⟩
  | tearDown =>
    exact ⟨_, _, [], ⟨rfl, hself, hnone, rfl, rfl, hm⟩, rfl, rfl, rfl, rfl, by simp,
      by simp [actLeft]⟩
  | cleanup returned encoded =>
    simp only [AppAct.run, dthreadcleanup, actLeft]
    split
    · cases encoded with
      | some ret => exact acted_retclean v l .returned ret hm
      | none => exact acted_retclean v l .canceled _ hm
    · have h := acted_retclean v l (if returned then .returned else .cleanup)
        (v.gtab (v.mgr.ltab l).gtabIdx).ret hm
      rwa [← hsame] at h
  | app0Return =>
    exact ⟨_, _, _, ⟨rfl, hself, rfl, rfl, rfl, hm⟩, rfl, rfl, rfl, rfl, by simp [threadRequest],
      by simp [actLeft, threadRequest]⟩

def Left.stage (o : Left) : Stage :=
  if o.pc = .ended then if o.cleaning then .ended o.state else .done else .hosted o.pc o.state

theorem actLeft_state {lt : Ltab} (job : Job) (gt : Gtab) (act : AppAct)
    (h : lt.pthState ≠ .none) : (actLeft job lt gt act).state ≠ .none := by
  have hseal {finalstate : LtState} (hfin : finalstate ≠ .none) :
      sealState lt.pthState finalstate ≠ .none := by
    unfold sealState
    split
    · exact hfin
    · exact h
  cases act with
  | wrapFail => exact hseal (by simp)
  | publish => simp [actLeft]
  | exited => simp [actLeft]
  | cleanup returned encoded =>
    simp only [actLeft]
    split
    · cases encoded with
      | some ret => exact hseal (by simp)
      | none => exact hseal (by simp)
    · cases returned with
      | true => exact hseal (by simp)
      | false => exact hseal (by simp)
  | app0Return => simp [actLeft]
  | _ => exact h

theorem enabled_pc {job : Job} {v : View} {l : ℕ} {act : AppAct} (h : act.Enabled job v l) :
    (v.mgr.ltab l).pc ≠ .none ∧ (v.mgr.ltab l).pc ≠ .ended := by
  cases act <;> simp only [AppAct.Enabled] at h <;> simp [h]

theorem exited_exitRetval {job : Job} {gt : Gtab} (hdisp : gt.dispIdx < job.ndsps)
    (nativeExit : Bool) (encoded : Option Argret) :
    Exited (native (job.dsps gt.dispIdx)) (exitRetval job gt nativeExit encoded)
      ((AppAct.exit nativeExit encoded).values job gt.dispIdx) := by
  have hnot : ¬ job.ndsps ≤ gt.dispIdx := by omega
  unfold exitRetval Exited
  simp only [hnot, if_false]
  cases nativeExit <;> cases hn : native (job.dsps gt.dispIdx) <;> cases encoded <;>
    simp [AppAct.values, hdisp, hn]

theorem Fate.go_self (f : Fate) : f.go f.stage f.ret { News.none with values := [] } = f := by
  unfold Fate.go
  rw [show f.past.add { News.none with values := [] } = f.past from f.past.add_none]

/-- A step that leaves the stage and the return value. -/
theorem fateStep_still (job : Job) {f : Fate} {stage : Stage} {ret : Argret}
    (hstage : stage = f.stage) (hret : ret = f.ret) :
    FateStep job f { News.none with values := [] } .none
      (f.go stage ret { News.none with values := [] }) := by
  rw [hstage, hret, Fate.go_self]
  exact .still

/-- A step of a thread is a step of its fate. -/
theorem act_fateStep {job : Job} {v : View} {l : ℕ} {act : AppAct} {f : Fate}
    (h : act.Enabled job v l)
    (hstage : f.stage = .hosted (v.mgr.ltab l).pc (v.mgr.ltab l).pthState)
    (hret : (v.gtab (v.mgr.ltab l).gtabIdx).ret = f.ret)
    (hdispIdx : (v.gtab (v.mgr.ltab l).gtabIdx).dispIdx = f.dispIdx)
    (hlt : (v.mgr.ltab l).gtabIdx < job.nmaxthread)
    (hseq : (v.gtab (v.mgr.ltab l).gtabIdx).seq = (v.mgr.ltab l).seq)
    (hdisp : f.dispIdx < job.ndsps) :
    ∃ loss, FateStep job f { News.none with values := act.values job f.dispIdx } loss
        (f.go (actLeft job (v.mgr.ltab l) (v.gtab (v.mgr.ltab l).gtabIdx) act).stage
          (actLeft job (v.mgr.ltab l) (v.gtab (v.mgr.ltab l).gtabIdx) act).ret
          { News.none with values := act.values job f.dispIdx }) ∧
      (loss ≠ .none → (v.mgr.ltab l).pthState = .canceled ∧
        ∃ ret, act = .cleanup true (some ret)) := by
  have hsafe : Loss.none ≠ .none → (v.mgr.ltab l).pthState = .canceled ∧
      ∃ ret, act = .cleanup true (some ret) := fun hne => absurd rfl hne
  cases act with
  | wrapBad =>
    obtain ⟨-, hbad | hbad⟩ := h
    · omega
    · exact absurd hseq hbad
  | wrapFail =>
    rw [h.1] at hstage
    refine ⟨.none, ?_, hsafe⟩
    simp only [actLeft, Left.stage, hret]
    exact .wrapFail _ hstage
  | publish =>
    rw [h.1] at hstage
    refine ⟨.none, ?_, hsafe⟩
    simp only [actLeft, Left.stage, hret]
    exact .publish _ hstage
  | post body peer =>
    refine ⟨.none, fateStep_still job ?_ hret, hsafe⟩
    rw [hstage]
    simp [actLeft, Left.stage, h.1]
  | collect =>
    refine ⟨.none, fateStep_still job ?_ hret, hsafe⟩
    rw [hstage]
    simp [actLeft, Left.stage, h.1]
  | exit nativeExit encoded =>
    rw [h.1] at hstage
    refine ⟨.none, ?_, hsafe⟩
    simp only [actLeft, Left.stage]
    have hexit := exited_exitRetval (hdispIdx ▸ hdisp) nativeExit encoded
    rw [hdispIdx] at hexit
    exact .exit _ _ _ hstage hexit
  | exited =>
    have hpc : (v.mgr.ltab l).pc = .exiting := h
    rw [hpc] at hstage
    refine ⟨.none, ?_, hsafe⟩
    simp only [actLeft, Left.stage, hret]
    exact .exited _ hstage
  | appReturn ret =>
    rw [h.1] at hstage
    have hd : f.dispIdx ≠ 0 := hdispIdx ▸ h.2.2
    refine ⟨.none, ?_, hsafe⟩
    simp only [actLeft, Left.stage, hret, hdispIdx, AppAct.values]
    cases hn : native (job.dsps f.dispIdx) with
    | true => exact .appReturn _ ret hstage hd hn
    | false => exact .appReturnPth _ hstage hd hn
  | tearDown =>
    rw [h.1] at hstage
    refine ⟨.none, ?_, hsafe⟩
    simp only [actLeft, Left.stage, hret]
    exact .tearDown _ hstage
  | cleanup returned encoded =>
    have hpc : (v.mgr.ltab l).pc = .cleanup returned := h
    rw [hpc] at hstage
    simp only [actLeft, hret, hdispIdx]
    cases returned with
    | false =>
      refine ⟨.none, ?_, hsafe⟩
      simp only [Bool.false_eq_true, and_false, if_false, Left.stage]
      exact .cleanup _ hstage
    | true =>
      cases hn : native (job.dsps f.dispIdx) with
      | true =>
        refine ⟨.none, ?_, hsafe⟩
        have hvalues : (AppAct.cleanup true encoded).values job f.dispIdx = [] := by
          cases encoded <;> simp [AppAct.values, hn]
        simp only [hvalues, Bool.true_eq_false, false_and, if_false, if_true, Left.stage]
        exact .returned _ hstage hn
      | false =>
        cases encoded with
        | none =>
          refine ⟨.none, ?_, hsafe⟩
          simp only [AppAct.values, and_self, if_true, Left.stage]
          exact .encodeFail _ hstage hn
        | some ret =>
          have hvalues : (AppAct.cleanup true (some ret)).values job f.dispIdx = [ret] := by
            simp [AppAct.values, hn]
          simp only [hvalues, and_self, if_true, Left.stage]
          refine ⟨_, .encode _ ret hstage hn, fun hloss => ?_⟩
          split at hloss
          · rename_i hcanceled
            exact ⟨hcanceled, ret, rfl⟩
          · exact absurd rfl hloss
  | app0Return =>
    rw [h.1] at hstage
    have hd : f.dispIdx = 0 := hdispIdx ▸ h.2.2
    refine ⟨.none, ?_, hsafe⟩
    simp only [actLeft, Left.stage, hret]
    exact .app0Return _ hstage hd

theorem Cleaning.pc {job : Job} {s : Sys} (hf : Facts job s) {r l : ℕ}
    (h : Cleaning (s.rk r).dtq.mgrreqq l) : ((s.rk r).mgr.ltab l).pc = .ended := by
  obtain ⟨rqe, hrqe, haddr, hop⟩ := h
  have hiss := (hf.slots r).issued_of_mem (List.mem_append_left _ hrqe) haddr
  rw [hop] at hiss
  rcases hiss.2.2 with ⟨hfwd, -⟩ | ⟨-, hpc, -⟩ | ⟨happ, -⟩
  · exact absurd hfwd (by simp [forwarded])
  · exact hpc
  · exact absurd happ (by simp)

theorem Cleaning.append {queue rq : List Request} {l l' : ℕ}
    (haddr : ∀ rqe ∈ rq, rqe.addr = .ltab l) :
    Cleaning (queue ++ rq) l' ↔
      Cleaning queue l' ∨ l' = l ∧ ∃ rqe ∈ rq, rqe.reqop = .retclean := by
  unfold Cleaning
  constructor
  · rintro ⟨rqe, hrqe, ha, hop⟩
    rw [List.mem_append] at hrqe
    rcases hrqe with hold | hnew
    · exact .inl ⟨rqe, hold, ha, hop⟩
    · refine .inr ⟨?_, rqe, hnew, hop⟩
      rw [haddr rqe hnew] at ha
      simpa using ha.symm
  · rintro (⟨rqe, hold, ha, hop⟩ | ⟨rfl, rqe, hnew, hop⟩)
    · exact ⟨rqe, List.mem_append_left _ hold, ha, hop⟩
    · exact ⟨rqe, List.mem_append_right _ hnew, haddr rqe hnew, hop⟩

section Steps

variable {job : Job} {s s' : Sys} {i r : ℕ} {f : Fate} {e : Record} {m : Mgr} {gt : ℕ → Gtab}
  {rq : List Request} {net : List Packet} {posts : List Post}

theorem stageAt_left {l : ℕ} {o : Left} (hnew : Hosts ((s'.rk r).mgr.ltab l) i o.pc o.state)
    (hclean : Cleaning (s'.rk r).dtq.mgrreqq l ↔ o.cleaning = true) :
    StageAt job s' i o.stage := by
  unfold Left.stage
  split
  · rename_i hended
    rw [hended] at hnew
    split
    · rename_i hcl
      exact ⟨r, l, hnew, hclean.mpr hcl⟩
    · rename_i hcl
      exact ⟨r, l, _, hnew, fun hc => hcl (hclean.mp hc)⟩
  · rename_i hpc
    exact ⟨hpc, r, l, hnew⟩

/-- The step of a thread, for its own entry and for all the others. -/
theorem follows_app {l : ℕ} {act : AppAct} (hf : Facts job s) (hok : LifeOk (life job s))
    (hlink : LinkOk job s)
    (hlife : LifeStep (life job s) (life job (s.put r (act.run job (s.view r) l))))
    (h : act.Enabled job (s.view r) l) (hshow : Shows job s i f) (hfate : FateOk job f) :
    Follows job ⟨r, s.view r, .app l act, act.run job (s.view r) l⟩
      (s.put r (act.run job (s.view r) l)) i f := by
  obtain ⟨lt, g, rq, ha⟩ := acted_run job (s.view r) l act (hf.sane.quiet r).1
  have hc : Change s (s.put r (act.run job (s.view r) l)) r ((s.rk r).mgr.setLtab l lt)
      (Function.update s.gtab ((s.rk r).mgr.ltab l).gtabIdx g)
      ((s.rk r).dtq.mgrreqq ++ rq) s.net [] := by
    have hput : Change s (s.put r (act.run job (s.view r) l)) r _ _ _ s.net [] :=
      put_change s.net ha.effect.mallocs (by
        simpa [Sys.view, (hf.sane.quiet r).2] using ha.effect.accepted)
    rwa [ha.effect.mgr, ha.effect.gtab, ha.effect.mgrreqq] at hput
  have hrec : Recorded s ⟨r, s.view r, .app l act, act.run job (s.view r) l⟩ r _ _ [] :=
    recorded hf.sane.quiet hc
  have hused := ((hf.slots r).entry l).used_of_pc (enabled_pc h).1
  have hslots (l' : ℕ) (pc : WrapPc) (st : LtState) (hl : l' ≠ l) :
      Hosts (((s.rk r).mgr.setLtab l lt).ltab l') i pc st ↔
        Hosts ((s.rk r).mgr.ltab l') i pc st := by
    simp only [Mgr.setLtab, Function.update_of_ne hl]
  by_cases hi : ((s.rk r).mgr.ltab l).gtabIdx = i
  · subst hi
    have hhost : Hosts ((s.rk r).mgr.ltab l) _ _ _ := ⟨rfl, rfl, rfl, hused⟩
    have hstage : f.stage = .hosted ((s.rk r).mgr.ltab l).pc ((s.rk r).mgr.ltab l).pthState := by
      rcases hshow.of_hosts hok hhost with ⟨-, hstage⟩ | ⟨hpc, -⟩ | ⟨hpc, -⟩
      · exact hstage
      · exact absurd hpc (enabled_pc h).2
      · exact absurd hpc (enabled_pc h).2
    obtain ⟨hret, hdet, hdisp⟩ := hshow.entry (by simp [hstage])
    have hlive := isLive_of_mem (hok.hostLive (hhost.slots job))
    obtain ⟨loss, hstep, hloss⟩ := act_fateStep h hstage hret hdisp hlive.1
      (hlink r l hused).2.seq hfate.dispIdx
    have hstate := actLeft_state job (s.gtab ((s.rk r).mgr.ltab l).gtabIdx) act hused
    have hnew : Hosts (((s.rk r).mgr.setLtab l lt).ltab l) ((s.rk r).mgr.ltab l).gtabIdx
        (actLeft job ((s.rk r).mgr.ltab l) (s.gtab ((s.rk r).mgr.ltab l).gtabIdx) act).pc
        (actLeft job ((s.rk r).mgr.ltab l) (s.gtab ((s.rk r).mgr.ltab l).gtabIdx) act).state := by
      simp only [Mgr.setLtab, Function.update_self]
      exact ⟨ha.gtabIdx, ha.pc, ha.state, hstate⟩
    have hnews : Record.news job ⟨r, s.view r, .app l act, act.run job (s.view r) l⟩
        ((s.rk r).mgr.ltab l).gtabIdx =
        { News.none with values := act.values job f.dispIdx } := by
      rw [news_kept job hrec (fun l' => ?_) (by simp)]
      · simp [Record.values, Record.names, Sys.view, hdisp, News.none]
      · by_cases hl : l' = l
        · subst hl
          exact iff_of_true ⟨hnew.2.2.1 ▸ hnew.2.2.2, hnew.1⟩ ⟨hused, rfl⟩
        · simp only [Mgr.setLtab, Function.update_of_ne hl]
    refine ⟨loss, _, hnews ▸ hstep, ⟨?_, fun _ => ?_⟩, fun hne _ => ?_, ?_⟩
    · have hnew' := hc.mgr ▸ hnew
      have hclean : Cleaning ((s.put r (act.run job (s.view r) l)).rk r).dtq.mgrreqq l ↔
          (actLeft job ((s.rk r).mgr.ltab l) (s.gtab ((s.rk r).mgr.ltab l).gtabIdx)
            act).cleaning = true := by
        rw [hc.mgrreqq, Cleaning.append ha.addr, ha.cleaning]
        have hold : ¬ Cleaning (s.rk r).dtq.mgrreqq l := fun hold =>
          (enabled_pc h).2 (Cleaning.pc hf hold)
        simp [hold, Sys.view]
      exact stageAt_left hnew' hclean
    · rw [hc.gtab, Function.update_self, ha.entry]
      exact ⟨rfl, hdet, hdisp⟩
    · obtain ⟨hcanceled, ret, rfl⟩ := hloss hne
      simp only [Record.loses, decide_eq_true_eq]
      exact ⟨rfl, hcanceled⟩
    · rw [hnews]
      exact fun hne => absurd rfl hne
  · have hentry :
        SameUse (s.gtab i) (Function.update s.gtab ((s.rk r).mgr.ltab l).gtabIdx g i) := by
      rw [Function.update_of_ne (Ne.symm hi)]
      exact .refl _
    refine hshow.follows_aside hok hlife hc hrec ⟨hentry.toSameStage, fun l' pc st => ?_,
      fun l' pc st hl => ?_, fun _ _ _ => Iff.rfl, by simp⟩ hentry ?_ (by simp [Record.names])
    · by_cases hl : l' = l
      · subst hl
        have hidx : lt.gtabIdx ≠ i := by
          rw [ha.gtabIdx]
          exact hi
        refine iff_of_false (fun hh => hidx ?_) (fun hh => hi hh.1)
        simpa [Mgr.setLtab] using hh.1
      · exact hslots l' pc st hl
    · rw [Cleaning.append ha.addr]
      have hne : l' ≠ l := by
        rintro rfl
        exact hi hl.1
      simp [hne]
    · simp [Record.values, Sys.view, hi]

end Steps

end Dthread.FateRefinement
