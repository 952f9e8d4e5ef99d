import Dthread.Rank0Runs
import Dthread.RequestReply

/-!
Joins at rank 0. A JOINWAIT stands for a JOIN whose thread still runs; a thread
is joined with success once for each time its slot is allocated, with the
return value the table held when its TERMINATED was processed. The history of
a run is kept beside it: how often each slot was allocated, and what happened
to each of these incarnations.
-/
namespace Dthread.Joins

open ReqMsg Queuing ManagerTables ManagerHandlers ManagerEffects ManagerOutcomes JobSystem
open TableWrites Rank0Runs RequestReply FifoNet

/-- A step of a run with the states around it. -/
structure Record where
  pre : View
  event : Event
  post : View

/-- The events of a run: no STARTED reports a failure, and nobody writes to the
entry of a thread that has ended. -/
def Allowed (v : View) : Event → Prop
  | .msg mqe _ => ∀ e, mqe.frame.body = .started e → e = 0
  | .write gtab => ∀ i, (v.gtab i).allocated = true →
      (v.gtab i).terminated.needFinalstate = false → gtab i = v.gtab i

inductive JoinRun (job : Job) (start : View) : List Record → View → Prop
  | nil : JoinRun job start [] start
  | snoc {log : List Record} {v v' : View} {e : Event} (h : JoinRun job start log v)
      (hs : Mgr0Step job v e v') (ha : Allowed v e) :
      JoinRun job start (log ++ [⟨v, e, v'⟩]) v'

namespace Record

/-- The messages sent in a step. -/
def posts (r : Record) : List Post :=
  (r.post.dtq.accepted.map toPost).drop r.pre.dtq.accepted.length

def opened (r : Record) (i : ℕ) : Bool := !(r.pre.gtab i).allocated && (r.post.gtab i).allocated

def closed (r : Record) (i : ℕ) : Bool := (r.pre.gtab i).allocated && !(r.post.gtab i).allocated

end Record

/-- The value of a JOINED that reports success. -/
def joinedValue (post : Post) : Option Argret :=
  match post.2.body with
  | .joined 0 ret => some ret
  | _ => none

def joinedTo (S x : ℕ) (post : Post) : Bool :=
  match post.2.body with
  | .joined _ _ => post.1 == S && post.2.xidseq == x
  | _ => false

/-- The slot of the thread that a JOIN, DETACH or TERMINATED names. -/
def names (i : ℕ) : Event → Bool
  | .msg mqe _ =>
    match mqe.frame.body with
    | .join thread => thread.dtIndex == i
    | .detach thread => thread.dtIndex == i
    | .terminated thread _ => thread.dtIndex == i
    | _ => false
  | .write _ => false

/-- A JOIN from rank `S` with xidseq `x` that is long enough to be handled. -/
def joinFrom (S x : ℕ) : Event → Bool
  | .msg mqe _ =>
    match mqe.frame.body with
    | .join thread => mqe.peer == S && mqe.frame.xidseq == x &&
        decide ((Body.join thread).size ≤ mqe.frame.flen)
    | _ => false
  | .write _ => false

/-- The TERMINATED that ends the running thread of slot `i`. -/
def ends (job : Job) (v : View) (i : ℕ) : Event → Bool
  | .msg mqe _ =>
    match mqe.frame.body with
    | .terminated thread fin => thread.dtIndex == i && decide (i < job.nmaxthread) &&
        (v.gtab i).seq == thread.dtSeq && decide (fin ≠ .running) &&
        mqe.frame.flen == (Body.terminated thread fin).size &&
        (v.gtab i).allocated && (v.gtab i).terminated.needFinalstate
    | _ => false
  | .write _ => false

/-- What has happened to the incarnations of the slots. Incarnation `g` of slot
`i` begins with the `g`-th allocation of the slot. -/
structure History where
  gen : ℕ → ℕ
  frees : ℕ → ℕ → ℕ
  joined : ℕ → ℕ → List Argret
  ended : ℕ → ℕ → List Argret
  asked : ℕ → ℕ → ℕ
  answered : ℕ → ℕ → ℕ

/-- Before the run, slot 0 has been allocated for the main thread. -/
def History.start : History where
  gen i := if i = 0 then 1 else 0
  frees _ _ := 0
  joined _ _ := []
  ended _ _ := []
  asked _ _ := 0
  answered _ _ := 0

def History.record (job : Job) (h : History) (r : Record) : History where
  gen i := h.gen i + if r.opened i then 1 else 0
  frees i g := h.frees i g + if r.closed i ∧ g = h.gen i then 1 else 0
  joined i g := h.joined i g ++
    if names i r.event ∧ g = h.gen i then r.posts.filterMap joinedValue else []
  ended i g := h.ended i g ++
    if ends job r.pre i r.event ∧ g = h.gen i then [(r.pre.gtab i).ret] else []
  asked S x := h.asked S x + if joinFrom S x r.event then 1 else 0
  answered S x := h.answered S x + r.posts.countP (joinedTo S x)

def history (job : Job) (log : List Record) : History :=
  log.foldl (History.record job) .start

/-- The entry of a thread that may still be waited for. -/
def Waitable (gtab : ℕ → Gtab) (thread : DThread) : Prop :=
  (gtab thread.dtIndex).allocated = true ∧ (gtab thread.dtIndex).detached = false ∧
    (gtab thread.dtIndex).terminated.needFinalstate = true ∧
    (gtab thread.dtIndex).seq = thread.dtSeq

def waitsOn (i : ℕ) (rqe : Request) : Bool :=
  rqe.reqop == .joinwait && rqe.waitthread.dtIndex == i

def waitsFor (S x : ℕ) (rqe : Request) : Bool :=
  rqe.reqop == .joinwait && rqe.reqpeer == S && rqe.xidseq == x

/-- A JOIN for a thread that is gone, detached or already waited for. -/
def refusal (job : Job) (v : View) (thread : DThread) : Option ℕ :=
  match dt2gtab job v.gtab thread with
  | none => some ESRCH
  | some i =>
    if (v.gtab i).detached = true ∨ (joinwaitSearch v thread).isSome = true then some EINVAL
    else none

/-- A TERMINATED reports a final state, as every sender's does. -/
def Final : Event → Prop
  | .msg mqe _ => ∀ thread fin, mqe.frame.body = .terminated thread fin →
      fin.needFinalstate = false
  | .write _ => True

/-- What a run guarantees about joins. -/
structure JoinsTruthful (job : Job) (log : List Record) (v : View) : Prop where
  waiting : ∀ rqe ∈ v.mgr.rpending, rqe.reqop = .joinwait → Waitable v.gtab rqe.waitthread
  single : ∀ i, v.mgr.rpending.countP (waitsOn i) ≤ 1
  once : ∀ i g, ((history job log).joined i g).length ≤ 1
  ended : (∀ r ∈ log, Final r.event) → ∀ i g, ((history job log).ended i g).length ≤ 1
  value : ∀ i g, ∀ ret ∈ (history job log).joined i g, ret ∈ (history job log).ended i g
  freed : ∀ i g, (history job log).frees i g =
    if 1 ≤ g ∧ (g < (history job log).gen i ∨
      g = (history job log).gen i ∧ (v.gtab i).allocated = false) then 1 else 0
  freedByJoin : ∀ i g, (history job log).joined i g ≠ [] → (history job log).frees i g = 1
  answered : ∀ S x, (history job log).answered S x + v.mgr.rpending.countP (waitsFor S x) =
    (history job log).asked S x
  refused : ∀ r ∈ log, ∀ mqe err thread e, r.event = .msg mqe err →
    mqe.frame.body = .join thread → mqe.frame.body.size ≤ mqe.frame.flen →
    refusal job r.pre thread = some e →
    r.posts = [(mqe.peer, .of mqe.frame.xidseq (.joined e nodata))] ∧ r.post.gtab = r.pre.gtab

/-- What a message of a run does to the slots: it keeps them, allocates one,
frees one, or frees one and reports the success of a join on it. -/
inductive SlotMove (job : Job) (v : View) (e : Event) (gt : ℕ → Gtab) (out : List Post) : Prop
  | keep (halloc : ∀ i, (gt i).allocated = (v.gtab i).allocated)
      (hzombie : ∀ i, (gt i).allocated = true → (gt i).terminated.needFinalstate = false →
        (gt i).ret = (v.gtab i).ret ∧
          ((v.gtab i).terminated.needFinalstate = false ∨ ends job v i e = true))
      (hout : out.filterMap joinedValue = [])
  | opens (i : ℕ) (hfree : (v.gtab i).allocated = false) (hnew : (gt i).allocated = true)
      (hneed : (gt i).terminated.needFinalstate = true)
      (hothers : ∀ j, j ≠ i → gt j = v.gtab j) (hout : out.filterMap joinedValue = [])
  | closes (i : ℕ) (hclosed : (gt i).allocated = false)
      (hothers : ∀ j, j ≠ i → gt j = v.gtab j) (hout : out.filterMap joinedValue = [])
  | joins (i : ℕ) (halloc : (v.gtab i).allocated = true) (hclosed : (gt i).allocated = false)
      (hothers : ∀ j, j ≠ i → gt j = v.gtab j) (hnames : ∀ j, names j e = true ↔ j = i)
      (hout : out.filterMap joinedValue = [(v.gtab i).ret])
      (hend : (v.gtab i).terminated.needFinalstate = false ∨ ends job v i e = true)

/-- The facts about JOINWAITs that every state of a run has. -/
structure Waits (rpending : List Request) (gtab : ℕ → Gtab) : Prop where
  waiting : ∀ rqe ∈ rpending, rqe.reqop = .joinwait →
    Waitable gtab rqe.waitthread ∧ rqe.reqerror = 0
  single : ∀ i, rpending.countP (waitsOn i) ≤ 1

theorem joinwaitSearch_mem {v : View} {thread : DThread} {rqe : Request}
    (h : joinwaitSearch v thread = some rqe) : rqe ∈ v.mgr.rpending :=
  List.mem_of_find?_eq_some h

theorem detached_fields (gt : ℕ → Gtab) (k : ℕ) :
    (∀ i, (Function.update gt k { gt k with detached := true } i).allocated =
        (gt i).allocated) ∧
      (∀ i, (Function.update gt k { gt k with detached := true } i).ret = (gt i).ret) ∧
      ∀ i, (Function.update gt k { gt k with detached := true } i).terminated =
        (gt i).terminated := by
  refine ⟨fun i => ?_, fun i => ?_, fun i => ?_⟩ <;> by_cases hi : i = k <;> simp [hi]

theorem ends_terminated {job : Job} {v : View} {mqe : Mqe} {err : ℕ} {thread : DThread}
    {fin : LtState} (hb : mqe.frame.body = .terminated thread fin)
    (hlen : mqe.frame.flen = mqe.frame.body.size) (hlt : thread.dtIndex < job.nmaxthread)
    (hseq : (v.gtab thread.dtIndex).seq = thread.dtSeq) (hfin : fin ≠ .running)
    (halloc : (v.gtab thread.dtIndex).allocated = true)
    (hneed : (v.gtab thread.dtIndex).terminated.needFinalstate = true) :
    ends job v thread.dtIndex (.msg mqe err) = true := by
  rw [hb] at hlen
  simp [ends, hb, hlt, hseq, hfin, hlen, halloc, hneed]

theorem ends_running {job : Job} {v : View} {i : ℕ} {e : Event} (h : ends job v i e = true) :
    (v.gtab i).allocated = true ∧ (v.gtab i).terminated.needFinalstate = true := by
  cases e with
  | write gtab => exact absurd h Bool.false_ne_true
  | msg mqe err =>
    unfold ends at h
    cases hb : mqe.frame.body <;> simp_all

theorem mqeOutcome_slotMove {job : Job} {v : View} {mqe : Mqe} {err : ℕ} {m : Mgr}
    {gt : ℕ → Gtab} {out : List Post} (h : MqeOutcome job v mqe m gt out)
    (hw : Waits v.mgr.rpending v.gtab)
    (hop : rank0Only mqe.frame.body.op = true) (hd : v.dtq.mpisqDraindown = .init)
    (ha : Allowed v (.msg mqe err)) : SlotMove job v (.msg mqe err) gt out := by
  cases h with
  | drop h => exact .keep (fun _ => rfl) (fun _ _ hz => ⟨rfl, .inl hz⟩) rfl
  | createErr attrs dispIdx arg e next hb he hnext =>
    exact .keep (fun _ => rfl) (fun _ _ hz => ⟨rfl, .inl hz⟩) rfl
  | createOk attrs dispIdx arg n gidx xidseq hb hdisp hroom hfree hlt hxid hd =>
    exact .opens gidx hfree (by simp [gtabInit]) (by simp [gtabInit]; rfl)
      (fun j hj => by simp [hj]) rfl
  | createDrain attrs dispIdx arg gidx xidseq hb hfree hlt hdrain => exact absurd hd hdrain
  | startInvalid thread attrs hb h => simp [hb, rank0Only, Body.op] at hop
  | startOk thread attrs l hb h hfree hlt => simp [hb, rank0Only, Body.op] at hop
  | startFail thread attrs l e hb h hfree hlt he => simp [hb, rank0Only, Body.op] at hop
  | detachNone thread hb h =>
    exact .keep (fun _ => rfl) (fun _ _ hz => ⟨rfl, .inl hz⟩) rfl
  | detachPlain thread hb h hw =>
    exact .keep (detached_fields v.gtab thread.dtIndex).1
      (fun i _ hz => ⟨(detached_fields v.gtab thread.dtIndex).2.1 i,
        .inl ((detached_fields v.gtab thread.dtIndex).2.2 i ▸ hz)⟩) rfl
  | detachWait thread rqe hb h hw =>
    exact .keep (detached_fields v.gtab thread.dtIndex).1
      (fun i _ hz => ⟨(detached_fields v.gtab thread.dtIndex).2.1 i,
        .inl ((detached_fields v.gtab thread.dtIndex).2.2 i ▸ hz)⟩) rfl
  | cancelErr thread e hb he h => simp [hb, rank0Only, Body.op] at hop
  | cancelMiss thread hb h => simp [hb, rank0Only, Body.op] at hop
  | cancelHit thread l hb h hl hhas hlt hseq => simp [hb, rank0Only, Body.op] at hop
  | joinErr thread e hb h =>
    refine .keep (fun _ => rfl) (fun _ _ hz => ⟨rfl, .inl hz⟩) ?_
    have he : e ≠ 0 := by
      rcases h with ⟨-, rfl⟩ | ⟨-, rfl, -⟩ <;> decide
    cases e with
    | zero => exact absurd rfl he
    | succ e => rfl
  | joinZombie thread hb h hdet hz =>
    obtain ⟨hlt, halloc, hseq⟩ := dt2gtab_valid.mp h
    refine .joins thread.dtIndex halloc (freeGtab_allocated _ _)
      (fun j hj => freeGtab_of_ne _ hj) (fun j => ?_) rfl (.inl hz)
    simp only [names, hb, beq_iff_eq]
    exact eq_comm
  | joinWait thread n hb h hdet hz hw =>
    exact .keep (fun _ => rfl) (fun _ _ hz => ⟨rfl, .inl hz⟩) rfl
  | terminatedZombie thread fin hb hlen hlt hseq hfin hdet hw' =>
    refine .keep (zombieGtab_allocated _ _ _) (fun i halloc hz => ?_) rfl
    by_cases hi : i = thread.dtIndex
    · subst hi
      rw [zombieGtab_allocated] at halloc
      refine ⟨by simp [zombieGtab], ?_⟩
      by_cases hneed : (v.gtab thread.dtIndex).terminated.needFinalstate = true
      · exact .inr (ends_terminated hb hlen hlt hseq hfin halloc hneed)
      · exact .inl (by simpa using hneed)
    · rw [zombieGtab_of_ne _ _ _ hi] at hz ⊢
      exact ⟨rfl, .inl hz⟩
  | terminatedDetached thread fin hb hlen hlt hseq hfin hdet hw' =>
    exact .closes thread.dtIndex (freeGtab_allocated _ _)
      (fun j hj => freeGtab_cleanup_of_ne hj) rfl
  | terminatedJoined thread fin rqe hb hlen hlt hseq hfin hdet hw' =>
    obtain ⟨hwop, hwthread⟩ := joinwaitSearch_spec hw'
    obtain ⟨hwait, hzero⟩ := hw.waiting rqe (joinwaitSearch_mem hw') hwop
    rw [hwthread] at hwait
    refine .joins thread.dtIndex hwait.1 (freeGtab_allocated _ _)
      (fun j hj => freeGtab_zombie_of_ne hj) (fun j => ?_) ?_
      (.inr (ends_terminated hb hlen hlt hseq hfin hwait.1 hwait.2.2.1))
    · simp only [names, hb, beq_iff_eq]
      exact eq_comm
    · simp [joinedPost, joinedValue, Frame.of, hzero]
  | terminatedDetachedJoined thread fin rqe hb hlen hlt hseq hfin hdet hw' =>
    exact .closes thread.dtIndex (freeGtab_allocated _ _)
      (fun j hj => freeGtab_cleanup_of_ne hj) rfl
  | startedOk rqe hb h => exact .keep (fun _ => rfl) (fun _ _ hz => ⟨rfl, .inl hz⟩) rfl
  | startedErr rqe e hb he h => exact absurd (ha e hb) he
  | reply op rqe rqe' hop' h haddr =>
    cases hb : mqe.frame.body <;> simp [hb, replyTo, rank0Only, Body.op] at hop hop'

namespace Waits

variable {l l' : List Request} {gt gt' : ℕ → Gtab}

/-- Without a JOINWAIT for the handle that an entry has, nobody waits on it. -/
theorem no_waiter (h : Waits l gt) {thread : DThread}
    (hseq : (gt thread.dtIndex).seq = thread.dtSeq)
    (hnone : l.find? (joinwaitMatch thread) = none) :
    ∀ rqe ∈ l, rqe.reqop = .joinwait → rqe.waitthread.dtIndex ≠ thread.dtIndex := by
  intro rqe hrqe hop heq
  have hwait := (h.waiting rqe hrqe hop).1
  have hthread : rqe.waitthread = thread := by
    obtain ⟨i, seq⟩ := thread
    have hs := hwait.2.2.2
    rw [heq] at hs
    cases hw : rqe.waitthread with
    | mk i' seq' =>
      simp only [hw] at hs heq
      simp only at hseq
      rw [heq, ← hs, hseq]
  have hmiss := List.find?_eq_none.mp hnone rqe hrqe
  simp [joinwaitMatch, hop, hthread] at hmiss

/-- Once its JOINWAIT is taken out, nobody waits on the entry. -/
theorem erased_waiter (h : Waits l gt) {thread : DThread} {rqe : Request}
    (hfind : l.find? (joinwaitMatch thread) = some rqe) :
    ∀ rqe' ∈ l.eraseP (joinwaitMatch thread), rqe'.reqop = .joinwait →
      rqe'.waitthread.dtIndex ≠ thread.dtIndex := by
  intro rqe' hrqe' hop heq
  have hmatch := List.find?_some hfind
  simp only [joinwaitMatch, Bool.and_eq_true, beq_iff_eq] at hmatch
  have hcount := countP_eraseP_of_find hfind (waitsOn thread.dtIndex)
  have hone := h.single thread.dtIndex
  have hpos : 0 < (l.eraseP (joinwaitMatch thread)).countP (waitsOn thread.dtIndex) :=
    List.countP_pos_iff.mpr ⟨rqe', hrqe', by simp [waitsOn, hop, heq]⟩
  have hself : waitsOn thread.dtIndex rqe = true := by simp [waitsOn, hmatch]
  rw [if_pos hself] at hcount
  omega

theorem of_sublist (h : Waits l gt) (hsub : l'.Sublist l) : Waits l' gt where
  waiting rqe hrqe hop := h.waiting rqe (hsub.subset hrqe) hop
  single i := hsub.countP_le.trans (h.single i)

/-- An entry that nobody waits on may change. -/
theorem update_entry (h : Waits l gt) (i : ℕ)
    (hfree : ∀ rqe ∈ l, rqe.reqop = .joinwait → rqe.waitthread.dtIndex ≠ i)
    (hgt : ∀ j, j ≠ i → gt' j = gt j) : Waits l gt' where
  waiting rqe hrqe hop := by
    unfold Waitable
    rw [hgt _ (hfree rqe hrqe hop)]
    exact h.waiting rqe hrqe hop
  single := h.single

theorem add_other (h : Waits l gt) {rqe : Request} (hop : rqe.reqop ≠ .joinwait) :
    Waits (l ++ [rqe]) gt where
  waiting rqe' hrqe' hop' := by
    rw [List.mem_append, List.mem_singleton] at hrqe'
    rcases hrqe' with hrqe' | rfl
    · exact h.waiting rqe' hrqe' hop'
    · exact absurd hop' hop
  single i := by
    have hno : waitsOn i rqe = false := by simp [waitsOn, hop]
    simpa [List.countP_append, hno] using h.single i

theorem add_waiter (h : Waits l gt) {rqe : Request} (hwait : Waitable gt rqe.waitthread)
    (hzero : rqe.reqerror = 0)
    (hfree : ∀ rqe' ∈ l, rqe'.reqop = .joinwait →
      rqe'.waitthread.dtIndex ≠ rqe.waitthread.dtIndex) : Waits (l ++ [rqe]) gt where
  waiting rqe' hrqe' hop' := by
    rw [List.mem_append, List.mem_singleton] at hrqe'
    rcases hrqe' with hrqe' | rfl
    · exact h.waiting rqe' hrqe' hop'
    · exact ⟨hwait, hzero⟩
  single i := by
    by_cases hi : i = rqe.waitthread.dtIndex
    · have hnone : l.countP (waitsOn i) = 0 := by
        rw [List.countP_eq_zero]
        intro rqe' hrqe' hon
        simp only [waitsOn, Bool.and_eq_true, beq_iff_eq] at hon
        exact hfree rqe' hrqe' hon.1 (hon.2.trans hi)
      have hlast : [rqe].countP (waitsOn i) ≤ 1 := List.countP_le_length
      rw [List.countP_append]
      omega
    · have hno : waitsOn i rqe = false := by simp [waitsOn, Ne.symm hi]
      simpa [List.countP_append, hno] using h.single i

end Waits

theorem mqeOutcome_waits {job : Job} {v : View} {mqe : Mqe} {m : Mgr} {gt : ℕ → Gtab}
    {out : List Post} (h : MqeOutcome job v mqe m gt out) (hw : Waits v.mgr.rpending v.gtab)
    (hd : v.dtq.mpisqDraindown = .init)
    (ha : ∀ e, mqe.frame.body = .started e → e = 0) : Waits m.rpending gt := by
  cases h with
  | createOk attrs dispIdx arg n gidx xidseq hb hdisp hroom hfree hlt hxid hd =>
    refine Waits.add_other (hw.update_entry gidx (fun rqe hrqe hop heq => ?_)
      (fun j hj => by simp [hj])) (by simp [startRequest])
    have halloc := (hw.waiting rqe hrqe hop).1.1
    rw [heq, hfree] at halloc
    exact Bool.noConfusion halloc
  | createDrain attrs dispIdx arg gidx xidseq hb hfree hlt hdrain => exact absurd hd hdrain
  | detachPlain thread hb h hnone =>
    exact hw.update_entry thread.dtIndex (hw.no_waiter (dt2gtab_valid.mp h).2.2 hnone)
      (fun j hj => by simp [hj])
  | detachWait thread rqe hb h hsome =>
    exact (hw.of_sublist List.eraseP_sublist).update_entry thread.dtIndex
      (hw.erased_waiter hsome) (fun j hj => by simp [hj])
  | joinZombie thread hb h hdet hz =>
    refine hw.update_entry thread.dtIndex (fun rqe hrqe hop heq => ?_)
      (fun j hj => freeGtab_of_ne _ hj)
    have hneed := (hw.waiting rqe hrqe hop).1.2.2.1
    rw [heq, hz] at hneed
    exact Bool.noConfusion hneed
  | joinWait thread n hb h hdet hz hnone =>
    obtain ⟨hlt, halloc, hseq⟩ := dt2gtab_valid.mp h
    exact hw.add_waiter ⟨halloc, hdet, hz, hseq⟩ rfl (hw.no_waiter hseq hnone)
  | terminatedZombie thread fin hb hlen hlt hseq hfin hdet hnone =>
    exact hw.update_entry thread.dtIndex (hw.no_waiter hseq hnone)
      (fun j hj => zombieGtab_of_ne _ _ _ hj)
  | terminatedDetached thread fin hb hlen hlt hseq hfin hdet hnone =>
    exact hw.update_entry thread.dtIndex (hw.no_waiter hseq hnone)
      (fun j hj => freeGtab_cleanup_of_ne hj)
  | terminatedJoined thread fin rqe hb hlen hlt hseq hfin hdet hsome =>
    exact (hw.of_sublist List.eraseP_sublist).update_entry thread.dtIndex
      (hw.erased_waiter hsome) (fun j hj => freeGtab_zombie_of_ne hj)
  | terminatedDetachedJoined thread fin rqe hb hlen hlt hseq hfin hdet hsome =>
    exact (hw.of_sublist List.eraseP_sublist).update_entry thread.dtIndex
      (hw.erased_waiter hsome) (fun j hj => freeGtab_cleanup_of_ne hj)
  | startedOk rqe hb h => exact hw.of_sublist List.eraseP_sublist
  | startedErr rqe e hb he h => exact absurd (ha e hb) he
  | reply op rqe rqe' hop h haddr => exact hw.of_sublist List.eraseP_sublist
  | _ => exact hw

/-- The invariant that ties the history of a run to its state. -/
structure Ledger (h : History) (gtab : ℕ → Gtab) : Prop where
  freed : ∀ i g, h.frees i g =
    if 1 ≤ g ∧ (g < h.gen i ∨ g = h.gen i ∧ (gtab i).allocated = false) then 1 else 0
  joined : ∀ i g, (h.joined i g).length ≤ h.frees i g
  value : ∀ i g, ∀ ret ∈ h.joined i g, ret ∈ h.ended i g
  zombie : ∀ i, (gtab i).allocated = true → (gtab i).terminated.needFinalstate = false →
    (gtab i).ret ∈ h.ended i (h.gen i)
  born : ∀ i, (gtab i).allocated = true → 1 ≤ h.gen i

theorem ledger_start (job : Job) (q : Dtq) : Ledger .start (mgr0Start job q).gtab where
  freed i g := by
    by_cases hi : i = 0
    · subst hi
      have halloc : ((mgr0Start job q).gtab 0).allocated = true := by
        simp [mgr0Start, mgrStartapp]
      simp only [History.start, halloc, if_true]
      rw [if_neg]
      rintro ⟨hg, hlt | ⟨-, hc⟩⟩
      · omega
      · exact Bool.noConfusion hc
    · simp only [History.start, hi, if_false]
      rw [if_neg (by omega)]
  joined i g := by simp [History.start]
  value i g ret hret := by simp [History.start] at hret
  zombie i halloc hz := by
    by_cases hi : i = 0
    · subst hi
      simp [mgr0Start, mgrStartapp, Gtab.zero, LtState.needFinalstate, LtState.code] at hz
    · simp [mgr0Start, mgrStartapp, hi, Gtab.zero] at halloc
  born i halloc := by
    by_cases hi : i = 0
    · simp [History.start, hi]
    · simp [mgr0Start, mgrStartapp, hi, Gtab.zero] at halloc

/-- The counts of frees follow the allocations, whatever the move. -/
theorem freed_record {job : Job} {h : History} {r : Record} {gtab : ℕ → Gtab}
    (hl : Ledger h r.pre.gtab) (hgt : r.post.gtab = gtab) (i g : ℕ) :
    (h.record job r).frees i g =
      if 1 ≤ g ∧ (g < (h.record job r).gen i ∨
        g = (h.record job r).gen i ∧ (gtab i).allocated = false) then 1 else 0 := by
  subst hgt
  have hf := hl.freed i g
  have hborn := hl.born i
  simp only [History.record, Record.opened, Record.closed, hf]
  by_cases hpre : (r.pre.gtab i).allocated = true <;>
    by_cases hpost : (r.post.gtab i).allocated = true
  · simp [hpre, hpost]
  · have hpos := hborn hpre
    simp only [hpre, hpost, Bool.not_false, Bool.true_and]
    simp
    split_ifs <;> omega
  · simp [hpre, hpost]
    split_ifs <;> omega
  · simp [hpre, hpost]

theorem born_record {job : Job} {h : History} {r : Record} (hl : Ledger h r.pre.gtab) (i : ℕ)
    (halloc : (r.post.gtab i).allocated = true) : 1 ≤ (h.record job r).gen i := by
  by_cases hpre : (r.pre.gtab i).allocated = true
  · exact (hl.born i hpre).trans (Nat.le_add_right _ _)
  · simp [History.record, Record.opened, hpre, halloc]

/-- A zombie whose slot did not change keeps its value in the history. -/
theorem zombie_record {job : Job} {h : History} {r : Record} (hl : Ledger h r.pre.gtab) (i : ℕ)
    (hpre : (r.pre.gtab i).allocated = true)
    (hz : (r.pre.gtab i).terminated.needFinalstate = false ∨ ends job r.pre i r.event = true) :
    (r.pre.gtab i).ret ∈ (h.record job r).ended i ((h.record job r).gen i) := by
  have hgen : (h.record job r).gen i = h.gen i := by simp [History.record, Record.opened, hpre]
  rw [hgen]
  rcases hz with hz | hend
  · exact List.mem_append_left _ (hl.zombie i hpre hz)
  · simp [History.record, hend]

/-- A step without a successful join adds nothing to the joins. -/
theorem joined_record {job : Job} {h : History} {r : Record}
    (hout : r.posts.filterMap joinedValue = []) (i g : ℕ) :
    (h.record job r).joined i g = h.joined i g := by
  simp [History.record, hout]

theorem ended_record_subset {job : Job} {h : History} {r : Record} {i g : ℕ} {ret : Argret}
    (hret : ret ∈ h.ended i g) : ret ∈ (h.record job r).ended i g :=
  List.mem_append_left _ hret

theorem ledger_record {job : Job} {h : History} {r : Record} (hl : Ledger h r.pre.gtab)
    (hm : SlotMove job r.pre r.event r.post.gtab r.posts) :
    Ledger (h.record job r) r.post.gtab := by
  have hframe (hout : r.posts.filterMap joinedValue = [])
      (hzombie : ∀ i, (r.post.gtab i).allocated = true →
        (r.post.gtab i).terminated.needFinalstate = false →
        (r.post.gtab i).ret ∈ (h.record job r).ended i ((h.record job r).gen i)) :
      Ledger (h.record job r) r.post.gtab := by
    refine ⟨freed_record hl rfl, fun i g => ?_, fun i g ret hret => ?_, hzombie, born_record hl⟩
    · rw [joined_record hout]
      exact (hl.joined i g).trans (Nat.le_add_right _ _)
    · rw [joined_record hout] at hret
      exact ended_record_subset (hl.value i g ret hret)
  have hother (i j : ℕ) (hne : j ≠ i) (hothers : ∀ j, j ≠ i → r.post.gtab j = r.pre.gtab j)
      (halloc : (r.post.gtab j).allocated = true)
      (hz : (r.post.gtab j).terminated.needFinalstate = false) :
      (r.post.gtab j).ret ∈ (h.record job r).ended j ((h.record job r).gen j) := by
    rw [hothers j hne] at halloc hz ⊢
    exact zombie_record hl j halloc (.inl hz)
  cases hm with
  | keep halloc hzombie hout =>
    refine hframe hout fun i ha hz => ?_
    obtain ⟨hret, hend⟩ := hzombie i ha hz
    rw [hret]
    exact zombie_record hl i ((halloc i).symm.trans ha) hend
  | opens i hfree hnew hneed hothers hout =>
    refine hframe hout fun j ha hz => ?_
    by_cases hj : j = i
    · subst hj
      rw [hneed] at hz
      exact Bool.noConfusion hz
    · exact hother i j hj hothers ha hz
  | closes i hclosed hothers hout =>
    refine hframe hout fun j ha hz => ?_
    by_cases hj : j = i
    · subst hj
      rw [hclosed] at ha
      exact Bool.noConfusion ha
    · exact hother i j hj hothers ha hz
  | joins i halloc hclosed hothers hnames hout hend =>
    have hzero : h.frees i (h.gen i) = 0 := by
      rw [hl.freed, if_neg]
      rintro ⟨-, hlt | ⟨-, hc⟩⟩
      · omega
      · rw [halloc] at hc
        exact Bool.noConfusion hc
    have hself :
        (h.record job r).joined i (h.gen i) = h.joined i (h.gen i) ++ [(r.pre.gtab i).ret] := by
      simp [History.record, hout, (hnames i).mpr rfl]
    have hrest (j g : ℕ) (hne : ¬ (j = i ∧ g = h.gen i)) :
        (h.record job r).joined j g = h.joined j g := by
      have hcond : ¬ (names j r.event = true ∧ g = h.gen j) := by
        rintro ⟨hj, hg⟩
        obtain rfl := (hnames j).mp hj
        exact hne ⟨rfl, hg⟩
      simp [History.record, hcond]
    refine ⟨freed_record hl rfl, fun j g => ?_, fun j g ret hret => ?_, fun j ha hz => ?_,
      born_record hl⟩
    · by_cases hj : j = i ∧ g = h.gen i
      · obtain ⟨rfl, rfl⟩ := hj
        have hle := hl.joined j (h.gen j)
        have hfree : (h.record job r).frees j (h.gen j) = h.frees j (h.gen j) + 1 := by
          simp [History.record, Record.closed, halloc, hclosed]
        rw [hself, hfree, List.length_append]
        simp only [List.length_singleton]
        omega
      · rw [hrest j g hj]
        exact (hl.joined j g).trans (Nat.le_add_right _ _)
    · by_cases hj : j = i ∧ g = h.gen i
      · obtain ⟨rfl, rfl⟩ := hj
        rw [hself, List.mem_append, List.mem_singleton] at hret
        rcases hret with hret | rfl
        · exact ended_record_subset (hl.value j _ ret hret)
        · rcases hend with hz | hend
          · exact ended_record_subset (hl.zombie j halloc hz)
          · simp [History.record, hend]
      · rw [hrest j g hj] at hret
        exact ended_record_subset (hl.value j g ret hret)
    · by_cases hj : j = i
      · subst hj
        rw [hclosed] at ha
        exact Bool.noConfusion ha
      · exact hother i j hj hothers ha hz

theorem ends_badTerminated {job : Job} {v : View} {mqe : Mqe} {err : ℕ} {thread : DThread}
    {fin : LtState} (hb : mqe.frame.body = .terminated thread fin)
    (hbad : mqe.frame.flen ≠ mqe.frame.body.size ∨ job.nmaxthread ≤ thread.dtIndex ∨
      (v.gtab thread.dtIndex).seq ≠ thread.dtSeq ∨ fin = .running) (i : ℕ) :
    ends job v i (.msg mqe err) = false := by
  by_contra hends
  simp only [ends, hb, Bool.not_eq_false, Bool.and_eq_true, beq_iff_eq, decide_eq_true_eq]
    at hends
  obtain ⟨⟨⟨⟨⟨⟨rfl, hlt⟩, hseq⟩, hfin⟩, hlen⟩, -⟩, -⟩ := hends
  rw [hb] at hbad
  rcases hbad with hbad | hbad | hbad | hbad
  · exact hbad hlen
  · omega
  · exact hbad hseq
  · exact hfin hbad

/-- A thread that still runs after a message ran before it, and the message did
not end it. -/
theorem mqeOutcome_running {job : Job} {v : View} {mqe : Mqe} {err : ℕ} {m : Mgr}
    {gt : ℕ → Gtab} {out : List Post} (h : MqeOutcome job v mqe m gt out)
    (hop : rank0Only mqe.frame.body.op = true) (hlen : mqe.frame.body.size ≤ mqe.frame.flen)
    (hrank : v.mgr.mpiRank = 0) (hf : Final (.msg mqe err)) (i : ℕ)
    (hpre : (v.gtab i).allocated = true) (hpost : (gt i).allocated = true)
    (hneed : (gt i).terminated.needFinalstate = true) :
    (v.gtab i).terminated.needFinalstate = true ∧ ends job v i (.msg mqe err) = false := by
  have hquiet (hno : ∀ thread fin, mqe.frame.body ≠ .terminated thread fin) :
      ends job v i (.msg mqe err) = false := by
    cases hb : mqe.frame.body <;> simp only [ends, hb]
    exact absurd hb (hno _ _)
  -- an entry that is allocated or freed by the message is not `i`
  have hupdate (k : ℕ) (hno : ∀ thread fin, mqe.frame.body ≠ .terminated thread fin)
      (hothers : ∀ j, j ≠ k → gt j = v.gtab j)
      (hk : (v.gtab k).allocated = false ∨ (gt k).allocated = false) :
      (v.gtab i).terminated.needFinalstate = true ∧ ends job v i (.msg mqe err) = false := by
    have hi : i ≠ k := by
      rintro rfl
      rcases hk with hk | hk
      · rw [hk] at hpre
        exact Bool.noConfusion hpre
      · rw [hk] at hpost
        exact Bool.noConfusion hpost
    rw [hothers i hi] at hneed
    exact ⟨hneed, hquiet hno⟩
  -- a TERMINATED leaves the other entries alone, and its own entry is freed or final
  have hterm (thread : DThread) (fin : LtState) (hb : mqe.frame.body = .terminated thread fin)
      (hothers : ∀ j, j ≠ thread.dtIndex → gt j = v.gtab j)
      (hself : (gt thread.dtIndex).allocated = false ∨ (gt thread.dtIndex).terminated = fin) :
      (v.gtab i).terminated.needFinalstate = true ∧ ends job v i (.msg mqe err) = false := by
    have hi : i ≠ thread.dtIndex := by
      rintro rfl
      rcases hself with hclosed | hfin
      · rw [hclosed] at hpost
        exact Bool.noConfusion hpost
      · rw [hfin, hf thread fin hb] at hneed
        exact Bool.noConfusion hneed
    rw [hothers i hi] at hneed
    exact ⟨hneed, by simp [ends, hb, Ne.symm hi]⟩
  cases h with
  | drop h =>
    refine ⟨hneed, ?_⟩
    cases h with
    | runt hshort => exact absurd hshort (not_lt.mpr hlen)
    | wrongRank hr h0 => exact absurd hrank hr
    | unmatchedReply op hop' hnone =>
      refine hquiet fun thread fin hb => ?_
      simp [hb, replyTo] at hop'
    | unmatchedStarted e hb' hnone => exact hquiet fun thread fin hb => by simp [hb] at hb'
    | unknown code hb' => exact hquiet fun thread fin hb => by simp [hb] at hb'
    | badTerminated thread fin hb hbad => exact ends_badTerminated hb hbad i
  | createOk attrs dispIdx arg n gidx xidseq hb hdisp hroom hfree hlt hxid hd =>
    exact hupdate gidx (fun _ _ hb' => by simp [hb] at hb') (fun j hj => by simp [hj]) (.inl hfree)
  | createDrain attrs dispIdx arg gidx xidseq hb hfree hlt hdrain =>
    exact hupdate gidx (fun _ _ hb' => by simp [hb] at hb') (fun j hj => by simp [hj]) (.inl hfree)
  | joinZombie thread hb h hdet hz =>
    exact hupdate thread.dtIndex (fun _ _ hb' => by simp [hb] at hb')
      (fun j hj => freeGtab_of_ne _ hj) (.inr (freeGtab_allocated _ _))
  | startedErr rqe e hb he h =>
    exact hupdate rqe.creinfo.cThread.dtIndex (fun _ _ hb' => by simp [hb] at hb')
      (fun j hj => freeGtab_of_ne _ hj) (.inr (freeGtab_allocated _ _))
  | detachPlain thread hb h hw =>
    rw [(detached_fields v.gtab thread.dtIndex).2.2] at hneed
    exact ⟨hneed, hquiet fun _ _ hb' => by simp [hb] at hb'⟩
  | detachWait thread rqe hb h hw =>
    rw [(detached_fields v.gtab thread.dtIndex).2.2] at hneed
    exact ⟨hneed, hquiet fun _ _ hb' => by simp [hb] at hb'⟩
  | terminatedZombie thread fin hb hlen hlt hseq hfin hdet hw =>
    exact hterm thread fin hb (fun j hj => zombieGtab_of_ne _ _ _ hj) (.inr (by simp [zombieGtab]))
  | terminatedDetached thread fin hb hlen hlt hseq hfin hdet hw =>
    exact hterm thread fin hb (fun j hj => freeGtab_cleanup_of_ne hj)
      (.inl (freeGtab_allocated _ _))
  | terminatedJoined thread fin rqe hb hlen hlt hseq hfin hdet hw =>
    exact hterm thread fin hb (fun j hj => freeGtab_zombie_of_ne hj)
      (.inl (freeGtab_allocated _ _))
  | terminatedDetachedJoined thread fin rqe hb hlen hlt hseq hfin hdet hw =>
    exact hterm thread fin hb (fun j hj => freeGtab_cleanup_of_ne hj)
      (.inl (freeGtab_allocated _ _))
  | createErr attrs dispIdx arg e next hb he hnext =>
    exact ⟨hneed, hquiet fun _ _ hb' => by simp [hb] at hb'⟩
  | detachNone thread hb h => exact ⟨hneed, hquiet fun _ _ hb' => by simp [hb] at hb'⟩
  | joinErr thread e hb h => exact ⟨hneed, hquiet fun _ _ hb' => by simp [hb] at hb'⟩
  | joinWait thread n hb h hdet hz hw =>
    exact ⟨hneed, hquiet fun _ _ hb' => by simp [hb] at hb'⟩
  | startedOk rqe hb h => exact ⟨hneed, hquiet fun _ _ hb' => by simp [hb] at hb'⟩
  | reply op rqe rqe' hop' h haddr =>
    exact ⟨hneed, hquiet fun _ _ hb' => by simp [hb', replyTo] at hop'⟩
  | startInvalid thread attrs hb h => simp [hb, rank0Only, Body.op] at hop
  | startOk thread attrs l hb h hfree hlt => simp [hb, rank0Only, Body.op] at hop
  | startFail thread attrs l e hb h hfree hlt he => simp [hb, rank0Only, Body.op] at hop
  | cancelErr thread e hb he h => simp [hb, rank0Only, Body.op] at hop
  | cancelMiss thread hb h => simp [hb, rank0Only, Body.op] at hop
  | cancelHit thread l hb h hl hhas hlt hseq => simp [hb, rank0Only, Body.op] at hop

/-- A running thread has not ended, and no incarnation ends twice. -/
structure EndedOnce (h : History) (gtab : ℕ → Gtab) : Prop where
  once : ∀ i g, (h.ended i g).length ≤ 1
  running : ∀ i, (gtab i).allocated = true → (gtab i).terminated.needFinalstate = true →
    h.ended i (h.gen i) = []
  unborn : ∀ i g, h.gen i < g → h.ended i g = []

theorem endedOnce_record {job : Job} {h : History} {r : Record} (ho : EndedOnce h r.pre.gtab)
    (hrun : ∀ i, (r.pre.gtab i).allocated = true → (r.post.gtab i).allocated = true →
      (r.post.gtab i).terminated.needFinalstate = true →
      (r.pre.gtab i).terminated.needFinalstate = true ∧ ends job r.pre i r.event = false) :
    EndedOnce (h.record job r) r.post.gtab where
  once i g := by
    by_cases hc : ends job r.pre i r.event = true ∧ g = h.gen i
    · obtain ⟨hends, rfl⟩ := hc
      obtain ⟨halloc, hneed⟩ := ends_running hends
      simp [History.record, hends, ho.running i halloc hneed]
    · simpa [History.record, hc] using ho.once i g
  running i hpost hneed := by
    by_cases hpre : (r.pre.gtab i).allocated = true
    · obtain ⟨hneed', hends⟩ := hrun i hpre hpost hneed
      simp [History.record, Record.opened, hpre, hends, ho.running i hpre hneed']
    · simp [History.record, Record.opened, hpre, hpost, ho.unborn i (h.gen i + 1) (by omega)]
  unborn i g hg := by
    have hle : h.gen i ≤ (h.record job r).gen i := Nat.le_add_right _ _
    have hne : g ≠ h.gen i := by omega
    simp [History.record, hne, ho.unborn i g (by omega)]

theorem kept_eq_waitsFor (l : List Request) (S x : ℕ) :
    kept l ⟨S, .join, x⟩ = l.countP (waitsFor S x) := by
  unfold kept
  refine List.countP_congr fun rqe _ => ?_
  unfold waitKey waitsFor
  cases hop : rqe.reqop <;> simp [and_comm]

theorem inFlight_eq_joinedTo {out : List Post} (hno : ∀ post ∈ out, post.2.body.op ≠ .join)
    (S x : ℕ) : inFlight (out.map (pack 0)) ⟨S, .join, x⟩ = out.countP (joinedTo S x) := by
  unfold inFlight
  rw [List.countP_map]
  refine List.countP_congr fun post hpost => ?_
  have hne := hno post hpost
  unfold joinedTo
  cases hb : post.2.body <;> simp [packetKey, pack, hb, Body.op] at hne ⊢

theorem mqeOutcome_no_join {job : Job} {v : View} {mqe : Mqe} {m : Mgr} {gt : ℕ → Gtab}
    {out : List Post} (h : MqeOutcome job v mqe m gt out) :
    ∀ post ∈ out, post.2.body.op ≠ .join := by
  cases h <;> simp [Frame.of, Body.op, joinedPost]

/-- At rank 0 only STARTs and JOINWAITs are pending in these runs. -/
def Internal (l : List Request) : Prop := ∀ rqe ∈ l, rqe.reqop = .start ∨ rqe.reqop = .joinwait

theorem pendingAt_internal {l : List Request} (h : Internal l) (S x : ℕ) :
    pendingAt 0 l ⟨S, .join, x⟩ = 0 := by
  unfold pendingAt
  split
  · rw [List.countP_eq_zero]
    intro rqe hrqe hmatch
    simp only [pendingMatch, Bool.and_eq_true, beq_iff_eq] at hmatch
    rcases h rqe hrqe with hop | hop <;> simp [hop] at hmatch
  · rfl

theorem mqeOutcome_internal {job : Job} {v : View} {mqe : Mqe} {m : Mgr} {gt : ℕ → Gtab}
    {out : List Post} (h : MqeOutcome job v mqe m gt out) (hi : Internal v.mgr.rpending) :
    Internal m.rpending := by
  have hadd (rqe : Request) (hop : rqe.reqop = .start ∨ rqe.reqop = .joinwait) :
      Internal (v.mgr.rpending ++ [rqe]) := by
    intro rqe' hrqe'
    rw [List.mem_append, List.mem_singleton] at hrqe'
    rcases hrqe' with hrqe' | rfl
    · exact hi rqe' hrqe'
    · exact hop
  have herase (f : Request → Bool) : Internal (v.mgr.rpending.eraseP f) :=
    fun rqe hrqe => hi rqe (List.mem_of_mem_eraseP hrqe)
  cases h with
  | createOk => exact hadd _ (.inl rfl)
  | joinWait => exact hadd _ (.inr rfl)
  | detachWait => exact herase _
  | terminatedJoined => exact herase _
  | terminatedDetachedJoined => exact herase _
  | startedOk => exact herase _
  | startedErr => exact herase _
  | reply => exact herase _
  | _ => exact hi

/-- Every JOIN is answered or turned into a JOINWAIT, and every JOINED answers
a JOIN. -/
theorem mqeOutcome_answers {job : Job} {v : View} {mqe : Mqe} {m : Mgr} {gt : ℕ → Gtab}
    {out : List Post} (h : MqeOutcome job v mqe m gt out) (err : ℕ)
    (hi : Internal v.mgr.rpending) (hrank : v.mgr.mpiRank = 0)
    (hop : rank0Only mqe.frame.body.op = true)
    (hlen : mqe.frame.body.size ≤ mqe.frame.flen) (S x : ℕ) :
    out.countP (joinedTo S x) + m.rpending.countP (waitsFor S x) =
      v.mgr.rpending.countP (waitsFor S x) +
        if joinFrom S x (.msg mqe err) = true then 1 else 0 := by
  let p : Packet := ⟨mqe.peer, 0, mqe.frame⟩
  have hworth : worth (packetKey p) ⟨S, .join, x⟩ =
      if joinFrom S x (.msg mqe err) = true then 1 else 0 := by
    unfold worth packetKey joinFrom
    cases hb : mqe.frame.body <;> simp [p, hb, rank0Only, Body.op] at hop hlen ⊢
    rename_i thread
    simp [hlen]
  have hstart : p.frame.body.op = .start → p.src = 0 := by
    intro hs
    simp only [p] at hs
    rw [hs] at hop
    exact Bool.noConfusion hop
  rcases mqeOutcome_balanced (p := p) (k := ⟨S, .join, x⟩) h rfl (fun _ => rfl) hstart with
    ⟨hdrop, rfl, rfl⟩ | hbal
  · have hnone : joinFrom S x (.msg mqe err) = false := by
      cases hb : mqe.frame.body <;> simp only [joinFrom, hb]
      exfalso
      cases hdrop with
      | runt hshort => exact absurd hshort (not_lt.mpr hlen)
      | wrongRank hr h0 => exact hr hrank
      | unmatchedReply op hop' hnone => simp [p, hb, replyTo] at hop'
      | unmatchedStarted e hb' hnone => simp [p, hb] at hb'
      | badTerminated thread fin hb' hbad => simp [p, hb] at hb'
      | unknown code hb' => simp [p, hb] at hb'
    simp [hnone]
  · unfold RequestReply.Balanced at hbal
    rw [pendingAt_internal hi, pendingAt_internal (mqeOutcome_internal h hi),
      inFlight_eq_joinedTo (mqeOutcome_no_join h), hworth] at hbal
    simp only [p, keptAt, if_true, kept_eq_waitsFor] at hbal
    omega

/-- A JOIN that is refused gets its error and changes nothing. -/
theorem mqeOutcome_refused {job : Job} {v : View} {mqe : Mqe} {m : Mgr} {gt : ℕ → Gtab}
    {out : List Post} (h : MqeOutcome job v mqe m gt out) (hw : Waits v.mgr.rpending v.gtab)
    (hrank : v.mgr.mpiRank = 0) (hlen : mqe.frame.body.size ≤ mqe.frame.flen)
    {thread : DThread} {e : ℕ} (hb : mqe.frame.body = .join thread)
    (hr : refusal job v thread = some e) :
    out = [(mqe.peer, .of mqe.frame.xidseq (.joined e nodata))] ∧ gt = v.gtab := by
  unfold refusal at hr
  cases h with
  | drop h =>
    exfalso
    cases h with
    | runt hshort => exact absurd hshort (not_lt.mpr hlen)
    | wrongRank hrank' h0 => exact hrank' hrank
    | unmatchedReply op hop hnone => simp [hb, replyTo] at hop
    | unmatchedStarted e hb' hnone => simp [hb] at hb'
    | badTerminated thread fin hb' hbad => simp [hb] at hb'
    | unknown code hb' => simp [hb] at hb'
  | joinErr thread' e' hb' h =>
    obtain rfl : thread' = thread := by simpa [hb] using hb'.symm
    refine ⟨?_, rfl⟩
    rcases h with ⟨hnone, rfl⟩ | ⟨hsome, rfl, hbusy⟩
    · simp only [hnone, Option.some.injEq] at hr
      rw [hr]
    · have hbusy' : (v.gtab thread'.dtIndex).detached = true ∨
          (joinwaitSearch v thread').isSome = true := by
        rcases hbusy with hdet | ⟨rqe, hrqe⟩
        · exact .inl hdet
        · exact .inr (by simp [hrqe])
      simp only [hsome, hbusy', if_true, Option.some.injEq] at hr
      rw [hr]
  | joinZombie thread' hb' h hdet hz =>
    obtain rfl : thread' = thread := by simpa [hb] using hb'.symm
    exfalso
    cases hs : joinwaitSearch v thread' with
    | none => simp [h, hdet, hs] at hr
    | some rqe =>
      -- a JOINWAIT is for a thread that has not ended
      obtain ⟨hop, hthread⟩ := joinwaitSearch_spec hs
      have hwait := (hw.waiting rqe (joinwaitSearch_mem hs) hop).1.2.2.1
      rw [hthread, hz] at hwait
      exact Bool.noConfusion hwait
  | joinWait thread' n hb' h hdet hz hnone =>
    obtain rfl : thread' = thread := by simpa [hb] using hb'.symm
    simp [h, hdet, hnone] at hr
  | reply op rqe rqe' hop h haddr => simp [hb, replyTo] at hop
  | createErr attrs dispIdx arg e next hb' he hnext => simp [hb] at hb'
  | createOk attrs dispIdx arg n gidx xidseq hb' hdisp hroom hfree hlt hxid hd =>
    simp [hb] at hb'
  | createDrain attrs dispIdx arg gidx xidseq hb' hfree hlt hdrain => simp [hb] at hb'
  | startInvalid thread attrs hb' h => simp [hb] at hb'
  | startOk thread attrs l hb' h hfree hlt => simp [hb] at hb'
  | startFail thread attrs l e hb' h hfree hlt he => simp [hb] at hb'
  | detachNone thread hb' h => simp [hb] at hb'
  | detachPlain thread hb' h hw => simp [hb] at hb'
  | detachWait thread rqe hb' h hw => simp [hb] at hb'
  | cancelErr thread e hb' he h => simp [hb] at hb'
  | cancelMiss thread hb' h => simp [hb] at hb'
  | cancelHit thread l hb' h hl hhas hlt hseq => simp [hb] at hb'
  | terminatedZombie thread fin hb' => simp [hb] at hb'
  | terminatedDetached thread fin hb' => simp [hb] at hb'
  | terminatedJoined thread fin rqe hb' => simp [hb] at hb'
  | terminatedDetachedJoined thread fin rqe hb' => simp [hb] at hb'
  | startedOk rqe hb' h => simp [hb] at hb'
  | startedErr rqe e hb' he h => simp [hb] at hb'

/-- What every state of a run satisfies. -/
structure JoinState (v : View) : Prop where
  mallocs : v.dtq.mallocs = []
  draindown : v.dtq.mpisqDraindown = .init
  rank : v.mgr.mpiRank = 0
  waits : Waits v.mgr.rpending v.gtab
  internal : Internal v.mgr.rpending

/-- What every step of a run does. -/
structure JoinStep (job : Job) (r : Record) : Prop where
  state : JoinState r.post
  move : SlotMove job r.pre r.event r.post.gtab r.posts
  running : Final r.event → ∀ i, (r.pre.gtab i).allocated = true →
    (r.post.gtab i).allocated = true → (r.post.gtab i).terminated.needFinalstate = true →
    (r.pre.gtab i).terminated.needFinalstate = true ∧ ends job r.pre i r.event = false
  answers : ∀ S x, r.posts.countP (joinedTo S x) + r.post.mgr.rpending.countP (waitsFor S x) =
    r.pre.mgr.rpending.countP (waitsFor S x) + if joinFrom S x r.event = true then 1 else 0
  refused : ∀ mqe err thread e, r.event = .msg mqe err →
    mqe.frame.body = .join thread → mqe.frame.body.size ≤ mqe.frame.flen →
    refusal job r.pre thread = some e →
    r.posts = [(mqe.peer, .of mqe.frame.xidseq (.joined e nodata))] ∧ r.post.gtab = r.pre.gtab

theorem posts_of_effect {v v' : View} {e : Event} {m : Mgr} {gt : ℕ → Gtab} {out : List Post}
    (h : Effect v v' m gt out) (hd : v.dtq.mpisqDraindown = .init) :
    (Record.mk v e v').posts = out := by
  have hp := h.posted
  rw [if_pos hd] at hp
  simp only [Record.posts, hp]
  rw [List.drop_left' (by simp)]

/-- A message that is handled. -/
theorem joinStep_outcome {job : Job} {v v' : View} {mqe : Mqe} {err : ℕ} {m : Mgr}
    {gt : ℕ → Gtab} {out : List Post} (hv : JoinState v)
    (h : MqeOutcome job v mqe m gt out) (heff : Effect v v' m gt out)
    (hop : rank0Only mqe.frame.body.op = true) (hlen : mqe.frame.body.size ≤ mqe.frame.flen)
    (ha : Allowed v (.msg mqe err)) : JoinStep job ⟨v, .msg mqe err, v'⟩ := by
  obtain rfl := heff.mgr
  obtain rfl := heff.gtab
  have hposts := posts_of_effect (e := .msg mqe err) heff hv.draindown
  exact {
    state := {
      mallocs := heff.mallocs hv.mallocs
      draindown := heff.draindown.trans hv.draindown
      rank := (mqeOutcome_mpiRank h).trans hv.rank
      waits := mqeOutcome_waits h hv.waits hv.draindown ha
      internal := mqeOutcome_internal h hv.internal }
    move := hposts.symm ▸ mqeOutcome_slotMove h hv.waits hop hv.draindown ha
    running := fun hf => mqeOutcome_running h hop hlen hv.rank hf
    answers := hposts.symm ▸ mqeOutcome_answers h err hv.internal hv.rank hop hlen
    refused := by
      intro mqe' err' thread e heq hb hlen' hr
      obtain ⟨rfl, rfl⟩ := Event.msg.inj heq
      rw [hposts]
      exact mqeOutcome_refused h hv.waits hv.rank hlen' hb hr }

/-- A step in which the manager sends nothing and keeps its requests, and the
table changes only as owners change it. -/
theorem joinStep_silent {job : Job} {v : View} {e : Event} {gtab : ℕ → Gtab} {q : Dtq}
    (hv : JoinState v) (hq : SameTraffic v.dtq q) (hown : ∀ i, OwnerWrite (v.gtab i) (gtab i))
    (hzombie : ∀ i, (v.gtab i).allocated = true →
      (v.gtab i).terminated.needFinalstate = false → gtab i = v.gtab i)
    (hends : ∀ i, ends job v i e = false) (hjoin : ∀ S x, joinFrom S x e = false)
    (hshort : ∀ mqe err, e = .msg mqe err → mqe.frame.flen < mqe.frame.body.size) :
    JoinStep job ⟨v, e, { v with gtab := gtab, dtq := q }⟩ := by
  have halloc (i : ℕ) : (gtab i).allocated = (v.gtab i).allocated := by rw [hown i]
  have hterm (i : ℕ) : (gtab i).terminated = (v.gtab i).terminated := by rw [hown i]
  have hdet (i : ℕ) : (gtab i).detached = (v.gtab i).detached := by rw [hown i]
  have hseq (i : ℕ) : (gtab i).seq = (v.gtab i).seq := by rw [hown i]
  have hposts : (Record.mk v e { v with gtab := gtab, dtq := q }).posts = [] := by
    simp [Record.posts, hq.accepted]
  refine ⟨⟨hq.mallocs hv.mallocs, hq.draindown.trans hv.draindown, hv.rank, ⟨?_, hv.waits.single⟩,
    hv.internal⟩, ?_, ?_, ?_, ?_⟩
  · intro rqe hrqe hop
    obtain ⟨⟨h1, h2, h3, h4⟩, h5⟩ := hv.waits.waiting rqe hrqe hop
    refine ⟨⟨(halloc _).trans h1, ?_, (hterm _).symm ▸ h3, ?_⟩, h5⟩
    · exact (hdet _).trans h2
    · exact (hseq _).trans h4
  · refine .keep halloc (fun i hi hz => ?_) (by rw [hposts]; rfl)
    simp only at hi hz ⊢
    rw [halloc] at hi
    rw [hterm] at hz
    exact ⟨by rw [hzombie i hi hz], .inl hz⟩
  · intro _ i _ _ hneed
    simp only [hterm] at hneed
    exact ⟨hneed, hends i⟩
  · intro S x
    simp [hposts, hjoin]
  · intro mqe err thread e' heq hb hlen hr
    exact absurd (hshort mqe err heq) (not_lt.mpr hlen)

theorem joinStep {job : Job} {v v' : View} {e : Event} (hv : JoinState v)
    (hs : Mgr0Step job v e v') (ha : Allowed v e) : JoinStep job ⟨v, e, v'⟩ := by
  cases hs with
  | write gtab h =>
    exact joinStep_silent hv (SameTraffic.refl _) h ha (fun _ => rfl) (fun _ _ => rfl)
      (fun _ _ heq => Event.noConfusion heq)
  | msg mqe err _ hop h =>
    rcases processMqe_rank0 hv.rank hop h with ⟨q, rfl, hq, hshort⟩ | ⟨hlen, -⟩
    · have hown (i : ℕ) : OwnerWrite (v.gtab i) (v.gtab i) := rfl
      refine joinStep_silent hv hq hown (fun _ _ _ => rfl) (fun i => ?_) (fun S x => ?_)
        (fun mqe' err' heq => ?_)
      · cases hb : mqe.frame.body <;> simp only [ends, hb]
        rw [hb] at hshort
        simp [hshort.ne]
      · cases hb : mqe.frame.body <;> simp only [joinFrom, hb]
        rw [hb] at hshort
        simp [hshort]
      · obtain ⟨rfl, rfl⟩ := Event.msg.inj heq
        exact hshort
    · rcases processMqe_outcome job v v' mqe err hv.mallocs h with ⟨hb, -⟩ | ⟨m, gt, out, ho, heff⟩
      · simp [hb, rank0Only, Body.op] at hop
      · exact joinStep_outcome hv ho heff hop hlen ha

theorem joinState_start (job : Job) {q : Dtq} (hq : q.mallocs = [])
    (hd : q.mpisqDraindown = .init) : JoinState (mgr0Start job q) where
  mallocs := hq
  draindown := hd
  rank := rfl
  waits := ⟨fun _ hrqe => absurd hrqe List.not_mem_nil, fun _ => Nat.zero_le 1⟩
  internal := fun _ hrqe => absurd hrqe List.not_mem_nil

theorem history_snoc (job : Job) (log : List Record) (r : Record) :
    history job (log ++ [r]) = (history job log).record job r := by
  simp [history]

/-- The state of a run and the ledger of its history. -/
structure JoinInvariant (job : Job) (log : List Record) (v : View) : Prop where
  state : JoinState v
  ledger : Ledger (history job log) v.gtab
  ended : (∀ r ∈ log, Final r.event) → EndedOnce (history job log) v.gtab
  answered : ∀ S x, (history job log).answered S x + v.mgr.rpending.countP (waitsFor S x) =
    (history job log).asked S x
  steps : ∀ r ∈ log, JoinStep job r

theorem joinInvariant_start (job : Job) {q : Dtq} (hq : q.mallocs = [])
    (hd : q.mpisqDraindown = .init) : JoinInvariant job [] (mgr0Start job q) where
  state := joinState_start job hq hd
  ledger := ledger_start job q
  ended := fun _ => ⟨fun _ _ => Nat.zero_le 1, fun _ _ _ => rfl, fun _ _ _ => rfl⟩
  answered := fun _ _ => rfl
  steps := fun _ hr => absurd hr List.not_mem_nil

theorem joinInvariant_snoc {job : Job} {log : List Record} {v v' : View} {e : Event}
    (h : JoinInvariant job log v) (hs : JoinStep job ⟨v, e, v'⟩) :
    JoinInvariant job (log ++ [⟨v, e, v'⟩]) v' where
  state := hs.state
  ledger := by
    rw [history_snoc]
    exact ledger_record h.ledger hs.move
  ended hf := by
    rw [history_snoc]
    have hlast : Final e := hf ⟨v, e, v'⟩ (by simp)
    refine endedOnce_record (r := ⟨v, e, v'⟩) (h.ended fun r hr => ?_) (hs.running hlast)
    exact hf r (List.mem_append_left _ hr)
  answered S x := by
    have hold := h.answered S x
    have hstep := hs.answers S x
    rw [history_snoc]
    simp only [History.record] at hstep ⊢
    omega
  steps r hr := by
    rw [List.mem_append, List.mem_singleton] at hr
    rcases hr with hr | rfl
    · exact h.steps r hr
    · exact hs

theorem JoinRun.invariant {job : Job} {q : Dtq} {log : List Record} {v : View}
    (hq : q.mallocs = []) (hd : q.mpisqDraindown = .init)
    (h : JoinRun job (mgr0Start job q) log v) : JoinInvariant job log v := by
  induction h with
  | nil => exact joinInvariant_start job hq hd
  | snoc _ hs ha ih => exact joinInvariant_snoc ih (joinStep ih.state hs ha)

/-- In every run of the rank 0 manager joins succeed once for each incarnation
of a slot, with the value of its thread, and every JOIN is answered once. -/
theorem joins_exactly_once {job : Job} {q : Dtq} {log : List Record} {v : View}
    (hq : q.mallocs = []) (hd : q.mpisqDraindown = .init)
    (h : JoinRun job (mgr0Start job q) log v) : JoinsTruthful job log v := by
  have hinv := h.invariant hq hd
  have hfrees (i g : ℕ) : (history job log).frees i g ≤ 1 := by
    rw [hinv.ledger.freed]
    split <;> omega
  exact {
    waiting := fun rqe hrqe hop => (hinv.state.waits.waiting rqe hrqe hop).1
    single := hinv.state.waits.single
    once := fun i g => (hinv.ledger.joined i g).trans (hfrees i g)
    ended := fun hf => (hinv.ended hf).once
    value := hinv.ledger.value
    freed := hinv.ledger.freed
    freedByJoin := fun i g hne => by
      have hpos := List.length_pos_iff.mpr hne
      have hle := hinv.ledger.joined i g
      have hone := hfrees i g
      omega
    answered := hinv.answered
    refused := fun r hr => (hinv.steps r hr).refused }

/-- A thread is created, joined while it runs, and ends: its first incarnation
is joined once. -/
theorem joins_exactly_once_waiting :
    ∃ log v, JoinRun twoRanks (mgr0Start twoRanks dtqInit) log v ∧
      JoinsTruthful twoRanks log v ∧ ((history twoRanks log).joined 1 1).length = 1 ∧
      (history twoRanks log).frees 1 1 = 1 := by
  have hrun : JoinRun twoRanks (mgr0Start twoRanks dtqInit) _ _ := .snoc (.snoc (.snoc .nil
    (.msg ⟨0, 0, .of 4 createBody⟩ 0 _ rfl rfl) (fun _ hb => Body.noConfusion hb))
    (.msg ⟨0, 1, .of 8 (.join ⟨1, 4⟩)⟩ 0 _ rfl rfl) (fun _ hb => Body.noConfusion hb))
    (.msg ⟨0, 1, .of 0 (.terminated ⟨1, 4⟩ .returned)⟩ 0 _ rfl rfl)
    (fun _ hb => Body.noConfusion hb)
  exact ⟨_, _, hrun, joins_exactly_once rfl rfl hrun, rfl, rfl⟩

end Dthread.Joins
