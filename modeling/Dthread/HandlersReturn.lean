import Dthread.BroadcastTree
import Dthread.Handles
import Dthread.StartSlots
import Dthread.TableCounts

/-!
The managers never hang. Every message on its way goes to a rank of the job,
every queued call carries its message, the searches for a slot or a sequence
number succeed, and so every handler returns in every state of the job.
-/
namespace Dthread.HandlersReturn

open ReqMsg Queuing ManagerTables ManagerHandlers ManagerEffects ManagerOutcomes AppThreads
open FifoNet JobSystem TableWrites RequestReply LocalSlots ThreadLife LifeRefinement TableSteps
open SequenceSource Handles

/-- The ranks that a request names are ranks of the job. -/
structure Addressed (job : Job) (rqe : Request) : Prop where
  peer : rqe.reqpeer < job.wsize
  creator : rqe.creinfo.cPeer < job.wsize
  message : ∀ mqe, rqe.mqe = some mqe → mqe.peer < job.wsize

/-- A request in a manager's queue. -/
structure Carried (job : Job) (rqe : Request) : Prop where
  addressed : Addressed job rqe
  message : forwarded rqe.reqop = true → rqe.mqe.isSome = true

/-- Every rank that the state mentions is a rank of the job. -/
structure Routed (job : Job) (s : Sys) : Prop where
  next : ∀ r, (s.rk r).mgr.nextRank < job.wsize
  entry : ∀ i, (s.gtab i).rank < job.wsize
  packet : ∀ p ∈ s.net, p.src < job.wsize ∧ p.dst < job.wsize
  queued : ∀ r, ∀ rqe ∈ (s.rk r).dtq.mgrreqq, Carried job rqe
  kept : ∀ r, ∀ rqe ∈ (s.rk r).mgr.rpending, Addressed job rqe

section Ranks

variable {job : Job} {gt : ℕ → Gtab}

theorem rank_update {k : ℕ} {g : Gtab} (hgt : ∀ i, (gt i).rank < job.wsize)
    (hg : g.rank < job.wsize) (i : ℕ) : (Function.update gt k g i).rank < job.wsize := by
  by_cases hi : i = k
  · rwa [hi, Function.update_self]
  · rw [Function.update_of_ne hi]
    exact hgt i

theorem rank_freeGtab (hgt : ∀ i, (gt i).rank < job.wsize) (k i : ℕ) :
    (freeGtab gt k i).rank < job.wsize := by
  unfold freeGtab
  split
  · apply rank_update hgt
    exact hgt k
  · exact hgt i

theorem rank_zombieGtab (hgt : ∀ i, (gt i).rank < job.wsize) (thread : DThread) (fin : LtState)
    (i : ℕ) : (zombieGtab gt thread fin i).rank < job.wsize := by
  apply rank_update hgt
  exact hgt thread.dtIndex

theorem rank_cleanupGtab (hgt : ∀ i, (gt i).rank < job.wsize) (k i : ℕ) :
    (cleanupGtab job gt k i).rank < job.wsize := by
  unfold cleanupGtab
  split
  · exact hgt i
  · apply rank_update hgt
    exact hgt k

theorem rank_retcleanGtab (hgt : ∀ i, (gt i).rank < job.wsize) (m : Mgr) (l i : ℕ) :
    (retcleanGtab m gt l i).rank < job.wsize := by
  unfold retcleanGtab
  split
  · apply rank_update hgt
    exact hgt (m.ltab l).gtabIdx
  · exact hgt i

theorem bcasts_lt (job : Job) (r : ℕ) : ∀ post ∈ bcasts job r, post.1 < job.wsize := by
  intro post hpost
  obtain ⟨child, hchild, rfl⟩ := List.mem_map.mp hpost
  exact ((BroadcastTree.mem_binaryRouter job.wsize_pos).mp hchild).1

end Ranks

section Outcomes

variable {job : Job} {v : View} {m : Mgr} {gt : ℕ → Gtab} {out : List Post}

/-- What a handler leaves when all ranks it sees are ranks of the job. -/
structure RoutedResult (job : Job) (m : Mgr) (gt : ℕ → Gtab) (out : List Post) : Prop where
  next : m.nextRank < job.wsize
  entry : ∀ i, (gt i).rank < job.wsize
  posts : ∀ post ∈ out, post.1 < job.wsize
  kept : ∀ rqe ∈ m.rpending, Addressed job rqe

theorem addressed_eraseP {l : List Request} (h : ∀ rqe ∈ l, Addressed job rqe)
    (f : Request → Bool) : ∀ rqe ∈ l.eraseP f, Addressed job rqe :=
  fun rqe hrqe => h rqe (List.mem_of_mem_eraseP hrqe)

theorem addressed_append {l : List Request} (h : ∀ rqe ∈ l, Addressed job rqe) {rqe : Request}
    (hrqe : Addressed job rqe) : ∀ rqe' ∈ l ++ [rqe], Addressed job rqe' := by
  intro rqe' hmem
  rw [List.mem_append, List.mem_singleton] at hmem
  rcases hmem with hold | rfl
  · exact h rqe' hold
  · exact hrqe

theorem mqeOutcome_routed {mqe : Mqe} (h : MqeOutcome job v mqe m gt out)
    (hpeer : mqe.peer < job.wsize) (hnext : v.mgr.nextRank < job.wsize)
    (hgt : ∀ i, (v.gtab i).rank < job.wsize)
    (hkept : ∀ rqe ∈ v.mgr.rpending, Addressed job rqe) : RoutedResult job m gt out := by
  have hpos := job.wsize_pos
  have hself (body : Body) : ∀ post ∈ [(mqe.peer, Frame.of mqe.frame.xidseq body)],
      post.1 < job.wsize := by
    intro post hpost
    rw [List.mem_singleton.mp hpost]
    exact hpeer
  have hzero (body : Body) : ∀ post ∈ [((0 : ℕ), Frame.of mqe.frame.xidseq body)],
      post.1 < job.wsize := by
    intro post hpost
    rw [List.mem_singleton.mp hpost]
    exact hpos
  have hwaiter {thread : DThread} {rqe : Request} (hw : joinwaitSearch v thread = some rqe) :
      rqe.reqpeer < job.wsize := (hkept rqe (List.mem_of_find?_eq_some hw)).peer
  have hjoined {rqe : Request} (hrqe : rqe.reqpeer < job.wsize) (ret : Argret) :
      ∀ post ∈ [joinedPost rqe ret], post.1 < job.wsize := by
    intro post hpost
    rw [List.mem_singleton.mp hpost]
    exact hrqe
  cases h with
  | drop h => exact ⟨hnext, hgt, by simp, hkept⟩
  | createErr attrs dispIdx arg e next hb he hnext' =>
    refine ⟨?_, hgt, hself _, hkept⟩
    rcases hnext' with rfl | rfl
    · exact hnext
    · exact Nat.mod_lt _ hpos
  | createOk attrs dispIdx arg n gidx xidseq hb hdisp hroom hfree hlt hxid hd =>
    refine ⟨Nat.mod_lt _ hpos, rank_update hgt hnext, ?_, addressed_append hkept ?_⟩
    · intro post hpost
      rw [List.mem_singleton.mp hpost]
      exact hnext
    · exact ⟨hnext, hpeer, nofun⟩
  | createDrain attrs dispIdx arg gidx xidseq hb hfree hlt hd =>
    exact ⟨Nat.mod_lt _ hpos, rank_update hgt hnext, hself _, hkept⟩
  | startInvalid thread attrs hb h => exact ⟨hnext, hgt, hzero _, hkept⟩
  | startOk thread attrs l hb h hfree hlt => exact ⟨hnext, hgt, hzero _, hkept⟩
  | startFail thread attrs l e hb h hfree hlt he => exact ⟨hnext, hgt, hzero _, hkept⟩
  | detachNone thread hb h => exact ⟨hnext, hgt, hself _, hkept⟩
  | detachPlain thread hb h hw =>
    refine ⟨hnext, rank_update hgt ?_, hself _, hkept⟩
    exact hgt thread.dtIndex
  | detachWait thread rqe hb h hw =>
    refine ⟨hnext, rank_update hgt ?_, ?_, addressed_eraseP hkept _⟩
    · exact hgt thread.dtIndex
    intro post hpost
    rw [List.mem_pair] at hpost
    rcases hpost with rfl | rfl
    · exact hpeer
    · exact hwaiter hw
  | cancelErr thread e hb he h => exact ⟨hnext, hgt, hself _, hkept⟩
  | cancelMiss thread hb h => exact ⟨hnext, hgt, hself _, hkept⟩
  | cancelHit thread l hb h hl hhas hlt hseq => exact ⟨hnext, hgt, hself _, hkept⟩
  | joinErr thread e hb h => exact ⟨hnext, hgt, hself _, hkept⟩
  | joinZombie thread hb h hdet hz => exact ⟨hnext, rank_freeGtab hgt _, hself _, hkept⟩
  | joinWait thread n hb h hdet hz hw =>
    exact ⟨hnext, hgt, by simp, addressed_append hkept ⟨hpeer, hpos, nofun⟩⟩
  | terminatedZombie thread fin hb hlen hlt hseq hfin hdet hw =>
    exact ⟨hnext, rank_zombieGtab hgt _ _, by simp, hkept⟩
  | terminatedDetached thread fin hb hlen hlt hseq hfin hdet hw =>
    exact ⟨hnext, rank_freeGtab (rank_cleanupGtab (rank_zombieGtab hgt _ _) _) _, by simp, hkept⟩
  | terminatedJoined thread fin rqe hb hlen hlt hseq hfin hdet hw =>
    exact ⟨hnext, rank_freeGtab (rank_zombieGtab hgt _ _) _, hjoined (hwaiter hw) _,
      addressed_eraseP hkept _⟩
  | terminatedDetachedJoined thread fin rqe hb hlen hlt hseq hfin hdet hw =>
    refine ⟨hnext, rank_freeGtab (rank_cleanupGtab (rank_zombieGtab hgt _ _) _) _, ?_,
      addressed_eraseP hkept _⟩
    intro post hpost
    rw [List.mem_singleton.mp hpost]
    exact hwaiter hw
  | startedOk rqe hb h =>
    refine ⟨hnext, hgt, ?_, addressed_eraseP hkept _⟩
    intro post hpost
    rw [List.mem_singleton.mp hpost]
    exact (hkept rqe (List.mem_of_find?_eq_some h)).creator
  | startedErr rqe e hb he h =>
    refine ⟨hnext, rank_freeGtab hgt _, ?_, addressed_eraseP hkept _⟩
    intro post hpost
    rw [List.mem_singleton.mp hpost]
    exact (hkept rqe (List.mem_of_find?_eq_some h)).creator
  | reply op rqe rqe' hop h haddr => exact ⟨hnext, hgt, by simp, addressed_eraseP hkept _⟩

theorem reqOutcome_routed {rqe : Request} (h : ReqOutcome job v rqe m gt out)
    (hrqe : Addressed job rqe) (hnext : v.mgr.nextRank < job.wsize)
    (hgt : ∀ i, (v.gtab i).rank < job.wsize)
    (hkept : ∀ rqe ∈ v.mgr.rpending, Addressed job rqe) : RoutedResult job m gt out := by
  cases h with
  | bad h => exact ⟨hnext, hgt, by simp, hkept⟩
  | forward l mqe xidseq haddr hlt hbusy hop hmqe hxid hd =>
    refine ⟨hnext, hgt, ?_, addressed_append hkept ⟨hrqe.peer, hrqe.creator, nofun⟩⟩
    intro post hpost
    rw [List.mem_singleton.mp hpost]
    exact hrqe.message mqe hmqe
  | forwardDrain l xidseq haddr hlt hbusy hop hd => exact ⟨hnext, hgt, by simp, hkept⟩
  | retclean l haddr hlt hbusy hop =>
    refine ⟨hnext, rank_retcleanGtab hgt _ _, ?_, hkept⟩
    intro post hpost
    rw [List.mem_singleton.mp hpost]
    exact job.wsize_pos
  | app0Other l haddr hop hrank => exact ⟨hnext, hgt, by simp, hkept⟩

theorem requestPeer_lt {gtab : ℕ → Gtab} {self peer : ℕ} {body : Body}
    (hgt : ∀ i, (gtab i).rank < job.wsize)
    (h : requestPeer job gtab self body = some peer) : peer < job.wsize := by
  have hpos := job.wsize_pos
  cases body with
  | cancel thread =>
    simp only [requestPeer, Option.map_eq_some_iff] at h
    obtain ⟨i, -, rfl⟩ := h
    exact hgt i
  | create attrs dispIdx arg =>
    obtain rfl := (requestPeer_rank0 h).2 rfl
    exact hpos
  | detach thread =>
    obtain rfl := (requestPeer_rank0 h).2 rfl
    exact hpos
  | join thread =>
    obtain rfl := (requestPeer_rank0 h).2 rfl
    exact hpos
  | _ => simp [requestPeer] at h

end Outcomes

namespace Routed

variable {job : Job} {s s' : Sys} {r : ℕ} {m : Mgr} {gt : ℕ → Gtab} {rq : List Request}
  {net : List Packet} {posts : List Post}

theorem change (h : Routed job s) (hc : Change s s' r m gt rq net posts) (hr : r < job.wsize)
    (hres : RoutedResult job m gt posts) (hnet : ∀ p ∈ net, p ∈ s.net)
    (hrq : ∀ rqe ∈ rq, Carried job rqe) : Routed job s' := by
  refine ⟨?_, ?_, ?_, ?_, ?_⟩
  · intro k
    by_cases hk : k = r
    · subst hk
      rw [hc.mgr]
      exact hres.next
    · rw [hc.others k hk]
      exact h.next k
  · rw [hc.gtab]
    exact hres.entry
  · intro p hp
    rw [hc.net, List.mem_append, List.mem_map] at hp
    rcases hp with hp | ⟨post, hpost, rfl⟩
    · exact h.packet p (hnet p hp)
    · exact ⟨hr, hres.posts post hpost⟩
  · intro k
    by_cases hk : k = r
    · subst hk
      rw [hc.mgrreqq]
      exact hrq
    · rw [hc.others k hk]
      exact h.queued k
  · intro k
    by_cases hk : k = r
    · subst hk
      rw [hc.mgr]
      exact hres.kept
    · rw [hc.others k hk]
      exact h.kept k

theorem init (job : Job) : Routed job (sysInit job) := by
  have hpos := job.wsize_pos
  refine ⟨?_, ?_, by simp [sysInit], ?_, by simp [sysInit_rpending]⟩
  · intro r
    by_cases hr : r = 0
    · subst hr
      exact Nat.mod_lt _ hpos
    · simpa [sysInit, hr, mgrInit] using hpos
  · exact rank_update (fun _ => hpos) hpos
  · intro r rqe hrqe
    by_cases hr : r = 0
    · subst hr
      simp [sysInit, mgrStartapp, dtqInit] at hrqe
    · simp [sysInit, hr, dtqInit] at hrqe

/-- A thread queues requests that carry their message. -/
theorem app (h : Routed job s) {l : ℕ} {lt₀ lt : Ltab} {g : Gtab}
    (ho : AppOutcome job l lt₀ s.gtab lt g rq) :
    g.rank < job.wsize ∧ ∀ rqe ∈ rq, Carried job rqe := by
  have hpos := job.wsize_pos
  have hself := h.entry lt₀.gtabIdx
  have hown (op : Op) (hop : forwarded op = false) :
      ∀ rqe ∈ [threadRequest l 0 op none], Carried job rqe := by
    intro rqe hrqe
    rw [List.mem_singleton.mp hrqe]
    refine ⟨⟨hpos, hpos, nofun⟩, fun hf => ?_⟩
    have hf' : forwarded op = true := hf
    rw [hop] at hf'
    exact Bool.noConfusion hf'
  cases ho with
  | retclean state ret hpc hfinal hkeep => exact ⟨hself, hown .retclean rfl⟩
  | app0Return hpc hidle hdisp => exact ⟨hself, hown .app0Ret rfl⟩
  | post body peer addr hpc hidle hpeer =>
    have hlt := requestPeer_lt h.entry hpeer
    refine ⟨hself, fun rqe hrqe => ?_⟩
    rw [List.mem_singleton.mp hrqe]
    refine ⟨⟨hlt, hpos, fun mqe hmqe => ?_⟩, fun _ => rfl⟩
    obtain rfl : _ = mqe := Option.some.inj hmqe
    exact hlt
  | silent hpc hbad => exact ⟨hself, by simp⟩
  | publish hpc hseq => exact ⟨hself, by simp⟩
  | collect hpc hdone => exact ⟨hself, by simp⟩
  | leave pc state ret hpc hpc' hstate => exact ⟨hself, by simp⟩

theorem step (h : Routed job s) {o : Option Packet} (hs : StepCase job s s' o) : Routed job s' := by
  have hsent {r : ℕ} {m : Mgr} {gt : ℕ → Gtab} {out : List Post}
      (hres : RoutedResult job m gt out) : RoutedResult job m gt (sent s r out) :=
    ⟨hres.next, hres.entry, fun post hpost => hres.posts post (mem_sent hpost), hres.kept⟩
  have hshut {r k : ℕ} {m : Mgr} {rq : List Request} {net : List Packet}
      (hc : Change s s' r m s.gtab rq net (sent s r (bcasts job k))) (hr : r < job.wsize)
      (hm : m.nextRank = (s.rk r).mgr.nextRank) (hm' : m.rpending = (s.rk r).mgr.rpending)
      (hnet : ∀ p ∈ net, p ∈ s.net) (hrq : ∀ rqe ∈ rq, rqe ∈ (s.rk r).dtq.mgrreqq) :
      Routed job s' := by
    have hres : RoutedResult job m s.gtab (bcasts job k) :=
      ⟨hm ▸ h.next r, h.entry, bcasts_lt job k, hm' ▸ h.kept r⟩
    exact h.change hc hr (hsent hres) hnet fun rqe hrqe => h.queued r rqe (hrq rqe hrqe)
  cases hs with
  | app r l lt gt rq hr hl hdd ho hc =>
    obtain ⟨hg, hrq⟩ := h.app ho
    refine h.change hc hr ⟨h.next r, rank_update h.entry hg, by simp, h.kept r⟩ (fun _ => id) ?_
    intro rqe hrqe
    rw [List.mem_append] at hrqe
    rcases hrqe with hold | hnew
    · exact h.queued r rqe hold
    · exact hrq rqe hnew
  | recv p net addr m gt out hr hd hdd ho hc =>
    have hsrc := (h.packet p hd.mem).1
    have hres := mqeOutcome_routed ho hsrc (h.next p.dst) h.entry (h.kept p.dst)
    exact h.change hc hr (hsent hres) (fun _ => hd.mem_of_mem) (h.queued p.dst)
  | recvShutdown p net hr hd hb hdd hc =>
    exact hshut hc hr rfl rfl (fun _ => hd.mem_of_mem) fun _ => id
  | req r rqe rest m gt out hr hq hdd ho hc =>
    have hqueued := h.queued r
    rw [hq] at hqueued
    have hhead := hqueued rqe List.mem_cons_self
    have hres := reqOutcome_routed ho hhead.addressed (h.next r) h.entry (h.kept r)
    exact h.change hc hr (hsent hres) (fun _ => id)
      fun rqe' hrqe' => hqueued rqe' (List.mem_cons_of_mem _ hrqe')
  | reqShutdown r l rqe rest hr hq hop haddr hrank hdd hc =>
    refine hshut hc hr rfl rfl (fun _ => id) fun rqe' hrqe' => ?_
    rw [hq]
    exact List.mem_cons_of_mem _ hrqe'
  | shutdown hidle hdrain hdd hc =>
    exact hshut hc job.wsize_pos rfl rfl (fun _ => id) fun _ => id

end Routed

theorem reachable_routed {job : Job} {s : Sys} (h : Reachable job s) : Routed job s :=
  h.invariant (Routed.init job) fun _ _ _ hi hs => hi.step hs

/-- An invariant of the managers alone. -/
theorem reachable_mgr {job : Job} {I : Mgr → Prop} {s : Sys} (h : Reachable job s)
    (hinit : ∀ r, I ((sysInit job).rk r).mgr) (hltab : ∀ m ltab, I m → I { m with ltab := ltab })
    (hdrain : ∀ m, I m → I { m with draining := true })
    (hmqe : ∀ v mqe m gt out, MqeOutcome job v mqe m gt out → I v.mgr → I m)
    (hreq : ∀ v rqe m gt out, ReqOutcome job v rqe m gt out → I v.mgr → I m) (r : ℕ) :
    I (s.rk r).mgr := by
  revert r
  refine h.invariant (I := fun s => ∀ r, I (s.rk r).mgr) hinit ?_
  intro o s s' _ ih hs r
  have hput {k : ℕ} {m : Mgr} {gt : ℕ → Gtab} {rq : List Request} {net : List Packet}
      {posts : List Post} (hc : Change s s' k m gt rq net posts) (hm : I m) : I (s'.rk r).mgr := by
    by_cases hr : r = k
    · subst hr
      rwa [hc.mgr]
    · rw [hc.others r hr]
      exact ih r
  cases hs with
  | app k l lt gt rq hk hl hdd ho hc => exact hput hc (hltab _ _ (ih k))
  | recv p net addr m gt out hk hd hdd ho hc => exact hput hc (hmqe _ _ _ _ _ ho (ih p.dst))
  | recvShutdown p net hk hd hb hdd hc => exact hput hc (hdrain _ (ih p.dst))
  | req k rqe rest m gt out hk hq hdd ho hc => exact hput hc (hreq _ _ _ _ _ ho (ih k))
  | reqShutdown k l rqe rest hk hq hop haddr hrank hdd hc =>
    exact hput hc (hltab _ _ (hdrain _ (ih k)))
  | shutdown hidle hdrain' hdd hc => exact hput hc (hdrain _ (ih 0))

theorem reachable_lastSlot_lt {job : Job} {s : Sys} (h : Reachable job s) (r : ℕ) :
    (s.rk r).mgr.lastSlot < job.nmaxthread := by
  refine reachable_mgr (I := fun m => m.lastSlot < job.nmaxthread) h ?_ (fun _ _ hm => hm)
    (fun _ hm => hm) ?_ ?_ r
  · intro k
    have hzero : ((sysInit job).rk k).mgr.lastSlot = 0 := by
      by_cases hk : k = 0
      · subst hk
        rfl
      · simp [sysInit, hk, mgrInit]
    rw [hzero]
    exact job.nmaxthread_pos
  · intro v mqe m gt out ho hm
    cases ho with
    | createOk attrs dispIdx arg n gidx xidseq hb hdisp hroom hfree hlt hxid hd => exact hlt
    | createDrain attrs dispIdx arg gidx xidseq hb hfree hlt hd => exact hlt
    | _ => exact hm
  · intro v rqe m gt out ho hm
    cases ho <;> exact hm

section Source

variable {job : Job} {v v' : View}

/-- The source of a manager is at a place of its cycle. -/
def OnCycle (job : Job) (m : Mgr) : Prop :=
  ∃ k < seqPeriod job m.mpiRank, m.seqsrc = seqAt job m.mpiRank k

theorem OnCycle.congr {m m' : Mgr} (h : OnCycle job m) (hrank : m'.mpiRank = m.mpiRank)
    (hsrc : m'.seqsrc = m.seqsrc) : OnCycle job m' := by
  unfold OnCycle at h ⊢
  rwa [hrank, hsrc]

theorem OnCycle.tableRun {ops : List Generations.Op} (h : OnCycle job v.mgr)
    (hr : v.mgr.mpiRank < job.wsize) (hrun : TableRun job v ops v') : OnCycle job v'.mgr := by
  obtain ⟨k, hk, hsrc⟩ := h
  obtain ⟨hsteps, hrank⟩ := hrun.steps
  have hmoved : v'.mgr.seqsrc =
      (seqNext job v.mgr.mpiRank)^[Generations.draws ops] v.mgr.seqsrc := hsteps.src_eq
  rw [hsrc, iterate_seqNext_seqAt hr hk] at hmoved
  unfold OnCycle
  rw [hrank]
  exact ⟨_, Nat.mod_lt _ (seqPeriod_pos hr), hmoved⟩

theorem onCycle_init (job : Job) {r : ℕ} (hr : r < job.wsize) :
    OnCycle job ((sysInit job).rk r).mgr := by
  by_cases h0 : r = 0
  · subst h0
    have hfirst := seqNext_seqAt hr (seqPeriod_pos hr)
    rw [← seqsrc_start hr] at hfirst
    exact ⟨_, Nat.mod_lt _ (seqPeriod_pos hr), hfirst⟩
  · have hrk : ((sysInit job).rk r).mgr = mgrInit job r := by simp [sysInit, h0]
    rw [hrk]
    exact ⟨0, seqPeriod_pos hr, seqsrc_start hr⟩

theorem reachable_onCycle {s : Sys} (h : Reachable job s) {r : ℕ} (hr : r < job.wsize) :
    OnCycle job (s.rk r).mgr := by
  induction h with
  | refl => exact onCycle_init job hr
  | @tail s s' hs hstep ih =>
    have hsane := Reachable.sane hs
    have hput {k : ℕ} {net : List Packet} {w : View}
        (hw : k = r → OnCycle job w.mgr) :
        OnCycle job (({ s with net := net }.put k w).rk r).mgr := by
      by_cases hk : k = r
      · subst hk
        simpa [Sys.put] using hw rfl
      · simpa [Sys.put, Function.update_of_ne (Ne.symm hk)] using ih
    cases hstep with
    | app k l w hk hl h =>
      refine hput fun hkr => ?_
      subst hkr
      obtain ⟨lt, gt, rq, -, he⟩ := appStep_outcome job l (s.view k) w (hsane.quiet k).1 h
      rw [he.mgr]
      exact ih.congr rfl rfl
    | recv p net addr err w hk hd h =>
      refine hput fun hkr => ?_
      subst hkr
      obtain ⟨ops, hrun⟩ := (processMqe_tableRun h).1
      exact OnCycle.tableRun (v := s.view p.dst) ih (by rw [Sys.view, hsane.rank]; exact hr) hrun
    | req k rqe q w hk hq h =>
      refine hput fun hkr => ?_
      subst hkr
      obtain ⟨ops, hrun⟩ := (processReq_tableRun h).1
      refine OnCycle.tableRun (v := (s.view k).setDtq q) ih ?_ hrun
      change (s.rk k).mgr.mpiRank < job.wsize
      rwa [hsane.rank]
    | shutdown hidle hd =>
      refine hput fun hkr => ?_
      rw [(broadcastShutdown_spec job (s.view 0) (hsane.quiet 0).1).mgr]
      subst hkr
      exact ih.congr rfl rfl

/-- A sequence number is found while fewer requests than numbers are pending. -/
theorem getFreeSeq_returns (hr : v.mgr.mpiRank < job.wsize) (hcycle : OnCycle job v.mgr) (op : Op)
    (hfew : (pendingOf v.mgr.rpending op).length < seqPeriod job v.mgr.mpiRank) :
    (getFreeSeq job v op).isSome = true := by
  obtain ⟨k, hk, hplace⟩ := hcycle
  obtain ⟨j, hj, hfree⟩ := exists_free_place (k := k) hfew
  rw [← iterate_seqNext_seqAt hr hk, ← hplace] at hfree
  have hfuel : j < 2 ^ 32 := hj.trans (seqPeriod_lt job v.mgr.mpiRank)
  obtain ⟨out, hout⟩ := getFreeSeqLoop_ends (2 ^ 32) v.mgr.seqsrc j hfuel hfree
  rw [getFreeSeq, hout]
  rfl

end Source

section Counts

variable {job : Job} {s : Sys} {r : ℕ}

/-- The slot whose thread a request belongs to. -/
def slotIdx (rqe : Request) : ℕ :=
  match rqe.addr with
  | .ltab l => l
  | .internal _ => 0

/-- A thread has one request, so no more of them are pending than there are
slots. -/
theorem length_pendingOf_forwarded {n : ℕ} {ltab : ℕ → Ltab} {alloc : ℤ}
    {queue rpending : List Request} (hok : SlotsOk n ltab alloc queue rpending) {op : Op}
    (hop : forwarded op = true) : (pendingOf rpending op).length ≤ n := by
  have haddr : ∀ rqe ∈ pendingOf rpending op, ∃ l < n, rqe.addr = .ltab l := by
    intro rqe hrqe
    obtain ⟨hmem, hrop⟩ := List.mem_filter.mp hrqe
    rcases hok.waiting rqe hmem with ⟨l, hl, haddr, -, -⟩ | ⟨-, hnot⟩
    · exact ⟨l, hl, haddr⟩
    · rw [beq_iff_eq.mp hrop, hop] at hnot
      exact Bool.noConfusion hnot
  have hnodup : ((pendingOf rpending op).map slotIdx).Nodup := by
    rw [List.nodup_iff_count_le_one]
    intro l
    have hcount : ((pendingOf rpending op).map slotIdx).count l ≤
        (queue ++ rpending).countP (owns l) := by
      rw [List.count, List.countP_map]
      calc (pendingOf rpending op).countP ((· == l) ∘ slotIdx)
          ≤ (pendingOf rpending op).countP (owns l) := by
            refine List.countP_mono_left fun rqe hrqe hslot => ?_
            obtain ⟨k, -, hk⟩ := haddr rqe hrqe
            simpa [slotIdx, owns, hk] using hslot
        _ ≤ rpending.countP (owns l) := List.Sublist.countP_le List.filter_sublist
        _ ≤ (queue ++ rpending).countP (owns l) := by
            rw [List.countP_append]
            omega
    exact hcount.trans (hok.one l)
  have hsub : ((pendingOf rpending op).map slotIdx).toFinset ⊆ Finset.range n := by
    intro l hl
    rw [List.mem_toFinset, List.mem_map] at hl
    obtain ⟨rqe, hrqe, rfl⟩ := hl
    obtain ⟨k, hk, hkaddr⟩ := haddr rqe hrqe
    rw [Finset.mem_range, slotIdx, hkaddr]
    exact hk
  have hcard := Finset.card_le_card hsub
  rwa [List.toFinset_card_of_nodup hnodup, List.length_map, Finset.card_range] at hcard

/-- Each START is for a thread of its own. -/
theorem length_pendingOf_start (hok : LifeOk (life job s)) :
    (pendingOf (s.rk 0).mgr.rpending .start).length ≤ job.nmaxthread := by
  have hlen : (pendingOf (s.rk 0).mgr.rpending .start).length = (life job s).starts.length := by
    rw [pendingOf, ← List.countP_eq_length_filter]
    exact (TableCounts.length_filterMap_startOf _).symm
  have hnodup : ((life job s).starts.map Start.idx).Nodup :=
    hok.distinct.map Start.idx fun _ _ hapart => hapart.2
  have hsub : ((life job s).starts.map Start.idx).toFinset ⊆ Finset.range job.nmaxthread := by
    intro i hi
    rw [List.mem_toFinset, List.mem_map] at hi
    obtain ⟨st, hst, rfl⟩ := hi
    exact Finset.mem_range.mpr (isLive_of_mem (hok.startLive st hst)).1
  have hcard := Finset.card_le_card hsub
  rw [hlen]
  rwa [List.toFinset_card_of_nodup hnodup, List.length_map, Finset.card_range] at hcard

/-- A rank has more sequence numbers than there can be threads. -/
def SeqRoom (job : Job) : Prop := job.wsize * (job.nmaxthread + 2) ≤ 2 ^ 32

theorem SeqRoom.lt_seqPeriod (h : SeqRoom job) (hr : r < job.wsize) :
    job.nmaxthread < seqPeriod job r := by
  have hmul : job.wsize * (job.nmaxthread + 2) =
      (job.nmaxthread + 1) * job.wsize + job.wsize := by ring
  have hroom : (job.nmaxthread + 1) * job.wsize + job.wsize ≤ 2 ^ 32 := hmul ▸ h
  rw [lt_seqPeriod_iff]
  omega

end Counts

section Handlers

variable {job : Job} {v : View}

theorem gtabAlloc_returns (hlast : v.mgr.lastSlot < job.nmaxthread) (rank dispIdx : ℕ)
    (arg : Argret) : (gtabAlloc job v rank dispIdx arg).isSome = true := by
  unfold gtabAlloc
  split
  · rfl
  · rcases SlotSearch.slotScan_spec (fun p => (v.gtab p).allocated) hlast with
      ⟨p, hp, -⟩ | ⟨hnone, -⟩
    · rw [hp]
      simp [getFreeSeq_none]
    · rw [hnone]
      rfl

theorem createThread_returns (hr : v.mgr.mpiRank < job.wsize) (hcycle : OnCycle job v.mgr)
    (hlast : v.mgr.lastSlot < job.nmaxthread)
    (hfew : (pendingOf v.mgr.rpending .start).length < seqPeriod job v.mgr.mpiRank) (mqe : Mqe)
    (attrs : Attr) (dispIdx : ℕ) (arg : Argret) :
    (createThread job v mqe attrs dispIdx arg).isSome = true := by
  unfold createThread
  split
  · rfl
  split
  · rfl
  simp only
  split
  · rfl
  rename_i n q hreq
  split
  · rfl
  rename_i addr q' hmqe
  set w := (v.setMgr { v.mgr with nextRank := (v.mgr.nextRank + 1) % job.wsize }).setDtq q'
  have halloc := gtabAlloc_returns (v := w) hlast v.mgr.nextRank dispIdx arg
  split
  · rename_i hnone
    rw [hnone] at halloc
    exact Bool.noConfusion halloc
  · rfl
  · rename_i gidx w' htaken
    obtain ⟨-, -, rfl⟩ := gtabAlloc_taken _ _ _ _ _ _ _ htaken
    -- the generation was drawn before; the next number is for the START
    have hdrawn : OnCycle job (gtabTaken job w gidx v.mgr.nextRank dispIdx arg).mgr := by
      obtain ⟨k, hk, hsrc⟩ := hcycle
      refine ⟨(k + 1) % seqPeriod job v.mgr.mpiRank, Nat.mod_lt _ (seqPeriod_pos hr), ?_⟩
      have hnext := seqNext_seqAt hr hk
      rwa [← hsrc] at hnext
    unfold createStart
    rw [Option.isSome_map]
    exact getFreeSeq_returns (v := gtabTaken job w gidx v.mgr.nextRank dispIdx arg) hr hdrawn
      .start hfew

theorem startThread_returns {thread : DThread} (mqe : Mqe) (err : ℕ)
    (hslot : ∀ q, ∃ l w, ltabAlloc job (v.setDtq q) thread = some (some l, w)) :
    (startThread job v mqe thread err).isSome = true := by
  unfold startThread
  split
  · rfl
  · rename_i addr q halloc
    obtain ⟨l, w, hl⟩ := hslot q
    simp only
    split
    · rfl
    · rw [hl]
      simp only
      split <;> rfl

theorem forwardReq_returns {rqe : Request} (hmqe : rqe.mqe.isSome = true)
    (hseq : (getFreeSeq job v rqe.reqop).isSome = true) :
    (forwardReq job v rqe).isSome = true := by
  obtain ⟨⟨xidseq, w⟩, hw⟩ := Option.isSome_iff_exists.mp hseq
  obtain ⟨mqe, hmqe⟩ := Option.isSome_iff_exists.mp hmqe
  unfold forwardReq
  simp only [hw, hmqe]
  split <;> rfl

end Handlers

section Job

variable {job : Job} {s : Sys}

theorem processMqe_returns (h : Reachable job s) (hroom : SeqRoom job) {p : Packet}
    (hp : p ∈ s.net) (addr err : ℕ) :
    (processMqe job (s.view p.dst) ⟨addr, p.src, p.frame⟩ err).isSome = true := by
  have hok := reachable_lifeOk h
  have hdst := ((reachable_routed h).packet p hp).2
  have hrank : (s.rk p.dst).mgr.mpiRank = p.dst := h.sane.rank p.dst
  unfold processMqe
  simp only
  split
  · rfl
  split
  · rfl
  rename_i hwrong
  cases hb : p.frame.body with
  | create attrs dispIdx arg =>
    simp only
    split
    · rw [Option.isSome_map]
      have h0 : p.dst = 0 := (reachable_wellformed h).rank0 p hp (by rw [hb]; rfl)
      have hlt : (s.view p.dst).mgr.mpiRank < job.wsize := hrank.symm ▸ hdst
      refine createThread_returns hlt (reachable_onCycle h hdst) (reachable_lastSlot_lt h p.dst)
        ?_ _ _ _ _
      refine lt_of_le_of_lt ?_ (hroom.lt_seqPeriod hlt)
      rw [h0]
      exact length_pendingOf_start hok
    · rfl
  | start thread attrs =>
    simp only
    split
    · rw [Option.isSome_map]
      refine startThread_returns _ _ fun q => ?_
      obtain ⟨k, hk, hfree⟩ := StartSlots.exists_free_slot
        (StartSlots.card_usedSlots_lt hok hp hb p.dst)
      obtain ⟨l, hl, -⟩ := SlotSearch.ltabAlloc_free thread
        (StartSlots.ltabCounted_of_reachable h p.dst q) hk (SlotSearch.ltabUsed_eq_false.mpr hfree)
      exact ⟨l, _, hl⟩
    · rfl
  | detach thread =>
    simp only
    split <;> rfl
  | cancel thread =>
    simp only
    split <;> rfl
  | join thread =>
    simp only
    split <;> rfl
  | _ => rfl

theorem processReq_returns (h : Reachable job s) (hroom : SeqRoom job) {r : ℕ}
    (hr : r < job.wsize) {rqe : Request} (hrqe : rqe ∈ (s.rk r).dtq.mgrreqq) (q : Dtq) :
    (processReq job ((s.view r).setDtq q) rqe).isSome = true := by
  have hcarried := (reachable_routed h).queued r rqe hrqe
  have hlt : (s.rk r).mgr.mpiRank < job.wsize := by
    rw [h.sane.rank]
    exact hr
  have hforward (hop : forwarded rqe.reqop = true) :
      (forwardReq job ((s.view r).setDtq q) rqe).isSome = true := by
    refine forwardReq_returns (hcarried.message hop) ?_
    refine getFreeSeq_returns (v := (s.view r).setDtq q) hlt (reachable_onCycle h hr) _ ?_
    exact lt_of_le_of_lt (length_pendingOf_forwarded (reachable_slotsOk h r) hop)
      (hroom.lt_seqPeriod hlt)
  unfold processReq
  split
  · rfl
  · split
    · rfl
    · split
      · rename_i hop
        exact hforward (by rw [hop]; rfl)
      · rename_i hop
        exact hforward (by rw [hop]; rfl)
      · rename_i hop
        exact hforward (by rw [hop]; rfl)
      · rename_i hop
        exact hforward (by rw [hop]; rfl)
      · rfl
      · rfl
      · rfl

end Job

/-- No manager hangs. In every state of the job, each message under way goes to
a rank whose manager returns from its handler, whatever pthread_create says,
and each manager returns from the handler of the request that is first in its
queue. -/
theorem handlers_return {job : Job} {s : Sys} (h : Reachable job s) (hroom : SeqRoom job) :
    (∀ p ∈ s.net, p.dst < job.wsize ∧
      ∀ addr err, ∃ v, processMqe job (s.view p.dst) ⟨addr, p.src, p.frame⟩ err = some v) ∧
    ∀ r < job.wsize, ∀ rqe q, dtqReqDequeue (s.rk r).dtq = (some rqe, q) →
      ∃ v, processReq job ((s.view r).setDtq q) rqe = some v := by
  refine ⟨?_, ?_⟩
  · intro p hp
    refine ⟨((reachable_routed h).packet p hp).2, fun addr err => ?_⟩
    exact Option.isSome_iff_exists.mp (processMqe_returns h hroom hp addr err)
  · intro r hr rqe q hq
    obtain ⟨rest, hrest, -⟩ := reqDequeue_some hq
    have hmem : rqe ∈ (s.rk r).dtq.mgrreqq := by
      rw [hrest]
      exact List.mem_cons_self
    exact Option.isSome_iff_exists.mp (processReq_returns h hroom hr hmem q)

/-- The CREATE of `twoRanks` on its way to rank 0. -/
theorem handlers_return_forwarded :
    SeqRoom twoRanks ∧ ∃ p, p ∈ createForwarded.net ∧ p.frame.body.op = .create ∧
      ∃ v, processMqe twoRanks (createForwarded.view p.dst) ⟨0, p.src, p.frame⟩ 0 = some v := by
  have hroom : SeqRoom twoRanks := by
    unfold SeqRoom
    decide
  refine ⟨hroom, ⟨0, 0, _⟩, List.mem_singleton_self _, rfl, ?_⟩
  have hreturns := (handlers_return createForwarded_reachable hroom).1 ⟨0, 0, _⟩
    (List.mem_singleton_self _)
  exact hreturns.2 0 0

end Dthread.HandlersReturn
