import Dthread.BroadcastTree
import Dthread.RequestReply

/-!
The shutdown of a job: rank 0 starts a broadcast, and every rank that receives a
BCASTSHUTDOWN sends it on to its children in the tree and starts to drain. The
messages are delivered in any order, and the managers go on with everything
else in between. Such a run floods the tree, so every other rank is sent exactly
one BCASTSHUTDOWN, as long as there is a buffer for each: broadcast_shutdown
skips a child for which it cannot allocate one.
-/
namespace Dthread.ShutdownBroadcast

open ReqMsg Queuing ManagerTables ManagerHandlers ManagerEffects ManagerOutcomes JobSystem
open RequestReply BroadcastTree

def isShutdown (frame : Frame) : Bool := frame.body = .bcastshutdown

/-- Where the BCASTSHUTDOWNs on their way go to. -/
def flight (net : List Packet) : List ℕ := (net.filter (isShutdown ·.frame)).map Packet.dst

/-- Where a handler has sent BCASTSHUTDOWNs to. -/
def posted (v : View) : List ℕ :=
  ((v.dtq.accepted.map toPost).filter (isShutdown ·.2)).map Prod.fst

/-- What else happens in the job: the drain state and the BCASTSHUTDOWNs stay as
they are. -/
structure Aside (s s' : Sys) : Prop where
  sane : Sane s'
  drain : ∀ r, draindown s' r = .init ↔ draindown s r = .init
  net : s'.net.filter (isShutdown ·.frame) = s.net.filter (isShutdown ·.frame)

/-- A step of the broadcast and the BCASTSHUTDOWNs it sends. -/
inductive BcastStep (job : Job) (s : Sys) : List ℕ → Sys → Prop
  | start : BcastStep job s (posted (broadcastShutdown job (s.view 0)))
      (s.put 0 (broadcastShutdown job (s.view 0)))
  | deliver (p : Packet) (l₁ l₂ : List Packet) (addr err : ℕ) (v : View)
      (hnet : s.net = l₁ ++ p :: l₂) (hb : isShutdown p.frame = true)
      (h : processMqe job (s.view p.dst) ⟨addr, p.src, p.frame⟩ err = some v) :
      BcastStep job s (posted v) ({ s with net := l₁ ++ l₂ }.put p.dst v)
  | aside (s' : Sys) (h : Aside s s') : BcastStep job s [] s'

/-- A run from the start of the job, with all BCASTSHUTDOWNs sent in it. -/
inductive BcastRun (job : Job) : List ℕ → Sys → Prop
  | init : BcastRun job [] (sysInit job)
  | step {sent new : List ℕ} {s s' : Sys} (h : BcastRun job sent s)
      (hs : BcastStep job s new s') : BcastRun job (sent ++ new) s'

/-- A state of the job is one of a flood of the tree. -/
structure Floods (job : Job) (sent : List ℕ) (s : Sys) (forwarded : List ℕ) : Prop where
  flood : TreeFlood.Reachable (binaryRouter 0 job.wsize) 0 ⟨forwarded, flight s.net, sent⟩
  drain : ∀ r, r ∈ forwarded ↔ draindown s r ≠ .init
  sane : Sane s
  frames : ∀ p ∈ s.net, isShutdown p.frame = true → p.frame.flen = p.frame.body.size

section Step

variable {job : Job} {s : Sys} {sent forwarded : List ℕ}

theorem isShutdown_iff {frame : Frame} : isShutdown frame = true ↔ frame.body = .bcastshutdown := by
  simp [isShutdown]

theorem flight_append (l₁ l₂ : List Packet) : flight (l₁ ++ l₂) = flight l₁ ++ flight l₂ := by
  simp [flight]

theorem flight_bcasts (job : Job) (r k : ℕ) :
    flight ((bcasts job k).map (pack r)) = binaryRouter 0 job.wsize k := by
  unfold flight bcasts
  rw [List.filter_eq_self.mpr]
  · simp [pack, Function.comp_def]
  · simp [pack, isShutdown, Frame.of]

/-- No other outcome is possible for a full BCASTSHUTDOWN. -/
theorem not_mqeOutcome {v : View} {mqe : Mqe} {m : Mgr} {gt : ℕ → Gtab} {out : List Post}
    (hbody : mqe.frame.body = .bcastshutdown) (hlen : mqe.frame.flen = mqe.frame.body.size) :
    ¬ MqeOutcome job v mqe m gt out := by
  intro ho
  cases ho with
  | drop hdrop =>
    cases hdrop with
    | runt hrunt => omega
    | wrongRank _ h0 => simp [hbody, rank0Only, Body.op] at h0
    | unmatchedReply op hop _ => simp [hbody, replyTo] at hop
    | unmatchedStarted e hb' _ => simp [hbody] at hb'
    | badTerminated thread fin hb' _ => simp [hbody] at hb'
    | unknown code hb' => simp [hbody] at hb'
  | _ => simp_all [replyTo]

/-- A full BCASTSHUTDOWN makes its receiver shut down. -/
theorem shutdown_of_mqe {v v' : View} {mqe : Mqe} {err : ℕ} (hm : v.dtq.mallocs = [])
    (hb : isShutdown mqe.frame = true) (hlen : mqe.frame.flen = mqe.frame.body.size)
    (h : processMqe job v mqe err = some v') : Shutdown job v v' := by
  rcases processMqe_outcome job v v' mqe err hm h with ⟨-, hs⟩ | ⟨m, gt, out, ho, -⟩
  · exact hs
  · exact absurd ho (not_mqeOutcome (isShutdown_iff.mp hb) hlen)

/-- A shutdown of rank `r`, with `net` on the way besides what it sends. -/
theorem floods_shutdown {r : ℕ} {v : View} {net : List Packet}
    (h : Floods job sent s forwarded) (hs : Shutdown job (s.view r) v)
    (hnet : ∀ p ∈ net, p ∈ s.net)
    (hfirst : r ∉ forwarded → TreeFlood.Step (binaryRouter 0 job.wsize) 0
      ⟨forwarded, flight s.net, sent⟩ ⟨r :: forwarded, flight net ++ binaryRouter 0 job.wsize r,
        sent ++ binaryRouter 0 job.wsize r⟩)
    (hagain : r ∈ forwarded → Relation.ReflGen (TreeFlood.Step (binaryRouter 0 job.wsize) 0)
      ⟨forwarded, flight s.net, sent⟩ ⟨forwarded, flight net, sent⟩) :
    ∃ forwarded', Floods job (sent ++ posted v) ({ s with net := net }.put r v) forwarded' := by
  obtain ⟨hc, hdd⟩ := shutdown_change net hs (h.sane.quiet r).1 (h.sane.quiet r).2 rfl
  have hrank : (s.view r).mgr.mpiRank = r := h.sane.rank r
  have haccepted := shutdown_posted hs (h.sane.quiet r).2 (show _ = draindown s r from rfl)
  rw [hrank] at hc haccepted
  have hsane : Sane ({ s with net := net }.put r v) := hc.sane h.sane rfl
  have hdrain (k : ℕ) : draindown ({ s with net := net }.put r v) k ≠ .init ↔
      k = r ∨ draindown s k ≠ .init := by
    by_cases hk : k = r
    · subst hk
      simpa using hdd
    · unfold draindown
      rw [hc.others k hk]
      simp [hk]
  have hframes : ∀ p ∈ ({ s with net := net }.put r v).net, isShutdown p.frame = true →
      p.frame.flen = p.frame.body.size := by
    intro p hp hb
    rw [hc.net] at hp
    rcases List.mem_append.mp hp with hp | hp
    · exact h.frames p (hnet p hp) hb
    · obtain ⟨post, hpost, rfl⟩ := List.mem_map.mp hp
      exact (bcasts_postOk job r r post (mem_sent hpost)).1
  by_cases hr : r ∈ forwarded
  · have hempty : JobSystem.sent s r (bcasts job r) = [] := if_neg ((h.drain r).mp hr)
    rw [hempty] at hc haccepted
    have hposted : posted v = [] := by simp [posted, haccepted]
    have hflight : flight ({ s with net := net }.put r v).net = flight net := by
      rw [hc.net]
      simp
    refine ⟨forwarded, ?_, ?_, hsane, hframes⟩
    · rw [hposted, hflight, List.append_nil]
      exact Relation.ReflTransGen.trans h.flood (Relation.ReflGen.to_reflTransGen (hagain hr))
    · intro k
      rw [hdrain k, ← h.drain k]
      constructor
      · exact .inr
      · rintro (rfl | hk)
        · exact hr
        · exact hk
  · have hinit : draindown s r = .init := by
      by_contra hne
      exact hr ((h.drain r).mpr hne)
    have hfull : JobSystem.sent s r (bcasts job r) = bcasts job r := if_pos hinit
    rw [hfull] at hc haccepted
    have hposted : posted v = binaryRouter 0 job.wsize r := by
      unfold posted
      rw [haccepted, ← flight_bcasts job r r]
      simp [flight, List.filter_map, pack, Function.comp_def]
    have hflight : flight ({ s with net := net }.put r v).net =
        flight net ++ binaryRouter 0 job.wsize r := by
      rw [hc.net, flight_append, flight_bcasts]
    refine ⟨r :: forwarded, ?_, ?_, hsane, hframes⟩
    · rw [hposted, hflight]
      exact Relation.ReflTransGen.tail h.flood (hfirst hr)
    · intro k
      rw [hdrain k, ← h.drain k, List.mem_cons]

theorem floods_step {new : List ℕ} {s' : Sys} (h : Floods job sent s forwarded)
    (hs : BcastStep job s new s') : ∃ forwarded', Floods job (sent ++ new) s' forwarded' := by
  cases hs with
  | start =>
    exact floods_shutdown h (broadcastShutdown_spec job (s.view 0) (h.sane.quiet 0).1)
      (fun p hp => hp) (fun hr => .start hr) fun _ => .refl
  | deliver p l₁ l₂ addr err v hnet hb hcall =>
    have hmem : p ∈ s.net := by simp [hnet]
    have hflight : flight s.net = flight l₁ ++ p.dst :: flight l₂ := by
      rw [hnet, flight_append]
      simp [flight, hb]
    refine floods_shutdown h (shutdown_of_mqe (h.sane.quiet _).1 hb (h.frames p hmem hb) hcall)
      ?_ ?_ ?_
    · intro q hq
      rw [hnet]
      simp only [List.mem_append, List.mem_cons] at hq ⊢
      tauto
    · intro hr
      rw [flight_append]
      exact .deliver p.dst _ _ hflight hr
    · intro hr
      rw [flight_append]
      exact .single (.again p.dst _ _ hflight hr)
  | aside s' ha =>
    have hflight : flight s'.net = flight s.net := congrArg (List.map Packet.dst) ha.net
    refine ⟨forwarded, ?_, ?_, ha.sane, ?_⟩
    · rw [hflight, List.append_nil]
      exact h.flood
    · intro k
      rw [h.drain k]
      exact not_congr (ha.drain k).symm
    · intro p hp hb
      have hold : p ∈ s'.net.filter (isShutdown ·.frame) := List.mem_filter.mpr ⟨hp, hb⟩
      rw [ha.net] at hold
      exact h.frames p (List.mem_filter.mp hold).1 hb

theorem floods_run (h : BcastRun job sent s) : ∃ forwarded, Floods job sent s forwarded := by
  induction h with
  | init =>
    refine ⟨[], .refl, ?_, sane_init job, ?_⟩
    · simp [sysInit_draindown]
    · simp [sysInit]
  | step _ hs ih =>
    obtain ⟨forwarded, hf⟩ := ih
    exact floods_step hf hs

end Step

section Job

variable {job : Job} {s s' : Sys} {r : ℕ} {m : Mgr} {gt : ℕ → Gtab} {rq : List Request}
  {net : List Packet} {posts : List Post}

theorem mqeOutcome_aside {v : View} {mqe : Mqe} {out : List Post}
    (h : MqeOutcome job v mqe m gt out) : ∀ post ∈ out, isShutdown post.2 = false := by
  cases h <;> simp [isShutdown, Frame.of, joinedPost]

theorem reqOutcome_aside {v : View} {rqe : Request} {out : List Post}
    (h : ReqOutcome job v rqe m gt out)
    (hrqe : ∀ mqe, rqe.mqe = some mqe → mqe.frame.body.op = rqe.reqop) :
    ∀ post ∈ out, isShutdown post.2 = false := by
  cases h with
  | forward l mqe xidseq haddr hlt hbusy hop hmqe hxid hd =>
    rw [← hrqe mqe hmqe] at hop
    intro post hpost
    obtain rfl := List.mem_singleton.mp hpost
    by_contra hb
    have hbody := isShutdown_iff.mp (Bool.eq_true_of_not_eq_false hb)
    simp only at hbody
    rw [hbody] at hop
    exact Bool.noConfusion hop
  | _ => simp [isShutdown, Frame.of]

theorem aside_of_change (h : Sane s) (hc : Change s s' r m gt rq net posts)
    (hm : m.mpiRank = (s.rk r).mgr.mpiRank)
    (hdd : draindown s' r = .init ↔ draindown s r = .init)
    (hnet : net.filter (isShutdown ·.frame) = s.net.filter (isShutdown ·.frame))
    (hposts : ∀ post ∈ posts, isShutdown post.2 = false) : Aside s s' where
  sane := hc.sane h hm
  drain k := by
    by_cases hk : k = r
    · subst hk
      exact hdd
    · unfold draindown
      rw [hc.others k hk]
  net := by
    have hnone : (posts.map (pack r)).filter (isShutdown ·.frame) = [] := by
      rw [List.filter_eq_nil_iff]
      intro p hp
      obtain ⟨post, hpost, rfl⟩ := List.mem_map.mp hp
      simp [pack, hposts post hpost]
    rw [hc.net, List.filter_append, hnone, List.append_nil, hnet]

/-- Whatever else rank 0 does when it starts the broadcast is an aside of it. -/
theorem aside_of_start (h : Sane s) (hc : Change s s' 0 m gt rq s.net
      (JobSystem.sent s 0 (bcasts job (s.rk 0).mgr.mpiRank)))
    (hm : m.mpiRank = (s.rk 0).mgr.mpiRank) (hdd : draindown s' 0 ≠ .init) :
    Aside (s.put 0 (broadcastShutdown job (s.view 0))) s' := by
  obtain ⟨hc₀, hdd₀⟩ := shutdown_change s.net
    (broadcastShutdown_spec job (s.view 0) (h.quiet 0).1) (h.quiet 0).1 (h.quiet 0).2 rfl
  refine ⟨hc.sane h hm, fun k => ?_, ?_⟩
  · by_cases hk : k = 0
    · subst hk
      exact iff_of_false hdd hdd₀
    · unfold draindown
      rw [hc.others k hk, hc₀.others k hk]
  · rw [hc.net, hc₀.net]
    rfl

theorem bcastRun_recv {sent : List ℕ} (hrun : BcastRun job sent s) (hsane : Sane s) {p : Packet}
    (h : Delivers job s p s') : ∃ sent', BcastRun job sent' s' := by
  obtain ⟨net, addr, err, v, hr, ⟨l₁, l₂, hnet, rfl, -⟩, hcall, rfl⟩ := h
  by_cases hb : isShutdown p.frame = true
  · exact ⟨_, hrun.step (.deliver p l₁ l₂ addr err v hnet hb hcall)⟩
  have hfilter : (l₁ ++ l₂).filter (isShutdown ·.frame) = s.net.filter (isShutdown ·.frame) := by
    simp [hnet, hb]
  rcases processMqe_outcome job _ v _ err (hsane.quiet p.dst).1 hcall with
    ⟨hbody, -⟩ | ⟨m, gt, out, ho, he⟩
  · exact absurd (isShutdown_iff.mpr hbody) hb
  · obtain ⟨hc, hdd⟩ := effect_change (l₁ ++ l₂) he (hsane.quiet p.dst).1 (hsane.quiet p.dst).2 rfl
    refine ⟨_, hrun.step
      (.aside _ (aside_of_change hsane hc (mqeOutcome_mpiRank ho) ?_ hfilter ?_))⟩
    · rw [hdd]
    · exact fun post hpost => mqeOutcome_aside ho post (mem_sent hpost)

theorem bcastRun_local {sent : List ℕ} (hrun : BcastRun job sent s) (hsane : Sane s)
    (hwf : Wellformed s) (h : Local job s s') : ∃ sent', BcastRun job sent' s' := by
  cases local_cases hsane.quiet h with
  | app r l lt gt rq hr hl hdd ho hc =>
    refine ⟨_, hrun.step (.aside _ (aside_of_change hsane hc rfl ?_ rfl ?_))⟩
    · rw [hdd]
    · exact fun post hpost => absurd hpost List.not_mem_nil
  | req r rqe rest m gt out hr hq hdd ho hc =>
    have hmem : rqe ∈ (s.rk r).dtq.mgrreqq := by simp [hq]
    refine ⟨_, hrun.step (.aside _ (aside_of_change hsane hc (reqOutcome_mpiRank ho) ?_ rfl ?_))⟩
    · rw [hdd]
    · exact fun post hpost => reqOutcome_aside ho
        (fun mqe hmqe => (hwf.requests r rqe hmem mqe hmqe).2.1) post (mem_sent hpost)
  | reqShutdown r l rqe rest hr hq hop haddr hrank hdd hc =>
    obtain rfl : r = 0 := by rw [← hsane.rank r, hrank]
    exact ⟨_, (hrun.step .start).step (.aside _ (aside_of_start hsane hc rfl hdd))⟩
  | shutdown hidle hdrain hdd hc =>
    exact ⟨_, (hrun.step .start).step (.aside _ (aside_of_start hsane hc rfl hdd))⟩

/-- Every run of the job is a run of the broadcast. -/
theorem exists_bcastRun (h : JobSystem.Reachable job s) : ∃ sent, BcastRun job sent s := by
  induction h with
  | refl => exact ⟨[], .init⟩
  | tail hreach hstep ih =>
    obtain ⟨sent, hrun⟩ := ih
    have hsane := JobSystem.Reachable.sane hreach
    rcases step_iff.mp hstep with ⟨p, hdeliver⟩ | hlocal
    · exact bcastRun_recv hrun hsane hdeliver
    · exact bcastRun_local hrun hsane (reachable_wellformed hreach) hlocal

end Job

theorem BcastRun.quiet {job : Job} {sent : List ℕ} {s : Sys} (h : BcastRun job sent s) :
    s.withMallocs [] = s := by
  obtain ⟨forwarded, hf⟩ := floods_run h
  exact withMallocs_nil hf.sane.quiet

end Dthread.ShutdownBroadcast
