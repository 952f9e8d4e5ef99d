import Dthread.CreateCalls

/-!
The values that joins return. A thread's entry holds its return value when the
manager of its rank reports the end with TERMINATED. The value stays in the
entry while the report is under way and while the entry is a zombie, so that a
join which succeeds returns what the thread that it names has left.
-/
namespace Dthread.JoinValues

open ReqMsg Queuing ManagerTables ManagerHandlers ManagerEffects ManagerOutcomes AppThreads
open FifoNet JobSystem JobLogs RequestReply LocalSlots TableWrites ThreadLife LifeRefinement
open TableSteps FateRefinement FateSteps CallLedger CreateCalls

/-- The thread whose end a message reports, with the value in its entry. -/
def endOf (gtab : ℕ → Gtab) (post : Post) : Option (DThread × Argret) :=
  match post.2.body with
  | .terminated thread _ => some (thread, (gtab thread.dtIndex).ret)
  | _ => none

/-- The ends of threads that a run has reported, in order. -/
def ends (log : List Record) : List (DThread × Argret) :=
  log.flatMap fun e => e.posts.filterMap (endOf e.pre.gtab)

theorem ends_snoc (log : List Record) (e : Record) :
    ends (log ++ [e]) = ends log ++ e.posts.filterMap (endOf e.pre.gtab) := by
  simp [ends]

/-- What a handler does to an entry of the table. -/
inductive EntryChange (body : Body) (i : ℕ) (gt gt' : Gtab) : Prop
  | same (ha : gt'.allocated = gt.allocated) (hs : gt'.seq = gt.seq)
      (ht : gt'.terminated = gt.terminated) (hr : gt'.ret = gt.ret)
  | free (h : gt'.allocated = false)
  | fresh (h : gt.allocated = false) (ht : gt'.terminated = .none)
  | ended (thread : DThread) (fin : LtState) (hb : body = .terminated thread fin)
      (hi : thread.dtIndex = i) (hs : gt'.seq = thread.dtSeq) (hr : gt'.ret = gt.ret)

theorem EntryChange.refl (body : Body) (i : ℕ) (gt : Gtab) : EntryChange body i gt gt :=
  .same rfl rfl rfl rfl

section Handlers

variable {job : Job} {v : View} {mqe : Mqe} {m : Mgr} {gt : ℕ → Gtab} {out : List Post}

theorem entryChange_update {body : Body} {gtab : ℕ → Gtab} {k : ℕ} {g : Gtab}
    (h : EntryChange body k (gtab k) g) (i : ℕ) :
    EntryChange body i (gtab i) (Function.update gtab k g i) := by
  by_cases hi : i = k
  · rw [hi, Function.update_self]
    exact h
  · rw [Function.update_of_ne hi]
    exact .refl _ _ _

theorem entryChange_freeGtab (body : Body) (gtab : ℕ → Gtab) (k i : ℕ) :
    EntryChange body i (gtab i) (freeGtab gtab k i) := by
  unfold freeGtab
  split
  · exact entryChange_update (.free rfl) i
  · exact .refl _ _ _

/-- An entry that is freed by a handler is free, whatever was done to it before. -/
theorem entryChange_freed {body : Body} {gtab gtab' : ℕ → Gtab} {k : ℕ}
    (hothers : ∀ i, i ≠ k → gtab' i = gtab i) (i : ℕ) :
    EntryChange body i (gtab i) (freeGtab gtab' k i) := by
  by_cases hi : i = k
  · rw [hi]
    exact .free (freeGtab_allocated _ _)
  · rw [freeGtab_of_ne _ hi, hothers i hi]
    exact .refl _ _ _

theorem mqeOutcome_entryChange (h : MqeOutcome job v mqe m gt out) (i : ℕ) :
    EntryChange mqe.frame.body i (v.gtab i) (gt i) := by
  have hdetach (k : ℕ) : EntryChange mqe.frame.body i (v.gtab i)
      (Function.update v.gtab k { v.gtab k with detached := true } i) := by
    apply entryChange_update
    exact .same rfl rfl rfl rfl
  cases h with
  | createOk attrs dispIdx arg n gidx xidseq hb hdisp hroom hfree hlt hxid hd =>
    apply entryChange_update
    exact .fresh hfree rfl
  | createDrain attrs dispIdx arg gidx xidseq hb hfree hlt hd =>
    apply entryChange_update
    exact .free rfl
  | detachPlain thread hb h hw => exact hdetach _
  | detachWait thread rqe hb h hw => exact hdetach _
  | joinZombie thread hb h hdet hz => exact entryChange_freeGtab _ _ _ _
  | startedErr rqe e hb he h => exact entryChange_freeGtab _ _ _ _
  | terminatedZombie thread fin hb hlen hlt hseq hfin hdet hw =>
    apply entryChange_update
    exact .ended thread fin hb rfl hseq rfl
  | terminatedDetached thread fin hb hlen hlt hseq hfin hdet hw =>
    exact entryChange_freed (fun j hj => cleanupGtab_zombie_of_ne hj) i
  | terminatedJoined thread fin rqe hb hlen hlt hseq hfin hdet hw =>
    exact entryChange_freed (fun j hj => zombieGtab_of_ne _ _ _ hj) i
  | terminatedDetachedJoined thread fin rqe hb hlen hlt hseq hfin hdet hw =>
    exact entryChange_freed (fun j hj => cleanupGtab_zombie_of_ne hj) i
  | _ => exact .refl _ _ _

/-- A handler adds a JOINWAIT only for a JOIN. -/
theorem mqeOutcome_joinwait (h : MqeOutcome job v mqe m gt out) {rqe : Request}
    (hrqe : rqe ∈ m.rpending) (hop : rqe.reqop = .joinwait) : rqe ∈ v.mgr.rpending ∨
      mqe.frame.body = .join rqe.waitthread ∧ rqe.reqpeer = mqe.peer ∧
        rqe.xidseq = mqe.frame.xidseq := by
  cases h with
  | createOk attrs dispIdx arg n gidx xidseq hb hdisp hroom hfree hlt hxid hd =>
    simp only [List.mem_append, List.mem_singleton] at hrqe
    rcases hrqe with hrqe | rfl
    · exact .inl hrqe
    · simp [startRequest] at hop
  | joinWait thread n hb h hdet hz hw =>
    simp only [List.mem_append, List.mem_singleton] at hrqe
    rcases hrqe with hrqe | rfl
    · exact .inl hrqe
    · exact .inr ⟨hb, rfl, rfl⟩
  | detachWait => exact .inl (List.mem_of_mem_eraseP hrqe)
  | terminatedJoined => exact .inl (List.mem_of_mem_eraseP hrqe)
  | terminatedDetachedJoined => exact .inl (List.mem_of_mem_eraseP hrqe)
  | startedOk => exact .inl (List.mem_of_mem_eraseP hrqe)
  | startedErr => exact .inl (List.mem_of_mem_eraseP hrqe)
  | reply => exact .inl (List.mem_of_mem_eraseP hrqe)
  | _ => exact .inl hrqe

/-- A JOINED without error comes from a zombie or from the report of an end,
and carries the value of that thread's entry. -/
inductive JoinedFrom (job : Job) (v : View) (mqe : Mqe) (post : Post) (ret : Argret) : Prop
  | zombie (thread : DThread) (hb : mqe.frame.body = .join thread)
      (h : dt2gtab job v.gtab thread = some thread.dtIndex)
      (hz : (v.gtab thread.dtIndex).terminated.needFinalstate = false)
      (hret : ret = (v.gtab thread.dtIndex).ret) (hpeer : post.1 = mqe.peer)
      (hxid : post.2.xidseq = mqe.frame.xidseq)
  | ended (thread : DThread) (fin : LtState) (rqe : Request)
      (hb : mqe.frame.body = .terminated thread fin) (hrqe : rqe ∈ v.mgr.rpending)
      (hop : rqe.reqop = .joinwait) (hwait : rqe.waitthread = thread)
      (hret : ret = (v.gtab thread.dtIndex).ret) (hpeer : post.1 = rqe.reqpeer)
      (hxid : post.2.xidseq = rqe.xidseq)

theorem mqeOutcome_joined (h : MqeOutcome job v mqe m gt out) {post : Post} (hpost : post ∈ out)
    {ret : Argret} (hb : post.2.body = .joined 0 ret) : JoinedFrom job v mqe post ret := by
  cases h with
  | joinZombie thread hb' h hdet hz =>
    rw [List.mem_singleton] at hpost
    subst hpost
    obtain rfl : (v.gtab thread.dtIndex).ret = ret := by simpa [Frame.of] using hb
    exact .zombie thread hb' h hz rfl rfl rfl
  | terminatedJoined thread fin rqe hb' hlen hlt hseq hfin hdet hw =>
    rw [List.mem_singleton] at hpost
    subst hpost
    have hmatch := List.find?_some hw
    simp only [joinwaitMatch, Bool.and_eq_true, beq_iff_eq] at hmatch
    simp only [joinedPost, Frame.of, Body.joined.injEq] at hb
    obtain ⟨herr, hret⟩ := hb
    rw [if_pos herr] at hret
    exact .ended thread fin rqe hb' (List.mem_of_find?_eq_some hw) hmatch.1 hmatch.2 hret.symm
      rfl rfl
  | joinErr thread e hb' h =>
    rw [List.mem_singleton] at hpost
    subst hpost
    simp only [Frame.of, Body.joined.injEq] at hb
    rcases h with ⟨-, rfl⟩ | ⟨-, rfl, -⟩ <;> simp [ReqMsg.ESRCH, ReqMsg.EINVAL] at hb
  | detachWait thread rqe hb' h hw =>
    simp only [joinedPost, Frame.of, List.mem_cons, List.not_mem_nil, or_false] at hpost
    rcases hpost with rfl | rfl <;> simp [ReqMsg.EINVAL] at hb
  | terminatedDetachedJoined thread fin rqe hb' hlen hlt hseq hfin hdet hw =>
    rw [List.mem_singleton] at hpost
    subst hpost
    simp [joinedPost, Frame.of, ReqMsg.EINVAL] at hb
  | drop | joinWait | terminatedZombie | terminatedDetached | reply => simp at hpost
  | createErr | createOk | createDrain | startInvalid | startOk | startFail | detachNone |
    detachPlain | cancelErr | cancelMiss | cancelHit | startedOk | startedErr =>
    rw [List.mem_singleton] at hpost
    subst hpost
    simp [Frame.of] at hb

end Handlers

/-- The joins of a state and the ends that its run has reported. -/
structure Truthful (L : Ledger) (E : List (DThread × Argret)) (s : Sys) : Prop where
  flight : ∀ p ∈ s.net, ∀ thread fin, p.frame.body = .terminated thread fin →
    (thread, (s.gtab thread.dtIndex).ret) ∈ E
  zombie : ∀ i, (s.gtab i).allocated = true → (s.gtab i).terminated.needFinalstate = false →
    (⟨i, (s.gtab i).seq⟩, (s.gtab i).ret) ∈ E
  waits : ∀ rqe ∈ (s.rk 0).mgr.rpending, rqe.reqop = .joinwait → ∃ c,
    L.owner ⟨rqe.reqpeer, .join, rqe.xidseq⟩ = some c ∧ c.body = .join rqe.waitthread
  joined : ∀ c ret, (c, Body.joined 0 ret) ∈ L.answers → ∃ thread, c.body = .join thread ∧
    (thread, ret) ∈ E

section Steps

variable {job : Job} {L L' : Ledger} {E E' : List (DThread × Argret)} {s s' : Sys}

theorem allocated_of_terminated (hok : LifeOk (life job s)) {p : Packet} {thread : DThread}
    {fin : LtState} (hp : p ∈ s.net) (hb : p.frame.body = .terminated thread fin) :
    (s.gtab thread.dtIndex).allocated = true :=
  (isLive_of_mem (live_of_terminated hok hp hb)).2.1

/-- A thread whose end is under way is in no slot any more. -/
theorem not_hosted_of_terminated (hok : LifeOk (life job s)) {p : Packet} {thread : DThread}
    {fin : LtState} (hp : p ∈ s.net) (hb : p.frame.body = .terminated thread fin) {r l : ℕ}
    (hused : ((s.rk r).mgr.ltab l).pthState ≠ .none) :
    thread.dtIndex ≠ ((s.rk r).mgr.ltab l).gtabIdx := by
  intro heq
  have hslot : (life job s).slots r l = some _ := CancelEffect.slots_eq_some hused
  have hzero := hok.apart hslot
  have hmem : (⟨p.src, p.dst, .ended thread.dtIndex⟩ : Letter) ∈ (life job s).net :=
    List.mem_filterMap.mpr ⟨p, hp, by simp [letterOf, hb]⟩
  have hpos : 0 < (life job s).net.countP (claims (life job s).starts
      ((s.rk r).mgr.ltab l).gtabIdx) :=
    List.countP_pos_iff.mpr ⟨_, hmem, by simp [claims, heq]⟩
  omega

/-- A step that handles no packet answers no join and ends no zombie. -/
theorem Truthful.keep (h : Truthful L E s) (hE : ∀ x ∈ E, x ∈ E')
    (hanswers : L'.answers = L.answers)
    (howner : ∀ k, forwarded k.op = true → 0 < tokens s k → L'.owner k = L.owner k)
    (hpend : ∀ rqe ∈ (s'.rk 0).mgr.rpending, rqe.reqop = .joinwait → rqe ∈ (s.rk 0).mgr.rpending)
    (hnet : ∀ p ∈ s'.net, ∀ thread fin, p.frame.body = .terminated thread fin →
      p ∈ s.net ∧ (s'.gtab thread.dtIndex).ret = (s.gtab thread.dtIndex).ret ∨
        (thread, (s'.gtab thread.dtIndex).ret) ∈ E')
    (hgtab : ∀ i, (s'.gtab i).allocated = true → (s'.gtab i).terminated.needFinalstate = false →
      (s.gtab i).allocated = true ∧ (s.gtab i).terminated.needFinalstate = false ∧
        (s'.gtab i).seq = (s.gtab i).seq ∧ (s'.gtab i).ret = (s.gtab i).ret) :
    Truthful L' E' s' := by
  refine ⟨?_, ?_, ?_, ?_⟩
  · intro p hp thread fin hb
    rcases hnet p hp thread fin hb with ⟨hp', hret⟩ | hnew
    · rw [hret]
      exact hE _ (h.flight p hp' thread fin hb)
    · exact hnew
  · intro i halloc hfinal
    obtain ⟨halloc', hfinal', hseq, hret⟩ := hgtab i halloc hfinal
    rw [hseq, hret]
    exact hE _ (h.zombie i halloc' hfinal')
  · intro rqe hrqe hop
    have hold := hpend rqe hrqe hop
    obtain ⟨c, ho, hbody⟩ := h.waits rqe hold hop
    have hkey : waitKey rqe = some ⟨rqe.reqpeer, .join, rqe.xidseq⟩ := by simp [waitKey, hop]
    exact ⟨c, (howner _ rfl (tokens_of_wait hold hkey)).trans ho, hbody⟩
  · rw [hanswers]
    intro c ret hans
    obtain ⟨thread, hbody, hend⟩ := h.joined c ret hans
    exact ⟨thread, hbody, hE _ hend⟩

variable {p : Packet} {net : List Packet} {addr : ℕ} {m : Mgr} {gt : ℕ → Gtab} {rq : List Request}
  {out : List Post}

theorem asked_body (hbk : Booked L s) (hp : p ∈ s.net) {thread : DThread}
    (hb : p.frame.body = .join thread) : ∃ c,
      L.owner ⟨p.src, .join, p.frame.xidseq⟩ = some c ∧ c.body = .join thread := by
  have hop : forwarded p.frame.body.op = true := by
    rw [hb]
    rfl
  obtain ⟨c, hasked, hbody, -⟩ := hbk.asked p hp hop
  refine ⟨c, ?_, hbody.trans hb⟩
  rw [← hasked, Ledger.asked, if_pos hop, hb]
  rfl

/-- The ends that are under way stay readable when a packet is handled. -/
theorem Truthful.handled (h : Truthful L E s) (hbk : Booked L s) (hset : Settled job s)
    (hlife' : LifeOk (life job s')) (hd : Deliver Packet.chan s.net p net)
    (ho : MqeOutcome job (s.view p.dst) ⟨addr, p.src, p.frame⟩ m gt out)
    (hc : Change s s' p.dst m gt rq net (sent s p.dst out)) :
    Truthful (L.serve p (sent s p.dst out)) E s' := by
  have hp := hd.mem
  have hrank0 := hset.facts.wellformed.rank0 p hp
  have hentry (i : ℕ) : EntryChange p.frame.body i (s.gtab i) (s'.gtab i) := by
    rw [hc.gtab]
    exact mqeOutcome_entryChange ho i
  refine ⟨?_, ?_, ?_, ?_⟩
  · intro p' hp' thread fin hb
    have halloc' := allocated_of_terminated hlife' hp' hb
    have hold : p' ∈ s.net := by
      rcases mem_net hc (fun _ => hd.mem_of_mem) hp' with hold | ⟨post, hpost, rfl⟩
      · exact hold
      · exact absurd hb (mqeOutcome_no_terminated ho post (mem_sent hpost) thread fin)
    have hret : (s'.gtab thread.dtIndex).ret = (s.gtab thread.dtIndex).ret := by
      cases hentry thread.dtIndex with
      | same _ _ _ hr => exact hr
      | free hfree => exact Bool.noConfusion (halloc'.symm.trans hfree)
      | fresh hfree _ =>
        exact Bool.noConfusion ((allocated_of_terminated hset.life hold hb).symm.trans hfree)
      | ended _ _ _ _ _ hr => exact hr
    rw [hret]
    exact h.flight p' hold thread fin hb
  · intro i halloc hfinal
    cases hentry i with
    | same ha hs ht hr =>
      rw [hs, hr]
      exact h.zombie i (ha.symm.trans halloc) (ht ▸ hfinal)
    | free hfree => exact Bool.noConfusion (halloc.symm.trans hfree)
    | fresh _ ht =>
      rw [ht] at hfinal
      cases hfinal
    | ended thread fin hb hi hs hr =>
      subst hi
      rw [hs, hr]
      exact h.flight p hp thread fin hb
  · intro rqe hrqe hop
    have hcase : rqe ∈ (s.rk 0).mgr.rpending ∨ p.frame.body = .join rqe.waitthread ∧
        rqe.reqpeer = p.src ∧ rqe.xidseq = p.frame.xidseq := by
      by_cases h0 : 0 = p.dst
      · rw [h0, hc.mgr] at hrqe
        rw [h0]
        exact mqeOutcome_joinwait ho hrqe hop
      · rw [hc.others 0 h0] at hrqe
        exact .inl hrqe
    rcases hcase with hold | ⟨hb, hpeer, hxid⟩
    · exact h.waits rqe hold hop
    · rw [hpeer, hxid]
      exact asked_body hbk hp hb
  · intro c ret hans
    rcases mem_serve_answers.mp hans with hans | ⟨post, hpost, hans⟩
    · exact h.joined c ret hans
    · obtain ⟨op, hreply, howner, hbody⟩ := answer_eq_some.mp hans
      rw [← hbody] at hreply
      obtain rfl : Op.join = op := by simpa [replyTo] using hreply
      cases mqeOutcome_joined ho (mem_sent hpost) hbody.symm with
      | zombie thread hb hfound hz hret hpeer hxid =>
        obtain ⟨c', howner', hbody'⟩ := asked_body hbk hp hb
        rw [hpeer, hxid] at howner
        obtain rfl : c = c' := Option.some.inj (howner.symm.trans howner')
        obtain ⟨-, halloc, hseq⟩ := dt2gtab_valid.mp hfound
        have hend := h.zombie _ halloc hz
        rw [show s.gtab = (s.view p.dst).gtab from rfl, hseq, ← hret] at hend
        exact ⟨thread, hbody', hend⟩
      | ended thread fin rqe hb hrqe hop hwait hret hpeer hxid =>
        simp only at hb
        have hdst : p.dst = 0 := hrank0 (by rw [hb]; rfl)
        have hrqe' : rqe ∈ (s.rk 0).mgr.rpending := by
          rw [← hdst]
          exact hrqe
        obtain ⟨c', howner', hbody'⟩ := h.waits rqe hrqe' hop
        rw [hpeer, hxid] at howner
        obtain rfl : c = c' := Option.some.inj (howner.symm.trans howner')
        refine ⟨thread, hwait ▸ hbody', ?_⟩
        rw [hret]
        exact h.flight p hp thread fin hb

theorem Truthful.mono (h : Truthful L E s) (hE : ∀ x ∈ E, x ∈ E') : Truthful L E' s :=
  h.keep hE rfl (fun _ _ _ => rfl) (fun _ hrqe _ => hrqe) (fun _ hp _ _ _ => .inl ⟨hp, rfl⟩)
    fun _ halloc hfinal => ⟨halloc, hfinal, rfl, rfl⟩

theorem appOutcome_stage {l : ℕ} {lt lt' : Ltab} {gtab : ℕ → Gtab} {g : Gtab} {rq : List Request}
    (h : AppOutcome job l lt gtab lt' g rq) :
    lt.pc ≠ .none ∧ g.allocated = (gtab lt.gtabIdx).allocated ∧
      g.terminated = (gtab lt.gtabIdx).terminated := by
  cases h with
  | silent hpc hbad => exact ⟨by simp [hpc], rfl, rfl⟩
  | retclean state ret hpc hfinal hkeep =>
    refine ⟨?_, rfl, rfl⟩
    rcases hpc with hpc | ⟨b, hpc⟩ <;> simp [hpc]
  | publish hpc hseq => exact ⟨by simp [hpc], rfl, rfl⟩
  | post body peer addr hpc hidle hpeer => exact ⟨by simp [hpc], rfl, rfl⟩
  | collect hpc hdone => exact ⟨by simp [hpc], rfl, rfl⟩
  | leave pc state ret hpc hpc' hstate =>
    refine ⟨?_, rfl, rfl⟩
    rcases hpc with ⟨hpc, -⟩ | hpc <;> simp [hpc]
  | app0Return hpc hidle hdisp => exact ⟨by simp [hpc], rfl, rfl⟩

/-- A thread writes the value of its own entry only, and lives while it does. -/
theorem Truthful.app (h : Truthful L E s) (hset : Settled job s) {r l : ℕ} {act : AppAct}
    (hen : act.Enabled job (s.view r) l) :
    Truthful (L.record ⟨r, s.view r, .app l act, act.run job (s.view r) l⟩) E
      (s.put r (act.run job (s.view r) l)) := by
  have hquiet := hset.facts.sane.quiet
  obtain ⟨lt, g, rq, ho, he⟩ := appStep_outcome job l (s.view r) _ (hquiet r).1
    (appStep_iff.mpr ⟨act, hen, rfl⟩)
  have hc : Change s (s.put r (act.run job (s.view r) l)) r (act.run job (s.view r) l).mgr
      (act.run job (s.view r) l).gtab (act.run job (s.view r) l).dtq.mgrreqq s.net [] :=
    put_change s.net he.mallocs (by simpa [Sys.view, (hquiet r).2] using he.accepted)
  rw [he.mgr, he.gtab] at hc
  obtain ⟨hpc, halloc, hterm⟩ := appOutcome_stage ho
  have hused : ((s.rk r).mgr.ltab l).pthState ≠ .none :=
    ((hset.facts.slots r).entry l).used_of_pc hpc
  have hslot : (life job s).slots r l = some _ := CancelEffect.slots_eq_some hused
  have hlive := isLive_of_mem (hset.life.hostLive hslot)
  refine h.keep (fun _ => id) (by cases act <;> rfl) (fun k _ _ => by cases act <;> rfl)
    (fun rqe hrqe _ => ?_) (fun p hp thread fin hb => .inl ?_) fun i hi hfinal => ?_
  · by_cases h0 : 0 = r
    · rwa [h0, hc.mgr, Mgr.setLtab, ← h0] at hrqe
    · rwa [hc.others 0 h0] at hrqe
  · rw [hc.net, List.map_nil, List.append_nil] at hp
    refine ⟨hp, ?_⟩
    rw [hc.gtab]
    exact congrArg Gtab.ret (Function.update_of_ne
      (not_hosted_of_terminated hset.life hp hb hused) ..)
  · rw [hc.gtab] at hi hfinal ⊢
    by_cases hown : i = ((s.view r).mgr.ltab l).gtabIdx
    · subst hown
      rw [Function.update_self, hterm] at hfinal
      exact Bool.noConfusion (hfinal.symm.trans hlive.2.2)
    · rw [Function.update_of_ne hown] at hi hfinal ⊢
      exact ⟨hi, hfinal, rfl, rfl⟩

/-- The manager that reports an end puts it on record. -/
theorem Truthful.req (h : Truthful L E s) (hset : Settled job s) {r : ℕ} {rqe : Request} {q : Dtq}
    {v : View} (hq : dtqReqDequeue (s.rk r).dtq = (some rqe, q))
    (hproc : processReq job ((s.view r).setDtq q) rqe = some v) :
    Truthful (L.record ⟨r, s.view r, .req rqe, v⟩)
      (E ++ (⟨r, s.view r, .req rqe, v⟩ : Record).posts.filterMap (endOf s.gtab)) (s.put r v) := by
  obtain ⟨m, gt, rest, hc, hreq⟩ := req_requested L hset.facts hq hproc
  have hgtab (i : ℕ) : ((s.put r v).gtab i).allocated = (s.gtab i).allocated ∧
      ((s.put r v).gtab i).terminated = (s.gtab i).terminated ∧
      ((s.put r v).gtab i).seq = (s.gtab i).seq ∧ ((s.put r v).gtab i).ret = (s.gtab i).ret := by
    rw [hc.gtab]
    rcases hreq.gtab i with hgt | hgt <;> rw [hgt] <;> exact ⟨rfl, rfl, rfl, rfl⟩
  refine h.keep (fun x hx => List.mem_append_left _ hx) hreq.answers hreq.owner
    (fun rqe' hrqe' hop => ?_) (fun p hp thread fin hb => ?_) fun i halloc hfinal => ?_
  · exact hreq.mem_pending hc hrqe' (by rw [hop]; rfl)
  · rw [(hgtab thread.dtIndex).2.2.2]
    rcases mem_net hc (fun _ => id) hp with hold | ⟨post, hpost, rfl⟩
    · exact .inl ⟨hold, rfl⟩
    · refine .inr (List.mem_append_right _ (List.mem_filterMap.mpr ⟨post, hpost, ?_⟩))
      have hb' : post.2.body = .terminated thread fin := hb
      simp [endOf, hb']
  · obtain ⟨ha, ht, hs, hr⟩ := hgtab i
    exact ⟨ha.symm.trans halloc, ht ▸ hfinal, hs, hr⟩

/-- A shutdown says nothing about joins or ends. -/
theorem Truthful.shutdown (h : Truthful L E s) {r : ℕ} {m : Mgr} {rest : List Request}
    {posts : List Post} (hc : Change s s' r m s.gtab rest net posts)
    (hnet : ∀ p ∈ net, p ∈ s.net) (hpend : m.rpending = (s.rk r).mgr.rpending)
    (hposts : ∀ post ∈ posts, post.2.body = .bcastshutdown)
    (hanswers : L'.answers = L.answers) (howner : L'.owner = L.owner) : Truthful L' E s' := by
  refine h.keep (fun _ => id) hanswers (fun k _ _ => by rw [howner]) (fun rqe hrqe _ => ?_)
    (fun p hp thread fin hb => ?_) fun i halloc hfinal => ?_
  · by_cases h0 : 0 = r
    · rwa [h0, hc.mgr, hpend, ← h0] at hrqe
    · rwa [hc.others 0 h0] at hrqe
  · rcases mem_net hc hnet hp with hold | ⟨post, hpost, rfl⟩
    · rw [hc.gtab]
      exact .inl ⟨hold, rfl⟩
    · have hb' : post.2.body = .terminated thread fin := hb
      rw [hposts post hpost] at hb'
      cases hb'
  · rw [hc.gtab] at halloc hfinal ⊢
    exact ⟨halloc, hfinal, rfl, rfl⟩

theorem truthful_moves {e : Record} (h : Truthful L E s) (hbk : Booked L s) (hset : Settled job s)
    (hlife' : LifeOk (life job s')) (hs : Moves job s e s') :
    Truthful (L.record e) (E ++ e.posts.filterMap (endOf e.pre.gtab)) s' := by
  have hquiet := hset.facts.sane.quiet
  cases hs with
  | app r l act hr hl hen =>
    exact (h.app hset hen).mono fun x hx => List.mem_append_left _ hx
  | recv p net addr err v hr hd hproc =>
    rcases processMqe_outcome job _ v _ err (hquiet p.dst).1 hproc with
      ⟨hb, hshut⟩ | ⟨m, gt, out, ho, he⟩
    · obtain ⟨hc, -⟩ := shutdown_change net hshut (hquiet p.dst).1 (hquiet p.dst).2 rfl
      have hposts : (⟨p.dst, s.view p.dst, .msg p, v⟩ : Record).posts = _ :=
        (recorded hquiet hc).posts
      refine Truthful.mono ?_ fun x hx => List.mem_append_left _ hx
      simp only [Ledger.record, hposts]
      refine h.shutdown hc (fun _ => hd.mem_of_mem) rfl (fun post => bcasts_body) ?_ rfl
      have hnone : (sent s p.dst (bcasts job (s.view p.dst).mgr.mpiRank)).filterMap L.answer =
          [] := by
        rw [List.filterMap_eq_nil_iff]
        intro post hpost
        simp [Ledger.answer, bcasts_body hpost, replyTo]
      simp only [Ledger.serve, hnone, List.append_nil]
    · obtain ⟨hc, -⟩ := effect_change net he (hquiet p.dst).1 (hquiet p.dst).2 rfl
      have hposts : (⟨p.dst, s.view p.dst, .msg p, v⟩ : Record).posts = _ :=
        (recorded hquiet hc).posts
      refine Truthful.mono ?_ fun x hx => List.mem_append_left _ hx
      simp only [Ledger.record, hposts]
      exact h.handled hbk hset hlife' hd ho hc
  | req r rqe q v hr hq hproc => exact h.req hset hq hproc
  | shutdown hidle hdrain =>
    obtain ⟨hc, -⟩ := shutdown_change s.net (broadcastShutdown_spec job (s.view 0) (hquiet 0).1)
      (hquiet 0).1 (hquiet 0).2 rfl
    refine Truthful.mono ?_ fun x hx => List.mem_append_left _ hx
    exact h.shutdown hc (fun _ => id) rfl (fun post => bcasts_body) rfl rfl

end Steps

section Runs

variable {job : Job} {log : List Record} {s : Sys}

theorem truthful_init (job : Job) : Truthful .start [] (sysInit job) where
  flight p hp := by simp [sysInit] at hp
  zombie i halloc hfinal := by
    by_cases hi : i = 0
    · subst hi
      simp [sysInit, mgrStartapp, Gtab.zero, LtState.needFinalstate, LtState.code] at hfinal
    · simp [sysInit, mgrStartapp, hi, Gtab.zero] at halloc
  waits rqe hrqe := by simp [sysInit_rpending] at hrqe
  joined c ret h := by cases h

theorem logged_truthful (h : Logged job log s) : Truthful (ledger log) (ends log) s := by
  induction h with
  | init => exact truthful_init job
  | snoc hlog hs ih =>
    rw [ledger_snoc, ends_snoc]
    exact truthful_moves ih (logged_booked hlog) (reachable_settled hlog.reachable)
      (reachable_lifeOk (hlog.snoc hs).reachable) hs

/-- In every run a join that is done without an error has returned the value
that the thread it names had in its entry when its own manager reported its
end, however many messages and table changes lie between the two. -/
theorem join_returns_left_value (h : Logged job log s) {r l : ℕ} {c : Call} {thread : DThread}
    (hcall : (ledger log).calls (r, l) = some c) (hbody : c.body = .join thread)
    (hdone : ((s.rk r).mgr.ltab l).reqstate = .done)
    (herr : ((s.rk r).mgr.ltab l).reqerror = 0) :
    (thread, ((s.rk r).mgr.ltab l).retval) ∈ ends log := by
  have hbooked := logged_booked h
  rcases hbooked.finished r l c hcall hdone with ⟨heio, -⟩ | ⟨body, hans, hreads⟩
  · rw [herr] at heio
    cases heio
  · obtain ⟨-, hreply⟩ := hbooked.answersServed _ hans
    simp only [hbody, Body.op] at hreply
    cases body with
    | joined e ret =>
      obtain ⟨rfl, hret⟩ := hreads
      rw [herr] at hans
      obtain ⟨thread', hbody', hend⟩ := (logged_truthful h).joined c ret hans
      obtain rfl : thread = thread' := by simpa [hbody] using hbody'
      rw [hret]
      exact hend
    | _ => simp [replyTo] at hreply

/-- A thread of `twoRanks` is joined while it runs and then returns a value,
which the main thread reads. -/
theorem join_returns_left_value_waiting : ∃ log s, Logged twoRanks log s ∧
    ((s.rk 0).mgr.ltab 0).reqstate = .done ∧
    ((s.rk 0).mgr.ltab 0).retval = ⟨DTHREAD_INLINE, 1, [7]⟩ ∧
    (⟨1, 6⟩, ((s.rk 0).mgr.ltab 0).retval) ∈ ends log := by
  have hwaits : Logged twoRanks _ _ := .snoc (.snoc (.snoc createdRun.2
    (.app 0 0 (.post (.join ⟨1, 6⟩) 0) (by decide) (by decide) ⟨rfl, rfl, rfl⟩))
    (.req 0 _ _ _ (by decide) rfl rfl))
    (.recv ⟨0, 0, _⟩ _ 0 0 _ (by decide) ⟨[], [], rfl, rfl, by simp⟩ rfl)
  have hended : Logged twoRanks _ _ := .snoc (.snoc (.snoc (.snoc (.snoc hwaits
    (.app 1 0 .publish (by decide) (by decide) ⟨rfl, by decide, rfl, by decide⟩))
    (.app 1 0 (.appReturn ⟨DTHREAD_INLINE, 1, [7]⟩) (by decide) (by decide)
      ⟨rfl, rfl, by decide⟩))
    (.app 1 0 (.cleanup true none) (by decide) (by decide) rfl))
    (.req 1 _ _ _ (by decide) rfl rfl))
    (.recv ⟨1, 0, _⟩ _ 0 0 _ (by decide) ⟨[], [], rfl, rfl, by simp⟩ rfl)
  have hjoined : Logged twoRanks _ _ := .snoc hended
    (.recv ⟨0, 0, _⟩ _ 0 0 _ (by decide) ⟨[], [], rfl, rfl, by simp⟩ rfl)
  exact ⟨_, _, hjoined, rfl, rfl,
    join_returns_left_value hjoined (c := ⟨1, 0, 0, .join ⟨1, 6⟩⟩) rfl rfl rfl rfl⟩

end Runs

end Dthread.JoinValues
