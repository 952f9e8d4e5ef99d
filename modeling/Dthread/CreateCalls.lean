import Dthread.CallLedger

/-!
From a CREATE to its thread. Rank 0 makes a thread when it handles a CREATE, and
the entry that it fills keeps the function and the argument of that call until
it is free again. A call makes at most one thread, a thread that runs belongs
to one call, and a call that succeeds returns the handle of its own thread.
-/
namespace Dthread.CreateCalls

open ReqMsg Queuing ManagerTables ManagerHandlers ManagerEffects ManagerOutcomes AppThreads
open FifoNet JobSystem JobLogs RequestReply LocalSlots ThreadLife LifeRefinement TableSteps
open FateRefinement FateSteps CallLedger

/-- An entry that holds a thread still holds the same one. -/
def SameThread (gt gt' : Gtab) : Prop :=
  gt'.allocated = true → gt.allocated = true ∧ gt'.seq = gt.seq ∧ gt'.dispIdx = gt.dispIdx ∧
    gt'.arg = gt.arg

namespace SameThread

theorem refl (gt : Gtab) : SameThread gt gt := fun h => ⟨h, rfl, rfl, rfl⟩

theorem trans {gt gt' gt'' : Gtab} (h : SameThread gt gt') (h' : SameThread gt' gt'') :
    SameThread gt gt'' := by
  intro halloc
  obtain ⟨halloc', hseq', hdisp', harg'⟩ := h' halloc
  obtain ⟨halloc'', hseq, hdisp, harg⟩ := h halloc'
  exact ⟨halloc'', hseq'.trans hseq, hdisp'.trans hdisp, harg'.trans harg⟩

theorem update {gtab : ℕ → Gtab} {k : ℕ} {gt : Gtab} (h : SameThread (gtab k) gt) (i : ℕ) :
    SameThread (gtab i) (Function.update gtab k gt i) := by
  by_cases hi : i = k
  · rw [hi, Function.update_self]
    exact h
  · rw [Function.update_of_ne hi]
    exact refl _

theorem freeGtab (gtab : ℕ → Gtab) (k i : ℕ) :
    SameThread (gtab i) (ManagerEffects.freeGtab gtab k i) := by
  unfold ManagerEffects.freeGtab
  split
  · apply update
    intro h
    cases h
  · exact refl _

theorem cleanupGtab (job : Job) (gtab : ℕ → Gtab) (k i : ℕ) :
    SameThread (gtab i) (ManagerOutcomes.cleanupGtab job gtab k i) := by
  unfold ManagerOutcomes.cleanupGtab
  split
  · exact refl _
  · apply update
    exact fun h => ⟨h, rfl, rfl, rfl⟩

theorem zombieGtab (gtab : ℕ → Gtab) (thread : DThread) (fin : LtState) (i : ℕ) :
    SameThread (gtab i) (ManagerOutcomes.zombieGtab gtab thread fin i) := by
  apply update
  exact fun h => ⟨h, rfl, rfl, rfl⟩

end SameThread

def isStart (post : Post) : Prop := ∃ thread attrs, post.2.body = .start thread attrs

section Outcomes

variable {job : Job} {v : View} {mqe : Mqe} {m : Mgr} {gt : ℕ → Gtab} {out : List Post}

theorem appOutcome_sameThread {l : ℕ} {lt lt' : Ltab} {gtab : ℕ → Gtab} {g : Gtab}
    {rq : List Request} (h : AppOutcome job l lt gtab lt' g rq) :
    SameThread (gtab lt.gtabIdx) g := by
  cases h <;> exact fun halloc => ⟨halloc, rfl, rfl, rfl⟩

/-- A handler that starts no thread fills no entry. -/
theorem mqeOutcome_sameThread (h : MqeOutcome job v mqe m gt out)
    (hno : ∀ post ∈ out, ¬ isStart post) (i : ℕ) : SameThread (v.gtab i) (gt i) := by
  have hdetach (k : ℕ) : SameThread (v.gtab i)
      (Function.update v.gtab k { v.gtab k with detached := true } i) := by
    apply SameThread.update
    exact fun h => ⟨h, rfl, rfl, rfl⟩
  cases h with
  | createOk attrs dispIdx arg n gidx xidseq hb hdisp hroom hfree hlt hxid hd =>
    exact absurd ⟨_, _, rfl⟩ (hno _ (List.mem_singleton_self _))
  | createDrain attrs dispIdx arg gidx xidseq hb hfree hlt hd =>
    apply SameThread.update
    intro h
    cases h
  | detachPlain thread hb h hw => exact hdetach _
  | detachWait thread rqe hb h hw => exact hdetach _
  | joinZombie thread hb h hdet hz => exact .freeGtab _ _ _
  | terminatedZombie thread fin hb hlen hlt hseq hfin hdet hw => exact .zombieGtab _ _ _ _
  | terminatedDetached thread fin hb hlen hlt hseq hfin hdet hw =>
    exact ((SameThread.zombieGtab _ _ _ i).trans (.cleanupGtab _ _ _ i)).trans (.freeGtab _ _ i)
  | terminatedJoined thread fin rqe hb hlen hlt hseq hfin hdet hw =>
    exact (SameThread.zombieGtab _ _ _ i).trans (.freeGtab _ _ i)
  | terminatedDetachedJoined thread fin rqe hb hlen hlt hseq hfin hdet hw =>
    exact ((SameThread.zombieGtab _ _ _ i).trans (.cleanupGtab _ _ _ i)).trans (.freeGtab _ _ i)
  | startedErr rqe e hb he h => exact .freeGtab _ _ _
  | _ => exact .refl _

/-- A START request stays the same, or the handler has just started a thread. -/
theorem mqeOutcome_starting (h : MqeOutcome job v mqe m gt out)
    (hno : ∀ post ∈ out, ¬ isStart post) {rqe : Request} (hrqe : rqe ∈ m.rpending)
    (hop : rqe.reqop = .start) : rqe ∈ v.mgr.rpending := by
  cases h with
  | createOk attrs dispIdx arg n gidx xidseq hb hdisp hroom hfree hlt hxid hd =>
    exact absurd ⟨_, _, rfl⟩ (hno _ (List.mem_singleton_self _))
  | joinWait thread n hb h hdet hz hw =>
    simp only [List.mem_append, List.mem_singleton] at hrqe
    rcases hrqe with hrqe | rfl
    · exact hrqe
    · simp [joinwaitRequest] at hop
  | detachWait => exact List.mem_of_mem_eraseP hrqe
  | terminatedJoined => exact List.mem_of_mem_eraseP hrqe
  | terminatedDetachedJoined => exact List.mem_of_mem_eraseP hrqe
  | startedOk => exact List.mem_of_mem_eraseP hrqe
  | startedErr => exact List.mem_of_mem_eraseP hrqe
  | reply => exact List.mem_of_mem_eraseP hrqe
  | _ => exact hrqe

/-- The handle in a CREATED without error is that of a START which rank 0 has
kept. -/
theorem mqeOutcome_created (h : MqeOutcome job v mqe m gt out) {post : Post} (hpost : post ∈ out)
    {newthread : DThread} (hb : post.2.body = .created 0 newthread) :
    ∃ rqe ∈ v.mgr.rpending, rqe.reqop = .start ∧ rqe.creinfo.cThread = newthread ∧
      post.1 = rqe.creinfo.cPeer ∧ post.2.xidseq = rqe.creinfo.cXidseq ∧
      mqe.frame.body = .started 0 := by
  cases h with
  | startedOk rqe hb' h =>
    rw [List.mem_singleton] at hpost
    subst hpost
    obtain rfl : rqe.creinfo.cThread = newthread := by simpa [Frame.of] using hb
    exact ⟨rqe, List.mem_of_find?_eq_some h, (findPendingReq_spec h).2, rfl, rfl, rfl, hb'⟩
  | createErr attrs dispIdx arg e next hb' he hnext =>
    rw [List.mem_singleton] at hpost
    subst hpost
    exact absurd (by simpa [Frame.of] using hb : e = 0 ∧ _).1 he
  | createDrain attrs dispIdx arg gidx xidseq hb' hfree hlt hd =>
    rw [List.mem_singleton] at hpost
    subst hpost
    simp [Frame.of, ReqMsg.EIO] at hb
  | startedErr rqe e hb' he h =>
    rw [List.mem_singleton] at hpost
    subst hpost
    exact absurd (by simpa [Frame.of] using hb : e = 0 ∧ _).1 he
  | detachWait =>
    simp only [Frame.of, joinedPost, List.mem_cons, List.not_mem_nil, or_false] at hpost
    rcases hpost with rfl | rfl <;> simp at hb
  | drop | joinWait | terminatedZombie | terminatedDetached | reply => simp at hpost
  | createOk | startInvalid | startOk | startFail | detachNone | detachPlain | cancelErr |
    cancelMiss | cancelHit | joinErr | joinZombie | terminatedJoined |
    terminatedDetachedJoined =>
    rw [List.mem_singleton] at hpost
    subst hpost
    simp [Frame.of, joinedPost] at hb

end Outcomes

/-- The threads of a state and the births in the ledger of its run. -/
structure Born (L : Ledger) (s : Sys) : Prop where
  once : (L.births.map Prod.fst).Nodup
  served : ∀ b ∈ L.births, b.1 ∈ L.served
  starting : ∀ rqe ∈ (s.rk 0).mgr.rpending, rqe.reqop = .start → ∃ c,
    L.owner ⟨rqe.creinfo.cPeer, .create, rqe.creinfo.cXidseq⟩ = some c ∧
      (c, rqe.creinfo.cThread) ∈ L.births
  created : ∀ c newthread, (c, Body.created 0 newthread) ∈ L.answers → (c, newthread) ∈ L.births
  entries : ∀ i, (s.gtab i).allocated = true → (s.gtab i).dispIdx = 0 ∨ ∃ c attrs,
    (c, ⟨i, (s.gtab i).seq⟩) ∈ L.births ∧
      c.body = .create attrs (s.gtab i).dispIdx (s.gtab i).arg

section Steps

variable {job : Job} {L L' : Ledger} {s s' : Sys}

/-- A step that handles no packet makes no thread. -/
theorem Born.keep (h : Born L s) (hbirths : L'.births = L.births) (hserved : L'.served = L.served)
    (hanswers : L'.answers = L.answers)
    (howner : ∀ k, forwarded k.op = true → 0 < tokens s k → L'.owner k = L.owner k)
    (hpend : ∀ rqe ∈ (s'.rk 0).mgr.rpending, rqe.reqop = .start → rqe ∈ (s.rk 0).mgr.rpending)
    (hgtab : ∀ i, SameThread (s.gtab i) (s'.gtab i)) : Born L' s' := by
  refine ⟨?_, ?_, ?_, ?_, ?_⟩
  · rw [hbirths]
    exact h.once
  · rw [hbirths, hserved]
    exact h.served
  · intro rqe hrqe hop
    have hold := hpend rqe hrqe hop
    obtain ⟨c, ho, hborn⟩ := h.starting rqe hold hop
    have hkey : waitKey rqe = some ⟨rqe.creinfo.cPeer, .create, rqe.creinfo.cXidseq⟩ := by
      simp [waitKey, hop]
    refine ⟨c, (howner _ rfl (tokens_of_wait hold hkey)).trans ho, ?_⟩
    rw [hbirths]
    exact hborn
  · rw [hbirths, hanswers]
    exact h.created
  · intro i halloc
    obtain ⟨halloc', hseq, hdisp, harg⟩ := hgtab i halloc
    rw [hbirths, hseq, hdisp, harg]
    exact h.entries i halloc'

theorem filterMap_birth_quiet {p : Packet} {posts : List Post}
    (hno : ∀ post ∈ posts, ¬ isStart post) : posts.filterMap (L.birth p) = [] := by
  rw [List.filterMap_eq_nil_iff]
  intro post hpost
  cases hb : post.2.body with
  | start thread attrs => exact absurd ⟨thread, attrs, hb⟩ (hno post hpost)
  | _ => simp [Ledger.birth, hb]

variable {p : Packet} {net : List Packet} {addr : ℕ} {m : Mgr} {gt : ℕ → Gtab} {rq : List Request}
  {out posts : List Post}

/-- A packet is handled and no thread is started. -/
theorem Born.quiet (h : Born L s)
    (hc : Change s s' p.dst m gt rq net posts)
    (hno : ∀ post ∈ posts, ¬ isStart post)
    (hpend : ∀ rqe ∈ m.rpending, rqe.reqop = .start → rqe ∈ (s.rk p.dst).mgr.rpending)
    (hcreated : ∀ post ∈ posts, ∀ newthread, post.2.body = .created 0 newthread →
      ∃ rqe ∈ (s.rk 0).mgr.rpending, rqe.reqop = .start ∧ rqe.creinfo.cThread = newthread ∧
        post.1 = rqe.creinfo.cPeer ∧ post.2.xidseq = rqe.creinfo.cXidseq)
    (hgtab : ∀ i, SameThread (s.gtab i) (gt i)) : Born (L.serve p posts) s' := by
  have hbirths : (L.serve p posts).births = L.births := by
    simp only [Ledger.serve, filterMap_birth_quiet hno, List.append_nil]
  refine ⟨?_, ?_, ?_, ?_, ?_⟩
  · rw [hbirths]
    exact h.once
  · rw [hbirths]
    intro b hb
    exact mem_serve_served.mpr (.inl (h.served b hb))
  · rw [hbirths]
    intro rqe hrqe hop
    refine h.starting rqe ?_ hop
    by_cases h0 : 0 = p.dst
    · rw [h0, hc.mgr] at hrqe
      rw [h0]
      exact hpend rqe hrqe hop
    · rwa [hc.others 0 h0] at hrqe
  · rw [hbirths]
    intro c newthread hans
    rcases mem_serve_answers.mp hans with hans | ⟨post, hpost, hans⟩
    · exact h.created c newthread hans
    · obtain ⟨op, hreply, ho, hbody⟩ := answer_eq_some.mp hans
      obtain ⟨rqe, hrqe, hop, rfl, hpeer, hxid⟩ := hcreated post hpost newthread hbody.symm
      obtain ⟨c', ho', hborn⟩ := h.starting rqe hrqe hop
      rw [← hbody] at hreply
      obtain rfl : Op.create = op := by simpa [replyTo] using hreply
      rw [hpeer, hxid] at ho
      obtain rfl : c = c' := Option.some.inj (ho.symm.trans ho')
      exact hborn
  · rw [hbirths, hc.gtab]
    intro i halloc
    obtain ⟨halloc', hseq, hdisp, harg⟩ := hgtab i halloc
    rw [hseq, hdisp, harg]
    exact h.entries i halloc'

/-- Rank 0 makes a thread for a CREATE. -/
theorem Born.create (h : Born L s) (hbk : Booked L s) (hp : p ∈ s.net) {attrs : Attr}
    {dispIdx peer gidx seq xidseq : ℕ} {arg : Argret} {entry : Gtab} {start : Attr} {rqe : Request}
    (hb : p.frame.body = .create attrs dispIdx arg) (hdst : p.dst = 0)
    (hstart : rqe.creinfo = ⟨⟨gidx, seq⟩, p.src, p.frame.xidseq⟩)
    (hpend : m.rpending = (s.rk 0).mgr.rpending ++ [rqe])
    (hentry : entry.seq = seq ∧ entry.dispIdx = dispIdx ∧ entry.arg = arg)
    (hc : Change s s' p.dst m (Function.update s.gtab gidx entry) rq net
      [(peer, .of xidseq (.start ⟨gidx, seq⟩ start))]) :
    Born (L.serve p [(peer, .of xidseq (.start ⟨gidx, seq⟩ start))]) s' := by
  have hop : forwarded p.frame.body.op = true := by rw [hb]; rfl
  obtain ⟨c, hasked, hbody, hserved⟩ := hbk.asked p hp hop
  have howner : L.owner ⟨p.src, .create, p.frame.xidseq⟩ = some c := by
    rw [← hasked, Ledger.asked, if_pos hop, hb]
    rfl
  have hbirths : (L.serve p [(peer, .of xidseq (.start ⟨gidx, seq⟩ start))]).births =
      L.births ++ [(c, ⟨gidx, seq⟩)] := by
    simp [Ledger.serve, Ledger.birth, Frame.of, hasked]
  refine ⟨?_, ?_, ?_, ?_, ?_⟩
  · rw [hbirths, List.map_append]
    refine List.nodup_append.mpr ⟨h.once, by simp, ?_⟩
    rintro c' hold c'' hnew rfl
    obtain rfl : c' = c := by simpa using hnew
    obtain ⟨b, hmem, rfl⟩ := List.mem_map.mp hold
    exact hserved (h.served b hmem)
  · rw [hbirths]
    intro b hmem
    rcases List.mem_append.mp hmem with hmem | hmem
    · exact mem_serve_served.mpr (.inl (h.served b hmem))
    · obtain rfl := List.mem_singleton.mp hmem
      exact mem_serve_served.mpr (.inr hasked)
  · rw [hbirths]
    intro rqe' hrqe' hop'
    rw [← hdst, hc.mgr, hpend, List.mem_append, List.mem_singleton] at hrqe'
    rcases hrqe' with hrqe' | rfl
    · obtain ⟨c', ho', hborn⟩ := h.starting rqe' hrqe' hop'
      exact ⟨c', ho', List.mem_append_left _ hborn⟩
    · refine ⟨c, ?_, ?_⟩
      · rw [hstart]
        exact howner
      · rw [hstart]
        exact List.mem_append_right _ (List.mem_singleton_self _)
  · rw [hbirths]
    intro c' newthread hans
    refine List.mem_append_left _ (h.created c' newthread ?_)
    rcases mem_serve_answers.mp hans with hans | ⟨post, hpost, hans⟩
    · exact hans
    · obtain rfl := List.mem_singleton.mp hpost
      simp [Ledger.answer, Frame.of, replyTo] at hans
  · rw [hbirths, hc.gtab]
    intro i halloc
    by_cases hi : i = gidx
    · subst hi
      rw [Function.update_self]
      obtain ⟨rfl, rfl, rfl⟩ := hentry
      exact .inr ⟨c, attrs, List.mem_append_right _ (List.mem_singleton_self _),
        hbody.trans hb⟩
    · rw [Function.update_of_ne hi] at halloc ⊢
      rcases h.entries i halloc with hzero | ⟨c', attrs', hborn, hbody'⟩
      · exact .inl hzero
      · exact .inr ⟨c', attrs', List.mem_append_left _ hborn, hbody'⟩

theorem Born.outcome (h : Born L s) (hbk : Booked L s) (hf : Facts job s) (hp : p ∈ s.net)
    (ho : MqeOutcome job (s.view p.dst) ⟨addr, p.src, p.frame⟩ m gt out)
    (hc : Change s s' p.dst m gt rq net (sent s p.dst out)) :
    Born (L.serve p (sent s p.dst out)) s' := by
  have hrank0 := hf.wellformed.rank0 p hp
  by_cases hstart : ∀ post ∈ out, ¬ isStart post
  · refine h.quiet hc (fun post hpost => hstart post (mem_sent hpost))
      (fun rqe hrqe hop => mqeOutcome_starting ho hstart hrqe hop) ?_
      (mqeOutcome_sameThread ho hstart)
    intro post hpost newthread hb
    obtain ⟨rqe, hrqe, hop, hthread, hpeer, hxid, hstarted⟩ :=
      mqeOutcome_created ho (mem_sent hpost) hb
    simp only at hstarted
    have hdst : p.dst = 0 := hrank0 (by rw [hstarted]; rfl)
    rw [hdst] at hrqe
    exact ⟨rqe, hrqe, hop, hthread, hpeer, hxid⟩
  · cases ho with
    | createOk attrs dispIdx arg n gidx xidseq hb hdisp hroom hfree hlt hxid hd =>
      simp only at hb
      have hdst : p.dst = 0 := hrank0 (by rw [hb]; rfl)
      have hsent : ∀ out, sent s p.dst out = out := fun out => if_pos hd
      rw [hsent] at hc ⊢
      exact h.create hbk hp hb hdst rfl (by rw [← hdst]; rfl) ⟨rfl, rfl, rfl⟩ hc
    | _ => exact absurd (by simp [isStart, Frame.of, joinedPost]) hstart

theorem foldl_forward_rest (L : Ledger) (r l : ℕ) (posts : List Post) :
    (posts.foldl (fun L post => L.forward r l post) L).births = L.births ∧
      (posts.foldl (fun L post => L.forward r l post) L).served = L.served ∧
      (posts.foldl (fun L post => L.forward r l post) L).answers = L.answers := by
  induction posts generalizing L with
  | nil => exact ⟨rfl, rfl, rfl⟩
  | cons post rest ih =>
    obtain ⟨hbirths, hserved, hanswers⟩ := ih (L.forward r l post)
    rw [List.foldl_cons, hbirths, hserved, hanswers]
    unfold Ledger.forward
    split <;> exact ⟨rfl, rfl, rfl⟩

theorem retcleanGtab_eq (mgr : Mgr) (gtab : ℕ → Gtab) (l i : ℕ) :
    retcleanGtab mgr gtab l i = gtab i ∨
      retcleanGtab mgr gtab l i = { gtab i with hasLtab := false } := by
  unfold retcleanGtab
  split
  · by_cases hi : i = (mgr.ltab l).gtabIdx
    · rw [hi, Function.update_self]
      exact .inr rfl
    · rw [Function.update_of_ne hi]
      exact .inl rfl
  · exact .inl rfl

/-- What a manager leaves that has handled a request: the table up to links to
slots, the pending list up to requests that it has forwarded, and the ledger up
to the key of one of these. -/
structure Requested (L L' : Ledger) (s : Sys) (r : ℕ) (m : Mgr) (gt : ℕ → Gtab) : Prop where
  births : L'.births = L.births
  served : L'.served = L.served
  answers : L'.answers = L.answers
  owner : ∀ k, forwarded k.op = true → 0 < tokens s k → L'.owner k = L.owner k
  pending : ∀ rqe ∈ m.rpending, rqe ∈ (s.rk r).mgr.rpending ∨ forwarded rqe.reqop = true
  gtab : ∀ i, gt i = s.gtab i ∨ gt i = { s.gtab i with hasLtab := false }

theorem req_requested (L : Ledger) (hf : Facts job s) {r : ℕ} {rqe : Request} {q : Dtq} {v : View}
    (hq : dtqReqDequeue (s.rk r).dtq = (some rqe, q))
    (hproc : processReq job ((s.view r).setDtq q) rqe = some v) : ∃ m gt rest,
      Change s (s.put r v) r m gt rest s.net (⟨r, s.view r, .req rqe, v⟩ : Record).posts ∧
        Requested L (L.record ⟨r, s.view r, .req rqe, v⟩) s r m gt := by
  have hquiet := hf.sane.quiet
  obtain ⟨rest, hrest, hcase⟩ := req_cases hquiet hq hproc
  have hmem : rqe ∈ (s.rk r).dtq.mgrreqq := by
    rw [hrest]
    exact List.mem_cons_self
  obtain ⟨l, hl, haddr, hissued⟩ := (hf.slots r).queued rqe hmem
  have hmake {m : Mgr} {gt : ℕ → Gtab} {posts : List Post}
      (hc : Change s (s.put r v) r m gt rest s.net posts)
      (howner : ∀ k, forwarded k.op = true → 0 < tokens s k →
        (posts.foldl (fun L post => L.forward r l post) L).owner k = L.owner k)
      (hpend : ∀ rqe' ∈ m.rpending, rqe' ∈ (s.rk r).mgr.rpending ∨ forwarded rqe'.reqop = true)
      (hgtab : ∀ i, gt i = s.gtab i ∨ gt i = { s.gtab i with hasLtab := false }) :
      ∃ m gt rest, Change s (s.put r v) r m gt rest s.net
          (⟨r, s.view r, .req rqe, v⟩ : Record).posts ∧
        Requested L (L.record ⟨r, s.view r, .req rqe, v⟩) s r m gt := by
    have hposts : (⟨r, s.view r, .req rqe, v⟩ : Record).posts = posts := (recorded hquiet hc).posts
    have hrecord : L.record ⟨r, s.view r, .req rqe, v⟩ =
        posts.foldl (fun L post => L.forward r l post) L := by
      rw [← hposts]
      simp only [Ledger.record, haddr]
    obtain ⟨hbirths, hserved, hanswers⟩ := foldl_forward_rest L r l posts
    rw [hrecord, hposts]
    exact ⟨m, gt, rest, hc, hbirths, hserved, hanswers, howner, hpend, hgtab⟩
  have hquietly {posts : List Post} (hno : ∀ post ∈ posts, forwarded post.2.body.op = false)
      (k : Key) : (posts.foldl (fun L post => L.forward r l post) L).owner k = L.owner k := by
    rw [foldl_forward_quiet L r l hno]
  have hnone : ∀ post ∈ sent s r [], forwarded post.2.body.op = false := by
    intro post hpost
    cases mem_sent hpost
  rcases hcase with ⟨l', hop, haddr', hrank, hdd, hc⟩ | ⟨m, gt, out, hdd, ho, hc⟩
  · exact hmake hc (fun k _ _ => hquietly
      (fun post hpost => (bcasts_quiet job _ post (mem_sent hpost)).1) k)
      (fun _ => .inl) fun _ => .inl rfl
  · cases ho with
    | bad hbad =>
      exact hmake hc (fun k _ _ => hquietly hnone k) (fun _ => .inl) fun _ => .inl rfl
    | forwardDrain l' xidseq haddr' hlt hbusy hop hd =>
      exact hmake hc (fun k _ _ => hquietly hnone k) (fun _ => .inl) fun _ => .inl rfl
    | app0Other l' haddr' hop hrank =>
      exact hmake hc (fun k _ _ => hquietly hnone k) (fun _ => .inl) fun _ => .inl rfl
    | retclean l' haddr' hlt hbusy hop =>
      refine hmake hc (fun k _ _ => hquietly (fun post hpost => ?_) k) (fun _ => .inl)
        fun i => retcleanGtab_eq _ _ _ _
      obtain rfl := List.mem_singleton.mp (mem_sent hpost)
      rfl
    | forward l' mqe xidseq haddr' hlt hbusy hop hmqe hxid hd =>
      have hsent : ∀ out, sent s r out = out := fun out => if_pos hd
      rw [hsent] at hc
      have hbop : mqe.frame.body.op = rqe.reqop :=
        (hf.wellformed.requests r rqe hmem mqe hmqe).2.1
      refine hmake hc (fun k hk htok => ?_) (fun rqe' hrqe' => ?_) fun _ => .inl rfl
      · simp only [List.foldl_cons, List.foldl_nil, Ledger.forward, hbop, hop, if_true]
        exact Function.update_of_ne ((fresh_key hf hxid).2 k hk htok) ..
      · rw [List.mem_append, List.mem_singleton] at hrqe'
        rcases hrqe' with hrqe' | rfl
        · exact .inl hrqe'
        · exact .inr hop

/-- A request that is not forwarded is on rank 0's pending list before and
after another request was handled. -/
theorem Requested.mem_pending {L L' : Ledger} {r : ℕ} {m : Mgr} {gt : ℕ → Gtab}
    {rest : List Request} {net : List Packet} {posts : List Post}
    (h : Requested L L' s r m gt) (hc : Change s s' r m gt rest net posts) {rqe : Request}
    (hrqe : rqe ∈ (s'.rk 0).mgr.rpending) (hop : forwarded rqe.reqop = false) :
    rqe ∈ (s.rk 0).mgr.rpending := by
  by_cases h0 : 0 = r
  · rw [h0, hc.mgr] at hrqe
    rw [h0]
    rcases h.pending rqe hrqe with hold | hforw
    · exact hold
    · exact Bool.noConfusion (hforw.symm.trans hop)
  · rwa [hc.others 0 h0] at hrqe

theorem Born.req (h : Born L s) (hf : Facts job s) {r : ℕ} {rqe : Request} {q : Dtq} {v : View}
    (hq : dtqReqDequeue (s.rk r).dtq = (some rqe, q))
    (hproc : processReq job ((s.view r).setDtq q) rqe = some v) :
    Born (L.record ⟨r, s.view r, .req rqe, v⟩) (s.put r v) := by
  obtain ⟨m, gt, rest, hc, hreq⟩ := req_requested L hf hq hproc
  refine h.keep hreq.births hreq.served hreq.answers hreq.owner (fun rqe' hrqe' hop => ?_)
    fun i => ?_
  · exact hreq.mem_pending hc hrqe' (by rw [hop]; rfl)
  · rw [hc.gtab]
    rcases hreq.gtab i with hgt | hgt
    · rw [hgt]
      exact .refl _
    · rw [hgt]
      exact fun halloc => ⟨halloc, rfl, rfl, rfl⟩

theorem born_moves {e : Record} (h : Born L s) (hbk : Booked L s) (hf : Facts job s)
    (hs : Moves job s e s') : Born (L.record e) s' := by
  have hquiet := hf.sane.quiet
  cases hs with
  | app r l act hr hl hen =>
    obtain ⟨lt, g, rq, ho, he⟩ := appStep_outcome job l (s.view r) _ (hquiet r).1
      (appStep_iff.mpr ⟨act, hen, rfl⟩)
    have hc : Change s (s.put r (act.run job (s.view r) l)) r (act.run job (s.view r) l).mgr
        (act.run job (s.view r) l).gtab (act.run job (s.view r) l).dtq.mgrreqq s.net [] :=
      put_change s.net he.mallocs (by simpa [Sys.view, (hquiet r).2] using he.accepted)
    rw [he.mgr, he.gtab] at hc
    refine h.keep (by cases act <;> rfl) (by cases act <;> rfl) (by cases act <;> rfl)
      (fun k _ _ => by cases act <;> rfl) (fun rqe hrqe _ => ?_) fun i => ?_
    · by_cases h0 : 0 = r
      · rwa [h0, hc.mgr, Mgr.setLtab, ← h0] at hrqe
      · rwa [hc.others 0 h0] at hrqe
    · rw [hc.gtab]
      apply SameThread.update
      exact appOutcome_sameThread ho
  | recv p net addr err v hr hd hproc =>
    rcases processMqe_outcome job _ v _ err (hquiet p.dst).1 hproc with
      ⟨hb, hshut⟩ | ⟨m, gt, out, ho, he⟩
    · obtain ⟨hc, -⟩ := shutdown_change net hshut (hquiet p.dst).1 (hquiet p.dst).2 rfl
      have hposts : (⟨p.dst, s.view p.dst, .msg p, v⟩ : Record).posts = _ :=
        (recorded hquiet hc).posts
      simp only [Ledger.record, hposts]
      refine h.quiet hc (fun post hpost => ?_) (fun rqe hrqe _ => hrqe) (fun post hpost t hb' => ?_)
        fun i => .refl _
      · rintro ⟨thread, attrs, hstart⟩
        rw [bcasts_body hpost] at hstart
        cases hstart
      · rw [bcasts_body hpost] at hb'
        cases hb'
    · obtain ⟨hc, -⟩ := effect_change net he (hquiet p.dst).1 (hquiet p.dst).2 rfl
      have hposts : (⟨p.dst, s.view p.dst, .msg p, v⟩ : Record).posts = _ :=
        (recorded hquiet hc).posts
      simp only [Ledger.record, hposts]
      exact h.outcome hbk hf hd.mem ho hc
  | req r rqe q v hr hq hproc => exact h.req hf hq hproc
  | shutdown hidle hdrain =>
    obtain ⟨hc, -⟩ := shutdown_change s.net (broadcastShutdown_spec job (s.view 0) (hquiet 0).1)
      (hquiet 0).1 (hquiet 0).2 rfl
    refine h.keep rfl rfl rfl (fun _ _ _ => rfl) (fun rqe hrqe _ => ?_) fun i => ?_
    · rwa [hc.mgr] at hrqe
    · rw [hc.gtab]
      exact .refl _

end Steps

theorem born_init (job : Job) : Born .start (sysInit job) where
  once := List.nodup_nil
  served b hb := by cases hb
  starting rqe hrqe := by simp [sysInit_rpending] at hrqe
  created c newthread h := by cases h
  entries i halloc := by
    by_cases hi : i = 0
    · subst hi
      exact .inl (by simp [sysInit, mgrStartapp])
    · simp [sysInit, mgrStartapp, hi, Gtab.zero] at halloc

theorem logged_born {job : Job} {log : List Record} {s : Sys} (h : Logged job log s) :
    Born (ledger log) s := by
  induction h with
  | init => exact born_init job
  | snoc hlog hs ih =>
    rw [ledger_snoc]
    exact born_moves ih (logged_booked hlog) (reachable_facts hlog.reachable) hs

section Runs

variable {job : Job} {log : List Record} {s : Sys}

/-- The handle of the thread in a slot. -/
def hosted (s : Sys) (r l : ℕ) : DThread :=
  ⟨((s.rk r).mgr.ltab l).gtabIdx, ((s.rk r).mgr.ltab l).seq⟩

theorem exists_birth (h : Logged job log s) {r l : ℕ}
    (hused : ((s.rk r).mgr.ltab l).pthState ≠ .none)
    (hdisp : (s.gtab (hosted s r l).dtIndex).dispIdx ≠ 0) : ∃ c attrs,
      (c, hosted s r l) ∈ (ledger log).births ∧
      c.body = .create attrs (s.gtab (hosted s r l).dtIndex).dispIdx
        (s.gtab (hosted s r l).dtIndex).arg := by
  have hset := reachable_settled h.reachable
  have hnamed : Named s r (hosted s r l) := .slot r l hused
  have halloc := (isLive_of_mem (hnamed.live hset.life)).2.1
  rcases (logged_born h).entries _ halloc with hzero | ⟨c, attrs, hborn, hbody⟩
  · exact absurd hzero hdisp
  · rw [(hset.names r _ hnamed).2] at hborn
    exact ⟨c, attrs, hborn, hbody⟩

/-- A call has one thread, and a thread is in one slot. -/
theorem birth_slot_unique (h : Logged job log s) {r l r' l' : ℕ} {c : Call}
    (hused : ((s.rk r).mgr.ltab l).pthState ≠ .none)
    (hused' : ((s.rk r').mgr.ltab l').pthState ≠ .none)
    (hborn : (c, hosted s r l) ∈ (ledger log).births)
    (hborn' : (c, hosted s r' l') ∈ (ledger log).births) : r' = r ∧ l' = l := by
  have hsame := List.inj_on_of_nodup_map (logged_born h).once hborn hborn' rfl
  have hidx : ((s.rk r').mgr.ltab l').gtabIdx = ((s.rk r).mgr.ltab l).gtabIdx :=
    (congrArg (fun b => b.2.dtIndex) hsame).symm
  have hslot : (life job s).slots r l = some _ := CancelEffect.slots_eq_some hused
  have hslot' : (life job s).slots r' l' = some _ := CancelEffect.slots_eq_some hused'
  rw [hidx] at hslot'
  exact (reachable_lifeOk h.reachable).unique hslot hslot'

/-- In every run: no CREATE makes two threads; every thread that runs, the main
thread apart, was made for one CREATE, whose function and argument its entry
holds, and no other slot runs for that call; and a CREATE that is done without
an error returns the handle of its own thread. -/
theorem thread_per_create (h : Logged job log s) :
    ((ledger log).births.map Prod.fst).Nodup ∧
      (∀ r l, ((s.rk r).mgr.ltab l).pthState ≠ .none →
        (s.gtab (hosted s r l).dtIndex).dispIdx ≠ 0 → ∃ c attrs,
          (c, hosted s r l) ∈ (ledger log).births ∧
          c.body = .create attrs (s.gtab (hosted s r l).dtIndex).dispIdx
            (s.gtab (hosted s r l).dtIndex).arg ∧
          ∀ r' l', ((s.rk r').mgr.ltab l').pthState ≠ .none →
            (c, hosted s r' l') ∈ (ledger log).births → r' = r ∧ l' = l) ∧
      ∀ r l c, (ledger log).calls (r, l) = some c → c.body.op = .create →
        ((s.rk r).mgr.ltab l).reqstate = .done → ((s.rk r).mgr.ltab l).reqerror = 0 →
        (c, ((s.rk r).mgr.ltab l).newdthread) ∈ (ledger log).births := by
  have hborn := logged_born h
  have hbooked := logged_booked h
  refine ⟨hborn.once, ?_, ?_⟩
  · intro r l hused hdisp
    obtain ⟨c, attrs, hmem, hbody⟩ := exists_birth h hused hdisp
    exact ⟨c, attrs, hmem, hbody, fun r' l' hused' hmem' =>
      birth_slot_unique h hused hused' hmem hmem'⟩
  · intro r l c hcall hop hdone herr
    rcases hbooked.finished r l c hcall hdone with ⟨heio, -⟩ | ⟨body, hans, hreads⟩
    · rw [herr] at heio
      cases heio
    · obtain ⟨-, hreply⟩ := hbooked.answersServed _ hans
      simp only [hop] at hreply
      cases body with
      | created e newthread =>
        obtain ⟨rfl, hnew⟩ := hreads
        rw [hnew herr]
        rw [herr] at hans
        exact hborn.created c newthread hans
      | _ => simp [replyTo] at hreply

theorem thread_per_create_created :
    ((answeredRun.1.2.rk 0).mgr.ltab 0).reqerror = 0 ∧
      (⟨0, 0, 0, createBody⟩, ((answeredRun.1.2.rk 0).mgr.ltab 0).newdthread) ∈
        (ledger answeredRun.1.1).births :=
  ⟨rfl, (thread_per_create answeredRun.2).2.2 0 0 ⟨0, 0, 0, createBody⟩ rfl rfl rfl rfl⟩

end Runs

end Dthread.CreateCalls
