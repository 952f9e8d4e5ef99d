import Dthread.TableSteps

/-!
Where the live threads are. While no rank drains, every live thread sits in a
slot or has a letter under way: its START, the report of a failed start, or its
end. The protocol of thread lives can lose letters; a step of the job that takes
a thread's letter in does something about the thread.
-/
namespace Dthread.ThreadPlaces

open ReqMsg Queuing ManagerTables ManagerHandlers ManagerEffects ManagerOutcomes AppThreads
open FifoNet JobSystem TableWrites RequestReply LocalSlots ThreadLife LifeRefinement TableSteps

/-- Thread `i` is in a slot or on its way. -/
def Placed (a : Life) (i : ℕ) : Prop :=
  (∃ r l, a.slots r l = some i) ∨ ∃ p ∈ a.net, claims a.starts i p = true

/-- A letter of thread `i` is taken in and nothing else happens. -/
def LosesLetter (a a' : Life) (i : ℕ) : Prop :=
  ∃ p net, Deliver Letter.chan a.net p net ∧ claims a.starts i p = true ∧
    a' = { a with net := net }

section Protocol

variable {a a' : Life} {i : ℕ}

theorem said_mem {r : ℕ} (note : Note) (hmute : a.mute r = false) :
    (⟨r, 0, note⟩ : Letter) ∈ said a r note := by
  simp [said, hmute]

/-- The letter of a thread survives the delivery of one that is not its own. -/
theorem claim_kept {starts starts' : List Start} {net net' : List Letter} {q : Letter}
    (hd : Deliver Letter.chan net q net') (hq : claims starts i q = false)
    (hstarts : ∀ p ∈ net', claims starts i p = true → claims starts' i p = true)
    (h : ∃ p ∈ net, claims starts i p = true) : ∃ p ∈ net', claims starts' i p = true := by
  obtain ⟨p, hp, hclaim⟩ := h
  rcases hd.mem_or hp with rfl | hp
  · rw [hq] at hclaim
    exact Bool.noConfusion hclaim
  · exact ⟨p, hp, hstarts p hp hclaim⟩

/-- A START that is done with leaves the other letters their threads. -/
theorem claims_dropStart (hok : LifeOk a) {q p : Letter} {net : List Letter} {y : ℕ}
    (hd : Deliver Letter.chan a.net q net) (hq : concerns y q = true) (hp : p ∈ net)
    (hclaim : claims a.starts i p = true) : claims (dropStart a.starts y) i p = true := by
  have hcount := hd.countP (concerns y)
  have htoken := hok.token y
  have hzero : net.countP (concerns y) = 0 := by
    rw [hq, if_pos rfl] at hcount
    omega
  have hother : concerns y p = false := by
    simpa using List.countP_eq_zero.mp hzero p hp
  unfold claims at hclaim ⊢
  split <;> simp_all only
  rename_i y' hnote
  rw [List.any_eq_true] at hclaim ⊢
  obtain ⟨st, hst, hm⟩ := hclaim
  refine ⟨st, (mem_dropStart hok.distinct).mpr ⟨hst, fun hy => ?_⟩, hm⟩
  simp only [Bool.and_eq_true, beq_iff_eq] at hm
  simp [concerns, hnote, ← hm.1, hy] at hother

/-- A step of the protocol keeps a thread's place unless it loses its letter. -/
theorem placed_step (h : LifeStep a a') (hok : LifeOk a) (hmute : ∀ r, a.mute r = false)
    (hi : i ∈ a'.live) (hplaced : i ∈ a.live → Placed a i) :
    Placed a' i ∨ LosesLetter a a' i := by
  cases h with
  | still calls mute hcalls hmute' => exact .inl (hplaced hi)
  | ask r x l j hslot hmute' hnew hnet =>
    rcases hplaced hi with hslot | ⟨p, hp, hclaim⟩
    · exact .inl (.inl hslot)
    · exact .inl (.inr ⟨p, List.mem_append_left _ hp, hclaim⟩)
  | lose p net hd hp =>
    by_cases hclaim : claims a.starts i p = true
    · exact .inr ⟨p, net, hd, hclaim, rfl⟩
    · rcases hplaced hi with hslot | hletter
      · exact .inl (.inl hslot)
      · exact .inl (.inr (claim_kept hd (by simpa using hclaim) (fun _ _ h => h) hletter))
  | create r x y j dst net hd hj hy =>
    left
    by_cases hij : i = j
    · subst hij
      exact .inr ⟨⟨0, dst, .start y i⟩, by simp, by simp [claims]⟩
    · rcases hplaced (Finset.mem_of_mem_insert_of_ne hi hij) with hslot | hletter
      · exact .inl hslot
      · obtain ⟨p, hp, hclaim⟩ := claim_kept hd rfl
          (fun p _ => claims_mono fun st hst => List.mem_append_left _ hst) hletter
        exact .inr ⟨p, List.mem_append_left _ hp, hclaim⟩
  | start r l y j net hd hfree =>
    left
    by_cases hij : i = j
    · subst hij
      exact .inl ⟨r, l, setSlot_self _ _ _ _⟩
    · rcases hplaced hi with ⟨r', l', hslot⟩ | hletter
      · have hother : ¬ (r' = r ∧ l' = l) := by
          rintro ⟨rfl, rfl⟩
          simp [hfree] at hslot
        exact .inl ⟨r', l', (setSlot_of_ne _ hother).trans hslot⟩
      · obtain ⟨p, hp, hclaim⟩ := claim_kept hd (by simpa [claims] using Ne.symm hij)
          (fun _ _ h => h) hletter
        exact .inr ⟨p, List.mem_append_left _ hp, hclaim⟩
  | fail r y j net hd =>
    left
    by_cases hij : i = j
    · subst hij
      obtain ⟨st, hst, hxid, hidx⟩ := hok.startMatch hd.mem
      refine .inr ⟨⟨r, 0, .started false y⟩, List.mem_append_right _ (said_mem _ (hmute r)), ?_⟩
      exact List.any_eq_true.mpr ⟨st, hst, by simp [hxid, hidx]⟩
    · rcases hplaced hi with hslot | hletter
      · exact .inl hslot
      · obtain ⟨p, hp, hclaim⟩ := claim_kept hd (by simpa [claims] using Ne.symm hij)
          (fun _ _ h => h) hletter
        exact .inr ⟨p, List.mem_append_left _ hp, hclaim⟩
  | started r y st net hd hst hy =>
    left
    rcases hplaced hi with hslot | hletter
    · exact .inl hslot
    · exact .inr (claim_kept hd rfl
        (fun p hp => claims_dropStart hok hd (by simp [concerns]) hp) hletter)
  | failed r y st net hd hst hy =>
    left
    obtain ⟨hne, hlive⟩ := Finset.mem_erase.mp hi
    have hother : claims a.starts i ⟨r, 0, .started false y⟩ = false := by
      by_contra hclaim
      simp only [claims, Bool.not_eq_false, List.any_eq_true, Bool.and_eq_true, beq_iff_eq]
        at hclaim
      obtain ⟨st', hst', hxid, rfl⟩ := hclaim
      exact hne (congrArg Start.idx (hok.same_of_xid hst' hst (hxid.trans hy.symm)))
    rcases hplaced hlive with hslot | hletter
    · exact .inl hslot
    · exact .inr (claim_kept hd hother
        (fun p hp => claims_dropStart hok hd (by simp [concerns]) hp) hletter)
  | leave r l j hslot hcalls =>
    left
    rcases hplaced hi with ⟨r', l', hslot'⟩ | ⟨p, hp, hclaim⟩
    · by_cases hsame : r' = r ∧ l' = l
      · obtain ⟨rfl, rfl⟩ := hsame
        obtain rfl : j = i := Option.some.inj (hslot.symm.trans hslot')
        exact .inr ⟨⟨r', 0, .ended j⟩, List.mem_append_right _ (said_mem _ (hmute r')),
          by simp [claims]⟩
      · exact .inl ⟨r', l', (setSlot_of_ne _ hsame).trans hslot'⟩
    · exact .inr ⟨p, List.mem_append_left _ hp, hclaim⟩
  | ended r j net hd =>
    left
    obtain ⟨hne, hlive⟩ := Finset.mem_erase.mp hi
    rcases hplaced hlive with hslot | hletter
    · exact .inl hslot
    · exact .inr (claim_kept hd (by simpa [claims] using Ne.symm hne) (fun _ _ h => h) hletter)

/-- A rank that has gone mute stays so. -/
theorem mute_step (h : LifeStep a a') {r : ℕ} (hr : a.mute r = true) : a'.mute r = true := by
  cases h with
  | still calls mute hcalls hmute => exact hmute r hr
  | _ => exact hr

end Protocol

section Job

variable {job : Job} {s s' : Sys} {p : Packet} {net : List Packet} {addr i : ℕ} {m : Mgr}
  {gt : ℕ → Gtab} {out : List Post} {q : Letter}

/-- The end of a thread that is reported is never discarded. -/
theorem terminated_not_dropped (h : Reachable job s) (hp : p ∈ s.net) {thread : DThread}
    {fin : LtState} (hb : p.frame.body = .terminated thread fin) :
    ¬ Dropped job (s.view p.dst) ⟨addr, p.src, p.frame⟩ := by
  intro hdrop
  cases hdrop with
  | runt hshort =>
    have hlen := (reachable_wellformed h).frames p hp
    simp only at hshort
    omega
  | wrongRank hrank h0 =>
    have hdst := (reachable_wellformed h).rank0 p hp h0
    simp only [Sys.view, h.sane.rank] at hrank
    exact hrank hdst
  | unmatchedReply op hop hnone => simp [hb, replyTo] at hop
  | unmatchedStarted e hb' hnone => simp [hb] at hb'
  | badTerminated thread' fin' hb' hbad =>
    simp only [hb, Body.terminated.injEq] at hb'
    obtain ⟨rfl, rfl⟩ := hb'
    have hlive := live_of_terminated (reachable_lifeOk h) hp hb
    have hseq := (reachable_namesOk h p.src thread (.ended p thread fin hp hb)).2
    have hfin := (reachable_facts h).final p hp thread fin hb
    rcases hbad with hlen | hlt | hne | rfl
    · exact hlen ((reachable_wellformed h).frames p hp)
    · have hlt' := (isLive_of_mem hlive).1
      omega
    · exact hne hseq
    · exact Bool.noConfusion hfin
  | unknown code hb' => simp [hb] at hb'

/-- A START is answered. -/
theorem start_answered (h : Reachable job s) (hp : p ∈ s.net) {thread : DThread} {attrs : Attr}
    (hb : p.frame.body = .start thread attrs)
    (ho : MqeOutcome job (s.view p.dst) ⟨addr, p.src, p.frame⟩ m gt out) :
    ∃ e, out = [(0, .of p.frame.xidseq (.started e))] := by
  cases ho with
  | startInvalid thread attrs _ h => exact ⟨_, rfl⟩
  | startOk thread attrs l _ h hfree hlt => exact ⟨_, rfl⟩
  | startFail thread attrs l e _ h hfree hlt he => exact ⟨_, rfl⟩
  | drop hdrop =>
    cases hdrop with
    | runt hshort =>
      have hlen := (reachable_wellformed h).frames p hp
      simp only at hshort
      omega
    | wrongRank hrank h0 => simp [hb, Body.op, rank0Only] at h0
    | unmatchedReply op hop hnone => simp [hb, replyTo] at hop
    | unmatchedStarted e hb' hnone => simp [hb] at hb'
    | badTerminated thread' fin hb' hbad => simp [hb] at hb'
    | unknown code hb' => simp [hb] at hb'
  | reply op rqe rqe' hop h haddr => simp [hb, replyTo] at hop
  | _ => simp_all

/-- The report of a failed start ends the thread. -/
theorem failed_settled (h : Reachable job s) (hp : p ∈ s.net) {e : ℕ}
    (hb : p.frame.body = .started e) (he : e ≠ 0)
    (ho : MqeOutcome job (s.view p.dst) ⟨addr, p.src, p.frame⟩ m gt out) {st : Start}
    (hst : st ∈ (life job s).starts) (hxid : st.xid = p.frame.xidseq) :
    isLive (gt st.idx) = false := by
  have hwf := reachable_wellformed h
  have hdst : p.dst = 0 := hwf.rank0 p hp (by rw [hb]; rfl)
  cases ho with
  | startedErr rqe e' hb' he' hfind =>
    obtain ⟨hxid', hop⟩ := findPendingReq_spec hfind
    simp only [Sys.view, hdst] at hfind
    have hmem := mem_starts (List.mem_of_find?_eq_some hfind) hop
    have hsame := (reachable_lifeOk h).same_of_xid hst hmem (hxid.trans hxid'.symm)
    rw [hsame]
    simp [isLive, freeGtab_allocated]
  | startedOk rqe hb' hfind =>
    simp only [hb, Body.started.injEq] at hb'
    exact absurd hb' he
  | drop hdrop =>
    cases hdrop with
    | runt hshort =>
      have hlen := hwf.frames p hp
      simp only at hshort
      omega
    | wrongRank hrank h0 =>
      simp only [Sys.view, h.sane.rank] at hrank
      exact absurd hdst hrank
    | unmatchedReply op hop hnone => simp [hb, replyTo] at hop
    | unmatchedStarted e' hb' hnone =>
      simp only [Sys.view, hdst] at hnone
      exact absurd hxid (xid_ne_of_find hnone st hst)
    | badTerminated thread' fin hb' hbad => simp [hb] at hb'
    | unknown code hb' => simp [hb] at hb'
  | reply op rqe rqe' hop h haddr => simp [hb, replyTo] at hop
  | _ => simp_all

theorem terminated_settled (h : Reachable job s) (hp : p ∈ s.net) {thread : DThread}
    {fin : LtState} (hb : p.frame.body = .terminated thread fin)
    (ho : MqeOutcome job (s.view p.dst) ⟨addr, p.src, p.frame⟩ m gt out) :
    isLive (gt thread.dtIndex) = false := by
  have hfin := (reachable_facts h).final p hp thread fin hb
  cases ho with
  | drop hdrop => exact absurd hdrop (terminated_not_dropped h hp hb)
  | terminatedZombie thread' fin' hb' hlen hlt hseq hne hdet hw =>
    simp only [hb, Body.terminated.injEq] at hb'
    obtain ⟨rfl, rfl⟩ := hb'
    simp [isLive, zombieGtab, hfin]
  | terminatedDetached thread' fin' hb' hlen hlt hseq hne hdet hw =>
    simp only [hb, Body.terminated.injEq] at hb'
    obtain ⟨rfl, rfl⟩ := hb'
    simp [isLive, freeGtab_allocated]
  | terminatedJoined thread' fin' rqe hb' hlen hlt hseq hne hdet hw =>
    simp only [hb, Body.terminated.injEq] at hb'
    obtain ⟨rfl, rfl⟩ := hb'
    simp [isLive, freeGtab_allocated]
  | terminatedDetachedJoined thread' fin' rqe hb' hlen hlt hseq hne hdet hw =>
    simp only [hb, Body.terminated.injEq] at hb'
    obtain ⟨rfl, rfl⟩ := hb'
    simp [isLive, freeGtab_allocated]
  | reply op rqe rqe' hop h haddr => simp [hb, replyTo] at hop
  | _ => simp_all

/-- A thread's letter is answered about its START, or the thread has ended. -/
theorem claim_settled (h : Reachable job s) (hp : p ∈ s.net)
    (ho : MqeOutcome job (s.view p.dst) ⟨addr, p.src, p.frame⟩ m gt out)
    (hletter : letterOf p = some q) (hclaim : claims (life job s).starts i q = true) :
    isLive (gt i) = false ∨ concerns p.frame.xidseq q = true ∧
      ∃ e, out = [(0, .of p.frame.xidseq (.started e))] := by
  cases hb : p.frame.body with
  | start thread attrs =>
    obtain rfl : _ = q := by simpa [letterOf, hb] using hletter
    exact .inr ⟨by simp [concerns], start_answered h hp hb ho⟩
  | started e =>
    obtain rfl : _ = q := by simpa [letterOf, hb] using hletter
    by_cases he : e = 0
    · simp [claims, he] at hclaim
    · have hfalse : (e == 0) = false := by simpa using he
      simp only [claims, hfalse, List.any_eq_true, Bool.and_eq_true, beq_iff_eq] at hclaim
      obtain ⟨st, hst, hxid, rfl⟩ := hclaim
      exact .inl (failed_settled h hp hb he ho hst hxid)
  | terminated thread fin =>
    obtain rfl : _ = q := by simpa [letterOf, hb] using hletter
    obtain rfl : thread.dtIndex = i := by simpa [claims] using hclaim
    exact .inl (terminated_settled h hp hb ho)
  | _ => simp [letterOf, hb] at hletter <;> subst hletter <;> simp [claims] at hclaim

/-- The job loses no letter of a live thread while no rank drains. -/
theorem no_letter_lost (h : Reachable job s) {o : Option Packet} (hs : StepCase job s s' o)
    (hinit : ∀ r, draindown s r = .init) (hi : i ∈ (life job s').live) :
    ¬ LosesLetter (life job s) (life job s') i := by
  rintro ⟨q, rest, hd, hclaim, heq⟩
  have hok := reachable_lifeOk h
  have hnet : (life job s').net = rest := by rw [heq]
  obtain ⟨p, hp, hletter⟩ := List.mem_filterMap.mp hd.mem
  -- no other letter of the thread is left
  have hnone : ∀ q' ∈ (life job s').net, claims (life job s).starts i q' = false := by
    have hcount := hd.countP (claims (life job s).starts i)
    have hflight := hok.flight i
    rw [hclaim, if_pos rfl] at hcount
    have hzero : rest.countP (claims (life job s).starts i) = 0 := by omega
    intro q' hq'
    rw [hnet] at hq'
    simpa using List.countP_eq_zero.mp hzero q' hq'
  have hgone : p ∉ s'.net := by
    intro hp'
    have hfalse := hnone q (List.mem_filterMap.mpr ⟨p, hp', hletter⟩)
    rw [hclaim] at hfalse
    exact Bool.noConfusion hfalse
  have hstay {r : ℕ} {m : Mgr} {gt : ℕ → Gtab} {rq : List Request} {net : List Packet}
      {posts : List Post} (hc : Change s s' r m gt rq net posts) : p ∉ net := by
    intro hmem
    apply hgone
    rw [hc.net]
    exact List.mem_append_left _ hmem
  cases hs with
  | app r l lt gt rq hr hl hdd ho hc => exact hstay hc hp
  | recv p' net addr m gt out hr hd' hdd ho hc =>
    obtain rfl : p = p' := (hd'.mem_or hp).resolve_right (hstay hc)
    rcases claim_settled h hp ho hletter hclaim with hdead | ⟨hconcerns, e, rfl⟩
    · have hlive : isLive (s'.gtab i) = true := (Finset.mem_filter.mp hi).2
      rw [hc.gtab, hdead] at hlive
      exact Bool.noConfusion hlive
    · -- the answer is one more letter about the START
      have hmem : (⟨p.dst, 0, .started (e == 0) p.frame.xidseq⟩ : Letter) ∈ rest := by
        rw [← hnet]
        refine List.mem_filterMap.mpr ⟨pack p.dst (0, .of p.frame.xidseq (.started e)), ?_, rfl⟩
        rw [hc.net, sent, if_pos (hinit p.dst)]
        simp
      have hcount := hd.countP (concerns p.frame.xidseq)
      have htoken := hok.token p.frame.xidseq
      have hpos : 0 < rest.countP (concerns p.frame.xidseq) :=
        List.countP_pos_iff.mpr ⟨_, hmem, by simp [concerns]⟩
      rw [hconcerns, if_pos rfl] at hcount
      omega
  | recvShutdown p' net hr hd' hb hdd hc =>
    obtain rfl : p = p' := (hd'.mem_or hp).resolve_right (hstay hc)
    simp [letterOf, hb] at hletter
  | req r rqe rest m gt out hr hq hdd ho hc => exact hstay hc hp
  | reqShutdown r l rqe rest hr hq hop haddr hrank hdd hc => exact hstay hc hp
  | shutdown hidle hdrain hdd hc => exact hstay hc hp

/-- While no rank drains, every live thread is somewhere. -/
theorem reachable_placed (h : Reachable job s) (hinit : ∀ r, draindown s r = .init)
    (hi : i ∈ (life job s).live) : Placed (life job s) i := by
  have hmute (s : Sys) : (∀ r, draindown s r = .init) ↔ ∀ r, (life job s).mute r = false := by
    simp [life]
  have hall : (∀ r, (life job s).mute r = false) →
      ∀ i ∈ (life job s).live, Placed (life job s) i := by
    refine h.invariant (I := fun s => (∀ r, (life job s).mute r = false) →
      ∀ i ∈ (life job s).live, Placed (life job s) i) ?_ ?_
    · intro _ i hi
      rw [life_init] at hi ⊢
      obtain rfl : i = 0 := by simpa using hi
      exact .inl ⟨0, 0, by simp [setSlot]⟩
    · intro o s s' hr ih hs hmute' i hi
      have hstep := step_life (reachable_facts hr) hs
      have hmute₀ : ∀ r, (life job s).mute r = false := by
        intro r
        by_contra htrue
        have hkept := mute_step hstep (by simpa using htrue)
        rw [hmute' r] at hkept
        exact Bool.noConfusion hkept
      rcases placed_step hstep (reachable_lifeOk hr) hmute₀ hi (ih hmute₀ i) with hplaced | hlost
      · exact hplaced
      · exact absurd hlost (no_letter_lost hr hs ((hmute s).mpr hmute₀) hi)
  exact hall ((hmute s).mp hinit) i hi

end Job

end Dthread.ThreadPlaces
