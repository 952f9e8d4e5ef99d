import Dthread.JobSystem

/-!
The local table of a rank and the requests of its threads. A thread has one
request, so at most one entry of the manager's queues belongs to a slot; the
slot is busy then, and its thread stands where the operation was issued.
-/
namespace Dthread.LocalSlots

open ReqMsg Queuing ManagerTables ManagerHandlers ManagerEffects ManagerOutcomes AppThreads
open JobSystem

/-- The states a slot can show at each point of its thread. -/
def LtabOk (lt : Ltab) : Prop :=
  match lt.pc with
  | .none => lt.pthState = .none ∧ lt.reqstate = .idle
  | .starting => lt.pthState = .starting
  | .app => lt.pthState ≠ .none ∧ lt.pthState ≠ .starting
  | .exiting => lt.pthState ≠ .none ∧ lt.pthState ≠ .starting
  | .cleanup _ => lt.pthState ≠ .none ∧ lt.pthState ≠ .starting
  | .ended => lt.pthState ≠ .none

/-- A slot whose thread has issued operation `op`. -/
def Issued (lt : Ltab) (op : Op) : Prop :=
  lt.pthState ≠ .none ∧ lt.reqstate = .busy ∧
    (forwarded op = true ∧ lt.pc = .app ∨
      op = .retclean ∧ lt.pc = .ended ∧ lt.pthState.needFinalstate = false ∨
      op = .app0Ret ∧ lt.pc = .ended)

def owns (l : ℕ) (rqe : Request) : Bool := rqe.addr == .ltab l

def used (lt : Ltab) : ℕ := if lt.pthState = .none then 0 else 1

def usedCount (n : ℕ) (ltab : ℕ → Ltab) : ℕ := ∑ l ∈ Finset.range n, used (ltab l)

structure SlotsOk (n : ℕ) (ltab : ℕ → Ltab) (ltabAlloc : ℤ) (queue rpending : List Request) :
    Prop where
  entry : ∀ l, LtabOk (ltab l)
  alloc : ltabAlloc = usedCount n ltab
  one : ∀ l, (queue ++ rpending).countP (owns l) ≤ 1
  queued : ∀ rqe ∈ queue, ∃ l < n, rqe.addr = .ltab l ∧ Issued (ltab l) rqe.reqop
  waiting : ∀ rqe ∈ rpending,
    (∃ l < n, rqe.addr = .ltab l ∧ forwarded rqe.reqop = true ∧ Issued (ltab l) rqe.reqop) ∨
      (∃ a, rqe.addr = .internal a) ∧ forwarded rqe.reqop = false

theorem usedCount_eq_card (n : ℕ) (ltab : ℕ → Ltab) :
    usedCount n ltab = ((Finset.range n).filter fun l => (ltab l).pthState ≠ .none).card := by
  rw [Finset.card_filter]
  refine Finset.sum_congr rfl fun l _ => ?_
  by_cases hl : (ltab l).pthState = .none <;> simp [used, hl]

theorem usedCount_update {n l : ℕ} (hl : l < n) (ltab : ℕ → Ltab) (lt : Ltab) :
    usedCount n (Function.update ltab l lt) + used (ltab l) = usedCount n ltab + used lt := by
  unfold usedCount
  have hmem : l ∈ Finset.range n := Finset.mem_range.mpr hl
  have hrest : ∑ k ∈ (Finset.range n).erase l, used (Function.update ltab l lt k) =
      ∑ k ∈ (Finset.range n).erase l, used (ltab k) :=
    Finset.sum_congr rfl fun k hk => by
      rw [Function.update_of_ne (Finset.ne_of_mem_erase hk)]
  rw [← Finset.add_sum_erase _ _ hmem, ← Finset.add_sum_erase _ _ hmem, hrest,
    Function.update_self]
  omega

theorem LtabOk.pthState_none {lt : Ltab} (h : LtabOk lt) (hnone : lt.pthState = .none) :
    lt.pc = .none ∧ lt.reqstate = .idle := by
  unfold LtabOk at h
  cases hpc : lt.pc <;> simp_all

theorem LtabOk.used_of_pc {lt : Ltab} (h : LtabOk lt) (hpc : lt.pc ≠ .none) :
    lt.pthState ≠ .none :=
  fun hnone => hpc (h.pthState_none hnone).1

theorem used_eq_one {lt : Ltab} (h : lt.pthState ≠ .none) : used lt = 1 := if_neg h

namespace SlotsOk

variable {n : ℕ} {ltab : ℕ → Ltab} {ltabAlloc : ℤ} {queue queue' rpending rpending' : List Request}

/-- When a count of used slots is 0, every slot is free. -/
theorem free_of_alloc (h : SlotsOk n ltab 0 queue rpending) {l : ℕ} (hl : l < n) :
    (ltab l).pthState = .none := by
  by_contra hne
  have halloc := h.alloc
  have hsum : usedCount n ltab = 0 := by omega
  have hzero := (Finset.sum_eq_zero_iff.mp hsum) l (Finset.mem_range.mpr hl)
  rw [used_eq_one hne] at hzero
  omega

/-- A START takes a slot that is free. -/
theorem free_slot (h : SlotsOk n ltab ltabAlloc queue rpending) {l : ℕ} (hl : l < n)
    (hnone : (ltab l).pthState = .none ∨ l = 0 ∧ ltabAlloc = 0) : (ltab l).pthState = .none := by
  rcases hnone with hnone | ⟨-, rfl⟩
  · exact hnone
  · exact h.free_of_alloc hl

theorem sublist (h : SlotsOk n ltab ltabAlloc queue rpending) (hq : queue'.Sublist queue)
    (hr : rpending'.Sublist rpending) : SlotsOk n ltab ltabAlloc queue' rpending' where
  entry := h.entry
  alloc := h.alloc
  one l := (hq.append hr).countP_le.trans (h.one l)
  queued rqe hrqe := h.queued rqe (hq.subset hrqe)
  waiting rqe hrqe := h.waiting rqe (hr.subset hrqe)

theorem add_internal (h : SlotsOk n ltab ltabAlloc queue rpending) {rqe : Request} {a : ℕ}
    (haddr : rqe.addr = .internal a) (hop : forwarded rqe.reqop = false) :
    SlotsOk n ltab ltabAlloc queue (rpending ++ [rqe]) where
  entry := h.entry
  alloc := h.alloc
  one l := by
    have hnot : owns l rqe = false := by simp [owns, haddr]
    simpa [hnot] using h.one l
  queued := h.queued
  waiting rqe' hrqe' := by
    rw [List.mem_append, List.mem_singleton] at hrqe'
    rcases hrqe' with hrqe' | rfl
    · exact h.waiting rqe' hrqe'
    · exact .inr ⟨⟨a, haddr⟩, hop⟩

/-- A slot changes that has no request, or whose request finds it as before. -/
theorem update (h : SlotsOk n ltab ltabAlloc queue rpending) {l : ℕ} (hl : l < n) {lt : Ltab}
    {ltabAlloc' : ℤ} (hok : LtabOk lt) (halloc : ltabAlloc' + used (ltab l) = ltabAlloc + used lt)
    (hreq : (∀ rqe ∈ queue ++ rpending, rqe.addr ≠ .ltab l) ∨
      ∀ op, Issued (ltab l) op → Issued lt op) :
    SlotsOk n (Function.update ltab l lt) ltabAlloc' queue rpending := by
  have hkeep (rqe : Request) (hrqe : rqe ∈ queue ++ rpending) (l' : ℕ)
      (haddr : rqe.addr = .ltab l') (hiss : Issued (ltab l') rqe.reqop) :
      Issued (Function.update ltab l lt l') rqe.reqop := by
    by_cases hl' : l' = l
    · subst hl'
      rw [Function.update_self]
      rcases hreq with hno | hsame
      · exact absurd haddr (hno rqe hrqe)
      · exact hsame _ hiss
    · rwa [Function.update_of_ne hl']
  refine ⟨fun l' => ?_, ?_, h.one, fun rqe hrqe => ?_, fun rqe hrqe => ?_⟩
  · by_cases hl' : l' = l
    · subst hl'
      rwa [Function.update_self]
    · rw [Function.update_of_ne hl']
      exact h.entry l'
  · have hcount := usedCount_update hl ltab lt
    have hold := h.alloc
    omega
  · obtain ⟨l', hlt, haddr, hiss⟩ := h.queued rqe hrqe
    exact ⟨l', hlt, haddr, hkeep rqe (List.mem_append_left _ hrqe) l' haddr hiss⟩
  · rcases h.waiting rqe hrqe with ⟨l', hlt, haddr, hop, hiss⟩ | hint
    · exact .inl ⟨l', hlt, haddr, hop, hkeep rqe (List.mem_append_right _ hrqe) l' haddr hiss⟩
    · exact .inr hint

/-- A thread without a request issues one. -/
theorem enqueue (h : SlotsOk n ltab ltabAlloc queue rpending) {l : ℕ} (hl : l < n)
    {rqe : Request} (haddr : rqe.addr = .ltab l) (hiss : Issued (ltab l) rqe.reqop)
    (hno : ∀ rqe' ∈ queue ++ rpending, rqe'.addr ≠ .ltab l) :
    SlotsOk n ltab ltabAlloc (queue ++ [rqe]) rpending where
  entry := h.entry
  alloc := h.alloc
  one l' := by
    have hcount : ((queue ++ [rqe]) ++ rpending).countP (owns l') =
        (queue ++ rpending).countP (owns l') + if owns l' rqe then 1 else 0 := by
      simp only [List.countP_append, List.countP_cons, List.countP_nil]
      omega
    rw [hcount]
    by_cases hown : owns l' rqe = true
    · obtain rfl : l = l' := by simpa [owns, haddr] using hown
      have hzero : (queue ++ rpending).countP (owns l) = 0 :=
        List.countP_eq_zero.mpr fun rqe' hrqe' => by simpa [owns] using hno rqe' hrqe'
      simp [hzero, hown]
    · simpa [hown] using h.one l'
  queued rqe' hrqe' := by
    rw [List.mem_append, List.mem_singleton] at hrqe'
    rcases hrqe' with hrqe' | rfl
    · exact h.queued rqe' hrqe'
    · exact ⟨l, hl, haddr, hiss⟩
  waiting := h.waiting

/-- The manager forwards a request and keeps it as pending. -/
theorem forward {rqe rqe' : Request} {rest : List Request}
    (h : SlotsOk n ltab ltabAlloc (rqe :: rest) rpending) (haddr : rqe'.addr = rqe.addr)
    (hop : rqe'.reqop = rqe.reqop) (hf : forwarded rqe.reqop = true) :
    SlotsOk n ltab ltabAlloc rest (rpending ++ [rqe']) where
  entry := h.entry
  alloc := h.alloc
  one l := by
    have hone := h.one l
    have hsame : owns l rqe' = owns l rqe := by simp [owns, haddr]
    simp only [List.cons_append, List.countP_append, List.countP_cons, List.countP_nil, hsame]
      at hone ⊢
    omega
  queued rqe₁ hrqe₁ := h.queued rqe₁ (List.mem_cons_of_mem _ hrqe₁)
  waiting rqe₁ hrqe₁ := by
    rw [List.mem_append, List.mem_singleton] at hrqe₁
    rcases hrqe₁ with hrqe₁ | rfl
    · exact h.waiting rqe₁ hrqe₁
    · obtain ⟨l, hl, hladdr, hiss⟩ := h.queued rqe List.mem_cons_self
      exact .inl ⟨l, hl, haddr.trans hladdr, hop ▸ hf, hop ▸ hiss⟩

theorem issued_of_mem (h : SlotsOk n ltab ltabAlloc queue rpending) {rqe : Request} {l : ℕ}
    (hrqe : rqe ∈ queue ++ rpending) (haddr : rqe.addr = .ltab l) :
    Issued (ltab l) rqe.reqop := by
  rw [List.mem_append] at hrqe
  rcases hrqe with hrqe | hrqe
  · obtain ⟨l', -, haddr', hiss⟩ := h.queued rqe hrqe
    obtain rfl : l = l' := by simpa [haddr] using haddr'
    exact hiss
  · rcases h.waiting rqe hrqe with ⟨l', -, haddr', -, hiss⟩ | ⟨⟨a, ha⟩, -⟩
    · obtain rfl : l = l' := by simpa [haddr] using haddr'
      exact hiss
    · simp [haddr] at ha

theorem internal_of_mem (h : SlotsOk n ltab ltabAlloc queue rpending) {rqe : Request}
    (hrqe : rqe ∈ rpending) (hop : forwarded rqe.reqop = false) :
    ∃ a, rqe.addr = .internal a := by
  rcases h.waiting rqe hrqe with ⟨l, -, -, hf, -⟩ | ⟨ha, -⟩
  · rw [hop] at hf
    exact Bool.noConfusion hf
  · exact ha

/-- The request of a slot is answered; no other request belongs to the slot. -/
theorem release (h : SlotsOk n ltab ltabAlloc queue rpending) {rqe : Request} {l : ℕ}
    (hl : l < n) (haddr : rqe.addr = .ltab l) (notify : Bool)
    (hpc : (ltab l).pc ≠ .none ∨ notify = false)
    (hno : ∀ rqe' ∈ queue ++ rpending, rqe'.addr ≠ .ltab l) :
    SlotsOk n (releaseLtab ltab rqe notify) ltabAlloc queue rpending := by
  have hrelease : releaseLtab ltab rqe notify = Function.update ltab l { ltab l with
      reqstate := if notify then .done else .idle
      reqerror := rqe.reqerror
      newdthread := rqe.newdthread
      retval := rqe.retval } := by
    simp [releaseLtab, haddr]
  rw [hrelease]
  refine h.update hl ?_ rfl (.inl hno)
  have hentry := h.entry l
  unfold LtabOk at hentry ⊢
  cases hcase : (ltab l).pc <;> simp_all

theorem not_mem_of_count {rest : List Request} {l : ℕ}
    (hone : rest.countP (owns l) + 1 ≤ 1) : ∀ rqe ∈ rest, rqe.addr ≠ .ltab l := by
  intro rqe hrqe haddr
  have hpos : 0 < rest.countP (owns l) :=
    List.countP_pos_iff.mpr ⟨rqe, hrqe, by simp [owns, haddr]⟩
  omega

/-- A pending request leaves the list and its slot gets the answer. -/
theorem answer (h : SlotsOk n ltab ltabAlloc queue rpending) {f : Request → Bool}
    {rqe rqe' : Request} (hfind : rpending.find? f = some rqe) (haddr : rqe'.addr = rqe.addr) :
    SlotsOk n (releaseLtab ltab rqe' true) ltabAlloc queue (rpending.eraseP f) := by
  have hmem := List.mem_of_find?_eq_some hfind
  have hsub : SlotsOk n ltab ltabAlloc queue (rpending.eraseP f) :=
    h.sublist (List.Sublist.refl _) List.eraseP_sublist
  rcases h.waiting rqe hmem with ⟨l, hl, hladdr, -, hiss⟩ | ⟨⟨a, ha⟩, -⟩
  · refine hsub.release hl (haddr.trans hladdr) true (.inl ?_) (not_mem_of_count ?_)
    · rcases hiss.2.2 with ⟨-, hpc⟩ | ⟨-, hpc, -⟩ | ⟨-, hpc⟩ <;> simp [hpc]
    · have hcount := FifoNet.countP_eraseP_of_find hfind (owns l)
      have hone := h.one l
      have hown : owns l rqe = true := by simp [owns, hladdr]
      rw [if_pos hown] at hcount
      rw [List.countP_append] at hone ⊢
      omega
  · have hsame : releaseLtab ltab rqe' true = ltab := by simp [releaseLtab, haddr, ha]
    rwa [hsame]

/-- The request at the head of the queue is dropped with an answer. -/
theorem refuse {rqe rqe' : Request} {rest : List Request}
    (h : SlotsOk n ltab ltabAlloc (rqe :: rest) rpending) (haddr : rqe'.addr = rqe.addr)
    (notify : Bool) : SlotsOk n (releaseLtab ltab rqe' notify) ltabAlloc rest rpending := by
  have hsub : SlotsOk n ltab ltabAlloc rest rpending :=
    h.sublist (List.sublist_cons_self _ _) (List.Sublist.refl _)
  obtain ⟨l, hl, hladdr, hiss⟩ := h.queued rqe List.mem_cons_self
  refine hsub.release hl (haddr.trans hladdr) notify (.inl ?_) (not_mem_of_count ?_)
  · rcases hiss.2.2 with ⟨-, hpc⟩ | ⟨-, hpc, -⟩ | ⟨-, hpc⟩ <;> simp [hpc]
  · have hone := h.one l
    have hown : owns l rqe = true := by simp [owns, hladdr]
    simpa [List.countP_cons, hown] using hone

end SlotsOk

theorem Issued.pc {lt : Ltab} {op : Op} (h : Issued lt op) :
    lt.reqstate = .busy ∧ (lt.pc = .app ∨ lt.pc = .ended) := by
  obtain ⟨-, hbusy, hpc | ⟨-, hpc, -⟩ | hpc⟩ := h
  · exact ⟨hbusy, .inl hpc.2⟩
  · exact ⟨hbusy, .inr hpc⟩
  · exact ⟨hbusy, .inr hpc.2⟩

/-- RETCLEAN gives the slot back and then the request with it. -/
theorem retclean_ltab {m : Mgr} {rqe : Request} {l : ℕ} (haddr : rqe.addr = .ltab l)
    (hstate : (m.ltab l).pthState ≠ .none) :
    (releaseMgr (freeLtabMgr m l) rqe false).ltab = Function.update m.ltab l { m.ltab l with
      seq := 0, pthState := .none, pc := .none, reqstate := .idle
      reqerror := rqe.reqerror, newdthread := rqe.newdthread, retval := rqe.retval } := by
  simp [releaseMgr, releaseLtab, freeLtabMgr, freeLtab, haddr, hstate]

section Steps

variable {job : Job} {ltab : ℕ → Ltab} {ltabAlloc : ℤ} {queue rpending : List Request}

theorem slotsOk_app (h : SlotsOk job.nmaxthread ltab ltabAlloc queue rpending) {l : ℕ}
    (hl : l < job.nmaxthread) {gtab : ℕ → Gtab} {lt : Ltab} {gt : Gtab} {rq : List Request}
    (ho : AppOutcome job l (ltab l) gtab lt gt rq) :
    SlotsOk job.nmaxthread (Function.update ltab l lt) ltabAlloc (queue ++ rq) rpending := by
  have hentry := h.entry l
  have hnone (hfree : (ltab l).reqstate ≠ .busy ∨ (ltab l).pc ≠ .app ∧ (ltab l).pc ≠ .ended) :
      ∀ rqe ∈ queue ++ rpending, rqe.addr ≠ .ltab l := by
    intro rqe hrqe haddr
    obtain ⟨hbusy, hpc⟩ := (h.issued_of_mem hrqe haddr).pc
    rcases hfree with hfree | ⟨happ, hended⟩
    · exact hfree hbusy
    · exact hpc.elim happ hended
  -- the slot is used before and after, so the count stays
  have hset (hfree : (ltab l).reqstate ≠ .busy ∨ (ltab l).pc ≠ .app ∧ (ltab l).pc ≠ .ended)
      (hpc : (ltab l).pc ≠ .none) (hok : LtabOk lt) (hstate : lt.pthState ≠ .none) :
      SlotsOk job.nmaxthread (Function.update ltab l lt) ltabAlloc queue rpending := by
    refine h.update hl hok ?_ (.inl (hnone hfree))
    rw [used_eq_one hstate, used_eq_one (hentry.used_of_pc hpc)]
  have hissue (hfree : (ltab l).reqstate ≠ .busy ∨ (ltab l).pc ≠ .app ∧ (ltab l).pc ≠ .ended)
      (hpc : (ltab l).pc ≠ .none) (hok : LtabOk lt) {rqe : Request} (haddr : rqe.addr = .ltab l)
      (hiss : Issued lt rqe.reqop) :
      SlotsOk job.nmaxthread (Function.update ltab l lt) ltabAlloc (queue ++ [rqe]) rpending :=
    (hset hfree hpc hok hiss.1).enqueue hl haddr (by rwa [Function.update_self]) (hnone hfree)
  cases ho with
  | silent hpc hbad =>
    rw [List.append_nil]
    have hstate : (ltab l).pthState ≠ .none := hentry.used_of_pc (by simp [hpc])
    exact hset (.inr (by simp [hpc])) (by simp [hpc]) hstate hstate
  | retclean state ret hpc hfinal hkeep =>
    have hstate : state ≠ .none := by
      rintro rfl
      simp [LtState.needFinalstate, LtState.code] at hfinal
    have hmoved : (ltab l).pc ≠ .app ∧ (ltab l).pc ≠ .ended ∧ (ltab l).pc ≠ .none := by
      rcases hpc with hpc | ⟨b, hpc⟩ <;> simp [hpc]
    exact hissue (.inr ⟨hmoved.1, hmoved.2.1⟩) hmoved.2.2 hstate rfl
      ⟨hstate, rfl, .inr (.inl ⟨rfl, rfl, hfinal⟩)⟩
  | publish hpc hseq =>
    rw [List.append_nil]
    exact hset (.inr (by simp [hpc])) (by simp [hpc]) ⟨by simp, by simp⟩ (by simp)
  | post body peer addr hpc hidle hpeer =>
    have hstate : (ltab l).pthState ≠ .none := hentry.used_of_pc (by simp [hpc])
    refine hissue (.inl (by simp [hidle])) (by simp [hpc]) ?_ rfl ⟨hstate, rfl, .inl ⟨?_, hpc⟩⟩
    · simpa [LtabOk, hpc] using hentry
    · cases body <;> simp [requestPeer] at hpeer <;> rfl
  | collect hpc hdone =>
    rw [List.append_nil]
    refine hset (.inl (by simp [hdone])) (by simp [hpc]) ?_ (hentry.used_of_pc (by simp [hpc]))
    simpa [LtabOk, hpc] using hentry
  | leave pc state ret hpc hpc' hstate =>
    rw [List.append_nil]
    have hold : (ltab l).pthState ≠ .none ∧ (ltab l).pthState ≠ .starting := by
      rcases hpc with ⟨hpc, -⟩ | hpc <;> simpa [LtabOk, hpc] using hentry
    have hnew : state ≠ .none ∧ state ≠ .starting := by
      rcases hstate with rfl | rfl
      · exact hold
      · simp
    refine hset ?_ ?_ ?_ hnew.1
    · rcases hpc with ⟨-, hidle⟩ | hpc
      · exact .inl (by simp [hidle])
      · exact .inr (by simp [hpc])
    · rcases hpc with ⟨hpc, -⟩ | hpc <;> simp [hpc]
    · rcases hpc' with rfl | ⟨b, rfl⟩ <;> exact hnew
  | app0Return hpc hidle hdisp =>
    exact hissue (.inl (by simp [hidle])) (by simp [hpc]) (by simp [LtabOk]) rfl
      ⟨by simp, rfl, .inr (.inr ⟨rfl, rfl⟩)⟩

theorem slotsOk_mqe {v : View} {mqe : Mqe} {m : Mgr} {gt : ℕ → Gtab} {out : List Post}
    (h : SlotsOk job.nmaxthread v.mgr.ltab v.mgr.ltabAlloc queue v.mgr.rpending)
    (ho : MqeOutcome job v mqe m gt out) :
    SlotsOk job.nmaxthread m.ltab m.ltabAlloc queue m.rpending := by
  -- rank 0 releases STARTs and JOINWAITs, which no slot owns
  have hinternal {f : Request → Bool} {rqe rqe' : Request} (notify : Bool)
      (hfind : v.mgr.rpending.find? f = some rqe) (hop : forwarded rqe.reqop = false)
      (haddr : rqe'.addr = rqe.addr) :
      SlotsOk job.nmaxthread (releaseLtab v.mgr.ltab rqe' notify) v.mgr.ltabAlloc queue
        (v.mgr.rpending.eraseP f) := by
    obtain ⟨a, ha⟩ := h.internal_of_mem (List.mem_of_find?_eq_some hfind) hop
    have hsame : releaseLtab v.mgr.ltab rqe' notify = v.mgr.ltab := by
      simp [releaseLtab, haddr, ha]
    rw [hsame]
    exact h.sublist (List.Sublist.refl _) List.eraseP_sublist
  have hjoinwait {thread : DThread} {rqe : Request}
      (hfind : joinwaitSearch v thread = some rqe) : forwarded rqe.reqop = false := by
    rw [(joinwaitSearch_spec hfind).1]
    rfl
  have hstart {seq : ℕ} {rqe : Request}
      (hfind : findPendingReq v.mgr.rpending .start seq = some rqe) :
      forwarded rqe.reqop = false := by
    have hmatch := List.find?_some hfind
    simp only [pendingMatch, Bool.and_eq_true, beq_iff_eq] at hmatch
    rw [hmatch.2]
    rfl
  have hnew {l : ℕ} (hnone : (v.mgr.ltab l).pthState = .none) :
      ∀ rqe ∈ queue ++ v.mgr.rpending, rqe.addr ≠ .ltab l := by
    intro rqe hrqe haddr
    exact (h.issued_of_mem hrqe haddr).1 hnone
  cases ho with
  | createOk attrs dispIdx arg n gidx xidseq hb hdisp hroom hfree hlt hxid hd =>
    exact h.add_internal rfl rfl
  | joinWait thread n hb hgt hdet hz hw => exact h.add_internal rfl rfl
  | startOk thread attrs l hb hinv hnone hl =>
    have hnone' := h.free_slot hl hnone
    refine h.update hl rfl ?_ (.inl (hnew hnone'))
    simp [used, hnone', startedMgr]
  | startFail thread attrs l e hb hinv hnone hl he =>
    have hnone' := h.free_slot hl hnone
    refine h.update hl ?_ ?_ (.inl (hnew hnone'))
    · simpa [LtabOk] using ((h.entry l).pthState_none hnone').2
    · simp [used, hnone', unstartedMgr, Mgr.setLtab]
  | detachWait thread rqe hb hgt hw => exact hinternal true hw (hjoinwait hw) rfl
  | terminatedJoined thread fin rqe hb hlen hlt hseq hfin hdet hw =>
    exact hinternal true hw (hjoinwait hw) rfl
  | terminatedDetachedJoined thread fin rqe hb hlen hlt hseq hfin hdet hw =>
    exact hinternal true hw (hjoinwait hw) rfl
  | startedOk rqe hb hfind => exact hinternal false hfind (hstart hfind) rfl
  | startedErr rqe e hb he hfind => exact hinternal false hfind (hstart hfind) rfl
  | reply op rqe rqe' hop hfind haddr => exact h.answer hfind haddr
  | cancelHit thread l hb hgt hl hhas hlt hseq =>
    have hentry := h.entry l
    refine h.update hlt ?_ ?_ (.inr fun op hiss => ?_)
    · unfold cancelLtab
      split
      · rename_i hrun
        unfold LtabOk at hentry ⊢
        cases hpc : (v.mgr.ltab l).pc <;> simp_all
      · exact hentry
    · unfold cancelLtab
      split
      · rename_i hrun
        simp [used, hrun, Mgr.setLtab]
      · rfl
    · unfold cancelLtab
      split
      · rename_i hrun
        obtain ⟨hstate, hbusy, hop⟩ := hiss
        refine ⟨by simp, hbusy, hop.imp id (Or.imp (fun hret => ?_) id)⟩
        exact ⟨hret.1, hret.2.1, rfl⟩
      · exact hiss
  | _ => exact h

theorem slotsOk_req {v : View} {rqe : Request} {rest : List Request} {m : Mgr} {gt : ℕ → Gtab}
    {out : List Post}
    (h : SlotsOk job.nmaxthread v.mgr.ltab v.mgr.ltabAlloc (rqe :: rest) v.mgr.rpending)
    (ho : ReqOutcome job v rqe m gt out) :
    SlotsOk job.nmaxthread m.ltab m.ltabAlloc rest m.rpending := by
  cases ho with
  | bad hbad => exact h.refuse rfl true
  | forward l mqe xidseq haddr hlt hbusy hop hmqe hxid hd => exact h.forward rfl rfl hop
  | forwardDrain l xidseq haddr hlt hbusy hop hd =>
    have hanswer : SlotsOk job.nmaxthread (releaseLtab v.mgr.ltab
        { rqe with mqe := none, xidseq := xidseq, reqerror := EIO } true) v.mgr.ltabAlloc rest
        v.mgr.rpending := h.refuse (by rfl) true
    exact hanswer
  | app0Other l haddr hop hrank => exact h.refuse rfl false
  | retclean l haddr hlt hbusy hop =>
    have hrest : SlotsOk job.nmaxthread v.mgr.ltab v.mgr.ltabAlloc rest v.mgr.rpending :=
      h.sublist (List.sublist_cons_self _ _) (List.Sublist.refl _)
    have hstate := (h.issued_of_mem (List.mem_append_left _ List.mem_cons_self) haddr).1
    have hno : ∀ rqe' ∈ rest ++ v.mgr.rpending, rqe'.addr ≠ .ltab l := by
      refine SlotsOk.not_mem_of_count ?_
      have hone := h.one l
      have hown : owns l rqe = true := by simp [owns, haddr]
      simpa [List.countP_cons, hown] using hone
    rw [retclean_ltab haddr hstate]
    refine hrest.update hlt ⟨rfl, rfl⟩ ?_ (.inl hno)
    rw [used_eq_one hstate]
    simp [releaseMgr, freeLtabMgr, hstate, used]

end Steps

theorem slotsOk_init (job : Job) (r : ℕ) : SlotsOk job.nmaxthread ((sysInit job).rk r).mgr.ltab
    ((sysInit job).rk r).mgr.ltabAlloc ((sysInit job).rk r).dtq.mgrreqq
    ((sysInit job).rk r).mgr.rpending := by
  have hempty (k : ℕ) : SlotsOk job.nmaxthread (mgrInit job k).ltab (mgrInit job k).ltabAlloc
      [] [] := by
    refine ⟨fun l => ⟨rfl, rfl⟩, ?_, fun l => Nat.zero_le 1, by simp, by simp⟩
    simp [mgrInit, usedCount, used, Ltab.zero]
  by_cases hr : r = 0
  · subst hr
    refine (hempty 0).update job.nmaxthread_pos ⟨by simp, by simp⟩ ?_ (.inl (by simp))
    rfl
  · simpa [sysInit, hr, dtqInit, mgrInit] using hempty r

/-- The slots of every rank in a reachable state. -/
theorem reachable_slotsOk {job : Job} {s : Sys} (h : Reachable job s) (r : ℕ) :
    SlotsOk job.nmaxthread (s.rk r).mgr.ltab (s.rk r).mgr.ltabAlloc (s.rk r).dtq.mgrreqq
      (s.rk r).mgr.rpending := by
  refine h.invariant (I := fun s => ∀ r, SlotsOk job.nmaxthread (s.rk r).mgr.ltab
    (s.rk r).mgr.ltabAlloc (s.rk r).dtq.mgrreqq (s.rk r).mgr.rpending) (slotsOk_init job) ?_ r
  intro o s s' _ ih hs r
  have hstep {k : ℕ} {m : Mgr} {gt : ℕ → Gtab} {rq : List Request} {net : List Packet}
      {posts : List Post} (hc : Change s s' k m gt rq net posts)
      (hk : SlotsOk job.nmaxthread m.ltab m.ltabAlloc rq m.rpending) :
      SlotsOk job.nmaxthread (s'.rk r).mgr.ltab (s'.rk r).mgr.ltabAlloc (s'.rk r).dtq.mgrreqq
        (s'.rk r).mgr.rpending := by
    by_cases hr : r = k
    · subst hr
      rwa [hc.mgr, hc.mgrreqq]
    · rw [hc.others r hr]
      exact ih r
  cases hs with
  | app k l lt gt rq hk hl hdd ho hc => exact hstep hc (slotsOk_app (ih k) hl ho)
  | recv p net addr m gt out hk hd hdd ho hc => exact hstep hc (slotsOk_mqe (ih p.dst) ho)
  | recvShutdown p net hk hd hb hdd hc => exact hstep hc (ih p.dst)
  | req k rqe rest m gt out hk hq hdd ho hc =>
    have hold := ih k
    rw [hq] at hold
    exact hstep hc (slotsOk_req hold ho)
  | reqShutdown k l rqe rest hk hq hop haddr hrank hdd hc =>
    have hold := ih k
    rw [hq] at hold
    exact hstep hc (hold.refuse rfl false)
  | shutdown hidle hdrain hdd hc => exact hstep hc (ih 0)

end Dthread.LocalSlots
