import Mathlib.Data.Multiset.Basic
import Dthread.HandlerSteps
import Dthread.LocalSlots

/-!
The lists that requests are linked on. A request has a single link, so it may be
on one list at a time: the manager's input queue, its pending list or the free
list of its own requests. Between two lists a request is in the hands of a
handler, and between being marked busy and being queued in those of its thread.
-/
namespace Dthread.RequestLists

open ReqMsg Queuing ManagerTables ManagerHandlers ManagerEffects ManagerOutcomes AppThreads
open JobSystem HandlerSteps LocalSlots

/-- The requests of one rank: the three lists, the places of the application
threads and the states of their requests, the requests in the hands of a handler
and the slots whose thread has marked its request busy and not queued it yet. -/
structure Lists where
  mgrreqq : List Request
  rpending : List Request
  reqfree : List ℕ
  nreq : ℕ
  pc : ℕ → WrapPc
  reqstate : ℕ → ReqState
  held : List Request
  posting : List ℕ

/-- The places from which a thread posts a request: its application code, and the
two ends of dthreadwrap that call retclean_request. -/
def Posts (pc : WrapPc) : Prop := pc = .app ∨ pc = .starting ∨ ∃ returned, pc = .cleanup returned

/-- One change of a list or of a request's state, or of the place of a thread. -/
inductive ListStep (x : Lists) : Lists → Prop
  -- an application thread
  | post (l : ℕ) (pc : WrapPc) (hrun : Posts (x.pc l)) (h : x.reqstate l ≠ .busy) :
      ListStep x { x with
        pc := Function.update x.pc l pc
        reqstate := Function.update x.reqstate l .busy
        posting := l :: x.posting }
  | enqueue (l : ℕ) (rqe : Request) (haddr : rqe.addr = .ltab l) (h : l ∈ x.posting) :
      ListStep x { x with mgrreqq := x.mgrreqq ++ [rqe], posting := x.posting.erase l }
  | collect (l : ℕ) (h : x.reqstate l = .done) :
      ListStep x { x with reqstate := Function.update x.reqstate l .idle }
  | move (l : ℕ) (pc : WrapPc) : ListStep x { x with pc := Function.update x.pc l pc }
  -- the manager
  | slots (pc : ℕ → WrapPc) : ListStep x { x with pc := pc }
  | dequeue (rqe : Request) (rest : List Request) (h : x.mgrreqq = rqe :: rest) :
      ListStep x { x with mgrreqq := rest, held := rqe :: x.held }
  | allocFree (n : ℕ) (rest : List ℕ) (h : x.reqfree = n :: rest) :
      ListStep x { x with reqfree := rest, held := internalRequest n :: x.held }
  | allocNew : ListStep x { x with nreq := x.nreq + 1, held := internalRequest x.nreq :: x.held }
  | fill (rqe rqe' : Request) (rest : List Request) (h : x.held = rqe :: rest)
      (haddr : rqe'.addr = rqe.addr) : ListStep x { x with held := rqe' :: rest }
  | pend (rqe : Request) (rest : List Request) (h : x.held = rqe :: rest)
      (hkey : rqe.reqop = .joinwait ∨ findPendingReq x.rpending rqe.reqop rqe.xidseq = none) :
      ListStep x { x with rpending := x.rpending ++ [rqe], held := rest }
  | unpend (f : Request → Bool) (rqe : Request) (h : x.rpending.find? f = some rqe) :
      ListStep x { x with rpending := x.rpending.eraseP f, held := rqe :: x.held }
  | releaseInternal (rqe : Request) (rest : List Request) (n : ℕ) (h : x.held = rqe :: rest)
      (haddr : rqe.addr = .internal n) :
      ListStep x { x with reqfree := n :: x.reqfree, held := rest }
  | releaseApp (rqe : Request) (rest : List Request) (l : ℕ) (notify : Bool)
      (h : x.held = rqe :: rest) (haddr : rqe.addr = .ltab l) :
      ListStep x { x with
        reqstate := Function.update x.reqstate l (if notify then .done else .idle), held := rest }

def ListRun : Lists → Lists → Prop := Relation.ReflTransGen ListStep

/-- Where the requests of a rank are, all places together. -/
def addrs (x : Lists) : Multiset ReqAddr :=
  (x.mgrreqq.map Request.addr : Multiset ReqAddr) + (x.rpending.map Request.addr : List ReqAddr) +
    (x.reqfree.map ReqAddr.internal : List ReqAddr) + (x.held.map Request.addr : List ReqAddr) +
    (x.posting.map ReqAddr.ltab : List ReqAddr)

/-- Requests that a reply is matched with have different keys. -/
def KeysDiffer (rqe rqe' : Request) : Prop :=
  rqe.reqop = .joinwait ∨ rqe'.reqop = .joinwait ∨
    (rqe.reqop, rqe.xidseq) ≠ (rqe'.reqop, rqe'.xidseq)

structure ListsOk (x : Lists) : Prop where
  nodup : (addrs x).Nodup
  busy : ∀ l, x.reqstate l = .busy ↔ .ltab l ∈ addrs x
  internal : ∀ n, .internal n ∈ addrs x ↔ n < x.nreq
  queued : ∀ rqe ∈ x.mgrreqq, ∃ l, rqe.addr = .ltab l
  keys : x.rpending.Pairwise KeysDiffer

namespace ListsOk

variable {x y : Lists}

/-- A request moves from one place to another. -/
theorem moved (h : ListsOk x) (haddrs : addrs y = addrs x) (hstate : y.reqstate = x.reqstate)
    (hnreq : y.nreq = x.nreq) (hqueued : ∀ rqe ∈ y.mgrreqq, ∃ l, rqe.addr = .ltab l)
    (hkeys : y.rpending.Pairwise KeysDiffer) : ListsOk y := by
  refine ⟨?_, ?_, ?_, hqueued, hkeys⟩
  · rw [haddrs]
    exact h.nodup
  · intro l
    rw [hstate, haddrs]
    exact h.busy l
  · intro n
    rw [haddrs, hnreq]
    exact h.internal n

theorem post (h : ListsOk x) {l : ℕ} (hl : x.reqstate l ≠ .busy) (pc : ℕ → WrapPc) :
    ListsOk { x with
      pc := pc, reqstate := Function.update x.reqstate l .busy, posting := l :: x.posting } := by
  have haddrs : addrs { x with
      pc := pc, reqstate := Function.update x.reqstate l .busy, posting := l :: x.posting } =
      .ltab l ::ₘ addrs x := by
    simp only [addrs, List.map_cons, ← Multiset.cons_coe, Multiset.add_cons]
  refine ⟨?_, ?_, ?_, h.queued, h.keys⟩
  · rw [haddrs, Multiset.nodup_cons]
    exact ⟨fun hmem => hl ((h.busy l).mpr hmem), h.nodup⟩
  · intro k
    rw [haddrs, Multiset.mem_cons]
    by_cases hk : k = l
    · subst hk
      simp
    · simp only [Function.update_of_ne hk, h.busy, ReqAddr.ltab.injEq, hk, false_or]
  · intro n
    rw [haddrs, Multiset.mem_cons, h.internal]
    simp

theorem enqueue (h : ListsOk x) {l : ℕ} {rqe : Request} (haddr : rqe.addr = .ltab l)
    (hl : l ∈ x.posting) :
    ListsOk { x with mgrreqq := x.mgrreqq ++ [rqe], posting := x.posting.erase l } := by
  have hperm : (x.posting.map ReqAddr.ltab : Multiset ReqAddr) =
      {.ltab l} + ((x.posting.erase l).map ReqAddr.ltab : List ReqAddr) := by
    rw [Multiset.singleton_add, Multiset.cons_coe, Multiset.coe_eq_coe, ← List.map_cons]
    exact (List.perm_cons_erase hl).map _
  refine h.moved ?_ rfl rfl ?_ h.keys
  · simp only [addrs, List.map_append, List.map_cons, List.map_nil, haddr, hperm,
      ← Multiset.coe_add, Multiset.coe_singleton]
    abel
  · intro rqe' hmem
    rcases List.mem_append.mp hmem with hmem | hmem
    · exact h.queued rqe' hmem
    · rw [List.mem_singleton.mp hmem]
      exact ⟨l, haddr⟩

theorem collect (h : ListsOk x) {l : ℕ} (hl : x.reqstate l = .done) :
    ListsOk { x with reqstate := Function.update x.reqstate l .idle } := by
  refine ⟨h.nodup, ?_, h.internal, h.queued, h.keys⟩
  intro k
  have hk := h.busy k
  change _ ↔ ReqAddr.ltab k ∈ addrs x
  by_cases hkl : k = l
  · subst hkl
    rw [hl] at hk
    simpa using hk
  · simp only [Function.update_of_ne hkl]
    exact hk

theorem pend (h : ListsOk x) {rqe : Request} {rest : List Request} (hheld : x.held = rqe :: rest)
    (hkey : rqe.reqop = .joinwait ∨ findPendingReq x.rpending rqe.reqop rqe.xidseq = none) :
    ListsOk { x with rpending := x.rpending ++ [rqe], held := rest } := by
  refine h.moved ?_ rfl rfl h.queued ?_
  · simp only [addrs, hheld, List.map_append, List.map_cons, List.map_nil, ← Multiset.coe_add,
      ← Multiset.cons_coe, ← Multiset.singleton_add, Multiset.coe_nil]
    abel
  · rw [List.pairwise_append]
    refine ⟨h.keys, List.pairwise_singleton _ _, ?_⟩
    intro rqe' hmem rqe'' hsingle
    obtain rfl := List.mem_singleton.mp hsingle
    rcases hkey with hwait | hnone
    · exact Or.inr (Or.inl hwait)
    · refine Or.inr (Or.inr fun heq => ?_)
      have hmiss := List.find?_eq_none.mp hnone rqe' hmem
      simp only [Prod.mk.injEq] at heq
      simp [pendingMatch, heq] at hmiss

theorem unpend (h : ListsOk x) {f : Request → Bool} {rqe : Request}
    (hfind : x.rpending.find? f = some rqe) :
    ListsOk { x with rpending := x.rpending.eraseP f, held := rqe :: x.held } := by
  have hperm : (x.rpending.map Request.addr : Multiset ReqAddr) =
      {rqe.addr} + ((x.rpending.eraseP f).map Request.addr : List ReqAddr) := by
    rw [Multiset.singleton_add, Multiset.cons_coe, Multiset.coe_eq_coe, ← List.map_cons]
    exact (FifoNet.perm_eraseP_of_find hfind).map _
  refine h.moved ?_ rfl rfl h.queued (h.keys.sublist List.eraseP_sublist)
  simp only [addrs, hperm, List.map_cons, ← Multiset.cons_coe, ← Multiset.singleton_add]
  abel

theorem releaseApp (h : ListsOk x) {rqe : Request} {rest : List Request} {l : ℕ}
    (hheld : x.held = rqe :: rest) (haddr : rqe.addr = .ltab l) {state : ReqState}
    (hstate : state ≠ .busy) :
    ListsOk { x with reqstate := Function.update x.reqstate l state, held := rest } := by
  have haddrs : addrs x = .ltab l ::ₘ addrs { x with
      reqstate := Function.update x.reqstate l state, held := rest } := by
    simp only [addrs, hheld, List.map_cons, haddr, ← Multiset.cons_coe, ← Multiset.singleton_add]
    abel
  have hnodup := h.nodup
  rw [haddrs, Multiset.nodup_cons] at hnodup
  refine ⟨hnodup.2, ?_, ?_, h.queued, h.keys⟩
  · intro k
    by_cases hk : k = l
    · subst hk
      simp [hstate, hnodup.1]
    · have hbusy := h.busy k
      rw [haddrs, Multiset.mem_cons] at hbusy
      simpa [Function.update_of_ne hk, hk] using hbusy
  · intro n
    have hint := h.internal n
    rw [haddrs, Multiset.mem_cons] at hint
    simpa using hint

theorem allocNew (h : ListsOk x) :
    ListsOk { x with nreq := x.nreq + 1, held := internalRequest x.nreq :: x.held } := by
  have haddrs : addrs { x with nreq := x.nreq + 1, held := internalRequest x.nreq :: x.held } =
      .internal x.nreq ::ₘ addrs x := by
    simp only [addrs, List.map_cons, ← Multiset.cons_coe, ← Multiset.singleton_add]
    change _ = {(internalRequest x.nreq).addr} + _
    abel
  refine ⟨?_, ?_, ?_, h.queued, h.keys⟩
  · rw [haddrs, Multiset.nodup_cons, h.internal]
    exact ⟨lt_irrefl _, h.nodup⟩
  · intro l
    rw [haddrs, Multiset.mem_cons, h.busy]
    simp
  · intro n
    rw [haddrs, Multiset.mem_cons, h.internal, ReqAddr.internal.injEq]
    change _ ↔ n < x.nreq + 1
    omega

theorem step (h : ListsOk x) (hs : ListStep x y) : ListsOk y := by
  cases hs with
  | post l pc hrun hl => exact h.post hl _
  | enqueue l rqe haddr hl => exact h.enqueue haddr hl
  | collect l hl => exact h.collect hl
  | move l pc => exact h.moved rfl rfl rfl h.queued h.keys
  | slots pc => exact h.moved rfl rfl rfl h.queued h.keys
  | dequeue rqe rest hq =>
    refine h.moved ?_ rfl rfl ?_ h.keys
    · simp only [addrs, hq, List.map_cons, ← Multiset.cons_coe, ← Multiset.singleton_add]
      abel
    · intro rqe' hmem
      exact h.queued rqe' (by rw [hq]; exact List.mem_cons_of_mem _ hmem)
  | allocFree n rest hfree =>
    refine h.moved ?_ rfl rfl h.queued h.keys
    simp only [addrs, hfree, List.map_cons, ← Multiset.cons_coe, ← Multiset.singleton_add]
    change _ + _ + _ + ({(internalRequest n).addr} + _) + _ =
      _ + _ + ({(internalRequest n).addr} + _) + _ + _
    abel
  | allocNew => exact h.allocNew
  | fill rqe rqe' rest hheld haddr =>
    refine h.moved ?_ rfl rfl h.queued h.keys
    simp only [addrs, hheld, List.map_cons, haddr]
  | pend rqe rest hheld hkey => exact h.pend hheld hkey
  | unpend f rqe hfind => exact h.unpend hfind
  | releaseInternal rqe rest n hheld haddr =>
    refine h.moved ?_ rfl rfl h.queued h.keys
    simp only [addrs, hheld, List.map_cons, haddr, ← Multiset.cons_coe, ← Multiset.singleton_add]
    abel
  | releaseApp rqe rest l notify hheld haddr =>
    exact h.releaseApp hheld haddr (by split <;> nofun)

theorem run (h : ListsOk x) (hr : ListRun x y) : ListsOk y := by
  induction hr with
  | refl => exact h
  | tail _ hs ih => exact ih.step hs

end ListsOk

/-- The requests of a rank at a point of a handler. -/
def listsOf (v : View) (held : List Request) (posting : List ℕ) : Lists where
  mgrreqq := v.dtq.mgrreqq
  rpending := v.mgr.rpending
  reqfree := v.dtq.reqfree
  nreq := v.dtq.nreq
  pc l := (v.mgr.ltab l).pc
  reqstate l := (v.mgr.ltab l).reqstate
  held := held
  posting := posting

section Bridge

variable {job : Job} {v v' : View}

theorem listsOf_setLtab (v : View) (l : ℕ) (lt : Ltab) (held : List Request) (posting : List ℕ) :
    listsOf (v.setMgr (v.mgr.setLtab l lt)) held posting =
      { listsOf v held posting with
        pc := Function.update (listsOf v held posting).pc l lt.pc
        reqstate := Function.update (listsOf v held posting).reqstate l lt.reqstate } := by
  simp only [listsOf, View.setMgr, Mgr.setLtab, Function.apply_update (fun _ lt => Ltab.pc lt),
    Function.apply_update (fun _ lt => Ltab.reqstate lt)]

theorem listsOf_untouched (h : Untouched v v') (held : List Request) (posting : List ℕ) :
    listsOf v' held posting =
      { listsOf v held posting with pc := (listsOf v' held posting).pc } := by
  simp only [listsOf, h.mgrreqq, h.rpending, h.reqfree, h.nreq, h.reqstate]

/-- A request changes its state and its thread stays where it is. -/
theorem listsOf_setReqstate {l : ℕ} {lt : Ltab} (hpc : lt.pc = (v.mgr.ltab l).pc)
    (held : List Request) (posting : List ℕ) :
    listsOf (v.setMgr (v.mgr.setLtab l lt)) held posting =
      { listsOf v held posting with
        reqstate := Function.update (listsOf v held posting).reqstate l lt.reqstate } := by
  have hsame : Function.update (listsOf v held posting).pc l lt.pc =
      (listsOf v held posting).pc := by
    rw [hpc]
    exact Function.update_eq_self l (listsOf v held posting).pc
  rw [listsOf_setLtab, hsame]

/-- A thread goes on without its request. -/
theorem move_listRun {l : ℕ} {lt : Ltab} (h : Untouched v v')
    (hm : v'.mgr = v.mgr.setLtab l lt) (held : List Request) (posting : List ℕ) :
    ListRun (listsOf v held posting) (listsOf v' held posting) := by
  have hpc : (listsOf v' held posting).pc =
      Function.update (listsOf v held posting).pc l lt.pc := by
    simp only [listsOf, hm, Mgr.setLtab, Function.apply_update (fun _ lt => Ltab.pc lt)]
  rw [listsOf_untouched h, hpc]
  exact .single (.move l lt.pc)

theorem reqAlloc_listStep {n : ℕ} {q : Dtq} (h : dtqReqAlloc v.dtq = (some n, q))
    (held : List Request) (posting : List ℕ) :
    ListStep (listsOf v held posting)
      (listsOf (v.setDtq q) (internalRequest n :: held) posting) := by
  rcases reqAlloc_some h with ⟨rest, hfree, rfl⟩ | ⟨rfl, rfl⟩
  · exact .allocFree n rest hfree
  · exact .allocNew

/-- An operation of a handler is one change of the lists, or none. -/
theorem prim_listRun {c c' : Work} (h : Prim job c c') (posting : List ℕ) :
    ListRun (listsOf c.view c.reqs posting) (listsOf c'.view c'.reqs posting) := by
  cases h with
  | mqeAlloc h =>
    rcases mqeAlloc_some h with ⟨rest, hfree, rfl⟩ | ⟨rfl, rfl⟩
    · exact .refl
    · exact .refl
  | mqeAllocFail h =>
    obtain rfl := mqeAlloc_none h
    exact .refl
  | mqeUnalloc => exact .refl
  | recvRelease => exact .refl
  | sendEnqueue mqe h =>
    unfold dtqSendEnqueue at h
    split at h
    · simp at h
    · split at h
      · obtain rfl := (Prod.mk.inj h).2
        exact .refl
      · obtain rfl := (Prod.mk.inj h).2
        exact .refl
  | reqAlloc h => exact .single (reqAlloc_listStep h _ _)
  | reqAllocFail h =>
    obtain rfl := reqAlloc_none h
    exact .refl
  | @reqFill b r v rqe rqe' h => exact .single (.fill rqe rqe' r rfl h)
  | @reqRelease b r v rqe notify =>
    unfold dtqReqRelease
    split
    · rename_i n haddr
      exact .single (.releaseInternal rqe r n rfl haddr)
    · rename_i l haddr
      rw [listsOf_setReqstate]
      · exact .single (.releaseApp rqe r l notify rfl haddr)
      · rfl
  | @pend b r v rqe h => exact .single (.pend rqe r rfl h)
  | unpend h => exact .single (.unpend _ _ h)
  | gtabAlloc rank dispIdx i arg hrank h =>
    obtain ⟨-, -, rfl⟩ := gtabAlloc_taken _ _ _ _ _ _ _ h
    exact .refl
  | @gtabFree b r v i hrank h =>
    rw [gtabFree_eq]
    exact .refl
  | getFreeSeq op rv h =>
    obtain ⟨-, rfl⟩ := getFreeSeq_some _ _ _ h
    exact .refl
  | other h =>
    rw [listsOf_untouched h]
    exact .single (.slots _)

theorem run_listRun {c c' : Work} (h : Run job c c') (posting : List ℕ) :
    ListRun (listsOf c.view c.reqs posting) (listsOf c'.view c'.reqs posting) := by
  induction h with
  | refl => exact .refl
  | tail _ hp ih => exact ih.trans (prim_listRun hp posting)

/-- A thread marks its request busy. -/
theorem mark_listStep {w : View} {l : ℕ} {lt : Ltab} (hrun : Posts (v.mgr.ltab l).pc)
    (hl : (v.mgr.ltab l).reqstate ≠ .busy) (hm : w.mgr = v.mgr.setLtab l lt)
    (hbusy : lt.reqstate = .busy) (hq : w.dtq.mgrreqq = v.dtq.mgrreqq)
    (hfree : w.dtq.reqfree = v.dtq.reqfree) (hn : w.dtq.nreq = v.dtq.nreq)
    (held : List Request) (posting : List ℕ) :
    ListStep (listsOf v held posting) (listsOf w held (l :: posting)) := by
  have hw : listsOf w held (l :: posting) = { listsOf v held posting with
      pc := Function.update (listsOf v held posting).pc l lt.pc
      reqstate := Function.update (listsOf v held posting).reqstate l .busy
      posting := l :: posting } := by
    simp only [listsOf, hm, hq, hfree, hn, Mgr.setLtab, ← hbusy,
      Function.apply_update (fun _ lt => Ltab.pc lt),
      Function.apply_update (fun _ lt => Ltab.reqstate lt)]
  rw [hw]
  exact .post l lt.pc hrun hl

/-- It queues the request. -/
theorem queue_listStep (v : View) {l : ℕ} {rqe : Request} (haddr : rqe.addr = .ltab l)
    (held : List Request) (posting : List ℕ) :
    ListStep (listsOf v held (l :: posting))
      (listsOf (v.setDtq (dtqReqEnqueue v.dtq rqe)) held posting) := by
  have hstep : ListStep (listsOf v held (l :: posting)) _ :=
    .enqueue l rqe haddr (List.mem_cons_self ..)
  rw [show (listsOf v held (l :: posting)).posting = l :: posting from rfl,
    List.erase_cons_head] at hstep
  exact hstep

theorem posted_listRun {w : View} {l : ℕ} {lt : Ltab} {rqe : Request}
    (hrun : Posts (v.mgr.ltab l).pc) (hl : (v.mgr.ltab l).reqstate ≠ .busy)
    (haddr : rqe.addr = .ltab l) (hm : w.mgr = v.mgr.setLtab l lt) (hbusy : lt.reqstate = .busy)
    (hq : w.dtq.mgrreqq = v.dtq.mgrreqq) (hfree : w.dtq.reqfree = v.dtq.reqfree)
    (hn : w.dtq.nreq = v.dtq.nreq) (held : List Request) (posting : List ℕ) :
    ListRun (listsOf v held posting)
      (listsOf (w.setDtq (dtqReqEnqueue w.dtq rqe)) held posting) :=
  .tail (.single (mark_listStep hrun hl hm hbusy hq hfree hn held posting))
    (queue_listStep w haddr held posting)

theorem retcleanMark_spec (v : View) (l : ℕ) (fin : LtState) :
    (retcleanMark v l fin).dtq = v.dtq ∧ ∃ lt, lt.reqstate = .busy ∧
      (retcleanMark v l fin).mgr = v.mgr.setLtab l lt := by
  unfold retcleanMark
  simp only
  generalize (if (v.mgr.ltab l).pthState.needFinalstate then fin
    else (v.mgr.ltab l).pthState) = state
  split
  · exact ⟨rfl, _, rfl, rfl⟩
  · exact ⟨rfl, _, rfl, rfl⟩

/-- retclean_request between the two locks it takes. -/
theorem retcleanMark_listStep (v : View) {l : ℕ} (fin : LtState)
    (hrun : Posts (v.mgr.ltab l).pc) (hl : (v.mgr.ltab l).reqstate ≠ .busy)
    (held : List Request) (posting : List ℕ) :
    ListStep (listsOf v held posting) (listsOf (retcleanMark v l fin) held (l :: posting)) := by
  obtain ⟨hq, lt, hbusy, hm⟩ := retcleanMark_spec v l fin
  exact mark_listStep hrun hl hm hbusy (by rw [hq]) (by rw [hq]) (by rw [hq]) held posting

theorem retcleanRequest_listRun (v : View) {l : ℕ} (fin : LtState)
    (hrun : Posts (v.mgr.ltab l).pc) (hl : (v.mgr.ltab l).reqstate ≠ .busy)
    (held : List Request) (posting : List ℕ) :
    ListRun (listsOf v held posting) (listsOf (retcleanRequest v l fin) held posting) :=
  .tail (.single (retcleanMark_listStep v fin hrun hl held posting))
    (queue_listStep (retcleanMark v l fin) rfl held posting)

theorem appStep_listRun {l : ℕ} (h : AppStep job l v v')
    (hl : (v.mgr.ltab l).pc ≠ .app → (v.mgr.ltab l).pc ≠ .ended →
      (v.mgr.ltab l).reqstate ≠ .busy) (held : List Request) (posting : List ℕ) :
    ListRun (listsOf v held posting) (listsOf v' held posting) := by
  cases h with
  | wrapBad hpc hbad => exact move_listRun ((Untouched.refl v).setLtab _ _ (by rfl)) (by rfl) _ _
  | wrapFail hpc hlt hseq =>
    exact retcleanRequest_listRun v _ (.inr (.inl hpc))
      (hl (by rw [hpc]; nofun) (by rw [hpc]; nofun)) _ _
  | publish hpc hlt hseq hdisp =>
    exact move_listRun (((Untouched.refl v).setGtab (by rfl) (by rfl)).setLtab _ _ (by rfl))
      (by rfl) _ _
  | post body peer hpc hidle hpeer =>
    have hnot : (v.mgr.ltab l).reqstate ≠ .busy := by rw [hidle]; nofun
    unfold postRequest
    split
    · rename_i q hq
      obtain rfl := mqeAlloc_none hq
      exact .refl
    · rename_i addr q hq
      have hqueues : q.mgrreqq = v.dtq.mgrreqq ∧ q.reqfree = v.dtq.reqfree ∧
          q.nreq = v.dtq.nreq := by
        rcases mqeAlloc_some hq with ⟨rest, -, rfl⟩ | ⟨-, rfl⟩
        · exact ⟨rfl, rfl, rfl⟩
        · exact ⟨rfl, rfl, rfl⟩
      exact posted_listRun (w := (v.setMgr _).setDtq q) (.inl hpc) hnot rfl (by rfl) (by rfl)
        hqueues.1 hqueues.2.1 hqueues.2.2 _ _
  | collect hpc hdone =>
    unfold collectResult
    rw [listsOf_setReqstate]
    · exact .single (.collect l hdone)
    · rfl
  | exit nativeExit encoded hpc hidle hseq =>
    exact move_listRun (((Untouched.refl v).setGtab (by rfl) (by rfl)).setLtab _ _ (by rfl))
      (by rfl) _ _
  | exited hpc => exact move_listRun ((Untouched.refl v).setLtab _ _ (by rfl)) (by rfl) _ _
  | appReturn ret hpc hidle hdisp =>
    unfold appReturn
    simp only
    split
    · exact move_listRun (((Untouched.refl v).setGtab (by rfl) (by rfl)).setLtab _ _ (by rfl))
        (by rfl) _ _
    · exact move_listRun ((Untouched.refl v).setLtab _ _ (by rfl)) (by rfl) _ _
  | tearDown hpc hidle => exact move_listRun ((Untouched.refl v).setLtab _ _ (by rfl)) (by rfl) _ _
  | cleanup returned encoded hpc =>
    have hnot := hl (by rw [hpc]; nofun) (by rw [hpc]; nofun)
    have hrun : Posts (v.mgr.ltab l).pc := .inr (.inr ⟨returned, hpc⟩)
    -- the return value may be stored first, which is nothing to the lists
    have hstored (gt : Gtab) (fin : LtState) : ListRun (listsOf v held posting)
        (listsOf (retcleanRequest (v.setGtab (v.mgr.ltab l).gtabIdx gt) l fin) held posting) :=
      retcleanRequest_listRun (v.setGtab (v.mgr.ltab l).gtabIdx gt) fin hrun hnot held posting
    unfold dthreadcleanup
    simp only
    split
    · cases encoded with
      | some ret => exact hstored _ _
      | none => exact hstored _ _
    · exact retcleanRequest_listRun v _ hrun hnot _ _
  | app0Return hpc hidle hdisp =>
    have hnot : (v.mgr.ltab l).reqstate ≠ .busy := by rw [hidle]; nofun
    exact posted_listRun (w := v.setMgr _) (.inl hpc) hnot rfl (by rfl) (by rfl) (by rfl)
      (by rfl) (by rfl) _ _

end Bridge

/-- The requests of rank `r` between two steps of the job. -/
def listsAt (s : Sys) (r : ℕ) : Lists := listsOf (s.view r) [] []

section Job

variable {job : Job} {s s' : Sys}

theorem listsAt_put_self (net : List Packet) (r : ℕ) (v : View) :
    listsAt ({ s with net := net }.put r v) r = listsOf v [] [] := by
  simp [listsAt, listsOf, Sys.view, Sys.put, flush]

theorem listsAt_put_other {k r : ℕ} (hk : k ≠ r) (net : List Packet) (v : View) :
    listsAt ({ s with net := net }.put r v) k = listsAt s k := by
  simp [listsAt, listsOf, Sys.view, Sys.put, Function.update_of_ne hk]

/-- The request that stands for a call that is not over. -/
theorem exists_request_of_busy {r l : ℕ} (hok : ListsOk (listsAt s r))
    (hbusy : ((s.rk r).mgr.ltab l).reqstate = .busy) :
    ∃ rqe ∈ (s.rk r).dtq.mgrreqq ++ (s.rk r).mgr.rpending, rqe.addr = .ltab l := by
  have hmem : ReqAddr.ltab l ∈ addrs (listsAt s r) := (hok.busy l).mp hbusy
  simp only [addrs, listsAt, listsOf, Sys.view, Multiset.mem_add, Multiset.mem_coe, List.mem_map,
    reduceCtorEq, and_false, exists_false, List.not_mem_nil, false_and, or_false] at hmem
  rcases hmem with ⟨rqe, hrqe, haddr⟩ | ⟨rqe, hrqe, haddr⟩
  · exact ⟨rqe, List.mem_append_left _ hrqe, haddr⟩
  · exact ⟨rqe, List.mem_append_right _ hrqe, haddr⟩

/-- A busy request belongs to a thread that runs or has ended. -/
theorem pc_of_busy {r l : ℕ} (hslots : SlotsOk job.nmaxthread (s.rk r).mgr.ltab
    (s.rk r).mgr.ltabAlloc (s.rk r).dtq.mgrreqq (s.rk r).mgr.rpending)
    (hok : ListsOk (listsAt s r)) (hbusy : ((s.rk r).mgr.ltab l).reqstate = .busy) :
    ((s.rk r).mgr.ltab l).pc = .app ∨ ((s.rk r).mgr.ltab l).pc = .ended := by
  obtain ⟨rqe, hrqe, haddr⟩ := exists_request_of_busy hok hbusy
  exact (hslots.issued_of_mem hrqe haddr).pc.2

/-- Every step of the job is a sequence of changes of each rank's lists. -/
theorem step_listRun (hs : Step job s s') (k : ℕ)
    (hslots : SlotsOk job.nmaxthread (s.rk k).mgr.ltab (s.rk k).mgr.ltabAlloc
      (s.rk k).dtq.mgrreqq (s.rk k).mgr.rpending)
    (hok : ListsOk (listsAt s k)) : ListRun (listsAt s k) (listsAt s' k) := by
  have hput {net : List Packet} {r : ℕ} {v : View}
      (hr : k = r → ListRun (listsAt s k) (listsOf v [] [])) :
      ListRun (listsAt s k) (listsAt ({ s with net := net }.put r v) k) := by
    by_cases hk : k = r
    · have hrun := hr hk
      subst hk
      rwa [listsAt_put_self]
    · rw [listsAt_put_other hk]
      exact .refl
  cases hs with
  | app r l v hr hl h =>
    apply hput
    rintro rfl
    refine appStep_listRun h ?_ [] []
    intro happ hended hbusy
    rcases pc_of_busy hslots hok hbusy with hpc | hpc
    · exact happ hpc
    · exact hended hpc
  | recv p net addr err v hr hd h =>
    apply hput
    rintro rfl
    by_cases hrunt : RuntRequest (s.view p.dst) ⟨addr, p.src, p.frame⟩
    · rw [processMqe_runt hrunt] at h
      obtain rfl := Option.some.inj h
      exact .refl
    · exact run_listRun (processMqe_run (b := []) (r := []) h hrunt) []
  | req r rqe q v hr hq h =>
    apply hput
    rintro rfl
    obtain ⟨rest, hqueue, rfl⟩ := reqDequeue_some hq
    obtain ⟨b', hrun⟩ := processReq_run (b := []) (r := []) h
    have hdeq : ListRun (listsAt s k) (listsOf ((s.view k).setDtq
        { (s.rk k).dtq with mgrreqq := rest }) [rqe] []) := .single (.dequeue rqe rest hqueue)
    exact hdeq.trans (run_listRun hrun [])
  | shutdown hidle hd =>
    apply hput
    rintro rfl
    exact run_listRun (broadcastShutdown_run (b := []) (r := []) (s.view 0)) []

theorem listsAt_init (job : Job) (r : ℕ) :
    listsAt (sysInit job) r =
      ⟨[], [], [], 0, (listsAt (sysInit job) r).pc, fun _ => .idle, [], []⟩ := by
  by_cases hr : r = 0
  · subst hr
    have hstate : (fun l => (((sysInit job).rk 0).mgr.ltab l).reqstate) = fun _ => .idle := by
      funext l
      by_cases hl : l = 0
      · subst hl
        rfl
      · simp [sysInit, mgrStartapp, Mgr.setLtab, Function.update_of_ne hl, mgrInit, Ltab.zero]
    simp only [listsAt, listsOf, Sys.view, hstate]
    rfl
  · simp [listsAt, listsOf, Sys.view, sysInit, hr, mgrInit, dtqInit, Ltab.zero]

theorem listsOk_init (job : Job) (r : ℕ) : ListsOk (listsAt (sysInit job) r) := by
  rw [listsAt_init]
  exact ⟨by simp [addrs], by simp [addrs], by simp [addrs], by simp, .nil⟩

theorem reachable_listsOk (h : Reachable job s) (r : ℕ) : ListsOk (listsAt s r) := by
  induction h with
  | refl => exact listsOk_init job r
  | tail hr hs ih => exact ih.run (step_listRun hs r (reachable_slotsOk hr r) ih)

/-- What the links of the requests look like: a request is on at most one list,
an application thread's request is busy while it is on a list, with a handler or
being posted, an internal one is on a list or with a handler, and no two
requests wait for the same reply. -/
structure OneList (x : Lists) : Prop where
  one : ∀ addr, (x.mgrreqq.map Request.addr).count addr + (x.rpending.map Request.addr).count addr +
    (x.reqfree.map ReqAddr.internal).count addr ≤ 1
  busy : ∀ l, x.reqstate l = .busy ↔
    (∃ rqe ∈ x.mgrreqq ++ x.rpending ++ x.held, rqe.addr = .ltab l) ∨ l ∈ x.posting
  internal : ∀ n < x.nreq, n ∈ x.reqfree ∨ ∃ rqe ∈ x.rpending ++ x.held, rqe.addr = .internal n
  keys : x.rpending.Pairwise KeysDiffer

theorem ListsOk.oneList {x : Lists} (h : ListsOk x) : OneList x := by
  refine ⟨?_, ?_, ?_, h.keys⟩
  · intro addr
    have hcount := Multiset.nodup_iff_count_le_one.mp h.nodup addr
    simp only [addrs, Multiset.count_add, Multiset.coe_count] at hcount
    omega
  · intro l
    rw [h.busy l]
    simp only [addrs, Multiset.mem_add, Multiset.mem_coe, List.mem_map, List.mem_append,
      reduceCtorEq, and_false, exists_false, or_false, ReqAddr.ltab.injEq, exists_eq_right]
    constructor
    · rintro (((⟨rqe, hmem, haddr⟩ | ⟨rqe, hmem, haddr⟩) | ⟨rqe, hmem, haddr⟩) | hmem)
      · exact Or.inl ⟨rqe, Or.inl (Or.inl hmem), haddr⟩
      · exact Or.inl ⟨rqe, Or.inl (Or.inr hmem), haddr⟩
      · exact Or.inl ⟨rqe, Or.inr hmem, haddr⟩
      · exact Or.inr hmem
    · rintro (⟨rqe, (hmem | hmem) | hmem, haddr⟩ | hmem)
      · exact Or.inl (Or.inl (Or.inl ⟨rqe, hmem, haddr⟩))
      · exact Or.inl (Or.inl (Or.inr ⟨rqe, hmem, haddr⟩))
      · exact Or.inl (Or.inr ⟨rqe, hmem, haddr⟩)
      · exact Or.inr hmem
  · intro n hn
    have hmem := (h.internal n).mpr hn
    simp only [addrs, Multiset.mem_add, Multiset.mem_coe, List.mem_map, ReqAddr.internal.injEq,
      exists_eq_right, reduceCtorEq, and_false, exists_false, or_false] at hmem
    rcases hmem with ((⟨rqe, hrqe, haddr⟩ | ⟨rqe, hrqe, haddr⟩) | hfree) | ⟨rqe, hrqe, haddr⟩
    · obtain ⟨l, hl⟩ := h.queued rqe hrqe
      rw [haddr] at hl
      cases hl
    · exact Or.inr ⟨rqe, List.mem_append_left _ hrqe, haddr⟩
    · exact Or.inl hfree
    · exact Or.inr ⟨rqe, List.mem_append_right _ hrqe, haddr⟩

/-- In every state of a job, and after every single change of a list or of a
request's state that its steps are made of. -/
theorem requests_one_list (h : Reachable job s) (r : ℕ) :
    OneList (listsAt s r) ∧
      (∀ s', Step job s s' → ListRun (listsAt s r) (listsAt s' r)) ∧
      ∀ x, ListRun (listsAt s r) x → OneList x := by
  have hok := reachable_listsOk h r
  refine ⟨hok.oneList, ?_, ?_⟩
  · intro s' hs
    exact step_listRun hs r (reachable_slotsOk h r) hok
  · intro x hx
    exact (hok.run hx).oneList

/-- The CREATE of `twoRanks` has been forwarded: its request is pending, busy and
on no other list. -/
theorem requests_one_list_forwarded : Reachable twoRanks createForwarded ∧
    (listsAt createForwarded 0).reqstate 0 = .busy ∧
    ((listsAt createForwarded 0).rpending.map Request.addr).count (.ltab 0) = 1 ∧
    OneList (listsAt createForwarded 0) :=
  ⟨createForwarded_reachable, rfl, rfl, (requests_one_list createForwarded_reachable 0).1⟩

/-- The main thread of `twoRanks` has called pthread_exit and is in its cleanup. -/
def mainExits : Sys := (sysInit twoRanks).put 0 (tearDown ((sysInit twoRanks).view 0) 0)

theorem mainExits_reachable : Reachable twoRanks mainExits :=
  .single (.app 0 0 _ (by decide) (by decide) (.tearDown rfl rfl))

/-- A request is busy before it is on a list: retclean_request, which the cleanup of the
thread calls, sets the state under reqlock and queues the request after it has dropped
that lock. -/
theorem busy_before_queued : Reachable twoRanks mainExits ∧
    AppStep twoRanks 0 (mainExits.view 0) (retcleanRequest (mainExits.view 0) 0 .cleanup) ∧
    ∃ x, x = listsOf (retcleanMark (mainExits.view 0) 0 .cleanup) [] [0] ∧
      ListRun (listsAt mainExits 0) x ∧ x.reqstate 0 = .busy ∧ x.mgrreqq = [] ∧
      x.rpending = [] ∧ x.held = [] := by
  refine ⟨mainExits_reachable, .cleanup false none rfl, _, rfl, ?_, rfl, rfl, rfl, rfl⟩
  have hmark := retcleanMark_listStep (mainExits.view 0) (l := 0) .cleanup
    (.inr (.inr ⟨false, rfl⟩)) (by decide) [] []
  exact .single hmark

end Job

end Dthread.RequestLists
