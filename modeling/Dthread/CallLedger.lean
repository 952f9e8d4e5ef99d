import Dthread.FateSteps

/-!
A ledger of the calls of a job. A call is a CREATE, DETACH, CANCEL or JOIN that
an application thread posts. The log of a run tells which calls were made, with
which xidseq each was forwarded, which of them a manager has handled, what was
answered, and which threads were made for which CREATE. A call is handled at
most once and answered at most once, and what its thread reads is the answer to
that call.
-/
namespace Dthread.CallLedger

open ReqMsg Queuing ManagerTables ManagerHandlers ManagerEffects ManagerOutcomes AppThreads
open FifoNet JobSystem JobLogs RequestReply LocalSlots LifeRefinement FateRefinement

/-- A call of the thread in slot `slot` of rank `rank`; calls are numbered. -/
structure Call where
  id : ℕ
  rank : ℕ
  slot : ℕ
  body : Body
deriving DecidableEq, Repr

structure Ledger where
  -- how many calls were made
  count : ℕ
  -- the last call of each slot
  calls : ℕ × ℕ → Option Call
  -- the call that was last forwarded under a key
  owner : Key → Option Call
  -- the calls that the rank they were sent to has handled
  served : List Call
  -- the replies that were sent, with the calls they are for
  answers : List (Call × Body)
  births : List (Call × DThread)

namespace Ledger

def start : Ledger := ⟨0, fun _ => none, fun _ => none, [], [], []⟩

def openCall (L : Ledger) (r l : ℕ) (body : Body) : Ledger :=
  { L with
    count := L.count + 1
    calls := Function.update L.calls (r, l) (some ⟨L.count, r, l, body⟩) }

/-- The manager of rank `r` has sent the message of slot `l`. -/
def forward (L : Ledger) (r l : ℕ) (post : Post) : Ledger :=
  if forwarded post.2.body.op then
    { L with
      owner := Function.update L.owner ⟨r, post.2.body.op, post.2.xidseq⟩ (L.calls (r, l)) }
  else L

/-- The call that a packet asks for. -/
def asked (L : Ledger) (p : Packet) : Option Call :=
  if forwarded p.frame.body.op then L.owner ⟨p.src, p.frame.body.op, p.frame.xidseq⟩ else none

/-- The call that a message answers. -/
def answer (L : Ledger) (post : Post) : Option (Call × Body) :=
  (replyTo post.2.body).bind fun op =>
    (L.owner ⟨post.1, op, post.2.xidseq⟩).map fun c => (c, post.2.body)

/-- The thread that is made for a CREATE. -/
def birth (L : Ledger) (p : Packet) (post : Post) : Option (Call × DThread) :=
  match post.2.body with
  | .start thread _ => (L.asked p).map fun c => (c, thread)
  | _ => none

def serve (L : Ledger) (p : Packet) (posts : List Post) : Ledger :=
  { L with
    served := L.served ++ (L.asked p).toList
    answers := L.answers ++ posts.filterMap L.answer
    births := L.births ++ posts.filterMap (L.birth p) }

def record (L : Ledger) (e : Record) : Ledger :=
  match e.event with
  | .app l (.post body _) => L.openCall e.rank l body
  | .app _ _ => L
  | .msg p => L.serve p e.posts
  -- what the manager sends for a request of a slot is the call of that slot
  | .req rqe =>
    match rqe.addr with
    | .ltab l => e.posts.foldl (fun L post => L.forward e.rank l post) L
    | .internal _ => L
  | .shutdown => L

end Ledger

def ledger (log : List Record) : Ledger := log.foldl Ledger.record .start

theorem ledger_snoc (log : List Record) (e : Record) :
    ledger (log ++ [e]) = (ledger log).record e := by
  simp [ledger]

/-- What the thread of a slot reads from its request after an answer. -/
def Reads (lt : Ltab) : Body → Prop
  | .created e newthread => lt.reqerror = e ∧ (e = 0 → lt.newdthread = newthread)
  | .detached e => lt.reqerror = e
  | .canceled e => lt.reqerror = e
  | .joined e ret => lt.reqerror = e ∧ lt.retval = ret
  | _ => False

/-- A finished call: its manager could not send it and no other has seen it, or
it was answered and the thread reads that answer. -/
def Finished (L : Ledger) (c : Call) (lt : Ltab) : Prop :=
  lt.reqerror = ReqMsg.EIO ∧ c ∉ L.served ∨ ∃ body, (c, body) ∈ L.answers ∧ Reads lt body

/-- The parts of a ledger agree with each other. -/
structure LedgerOk (L : Ledger) : Prop where
  calls : ∀ r l c, L.calls (r, l) = some c → c.rank = r ∧ c.slot = l ∧ c.id < L.count
  owner : ∀ k c, L.owner k = some c → c.rank = k.rank ∧ c.body.op = k.op ∧ c.id < L.count
  served : ∀ c ∈ L.served, c.id < L.count
  servedOnce : L.served.Nodup
  answersServed : ∀ a ∈ L.answers, a.1 ∈ L.served ∧ replyTo a.2 = some a.1.body.op
  answeredOnce : (L.answers.map Prod.fst).Nodup

/-- A state of the job and the ledger of the run that led to it. -/
structure Booked (L : Ledger) (s : Sys) : Prop extends LedgerOk L where
  -- a call on the request list of its rank has not left that rank
  queued : ∀ r, ∀ rqe ∈ (s.rk r).dtq.mgrreqq, forwarded rqe.reqop = true → ∃ l mqe c,
    rqe.addr = .ltab l ∧ rqe.mqe = some mqe ∧ L.calls (r, l) = some c ∧ mqe.frame.body = c.body ∧
      c ∉ L.served
  -- a request that its rank keeps pending is the last call of its slot
  pending : ∀ r, ∀ rqe ∈ (s.rk r).mgr.rpending, forwarded rqe.reqop = true → ∃ l c,
    rqe.addr = .ltab l ∧ L.calls (r, l) = some c ∧ L.owner (requestKey r rqe) = some c
  asked : ∀ p ∈ s.net, forwarded p.frame.body.op = true → ∃ c, L.asked p = some c ∧
    c.body = p.frame.body ∧ c ∉ L.served
  -- a CREATE whose START is out or a JOIN that waits is handled and still owed its answer
  waiting : ∀ rqe ∈ (s.rk 0).mgr.rpending, ∀ k, waitKey rqe = some k → ∃ c, L.owner k = some c ∧
    c ∈ L.served ∧ c ∉ L.answers.map Prod.fst
  replies : ∀ p ∈ s.net, ∀ op, replyTo p.frame.body = some op → ∃ c,
    L.owner ⟨p.dst, op, p.frame.xidseq⟩ = some c ∧ (c, p.frame.body) ∈ L.answers
  finished : ∀ r l c, L.calls (r, l) = some c → ((s.rk r).mgr.ltab l).reqstate = .done →
    Finished L c ((s.rk r).mgr.ltab l)

theorem eq_of_countP_le_one {α : Type*} {l : List α} {f : α → Bool} (h : l.countP f ≤ 1) {x y : α}
    (hx : x ∈ l) (hy : y ∈ l) (hfx : f x = true) (hfy : f y = true) : x = y := by
  rw [List.countP_eq_length_filter] at h
  have hx' : x ∈ l.filter f := List.mem_filter.mpr ⟨hx, hfx⟩
  have hy' : y ∈ l.filter f := List.mem_filter.mpr ⟨hy, hfy⟩
  rcases hl : l.filter f with _ | ⟨z, _ | ⟨z', rest⟩⟩
  · simp [hl] at hx'
  · rw [hl, List.mem_singleton] at hx' hy'
    rw [hx', hy']
  · simp [hl] at h

theorem packetKey_of_forwarded {p : Packet} (h : forwarded p.frame.body.op = true) :
    packetKey p = some ⟨p.src, p.frame.body.op, p.frame.xidseq⟩ := by
  unfold packetKey
  cases hb : p.frame.body <;> simp [hb, forwarded, Body.op] at h ⊢

theorem forwarded_of_waitKey {rqe : Request} {k : Key} (h : waitKey rqe = some k) :
    forwarded k.op = true := by
  unfold waitKey at h
  cases hop : rqe.reqop <;> simp [hop] at h <;> subst h <;> rfl

theorem asked_eq (L : Ledger) {p : Packet} {k : Key} (h : forwarded p.frame.body.op = true)
    (hk : packetKey p = some k) : L.asked p = L.owner k := by
  rw [packetKey_of_forwarded h, Option.some.injEq] at hk
  rw [Ledger.asked, if_pos h, hk]

section Tokens

variable {job : Job} {L : Ledger} {s : Sys} {k k' : Key} {c : Call}

theorem tokens_of_packet {p : Packet} (hp : p ∈ s.net) (hk : packetKey p = some k) :
    0 < tokens s k := by
  have hpos : 0 < inFlight s.net k := List.countP_pos_iff.mpr ⟨p, hp, by simp [hk]⟩
  unfold tokens
  omega

theorem tokens_of_wait {rqe : Request} (hrqe : rqe ∈ (s.rk 0).mgr.rpending)
    (hk : waitKey rqe = some k) : 0 < tokens s k := by
  have hpos : 0 < kept (s.rk 0).mgr.rpending k :=
    List.countP_pos_iff.mpr ⟨rqe, hrqe, by simp [hk]⟩
  unfold tokens
  omega

/-- A packet and a waiting request never stand for the same call. -/
theorem not_both {p : Packet} {rqe : Request} (hm : Matched s) (hk : forwarded k.op = true)
    (hp : p ∈ s.net) (hpk : packetKey p = some k) (hrqe : rqe ∈ (s.rk 0).mgr.rpending)
    (hw : waitKey rqe = some k) : False := by
  have hpos : 0 < inFlight s.net k := List.countP_pos_iff.mpr ⟨p, hp, by simp [hpk]⟩
  have hpos' : 0 < kept (s.rk 0).mgr.rpending k :=
    List.countP_pos_iff.mpr ⟨rqe, hrqe, by simp [hw]⟩
  have haw : awaited k.op = true := by simp [awaited, hk]
  have hle := hm.le k haw
  have hone := hm.one k haw
  unfold tokens at hle
  omega

theorem exists_pending (hm : Matched s) (hk : forwarded k.op = true) (ht : 0 < tokens s k) :
    ∃ rqe ∈ (s.rk k.rank).mgr.rpending, requestKey k.rank rqe = k := by
  have hle := hm.le k (by simp [awaited, hk])
  have hpos : 0 < RequestReply.pending s k := by omega
  obtain ⟨rqe, hrqe, hmatch⟩ := List.countP_pos_iff.mp hpos
  refine ⟨rqe, hrqe, ?_⟩
  obtain ⟨hx, hop⟩ : rqe.xidseq = k.xidseq ∧ rqe.reqop = k.op := by
    simpa [pendingMatch] using hmatch
  rw [requestKey, hx, hop]

namespace Booked

/-- The request that waits for the token of a key belongs to the call that the
key was given to. -/
theorem exists_owner (h : Booked L s) (hf : Facts job s) (hk : forwarded k.op = true)
    (ht : 0 < tokens s k) : ∃ rqe ∈ (s.rk k.rank).mgr.rpending, ∃ c, requestKey k.rank rqe = k ∧
      rqe.addr = .ltab c.slot ∧ L.calls (k.rank, c.slot) = some c ∧ L.owner k = some c := by
  obtain ⟨rqe, hrqe, hkey⟩ := exists_pending hf.matched hk ht
  have hop : rqe.reqop = k.op := congrArg Key.op hkey
  obtain ⟨l, c, haddr, hcall, howner⟩ := h.pending k.rank rqe hrqe (hop ▸ hk)
  rw [hkey] at howner
  obtain ⟨-, rfl, -⟩ := h.calls _ _ _ hcall
  exact ⟨rqe, hrqe, c, hkey, haddr, hcall, howner⟩

/-- Tokens with different keys belong to different calls. -/
theorem owner_inj (h : Booked L s) (hf : Facts job s) (hk : forwarded k.op = true)
    (hk' : forwarded k'.op = true) (ht : 0 < tokens s k) (ht' : 0 < tokens s k')
    (ho : L.owner k = some c) (ho' : L.owner k' = some c) : k = k' := by
  obtain ⟨rqe, hrqe, c₁, hkey, haddr, -, ho₁⟩ := h.exists_owner hf hk ht
  obtain ⟨rqe', hrqe', c₂, hkey', haddr', -, ho₂⟩ := h.exists_owner hf hk' ht'
  obtain rfl : c₁ = c := Option.some.inj (ho₁.symm.trans ho)
  obtain rfl : c₂ = c₁ := Option.some.inj (ho₂.symm.trans ho')
  have hrank : k.rank = k'.rank := (h.owner _ _ ho).1.symm.trans (h.owner _ _ ho').1
  rw [← hrank] at hrqe' hkey'
  -- a slot has one request at a time, so both keys are the key of that request
  have hone := (hf.slots k.rank).one c₂.slot
  rw [List.countP_append] at hone
  have hone' : (s.rk k.rank).mgr.rpending.countP (owns c₂.slot) ≤ 1 := by omega
  have heq : rqe = rqe' :=
    eq_of_countP_le_one hone' hrqe hrqe' (by simp [owns, haddr]) (by simp [owns, haddr'])
  rw [← hkey, ← hkey', heq]

/-- A call whose token is under way is not queued any more. -/
theorem not_queued (h : Booked L s) (hf : Facts job s) (hk : forwarded k.op = true)
    (ht : 0 < tokens s k) (ho : L.owner k = some c) {r l : ℕ} {rqe : Request}
    (hrqe : rqe ∈ (s.rk r).dtq.mgrreqq) (haddr : rqe.addr = .ltab l) :
    L.calls (r, l) ≠ some c := by
  intro hcall
  obtain ⟨rqe', hrqe', c', -, haddr', -, ho'⟩ := h.exists_owner hf hk ht
  obtain rfl : c' = c := Option.some.inj (ho'.symm.trans ho)
  obtain ⟨hr, hl, -⟩ := h.calls _ _ _ hcall
  have hrank : k.rank = r := (h.owner _ _ ho).1.symm.trans hr
  subst hrank hl
  -- the slot would own a queued and a pending request
  have hone := (hf.slots k.rank).one c'.slot
  have hpos : 0 < (s.rk k.rank).dtq.mgrreqq.countP (owns c'.slot) :=
    List.countP_pos_iff.mpr ⟨rqe, hrqe, by simp [owns, haddr]⟩
  have hpos' : 0 < (s.rk k.rank).mgr.rpending.countP (owns c'.slot) :=
    List.countP_pos_iff.mpr ⟨rqe', hrqe', by simp [owns, haddr']⟩
  rw [List.countP_append] at hone
  omega

/-- A call whose token is under way is not finished. -/
theorem not_done (h : Booked L s) (hf : Facts job s) (hk : forwarded k.op = true)
    (ht : 0 < tokens s k) (ho : L.owner k = some c) {r l : ℕ} (hcall : L.calls (r, l) = some c) :
    ((s.rk r).mgr.ltab l).reqstate ≠ .done := by
  obtain ⟨rqe, hrqe, c', -, haddr, -, ho'⟩ := h.exists_owner hf hk ht
  obtain rfl : c' = c := Option.some.inj (ho'.symm.trans ho)
  obtain ⟨hr, hl, -⟩ := h.calls _ _ _ hcall
  have hrank : k.rank = r := (h.owner _ _ ho).1.symm.trans hr
  subst hrank hl
  have hissued := (hf.slots k.rank).issued_of_mem (List.mem_append_right _ hrqe) haddr
  rw [hissued.2.1]
  simp

end Booked

end Tokens

section Changes

variable {job : Job} {L : Ledger} {s s' : Sys} {r : ℕ} {m : Mgr} {gt : ℕ → Gtab}
  {rq : List Request} {net : List Packet} {posts : List Post}

theorem mem_net (hc : Change s s' r m gt rq net posts) (hnet : ∀ p ∈ net, p ∈ s.net) {p : Packet}
    (hp : p ∈ s'.net) : p ∈ s.net ∨ ∃ post ∈ posts, pack r post = p := by
  rw [hc.net, List.mem_append, List.mem_map] at hp
  exact hp.imp (hnet p) id

/-- A step that neither asks nor answers keeps the books. -/
theorem Booked.change (h : Booked L s) (hc : Change s s' r m gt rq net posts)
    (hrq : ∀ rqe ∈ rq, forwarded rqe.reqop = true → rqe ∈ (s.rk r).dtq.mgrreqq)
    (hpend : m.rpending = (s.rk r).mgr.rpending) (hnet : ∀ p ∈ net, p ∈ s.net)
    (hposts : ∀ post ∈ posts, forwarded post.2.body.op = false ∧ replyTo post.2.body = none)
    (hdone : ∀ l c, L.calls (r, l) = some c → (m.ltab l).reqstate = .done →
      Finished L c (m.ltab l)) : Booked L s' := by
  have hpending : ∀ r', (s'.rk r').mgr.rpending = (s.rk r').mgr.rpending := by
    intro r'
    by_cases hr : r' = r
    · rw [hr, hc.mgr, hpend]
    · rw [hc.others r' hr]
  refine ⟨h.toLedgerOk, ?_, ?_, ?_, ?_, ?_, ?_⟩
  · intro r' rqe hrqe hop
    by_cases hr : r' = r
    · subst hr
      rw [hc.mgrreqq] at hrqe
      exact h.queued r' rqe (hrq rqe hrqe hop) hop
    · rw [hc.others r' hr] at hrqe
      exact h.queued r' rqe hrqe hop
  · intro r'
    rw [hpending r']
    exact h.pending r'
  · intro p hp hop
    rcases mem_net hc hnet hp with hp | ⟨post, hpost, rfl⟩
    · exact h.asked p hp hop
    · exact Bool.noConfusion (hop.symm.trans (hposts post hpost).1)
  · rw [hpending 0]
    exact h.waiting
  · intro p hp op hop
    rcases mem_net hc hnet hp with hp | ⟨post, hpost, rfl⟩
    · exact h.replies p hp op hop
    · exact absurd (hop.symm.trans (hposts post hpost).2) (by simp)
  · intro r' l c hcall hstate
    by_cases hr : r' = r
    · subst hr
      rw [hc.mgr] at hstate ⊢
      exact hdone l c hcall hstate
    · rw [hc.others r' hr] at hstate ⊢
      exact h.finished r' l c hcall hstate

/-- A thread makes a call. -/
theorem Booked.openCall (h : Booked L s) (hf : Facts job s) {l peer addr : ℕ} {body : Body}
    {lt : Ltab} (hbusy : lt.reqstate = .busy)
    (hidle : ((s.rk r).mgr.ltab l).reqstate = .idle)
    (hc : Change s s' r ((s.rk r).mgr.setLtab l lt) gt ((s.rk r).dtq.mgrreqq ++
      [threadRequest l peer body.op (some ⟨addr, peer, .of 0 body⟩)]) s.net []) :
    Booked (L.openCall r l body) s' := by
  have hnew : (L.openCall r l body).calls (r, l) = some ⟨L.count, r, l, body⟩ :=
    Function.update_self ..
  have hold : ∀ x, x ≠ (r, l) → (L.openCall r l body).calls x = L.calls x :=
    fun x hx => Function.update_of_ne hx ..
  have hlt : L.count < (L.openCall r l body).count := Nat.lt_succ_self _
  -- no request of the slot is on a list, since the slot was idle
  have hfree : ∀ r', ∀ rqe ∈ (s.rk r').dtq.mgrreqq ++ (s.rk r').mgr.rpending, ∀ l',
      rqe.addr = .ltab l' → (r', l') ≠ (r, l) := by
    intro r' rqe hrqe l' haddr heq
    obtain ⟨rfl, rfl⟩ := Prod.mk.inj heq
    have hissued := (hf.slots r').issued_of_mem hrqe haddr
    rw [hissued.2.1] at hidle
    cases hidle
  have hpending : ∀ r', (s'.rk r').mgr.rpending = (s.rk r').mgr.rpending := by
    intro r'
    by_cases hr : r' = r
    · rw [hr, hc.mgr]
      rfl
    · rw [hc.others r' hr]
  have hnet : s'.net = s.net := by rw [hc.net, List.map_nil, List.append_nil]
  have hqueue : ∀ r', ∀ rqe ∈ (s.rk r').dtq.mgrreqq, forwarded rqe.reqop = true → ∃ l' mqe c,
      rqe.addr = .ltab l' ∧ rqe.mqe = some mqe ∧
        (L.openCall r l body).calls (r', l') = some c ∧ mqe.frame.body = c.body ∧
          c ∉ L.served := by
    intro r' rqe hrqe hop
    obtain ⟨l', mqe, c, haddr, hmqe, hcall, hrest⟩ := h.queued r' rqe hrqe hop
    refine ⟨l', mqe, c, haddr, hmqe, ?_, hrest⟩
    rw [hold _ (hfree r' rqe (List.mem_append_left _ hrqe) l' haddr), hcall]
  refine ⟨⟨?_, ?_, ?_, h.servedOnce, h.answersServed, h.answeredOnce⟩, ?_, ?_, ?_, ?_, ?_, ?_⟩
  -- the parts of the ledger: every number so far is below the new count
  · intro r' l' c hcall
    by_cases hx : (r', l') = (r, l)
    · obtain ⟨rfl, rfl⟩ := Prod.mk.inj hx
      rw [hnew, Option.some.injEq] at hcall
      subst hcall
      exact ⟨rfl, rfl, hlt⟩
    · rw [hold _ hx] at hcall
      obtain ⟨hr, hl, hid⟩ := h.calls r' l' c hcall
      exact ⟨hr, hl, hid.trans hlt⟩
  · intro k c ho
    obtain ⟨hr, hop, hid⟩ := h.owner k c ho
    exact ⟨hr, hop, hid.trans hlt⟩
  · intro c hserved
    exact (h.served c hserved).trans hlt
  -- the request list: the new request is that of the new call, whose number nobody has served
  · intro r' rqe hrqe hop
    by_cases hr : r' = r
    · subst hr
      rw [hc.mgrreqq, List.mem_append, List.mem_singleton] at hrqe
      rcases hrqe with hrqe | rfl
      · exact hqueue r' rqe hrqe hop
      · refine ⟨l, _, _, rfl, rfl, hnew, rfl, ?_⟩
        intro hserved
        exact absurd (h.served _ hserved) (lt_irrefl _)
    · rw [hc.others r' hr] at hrqe
      exact hqueue r' rqe hrqe hop
  -- the pending requests belong to other slots
  · intro r' rqe hrqe hop
    rw [hpending r'] at hrqe
    obtain ⟨l', c, haddr, hcall, ho⟩ := h.pending r' rqe hrqe hop
    refine ⟨l', c, haddr, ?_, ho⟩
    rw [hold _ (hfree r' rqe (List.mem_append_right _ hrqe) l' haddr), hcall]
  · rw [hnet]
    exact h.asked
  · rw [hpending 0]
    exact h.waiting
  · rw [hnet]
    exact h.replies
  -- results: the slot of the new call is busy
  · intro r' l' c hcall hstate
    by_cases hx : (r', l') = (r, l)
    · obtain ⟨rfl, rfl⟩ := Prod.mk.inj hx
      rw [hc.mgr] at hstate
      simp only [Mgr.setLtab, Function.update_self, hbusy] at hstate
      cases hstate
    · rw [hold _ hx] at hcall
      have hlt' : (s'.rk r').mgr.ltab l' = (s.rk r').mgr.ltab l' := by
        by_cases hr : r' = r
        · subst hr
          have hl : l' ≠ l := fun hl => hx (by rw [hl])
          rw [hc.mgr]
          simp [Mgr.setLtab, hl]
        · rw [hc.others r' hr]
      rw [hlt'] at hstate ⊢
      exact h.finished r' l' c hcall hstate

/-- A key that is drawn for a request is in nobody's hands. -/
theorem fresh_key (hf : Facts job s) {op : Op} {xidseq : ℕ}
    (hxid : findPendingReq (s.rk r).mgr.rpending op xidseq = none) :
    (∀ rqe ∈ (s.rk r).mgr.rpending, requestKey r rqe ≠ ⟨r, op, xidseq⟩) ∧
      ∀ k, forwarded k.op = true → 0 < tokens s k → k ≠ ⟨r, op, xidseq⟩ := by
  have hnone : ∀ rqe ∈ (s.rk r).mgr.rpending, requestKey r rqe ≠ ⟨r, op, xidseq⟩ := by
    intro rqe hrqe hkey
    simp only [requestKey, Key.mk.injEq, true_and] at hkey
    exact absurd (List.find?_eq_none.mp hxid rqe hrqe) (by simp [pendingMatch, hkey.1, hkey.2])
  refine ⟨hnone, ?_⟩
  rintro k hk ht rfl
  obtain ⟨rqe, hrqe, hkey⟩ := exists_pending hf.matched hk ht
  exact hnone rqe hrqe hkey

/-- A manager sends the message of a call under a key of its own. -/
theorem Booked.forward (h : Booked L s) (hf : Facts job s) {rqe : Request} {rest : List Request}
    {l xidseq : ℕ} {mqe : Mqe} (hq : (s.rk r).dtq.mgrreqq = rqe :: rest)
    (haddr : rqe.addr = .ltab l)
    (hop : forwarded rqe.reqop = true) (hmqe : rqe.mqe = some mqe)
    (hxid : findPendingReq (s.rk r).mgr.rpending rqe.reqop xidseq = none)
    (hc : Change s s' r m gt rest s.net [(mqe.peer, { mqe.frame with xidseq := xidseq })])
    (hpend : m.rpending = (s.rk r).mgr.rpending ++ [{ rqe with mqe := none, xidseq := xidseq }])
    (hltab : m.ltab = (s.rk r).mgr.ltab) :
    Booked (L.forward r l (mqe.peer, { mqe.frame with xidseq := xidseq })) s' := by
  have hrqe : rqe ∈ (s.rk r).dtq.mgrreqq := by
    rw [hq]
    exact List.mem_cons_self
  obtain ⟨l', mqe', c, haddr', hmqe', hcall, hbody, hserved⟩ := h.queued r rqe hrqe hop
  obtain rfl : l = l' := by simpa [haddr] using haddr'
  obtain rfl : mqe = mqe' := by simpa [hmqe] using hmqe'
  have hbop : mqe.frame.body.op = rqe.reqop := (hf.wellformed.requests r rqe hrqe mqe hmqe).2.1
  have hL : L.forward r l (mqe.peer, { mqe.frame with xidseq := xidseq }) =
      { L with owner := Function.update L.owner ⟨r, rqe.reqop, xidseq⟩ (some c) } := by
    simp only [Ledger.forward, hbop, hop, if_true, hcall]
  rw [hL]
  -- the drawn key is new, so no packet and no waiting request changes its owner
  obtain ⟨hold, htok⟩ := fresh_key hf hxid
  have howner : ∀ k, k ≠ ⟨r, rqe.reqop, xidseq⟩ →
      Function.update L.owner ⟨r, rqe.reqop, xidseq⟩ (some c) k = L.owner k :=
    fun k hk => Function.update_of_ne hk ..
  have hpacket : ∀ p ∈ s.net, ∀ k, forwarded k.op = true → packetKey p = some k →
      Function.update L.owner ⟨r, rqe.reqop, xidseq⟩ (some c) k = L.owner k :=
    fun p hp k hk hkey => howner k (htok k hk (tokens_of_packet hp hkey))
  have hmem : ∀ p ∈ s'.net, p ∈ s.net ∨
      p = ⟨r, mqe.peer, { mqe.frame with xidseq := xidseq }⟩ := by
    intro p hp
    rcases mem_net hc (fun _ => id) hp with hp | ⟨post, hpost, rfl⟩
    · exact .inl hp
    · rw [List.mem_singleton] at hpost
      exact .inr (hpost ▸ rfl)
  have hpending : ∀ r', ∀ rqe' ∈ (s'.rk r').mgr.rpending, rqe' ∈ (s.rk r').mgr.rpending ∨
      r' = r ∧ rqe' = { rqe with mqe := none, xidseq := xidseq } := by
    intro r' rqe' hrqe'
    by_cases hr : r' = r
    · subst hr
      rw [hc.mgr, hpend, List.mem_append, List.mem_singleton] at hrqe'
      exact hrqe'.imp id fun heq => ⟨rfl, heq⟩
    · rw [hc.others r' hr] at hrqe'
      exact .inl hrqe'
  have hcallOk := h.calls r l c hcall
  refine ⟨⟨h.calls, ?_, h.served, h.servedOnce, h.answersServed, h.answeredOnce⟩,
    ?_, ?_, ?_, ?_, ?_, ?_⟩
  · intro k c' ho
    by_cases hk : k = ⟨r, rqe.reqop, xidseq⟩
    · subst hk
      obtain rfl : c = c' := by simpa using ho
      refine ⟨hcallOk.1, ?_, hcallOk.2.2⟩
      rw [← hbody, hbop]
    · simp only [howner k hk] at ho
      exact h.owner k c' ho
  · intro r' rqe' hrqe' hop'
    refine h.queued r' rqe' ?_ hop'
    by_cases hr : r' = r
    · subst hr
      rw [hc.mgrreqq] at hrqe'
      rw [hq]
      exact List.mem_cons_of_mem _ hrqe'
    · rwa [hc.others r' hr] at hrqe'
  -- the request moves from the list to the pending ones with its call
  · intro r' rqe' hrqe' hop'
    rcases hpending r' rqe' hrqe' with hmem' | ⟨rfl, rfl⟩
    · obtain ⟨l', c', haddr', hcall', ho⟩ := h.pending r' rqe' hmem' hop'
      refine ⟨l', c', haddr', hcall', ?_⟩
      rw [← ho]
      refine howner _ fun hkey => ?_
      obtain rfl : r' = r := congrArg Key.rank hkey
      exact hold rqe' hmem' hkey
    · exact ⟨l, c, haddr, hcall, Function.update_self ..⟩
  -- the packets that ask: the new one carries the body of the call
  · intro p hp hop'
    rcases hmem p hp with hp | rfl
    · obtain ⟨c', hasked, hrest⟩ := h.asked p hp hop'
      refine ⟨c', ?_, hrest⟩
      have hkey := packetKey_of_forwarded hop'
      rw [asked_eq _ hop' hkey] at hasked ⊢
      exact (hpacket p hp _ hop' hkey).trans hasked
    · refine ⟨c, ?_, hbody.symm, hserved⟩
      simp [Ledger.asked, hbop, hop]
  -- the callers that rank 0 keeps waiting: a forwarded request is none of them
  · intro rqe' hrqe' k hw
    rcases hpending 0 rqe' hrqe' with hmem' | ⟨-, rfl⟩
    · obtain ⟨c', ho, hrest⟩ := h.waiting rqe' hmem' k hw
      refine ⟨c', ?_, hrest⟩
      exact (howner k (htok k (forwarded_of_waitKey hw) (tokens_of_wait hmem' hw))).trans ho
    · have hnone : waitKey { rqe with mqe := none, xidseq := xidseq } = none :=
        waitKey_of_forwarded hop
      rw [hnone] at hw
      cases hw
  · intro p hp op hreply
    rcases hmem p hp with hp | rfl
    · obtain ⟨c', ho, hans⟩ := h.replies p hp op hreply
      refine ⟨c', ?_, hans⟩
      exact (hpacket p hp _ (forwarded_of_replyTo hreply) (packetKey_of_replyTo hreply)).trans ho
    · have hne : replyTo mqe.frame.body = none := by
        rw [← hbop] at hop
        cases hb : mqe.frame.body <;> simp [hb, Body.op, forwarded] at hop <;> rfl
      rw [hne] at hreply
      cases hreply
  · intro r' l' c' hcall' hstate
    have hlt' : (s'.rk r').mgr.ltab = (s.rk r').mgr.ltab := by
      by_cases hr : r' = r
      · rw [hr, hc.mgr, hltab]
      · rw [hc.others r' hr]
    rw [hlt'] at hstate ⊢
    exact h.finished r' l' c' hcall' hstate

theorem mem_serve_served {p : Packet} {c : Call} :
    c ∈ (L.serve p posts).served ↔ c ∈ L.served ∨ L.asked p = some c := by
  simp [Ledger.serve]

theorem mem_serve_answers {p : Packet} {a : Call × Body} :
    a ∈ (L.serve p posts).answers ↔ a ∈ L.answers ∨ ∃ post ∈ posts, L.answer post = some a := by
  simp [Ledger.serve]

theorem answer_eq_some {post : Post} {a : Call × Body} :
    L.answer post = some a ↔ ∃ op, replyTo post.2.body = some op ∧
      L.owner ⟨post.1, op, post.2.xidseq⟩ = some a.1 ∧ a.2 = post.2.body := by
  obtain ⟨c, body⟩ := a
  simp only [Ledger.answer, Option.bind_eq_some_iff, Option.map_eq_some_iff, Prod.mk.injEq]
  constructor
  · rintro ⟨op, hreply, c', ho, rfl, hbody⟩
    exact ⟨op, hreply, ho, hbody.symm⟩
  · rintro ⟨op, hreply, ho, hbody⟩
    exact ⟨op, hreply, c, ho, rfl, hbody.symm⟩

theorem Finished.serve {c : Call} {lt : Ltab} (h : Finished L c lt) {p : Packet}
    (hne : L.asked p ≠ some c) : Finished (L.serve p posts) c lt := by
  rcases h with ⟨he, hserved⟩ | ⟨body, hans, hreads⟩
  · refine .inl ⟨he, fun hmem => ?_⟩
    rcases mem_serve_served.mp hmem with hmem | hmem
    · exact hserved hmem
    · exact hne hmem
  · exact .inr ⟨body, mem_serve_answers.mpr (.inl hans), hreads⟩

theorem asked_forwarded {p : Packet} {c : Call} (h : L.asked p = some c) :
    forwarded p.frame.body.op = true := by
  unfold Ledger.asked at h
  split at h
  · assumption
  · cases h

/-- The call that a packet asks for is not finished. -/
theorem Booked.asked_not_done (h : Booked L s) (hf : Facts job s) {p : Packet} (hp : p ∈ s.net)
    {l : ℕ} {c : Call} (hcall : L.calls (r, l) = some c)
    (hdone : ((s.rk r).mgr.ltab l).reqstate = .done) : L.asked p ≠ some c := by
  intro hasked
  have hop := asked_forwarded hasked
  have hkey := packetKey_of_forwarded hop
  rw [asked_eq L hop hkey] at hasked
  exact h.not_done hf hop (tokens_of_packet hp hkey) hasked hcall hdone

/-- What a handler at rank `p.dst` does with the requests that packet `p` and
the waiting requests of rank 0 stand for. -/
structure Serves (s : Sys) (p : Packet) (m : Mgr) (posts : List Post) : Prop where
  -- a request it adds stands for the packet
  pending : ∀ rqe ∈ m.rpending, rqe ∈ (s.rk p.dst).mgr.rpending ∨ forwarded rqe.reqop = false ∧
    ∀ k, waitKey rqe = some k → packetKey p = some k ∧ forwarded p.frame.body.op = true
  asks : ∀ post ∈ posts, forwarded post.2.body.op = false
  -- an answer is to the packet or to a caller that rank 0 kept waiting
  answers : ∀ post ∈ posts, ∀ op, replyTo post.2.body = some op →
    packetKey p = some ⟨post.1, op, post.2.xidseq⟩ ∧ forwarded p.frame.body.op = true ∨
      ∃ rqe ∈ (s.rk 0).mgr.rpending, waitKey rqe = some ⟨post.1, op, post.2.xidseq⟩

/-- An answer is to a call that is served and was not answered before. -/
theorem Booked.answered (h : Booked L s) {p : Packet} (hp : p ∈ s.net) (hs : Serves s p m posts)
    {post : Post} (hpost : post ∈ posts) {a : Call × Body} (ha : L.answer post = some a) :
    ∃ k, forwarded k.op = true ∧ 0 < tokens s k ∧ L.owner k = some a.1 ∧
      packetKey (pack p.dst post) = some k ∧ replyTo a.2 = some k.op ∧
      (a.1 ∈ L.served ∨ L.asked p = some a.1) ∧ a.1 ∉ L.answers.map Prod.fst := by
  obtain ⟨op, hreply, ho, hbody⟩ := answer_eq_some.mp ha
  have hk := forwarded_of_replyTo hreply
  have hkey : packetKey (pack p.dst post) = some ⟨post.1, op, post.2.xidseq⟩ :=
    packetKey_of_replyTo hreply
  rcases hs.answers post hpost op hreply with ⟨hpk, hop⟩ | ⟨rqe, hrqe, hw⟩
  · obtain ⟨c, hasked, -, hserved⟩ := h.asked p hp hop
    have hc : L.asked p = some a.1 := (asked_eq L hop hpk).trans ho
    obtain rfl : a.1 = c := Option.some.inj (hc.symm.trans hasked)
    refine ⟨_, hk, tokens_of_packet hp hpk, ho, hkey, hbody ▸ hreply, .inr hc, ?_⟩
    intro hans
    obtain ⟨b, hb, heq⟩ := List.mem_map.mp hans
    exact hserved (heq ▸ (h.answersServed b hb).1)
  · obtain ⟨c, ho', hserved, hans⟩ := h.waiting rqe hrqe _ hw
    obtain rfl : a.1 = c := Option.some.inj (ho.symm.trans ho')
    exact ⟨_, hk, tokens_of_wait hrqe hw, ho, hkey, hbody ▸ hreply, .inl hserved, hans⟩

/-- The answers that one handler gives are to different calls. -/
theorem Booked.answers_nodup (h : Booked L s) (hf : Facts job s) (hf' : Facts job s') {p : Packet}
    (hp : p ∈ s.net) (hs : Serves s p m posts)
    (hcount : ∀ k, inFlight (posts.map (pack p.dst)) k ≤ inFlight s'.net k) :
    ((posts.filterMap L.answer).map Prod.fst).Nodup := by
  rw [List.map_filterMap, List.nodup_iff_count_le_one]
  intro c
  rw [List.count_filterMap]
  by_cases hzero : posts.countP (fun post => (L.answer post).map Prod.fst == some c) = 0
  · omega
  obtain ⟨post, hpost, heq⟩ := List.countP_pos_iff.mp (Nat.pos_of_ne_zero hzero)
  simp only [beq_iff_eq, Option.map_eq_some_iff] at heq
  obtain ⟨a, ha, rfl⟩ := heq
  obtain ⟨k, hk, htok, ho, hkey, -⟩ := h.answered hp hs hpost ha
  -- every other answer to the call would have the key of this one
  have hle : posts.countP (fun post => (L.answer post).map Prod.fst == some a.1) ≤
      posts.countP (fun post => packetKey (pack p.dst post) == some k) := by
    refine List.countP_mono_left fun post' hpost' heq => ?_
    simp only [beq_iff_eq, Option.map_eq_some_iff] at heq ⊢
    obtain ⟨a', ha', heq⟩ := heq
    obtain ⟨k', hk', htok', ho', hkey', -⟩ := h.answered hp hs hpost' ha'
    rw [heq] at ho'
    rw [hkey', h.owner_inj hf hk hk' htok htok' ho ho']
  have haw : awaited k.op = true := by simp [awaited, hk]
  have hmatch := hf'.matched.le k haw
  have hone := hf'.matched.one k haw
  have hin := hcount k
  have hflight : inFlight (posts.map (pack p.dst)) k =
      posts.countP fun post => packetKey (pack p.dst post) == some k := by
    simp [inFlight, List.countP_map, Function.comp_def]
  -- and there is at most one token of a key
  unfold tokens at hmatch
  omega

/-- Two packets under way ask for different calls. -/
theorem Booked.asked_apart (h : Booked L s) (hf : Facts job s) {p p' : Packet}
    (hd : Deliver Packet.chan s.net p net) (hp' : p' ∈ net) {c : Call}
    (hasked : L.asked p' = some c) : L.asked p ≠ some c := by
  intro hasked'
  have hop := asked_forwarded hasked
  have hop' := asked_forwarded hasked'
  have hkey := packetKey_of_forwarded hop
  have hkey' := packetKey_of_forwarded hop'
  rw [asked_eq L hop hkey] at hasked
  rw [asked_eq L hop' hkey'] at hasked'
  have heq := h.owner_inj hf hop hop' (tokens_of_packet (hd.mem_of_mem hp') hkey)
    (tokens_of_packet hd.mem hkey') hasked hasked'
  rw [heq] at hkey
  -- both packets would be tokens of one key
  have haw : awaited p.frame.body.op = true := by simp [awaited, hop']
  have hle := hf.matched.le ⟨p.src, p.frame.body.op, p.frame.xidseq⟩ haw
  have hone := hf.matched.one ⟨p.src, p.frame.body.op, p.frame.xidseq⟩ haw
  have hin := inFlight_deliver hd ⟨p.src, p.frame.body.op, p.frame.xidseq⟩
  have hpos : 0 < inFlight net ⟨p.src, p.frame.body.op, p.frame.xidseq⟩ :=
    List.countP_pos_iff.mpr ⟨p', hp', by simp [hkey]⟩
  simp only [worth, hkey', if_true] at hin
  unfold tokens at hle
  omega

/-- A request that still waits keeps its token, so that no answer was sent. -/
theorem Booked.still_open (h : Booked L s) (hf : Facts job s) (hf' : Facts job s') {p : Packet}
    (hp : p ∈ s.net) (hs : Serves s p m posts) (hpost : ∀ post ∈ posts, pack p.dst post ∈ s'.net)
    {rqe : Request} (hrqe : rqe ∈ (s'.rk 0).mgr.rpending) {k : Key} (hw : waitKey rqe = some k)
    {c : Call} (ho : L.owner k = some c) (htok : 0 < tokens s k) :
    c ∉ (posts.filterMap L.answer).map Prod.fst := by
  intro hmem
  have hk := forwarded_of_waitKey hw
  obtain ⟨a, ha, rfl⟩ := List.mem_map.mp hmem
  obtain ⟨post, hpost', ha⟩ := List.mem_filterMap.mp ha
  obtain ⟨k', hk', htok', ho', hkey', -⟩ := h.answered hp hs hpost' ha
  obtain rfl := h.owner_inj hf hk hk' htok htok' ho ho'
  exact not_both hf'.matched hk (hpost post hpost') hkey' hrqe hw

/-- What a packet asks for was not served before, and is served after. -/
theorem Booked.serve_ledgerOk (h : Booked L s) (hf : Facts job s) (hf' : Facts job s') {p : Packet}
    (hp : p ∈ s.net) (hs : Serves s p m posts)
    (hcount : ∀ k, inFlight (posts.map (pack p.dst)) k ≤ inFlight s'.net k) :
    LedgerOk (L.serve p posts) where
  calls := h.calls
  owner := h.owner
  served c hmem := by
    rcases mem_serve_served.mp hmem with hmem | hmem
    · exact h.served c hmem
    · have hop := asked_forwarded hmem
      rw [asked_eq L hop (packetKey_of_forwarded hop)] at hmem
      exact (h.owner _ _ hmem).2.2
  servedOnce := by
    refine List.nodup_append.mpr ⟨h.servedOnce, ?_, ?_⟩
    · cases L.asked p <;> simp
    · rintro c hold c' hnew rfl
      have hasked : L.asked p = some c := Option.mem_toList.mp hnew
      obtain ⟨c', hasked', -, hserved⟩ := h.asked p hp (asked_forwarded hasked)
      obtain rfl : c = c' := Option.some.inj (hasked.symm.trans hasked')
      exact hserved hold
  answersServed a ha := by
    rcases mem_serve_answers.mp ha with ha | ⟨post, hpost', ha⟩
    · obtain ⟨hserved, hreply⟩ := h.answersServed a ha
      exact ⟨mem_serve_served.mpr (.inl hserved), hreply⟩
    · obtain ⟨k, -, -, ho, -, hreply, hserved, -⟩ := h.answered hp hs hpost' ha
      refine ⟨mem_serve_served.mpr hserved, ?_⟩
      rw [hreply, (h.owner _ _ ho).2.1]
  answeredOnce := by
    show ((L.answers ++ posts.filterMap L.answer).map Prod.fst).Nodup
    rw [List.map_append]
    refine List.nodup_append.mpr ⟨h.answeredOnce, h.answers_nodup hf hf' hp hs hcount, ?_⟩
    rintro c hold c' hnew rfl
    obtain ⟨a, ha, rfl⟩ := List.mem_map.mp hnew
    obtain ⟨post, hpost', ha⟩ := List.mem_filterMap.mp ha
    obtain ⟨k, -, -, -, -, -, -, hans⟩ := h.answered hp hs hpost' ha
    exact hans hold

/-- A manager handles a packet. -/
theorem Booked.serve (h : Booked L s) (hf : Facts job s) (hf' : Facts job s') {p : Packet}
    (hd : Deliver Packet.chan s.net p net)
    (hc : Change s s' p.dst m gt (s.rk p.dst).dtq.mgrreqq net posts) (hs : Serves s p m posts)
    (hdone : ∀ l c, L.calls (p.dst, l) = some c → (m.ltab l).reqstate = .done →
      Finished (L.serve p posts) c (m.ltab l)) : Booked (L.serve p posts) s' := by
  have hp := hd.mem
  have hpost : ∀ post ∈ posts, pack p.dst post ∈ s'.net := by
    intro post hpost
    rw [hc.net]
    exact List.mem_append_right _ (List.mem_map_of_mem hpost)
  have hcount : ∀ k, inFlight (posts.map (pack p.dst)) k ≤ inFlight s'.net k := by
    intro k
    rw [hc.net, inFlight_append]
    omega
  have hmem : ∀ p' ∈ s'.net, p' ∈ net ∨ ∃ post ∈ posts, pack p.dst post = p' := by
    intro p' hp'
    rwa [hc.net, List.mem_append, List.mem_map] at hp'
  have hwait : ∀ rqe ∈ (s'.rk 0).mgr.rpending, ∀ k, waitKey rqe = some k →
      rqe ∈ (s.rk 0).mgr.rpending ∨ packetKey p = some k ∧ forwarded p.frame.body.op = true := by
    intro rqe hrqe k hw
    by_cases h0 : 0 = p.dst
    · rw [h0, hc.mgr] at hrqe
      rw [h0]
      exact (hs.pending rqe hrqe).imp id fun hnew => hnew.2 k hw
    · rw [hc.others 0 h0] at hrqe
      exact .inl hrqe
  refine ⟨h.serve_ledgerOk hf hf' hp hs hcount, ?_, ?_, ?_, ?_, ?_, ?_⟩
  -- a queued call is not the one that the packet asks for
  · intro r rqe hrqe hop
    have hrqe' : rqe ∈ (s.rk r).dtq.mgrreqq := by
      by_cases hr : r = p.dst
      · rwa [hr, hc.mgrreqq, ← hr] at hrqe
      · rwa [hc.others r hr] at hrqe
    obtain ⟨l, mqe, c, haddr, hmqe, hcall, hbody, hserved⟩ := h.queued r rqe hrqe' hop
    refine ⟨l, mqe, c, haddr, hmqe, hcall, hbody, fun hmem' => ?_⟩
    rcases mem_serve_served.mp hmem' with hmem' | hmem'
    · exact hserved hmem'
    · have hop' := asked_forwarded hmem'
      have hkey := packetKey_of_forwarded hop'
      rw [asked_eq L hop' hkey] at hmem'
      exact h.not_queued hf hop' (tokens_of_packet hp hkey) hmem' hrqe' haddr hcall
  -- a handler forwards nothing, so the pending calls were pending before
  · intro r rqe hrqe hop
    refine h.pending r rqe ?_ hop
    by_cases hr : r = p.dst
    · subst hr
      rw [hc.mgr] at hrqe
      rcases hs.pending rqe hrqe with hold | ⟨hno, -⟩
      · exact hold
      · exact Bool.noConfusion (hop.symm.trans hno)
    · rwa [hc.others r hr] at hrqe
  · intro p' hp' hop
    rcases hmem p' hp' with hp' | ⟨post, hpost', rfl⟩
    · obtain ⟨c, hc', hbody, hserved⟩ := h.asked p' (hd.mem_of_mem hp') hop
      refine ⟨c, hc', hbody, fun hmem' => ?_⟩
      rcases mem_serve_served.mp hmem' with hmem' | hmem'
      · exact hserved hmem'
      · exact h.asked_apart hf hd hp' hc' hmem'
    · exact Bool.noConfusion (hop.symm.trans (hs.asks post hpost'))
  · intro rqe hrqe k hw
    -- a caller that waits now waited before, or is the one of the packet
    have hopen := fun c => h.still_open (c := c) hf hf' hp hs hpost hrqe hw
    have hsplit : ∀ c, c ∉ L.answers.map Prod.fst → c ∉ (posts.filterMap L.answer).map Prod.fst →
        c ∉ (L.serve p posts).answers.map Prod.fst := by
      intro c hold hnew
      simp only [Ledger.serve, List.map_append, List.mem_append, not_or]
      exact ⟨hold, hnew⟩
    rcases hwait rqe hrqe k hw with hold | ⟨hkey, hop⟩
    · obtain ⟨c, ho, hserved, hans⟩ := h.waiting rqe hold k hw
      exact ⟨c, ho, mem_serve_served.mpr (.inl hserved),
        hsplit c hans (hopen c ho (tokens_of_wait hold hw))⟩
    · obtain ⟨c, hc', -, hserved⟩ := h.asked p hp hop
      have ho : L.owner k = some c := (asked_eq L hop hkey).symm.trans hc'
      refine ⟨c, ho, mem_serve_served.mpr (.inr hc'),
        hsplit c (fun hans => ?_) (hopen c ho (tokens_of_packet hp hkey))⟩
      obtain ⟨b, hb, heq⟩ := List.mem_map.mp hans
      exact hserved (heq ▸ (h.answersServed b hb).1)
  · intro p' hp' op hreply
    rcases hmem p' hp' with hp' | ⟨post, hpost', rfl⟩
    · obtain ⟨c, ho, hans⟩ := h.replies p' (hd.mem_of_mem hp') op hreply
      exact ⟨c, ho, mem_serve_answers.mpr (.inl hans)⟩
    · have hfound : ∃ c, L.owner ⟨post.1, op, post.2.xidseq⟩ = some c := by
        have hk := forwarded_of_replyTo hreply
        rcases hs.answers post hpost' op hreply with ⟨hpk, -⟩ | ⟨rqe, hrqe, hw⟩
        · obtain ⟨-, -, c, -, -, -, ho⟩ := h.exists_owner hf hk (tokens_of_packet hp hpk)
          exact ⟨c, ho⟩
        · obtain ⟨c, ho, -⟩ := h.waiting rqe hrqe _ hw
          exact ⟨c, ho⟩
      obtain ⟨c, ho⟩ := hfound
      exact ⟨c, ho, mem_serve_answers.mpr (.inr ⟨post, hpost', answer_eq_some.mpr
        ⟨op, hreply, ho, rfl⟩⟩)⟩
  · intro r l c hcall hstate
    by_cases hr : r = p.dst
    · subst hr
      rw [hc.mgr] at hstate ⊢
      exact hdone l c hcall hstate
    · rw [hc.others r hr] at hstate ⊢
      exact (h.finished r l c hcall hstate).serve (h.asked_not_done hf hp hcall hstate)

end Changes

section Handlers

variable {job : Job} {v v' : View} {mqe : Mqe} {m : Mgr} {gt : ℕ → Gtab} {out : List Post}

theorem mqeOutcome_asks (h : MqeOutcome job v mqe m gt out) :
    ∀ post ∈ out, forwarded post.2.body.op = false := by
  cases h <;> simp [Frame.of, Body.op, forwarded, joinedPost]

/-- A handler adds to the pending list only what the packet stands for. -/
theorem mqeOutcome_pending {addr : ℕ} {p : Packet}
    (h : MqeOutcome job v ⟨addr, p.src, p.frame⟩ m gt out) :
    ∀ rqe ∈ m.rpending, rqe ∈ v.mgr.rpending ∨ forwarded rqe.reqop = false ∧
      ∀ k, waitKey rqe = some k → packetKey p = some k ∧ forwarded p.frame.body.op = true := by
  intro rqe hrqe
  cases h with
  | createOk attrs dispIdx arg n gidx xidseq hb hdisp hroom hfree hlt hxid hd =>
    simp only [List.mem_append, List.mem_singleton] at hb hrqe
    rcases hrqe with hrqe | rfl
    · exact .inl hrqe
    · refine .inr ⟨rfl, fun k hk => ?_⟩
      rw [← hk]
      simp [packetKey, hb, waitKey, startRequest, Body.op, forwarded]
  | joinWait thread n hb h hdet hz hw =>
    simp only [List.mem_append, List.mem_singleton] at hb hrqe
    rcases hrqe with hrqe | rfl
    · exact .inl hrqe
    · refine .inr ⟨rfl, fun k hk => ?_⟩
      rw [← hk]
      simp [packetKey, hb, waitKey, joinwaitRequest, Body.op, forwarded]
  | detachWait | terminatedJoined | terminatedDetachedJoined | startedOk | startedErr | reply =>
    exact .inl (List.mem_of_mem_eraseP hrqe)
  | _ => exact .inl hrqe

theorem waitKey_waiter {thread : DThread} {rqe : Request}
    (hw : joinwaitSearch v thread = some rqe) :
    rqe ∈ v.mgr.rpending ∧ waitKey rqe = some ⟨rqe.reqpeer, .join, rqe.xidseq⟩ := by
  have hmatch := List.find?_some hw
  simp only [joinwaitMatch, Bool.and_eq_true, beq_iff_eq] at hmatch
  exact ⟨List.mem_of_find?_eq_some hw, by simp [waitKey, hmatch.1]⟩

theorem waitKey_started {rqe : Request} {xidseq : ℕ}
    (h : findPendingReq v.mgr.rpending .start xidseq = some rqe) :
    rqe ∈ v.mgr.rpending ∧
      waitKey rqe = some ⟨rqe.creinfo.cPeer, .create, rqe.creinfo.cXidseq⟩ :=
  ⟨List.mem_of_find?_eq_some h, by simp [waitKey, (findPendingReq_spec h).2]⟩

/-- An answer goes to the caller of the packet, or to one that rank 0 keeps
waiting. -/
theorem mqeOutcome_answers {addr : ℕ} {p : Packet}
    (h : MqeOutcome job v ⟨addr, p.src, p.frame⟩ m gt out)
    (hrank0 : rank0Only p.frame.body.op = true → p.dst = 0) :
    ∀ post ∈ out, ∀ op, replyTo post.2.body = some op →
      packetKey p = some ⟨post.1, op, post.2.xidseq⟩ ∧ forwarded p.frame.body.op = true ∨
        p.dst = 0 ∧ ∃ rqe ∈ v.mgr.rpending, waitKey rqe = some ⟨post.1, op, post.2.xidseq⟩ := by
  intro post hpost op hop
  cases h with
  | detachWait thread rqe hb h hw =>
    simp only [List.mem_cons, List.not_mem_nil, or_false] at hb hpost
    rcases hpost with rfl | rfl
    · obtain rfl : Op.detach = op := by simpa [Frame.of, replyTo] using hop
      exact .inl (by simp [packetKey, hb, Frame.of, Body.op, forwarded])
    · obtain rfl : Op.join = op := by simpa [Frame.of, replyTo, joinedPost] using hop
      obtain ⟨hmem, hkey⟩ := waitKey_waiter hw
      exact .inr ⟨hrank0 (by rw [hb]; rfl), rqe, hmem, hkey⟩
  | terminatedJoined thread fin rqe hb hlen hlt hseq hfin hdet hw
  | terminatedDetachedJoined thread fin rqe hb hlen hlt hseq hfin hdet hw =>
    simp only [List.mem_singleton] at hb hpost
    subst hpost
    obtain rfl : Op.join = op := by simpa [Frame.of, replyTo, joinedPost] using hop
    obtain ⟨hmem, hkey⟩ := waitKey_waiter hw
    exact .inr ⟨hrank0 (by rw [hb]; rfl), rqe, hmem, hkey⟩
  | startedOk rqe hb h | startedErr rqe e hb he h =>
    simp only [List.mem_singleton] at hb hpost
    subst hpost
    obtain rfl : Op.create = op := by simpa [Frame.of, replyTo] using hop
    obtain ⟨hmem, hkey⟩ := waitKey_started h
    exact .inr ⟨hrank0 (by rw [hb]; rfl), rqe, hmem, hkey⟩
  | createErr attrs dispIdx arg e next hb | createDrain attrs dispIdx arg gidx xidseq hb =>
    simp only [List.mem_singleton] at hb hpost
    subst hpost
    obtain rfl : Op.create = op := by simpa [Frame.of, replyTo] using hop
    exact .inl (by simp [packetKey, hb, Frame.of, Body.op, forwarded])
  | detachNone thread hb | detachPlain thread hb =>
    simp only [List.mem_singleton] at hb hpost
    subst hpost
    obtain rfl : Op.detach = op := by simpa [Frame.of, replyTo] using hop
    exact .inl (by simp [packetKey, hb, Frame.of, Body.op, forwarded])
  | cancelErr thread e hb | cancelMiss thread hb | cancelHit thread l hb =>
    simp only [List.mem_singleton] at hb hpost
    subst hpost
    obtain rfl : Op.cancel = op := by simpa [Frame.of, replyTo] using hop
    exact .inl (by simp [packetKey, hb, Frame.of, Body.op, forwarded])
  | joinErr thread e hb | joinZombie thread hb =>
    simp only [List.mem_singleton] at hb hpost
    subst hpost
    obtain rfl : Op.join = op := by simpa [Frame.of, replyTo] using hop
    exact .inl (by simp [packetKey, hb, Frame.of, Body.op, forwarded])
  | createOk | startInvalid | startOk | startFail =>
    simp only [List.mem_singleton] at hpost
    subst hpost
    simp [Frame.of, replyTo] at hop
  | drop | joinWait | terminatedZombie | terminatedDetached | reply => simp at hpost

theorem mqeOutcome_serves {s : Sys} {addr : ℕ} {p : Packet} (hf : Facts job s) (hp : p ∈ s.net)
    (h : MqeOutcome job (s.view p.dst) ⟨addr, p.src, p.frame⟩ m gt out) :
    Serves s p m (sent s p.dst out) where
  pending := mqeOutcome_pending h
  asks post hpost := mqeOutcome_asks h post (mem_sent hpost)
  answers post hpost op hop := by
    rcases mqeOutcome_answers h (hf.wellformed.rank0 p hp) post (mem_sent hpost) op hop with
      hnow | ⟨hdst, rqe, hrqe, hw⟩
    · exact .inl hnow
    · rw [hdst] at hrqe
      exact .inr ⟨rqe, hrqe, hw⟩

/-- The result fields of a request are as they were. -/
def SameResult (lt lt' : Ltab) : Prop :=
  lt'.reqstate = lt.reqstate ∧ lt'.reqerror = lt.reqerror ∧ lt'.newdthread = lt.newdthread ∧
    lt'.retval = lt.retval

theorem SameResult.refl (lt : Ltab) : SameResult lt lt := ⟨rfl, rfl, rfl, rfl⟩

theorem sameResult_update {ltab : ℕ → Ltab} {k : ℕ} {lt : Ltab} (h : SameResult (ltab k) lt)
    (l : ℕ) : SameResult (ltab l) (Function.update ltab k lt l) := by
  by_cases hl : l = k
  · rw [hl, Function.update_self]
    exact h
  · rw [Function.update_of_ne hl]
    exact .refl _

theorem Finished.same {L : Ledger} {c : Call} {lt lt' : Ltab} (h : Finished L c lt)
    (hs : SameResult lt lt') : Finished L c lt' := by
  obtain ⟨-, herr, hnew, hret⟩ := hs
  rcases h with ⟨he, hserved⟩ | ⟨body, hans, hreads⟩
  · exact .inl ⟨herr.trans he, hserved⟩
  · refine .inr ⟨body, hans, ?_⟩
    unfold Reads at hreads ⊢
    rwa [herr, hnew, hret]

theorem sameResult_internal {ltab : ℕ → Ltab} {rqe : Request} {a : ℕ}
    (haddr : rqe.addr = .internal a) (notify : Bool) (l : ℕ) :
    SameResult (ltab l) (releaseLtab ltab rqe notify l) := by
  rw [releaseLtab, haddr]
  exact .refl _

/-- Only the reply to its request touches the result of a slot. -/
theorem mqeOutcome_sameResult (h : MqeOutcome job v mqe m gt out)
    (hinternal : ∀ rqe ∈ v.mgr.rpending, forwarded rqe.reqop = false → ∃ a, rqe.addr = .internal a)
    (hno : ∀ op, replyTo mqe.frame.body = some op →
      findPendingReq v.mgr.rpending op mqe.frame.xidseq = none) (l : ℕ) :
    SameResult (v.mgr.ltab l) (m.ltab l) := by
  -- JOINWAIT and START requests are the library's own and name no slot
  have hwaiter {thread : DThread} {rqe : Request} (hw : joinwaitSearch v thread = some rqe) :
      ∃ a, rqe.addr = .internal a := by
    obtain ⟨hmem, hkey⟩ := waitKey_waiter hw
    refine hinternal rqe hmem ?_
    cases hop : rqe.reqop <;> simp [waitKey, hop] at hkey
    rfl
  have hstarted {rqe : Request} (h : findPendingReq v.mgr.rpending .start mqe.frame.xidseq =
      some rqe) : ∃ a, rqe.addr = .internal a := by
    refine hinternal rqe (List.mem_of_find?_eq_some h) ?_
    rw [(findPendingReq_spec h).2]
    rfl
  cases h with
  | startOk thread attrs l' hb h hfree hlt =>
    apply sameResult_update
    exact ⟨rfl, rfl, rfl, rfl⟩
  | startFail thread attrs l' e hb h hfree hlt he =>
    apply sameResult_update
    exact ⟨rfl, rfl, rfl, rfl⟩
  | cancelHit thread l' hb h hl hhas hlt hseq =>
    refine sameResult_update ?_ l
    unfold cancelLtab
    split <;> exact ⟨rfl, rfl, rfl, rfl⟩
  | detachWait thread rqe hb h hw =>
    obtain ⟨a, haddr⟩ := hwaiter hw
    have haddr' : ({ rqe with reqerror := EINVAL } : Request).addr = .internal a := haddr
    exact sameResult_internal haddr' true l
  | terminatedJoined thread fin rqe hb hlen hlt hseq hfin hdet hw =>
    obtain ⟨a, haddr⟩ := hwaiter hw
    exact sameResult_internal haddr true l
  | terminatedDetachedJoined thread fin rqe hb hlen hlt hseq hfin hdet hw =>
    obtain ⟨a, haddr⟩ := hwaiter hw
    have haddr' : ({ rqe with reqerror := EINVAL } : Request).addr = .internal a := haddr
    exact sameResult_internal haddr' true l
  | startedOk rqe hb h =>
    obtain ⟨a, haddr⟩ := hstarted h
    exact sameResult_internal haddr false l
  | startedErr rqe e hb he h =>
    obtain ⟨a, haddr⟩ := hstarted h
    exact sameResult_internal haddr false l
  | reply op rqe rqe' hop h haddr =>
    rw [hno op hop] at h
    cases h
  | _ => exact .refl _

theorem replyRequest_ltab {op : Op} {store : Request → Request} {rqe : Request} {l : ℕ}
    (hlen : mqe.frame.body.size ≤ mqe.frame.flen)
    (hfind : findPendingReq v.mgr.rpending op mqe.frame.xidseq = some rqe)
    (haddr : (store rqe).addr = .ltab l) :
    (replyRequest v mqe op store).mgr.ltab = Function.update v.mgr.ltab l { v.mgr.ltab l with
      reqstate := .done
      reqerror := (store rqe).reqerror
      newdthread := (store rqe).newdthread
      retval := (store rqe).retval } := by
  unfold replyRequest
  rw [findPendingMsgreq_eq v mqe op hlen, hfind]
  simp [dtqReqRelease, haddr, View.setDtq, View.setMgr, Mgr.setLtab, dropPending]

/-- The thread whose request is answered reads what the reply says, and the
other slots keep their results. -/
theorem processMqe_reply {err : ℕ} {op : Op} {rqe : Request} {l : ℕ}
    (h : processMqe job v mqe err = some v') (hlen : mqe.frame.flen = mqe.frame.body.size)
    (hop : replyTo mqe.frame.body = some op)
    (hfind : findPendingReq v.mgr.rpending op mqe.frame.xidseq = some rqe)
    (haddr : rqe.addr = .ltab l) :
    Reads (v'.mgr.ltab l) mqe.frame.body ∧ ∀ l', l' ≠ l → v'.mgr.ltab l' = v.mgr.ltab l' := by
  have hhdr : ¬ mqe.frame.flen < headerSize := by
    have hsize := mqe.frame.body.headerSize_le_size
    omega
  have hrank : ¬ (v.mgr.mpiRank ≠ 0 ∧ rank0Only mqe.frame.body.op = true) := by
    rintro ⟨-, h0⟩
    cases hb : mqe.frame.body <;> simp [hb, replyTo] at hop <;> simp [hb, rank0Only, Body.op] at h0
  unfold processMqe at h
  rw [if_neg hhdr, if_neg hrank] at h
  have hfound : ∀ store : Request → Request, (store rqe).addr = rqe.addr →
      v' = replyRequest v mqe op store → v'.mgr.ltab = Function.update v.mgr.ltab l
        { v.mgr.ltab l with
          reqstate := .done
          reqerror := (store rqe).reqerror
          newdthread := (store rqe).newdthread
          retval := (store rqe).retval } := by
    rintro store hstore rfl
    exact replyRequest_ltab hlen.ge hfind (hstore.trans haddr)
  cases hb : mqe.frame.body with
  | created e newthread =>
    simp only [hb, Option.some.injEq, replyTo] at h hop
    subst hop
    have hltab := hfound _ (by split <;> rfl) h.symm
    refine ⟨?_, fun l' hl' => by rw [hltab, Function.update_of_ne hl']⟩
    rw [hltab, Function.update_self]
    by_cases he : e = 0 <;> simp [Reads, he]
  | detached e =>
    simp only [hb, Option.some.injEq, replyTo] at h hop
    subst hop
    have hltab := hfound _ rfl h.symm
    refine ⟨?_, fun l' hl' => by rw [hltab, Function.update_of_ne hl']⟩
    rw [hltab, Function.update_self]
    rfl
  | canceled e =>
    simp only [hb, Option.some.injEq, replyTo] at h hop
    subst hop
    have hltab := hfound _ rfl h.symm
    refine ⟨?_, fun l' hl' => by rw [hltab, Function.update_of_ne hl']⟩
    rw [hltab, Function.update_self]
    rfl
  | joined e ret =>
    simp only [hb, Option.some.injEq, replyTo] at h hop
    subst hop
    have hltab := hfound _ rfl h.symm
    refine ⟨?_, fun l' hl' => by rw [hltab, Function.update_of_ne hl']⟩
    rw [hltab, Function.update_self]
    exact ⟨rfl, rfl⟩
  | create | start | started | detach | cancel | join | terminated | bcastshutdown | other =>
    simp [hb, replyTo] at hop

end Handlers

theorem retcleanRequest_mgrreqq (v : View) (l : ℕ) (fin : LtState) :
    (retcleanRequest v l fin).dtq.mgrreqq =
      v.dtq.mgrreqq ++ [threadRequest l 0 .retclean none] := by
  unfold retcleanRequest retcleanMark
  simp only [View.setDtq, dtqReqEnqueue]
  split <;> split <;> rfl

/-- Only a call queues a request with a message. -/
theorem run_mgrreqq (job : Job) (v : View) (l : ℕ) {act : AppAct}
    (hact : ∀ body peer, act ≠ .post body peer) : ∃ rq,
      (act.run job v l).dtq.mgrreqq = v.dtq.mgrreqq ++ rq ∧ ∀ rqe ∈ rq, rqe.mqe = none := by
  have hnone : v.dtq.mgrreqq = v.dtq.mgrreqq ++ [] := (List.append_nil _).symm
  have hclean (w : View) (hw : w.dtq = v.dtq) (fin : LtState) : ∃ rq,
      (retcleanRequest w l fin).dtq.mgrreqq = v.dtq.mgrreqq ++ rq ∧ ∀ rqe ∈ rq, rqe.mqe = none := by
    refine ⟨[threadRequest l 0 .retclean none], ?_, by simp [threadRequest]⟩
    rw [retcleanRequest_mgrreqq, hw]
  cases act with
  | post body peer => exact absurd rfl (hact body peer)
  | wrapFail => exact hclean v rfl .canceled
  | appReturn ret =>
    refine ⟨[], ?_, by simp⟩
    simp only [AppAct.run, AppThreads.appReturn]
    split <;> exact hnone
  | cleanup returned encoded =>
    simp only [AppAct.run, dthreadcleanup]
    split
    · cases encoded with
      | some ret => exact hclean (v.setGtab _ _) rfl .returned
      | none => exact hclean (v.setGtab _ _) rfl .canceled
    · exact hclean v rfl _
  | app0Return => exact ⟨[threadRequest l 0 .app0Ret none], rfl, by simp [threadRequest]⟩
  | wrapBad | publish | collect | exit | exited | tearDown => exact ⟨[], hnone, by simp⟩

section Steps

variable {job : Job} {L : Ledger} {s s' : Sys} {e : Record}

theorem appOutcome_sameResult {l : ℕ} {lt lt' : Ltab} {gtab : ℕ → Gtab} {gt : Gtab}
    {rq : List Request} (h : AppOutcome job l lt gtab lt' gt rq)
    (hrq : ∀ rqe ∈ rq, rqe.mqe = none) :
    (∀ rqe ∈ rq, forwarded rqe.reqop = false) ∧
      (lt'.reqstate = .done → SameResult lt lt') := by
  cases h with
  | silent hpc hbad => exact ⟨by simp, fun _ => ⟨rfl, rfl, rfl, rfl⟩⟩
  | retclean state ret hpc hfinal hkeep =>
    exact ⟨by simp [threadRequest, forwarded], fun hdone => by cases hdone⟩
  | publish hpc hseq => exact ⟨by simp, fun _ => ⟨rfl, rfl, rfl, rfl⟩⟩
  | post body peer addr hpc hidle hpeer => simp [threadRequest] at hrq
  | collect hpc hdone => exact ⟨by simp, fun hdone => by cases hdone⟩
  | leave pc state ret hpc hpc' hstate => exact ⟨by simp, fun _ => ⟨rfl, rfl, rfl, rfl⟩⟩
  | app0Return hpc hidle hdisp =>
    exact ⟨by simp [threadRequest, forwarded], fun hdone => by cases hdone⟩

theorem postRequest_effect (v : View) (l peer : ℕ) (body : Body) (hm : v.dtq.mallocs = []) :
    ∃ addr, AppEffect v (postRequest v l peer body) l
      { v.mgr.ltab l with reqstate := .busy, reqerror := 0 } (v.gtab (v.mgr.ltab l).gtabIdx)
      [threadRequest l peer body.op (some ⟨addr, peer, .of 0 body⟩)] := by
  obtain ⟨addr, q, hq, hs⟩ := mqeAlloc_eq_some v.dtq hm
  refine ⟨addr, ?_⟩
  simp only [postRequest, hq]
  refine ⟨rfl, (Function.update_eq_self _ _).symm, ?_, hs.draindown, hs.accepted, hs.mallocs hm⟩
  simp [View.setDtq, dtqReqEnqueue, hs.mgrreqq]

/-- The application code of a thread makes a call or touches no result. -/
theorem Booked.app (h : Booked L s) (hf : Facts job s) {r l : ℕ} {act : AppAct}
    (hen : act.Enabled job (s.view r) l) :
    Booked (L.record ⟨r, s.view r, .app l act, act.run job (s.view r) l⟩)
      (s.put r (act.run job (s.view r) l)) := by
  have hquiet := hf.sane.quiet
  by_cases hact : ∃ body peer, act = .post body peer
  · obtain ⟨body, peer, rfl⟩ := hact
    obtain ⟨addr, he⟩ := postRequest_effect (s.view r) l peer body (hquiet r).1
    have hc : Change s (s.put r (postRequest (s.view r) l peer body)) r
        (postRequest (s.view r) l peer body).mgr (postRequest (s.view r) l peer body).gtab
        (postRequest (s.view r) l peer body).dtq.mgrreqq s.net [] :=
      put_change s.net he.mallocs (by simpa [Sys.view, (hquiet r).2] using he.accepted)
    rw [he.mgr, he.mgrreqq] at hc
    exact h.openCall hf rfl hen.2.1 hc
  · have hne : ∀ body peer, act ≠ .post body peer := fun body peer heq => hact ⟨body, peer, heq⟩
    have hrecord : L.record ⟨r, s.view r, .app l act, act.run job (s.view r) l⟩ = L := by
      cases act <;> first | rfl | exact absurd rfl (hne _ _)
    rw [hrecord]
    obtain ⟨lt, gt, rq, ho, he⟩ := appStep_outcome job l (s.view r) _ (hquiet r).1
      (appStep_iff.mpr ⟨act, hen, rfl⟩)
    obtain ⟨rq', hrq', hnone⟩ := run_mgrreqq job (s.view r) l hne
    obtain rfl : rq = rq' := List.append_cancel_left (he.mgrreqq.symm.trans hrq')
    have hc : Change s (s.put r (act.run job (s.view r) l)) r (act.run job (s.view r) l).mgr
        (act.run job (s.view r) l).gtab (act.run job (s.view r) l).dtq.mgrreqq s.net [] :=
      put_change s.net he.mallocs (by simpa [Sys.view, (hquiet r).2] using he.accepted)
    rw [he.mgr, he.mgrreqq] at hc
    obtain ⟨hop, hsame⟩ := appOutcome_sameResult ho hnone
    refine h.change hc ?_ rfl (fun _ => id) (by simp) ?_
    · intro rqe hrqe hforw
      rcases List.mem_append.mp hrqe with hrqe | hrqe
      · exact hrqe
      · exact Bool.noConfusion (hforw.symm.trans (hop rqe hrqe))
    · intro l' c hcall hdone
      by_cases hl : l' = l
      · subst hl
        simp only [Mgr.setLtab, Function.update_self] at hdone ⊢
        have hres := hsame hdone
        exact (h.finished r l' c hcall (hres.1.symm.trans hdone)).same hres
      · simp only [Mgr.setLtab, Function.update_of_ne hl] at hdone ⊢
        exact h.finished r l' c hcall hdone

theorem foldl_forward_quiet (L : Ledger) (r l : ℕ) {posts : List Post}
    (h : ∀ post ∈ posts, forwarded post.2.body.op = false) :
    posts.foldl (fun L post => L.forward r l post) L = L := by
  induction posts with
  | nil => rfl
  | cons post rest ih =>
    have hpost : L.forward r l post = L := by simp [Ledger.forward, h post List.mem_cons_self]
    rw [List.foldl_cons, hpost]
    exact ih fun post' hpost' => h post' (List.mem_cons_of_mem _ hpost')

theorem bcasts_quiet (job : Job) (k : ℕ) : ∀ post ∈ bcasts job k,
    forwarded post.2.body.op = false ∧ replyTo post.2.body = none := by
  simp [bcasts, Frame.of, Body.op, forwarded, replyTo]

theorem bcasts_body {k r : ℕ} {post : Post} (hpost : post ∈ sent s r (bcasts job k)) :
    post.2.body = .bcastshutdown := by
  have hmem := mem_sent hpost
  simp only [bcasts, List.mem_map] at hmem
  obtain ⟨child, -, rfl⟩ := hmem
  rfl

/-- A handler leaves the result of a slot alone, or the slot gets the reply to
its call. -/
theorem Booked.msg_finished (h : Booked L s) (hf : Facts job s) {p : Packet} {addr err : ℕ}
    {v : View} {m : Mgr} {gt : ℕ → Gtab} {out posts : List Post} (hp : p ∈ s.net)
    (hproc : processMqe job (s.view p.dst) ⟨addr, p.src, p.frame⟩ err = some v) (hm : v.mgr = m)
    (ho : MqeOutcome job (s.view p.dst) ⟨addr, p.src, p.frame⟩ m gt out) (l : ℕ) (c : Call)
    (hcall : L.calls (p.dst, l) = some c) (hdone : (m.ltab l).reqstate = .done) :
    Finished (L.serve p posts) c (m.ltab l) := by
  -- a slot whose result stays was finished before, and the packet asks for another call
  have hkeep (hs : SameResult ((s.rk p.dst).mgr.ltab l) (m.ltab l)) :
      Finished (L.serve p posts) c (m.ltab l) := by
    have hold := hs.1.symm.trans hdone
    exact ((h.finished p.dst l c hcall hold).same hs).serve (h.asked_not_done hf hp hcall hold)
  by_cases hreply : ∃ op rqe, replyTo p.frame.body = some op ∧
      findPendingReq (s.rk p.dst).mgr.rpending op p.frame.xidseq = some rqe
  · obtain ⟨op, rqe, hop, hfind⟩ := hreply
    obtain ⟨hxid, hreqop⟩ := findPendingReq_spec hfind
    obtain ⟨l', c', haddr, hcall', ho'⟩ := h.pending p.dst rqe (List.mem_of_find?_eq_some hfind)
      (hreqop ▸ forwarded_of_replyTo hop)
    obtain ⟨hreads, hothers⟩ := processMqe_reply hproc (hf.wellformed.frames p hp) hop hfind haddr
    rw [hm] at hreads hothers
    by_cases hl : l = l'
    · subst hl
      -- the pending request and the reply have one key, and a key has one owner
      obtain rfl : c = c' := Option.some.inj (hcall.symm.trans hcall')
      obtain ⟨c', ho'', hans⟩ := h.replies p hp op hop
      rw [requestKey, hreqop, hxid] at ho'
      obtain rfl : c = c' := Option.some.inj (ho'.symm.trans ho'')
      exact .inr ⟨_, mem_serve_answers.mpr (.inl hans), hreads⟩
    · refine hkeep ?_
      rw [hothers l hl]
      exact .refl _
  · refine hkeep (mqeOutcome_sameResult ho (fun rqe hrqe hno =>
      (hf.slots p.dst).internal_of_mem hrqe hno) (fun op hop => ?_) l)
    rw [Option.eq_none_iff_forall_ne_some]
    intro rqe hfind
    exact hreply ⟨op, rqe, hop, hfind⟩

theorem Booked.msg (h : Booked L s) (hf : Facts job s) {p : Packet} {net : List Packet}
    {addr err : ℕ} {v : View} (hf' : Facts job ({ s with net := net }.put p.dst v))
    (hd : Deliver Packet.chan s.net p net)
    (hproc : processMqe job (s.view p.dst) ⟨addr, p.src, p.frame⟩ err = some v) :
    Booked (L.record ⟨p.dst, s.view p.dst, .msg p, v⟩) ({ s with net := net }.put p.dst v) := by
  have hquiet := hf.sane.quiet
  rcases processMqe_outcome job _ v _ err (hquiet p.dst).1 hproc with
    ⟨hb, hshut⟩ | ⟨m, gt, out, ho, he⟩
  · obtain ⟨hc, -⟩ := shutdown_change net hshut (hquiet p.dst).1 (hquiet p.dst).2 rfl
    have hposts : (⟨p.dst, s.view p.dst, .msg p, v⟩ : Record).posts = _ :=
      (recorded hquiet hc).posts
    simp only [Ledger.record, hposts]
    have hquietly := bcasts_quiet job (s.rk p.dst).mgr.mpiRank
    refine h.serve hf hf' hd hc ⟨fun rqe hrqe => .inl hrqe, fun post hpost =>
      (hquietly post (mem_sent hpost)).1, fun post hpost op hop => ?_⟩ fun l c hcall hdone => ?_
    · rw [(hquietly post (mem_sent hpost)).2] at hop
      cases hop
    · exact (h.finished p.dst l c hcall hdone).serve (h.asked_not_done hf hd.mem hcall hdone)
  · obtain ⟨hc, -⟩ := effect_change net he (hquiet p.dst).1 (hquiet p.dst).2 rfl
    have hposts : (⟨p.dst, s.view p.dst, .msg p, v⟩ : Record).posts = _ :=
      (recorded hquiet hc).posts
    simp only [Ledger.record, hposts]
    exact h.serve hf hf' hd hc (mqeOutcome_serves hf hd.mem ho)
      (h.msg_finished hf hd.mem hproc he.mgr ho)

theorem Booked.req (h : Booked L s) (hf : Facts job s) {r : ℕ} {rqe : Request} {q : Dtq} {v : View}
    (hq : dtqReqDequeue (s.rk r).dtq = (some rqe, q))
    (hproc : processReq job ((s.view r).setDtq q) rqe = some v) :
    Booked (L.record ⟨r, s.view r, .req rqe, v⟩) (s.put r v) := by
  have hquiet := hf.sane.quiet
  obtain ⟨rest, hrest, hcase⟩ := req_cases hquiet hq hproc
  have hmem : rqe ∈ (s.rk r).dtq.mgrreqq := by
    rw [hrest]
    exact List.mem_cons_self
  have htail : ∀ rqe' ∈ rest, rqe' ∈ (s.rk r).dtq.mgrreqq := by
    intro rqe' hrqe'
    rw [hrest]
    exact List.mem_cons_of_mem _ hrqe'
  obtain ⟨l, hl, haddr, hissued⟩ := (hf.slots r).queued rqe hmem
  have hrecord : ∀ posts, (⟨r, s.view r, .req rqe, v⟩ : Record).posts = posts →
      L.record ⟨r, s.view r, .req rqe, v⟩ = posts.foldl (fun L post => L.forward r l post) L := by
    rintro posts rfl
    simp only [Ledger.record, haddr]
  have hsilent : ∀ posts, (⟨r, s.view r, .req rqe, v⟩ : Record).posts = posts →
      (∀ post ∈ posts, forwarded post.2.body.op = false ∧ replyTo post.2.body = none) →
      L.record ⟨r, s.view r, .req rqe, v⟩ = L := by
    intro posts hposts hquietly
    rw [hrecord posts hposts]
    exact foldl_forward_quiet L r l fun post hpost => (hquietly post hpost).1
  -- the slot is idle again, the others keep their results
  have hidle (ltab : ℕ → Ltab) (hsame : ∀ l', SameResult ((s.rk r).mgr.ltab l') (ltab l'))
      (l' : ℕ) (c : Call) (hcall : L.calls (r, l') = some c)
      (hdone : (releaseLtab ltab rqe false l').reqstate = .done) :
      Finished L c (releaseLtab ltab rqe false l') := by
    have hne : l' ≠ l := by
      rintro rfl
      simp [releaseLtab, haddr] at hdone
    simp only [releaseLtab, haddr, Function.update_of_ne hne] at hdone ⊢
    exact (h.finished r l' c hcall ((hsame l').1.symm.trans hdone)).same (hsame l')
  rcases hcase with ⟨l', hop, haddr', hrank, hdd, hc⟩ | ⟨m, gt, out, hdd, ho, hc⟩
  · have hquietly := fun post hpost => bcasts_quiet job (s.rk r).mgr.mpiRank post
      (mem_sent (s := s) (r := r) hpost)
    rw [hsilent _ (recorded hquiet hc).posts hquietly]
    exact h.change hc (fun rqe' hrqe' _ => htail rqe' hrqe') rfl (fun _ => id) hquietly
      (hidle _ fun _ => .refl _)
  · cases ho with
    | bad hbad =>
      -- no thread queues a request that process_req rejects
      rcases hbad l haddr with hge | hstate | ⟨hno, hclean, happ0⟩
      · omega
      · exact absurd hissued.2.1 hstate
      · rcases hissued.2.2 with ⟨hforw, -⟩ | ⟨hop, -⟩ | ⟨hop, -⟩
        · exact Bool.noConfusion (hforw.symm.trans hno)
        · exact absurd hop hclean
        · exact absurd hop happ0
    | forward l' mqe xidseq haddr' hlt hbusy hop hmqe hxid hd =>
      have hsent : sent s r [(mqe.peer, { mqe.frame with xidseq := xidseq })] =
          [(mqe.peer, { mqe.frame with xidseq := xidseq })] := if_pos hd
      rw [hsent] at hc
      rw [hrecord _ (recorded hquiet hc).posts]
      exact h.forward hf hrest haddr hop hmqe hxid hc rfl rfl
    | forwardDrain l' xidseq haddr' hlt hbusy hop hd =>
      have hsent : sent s r [] = [] := by simp [sent]
      rw [hsent] at hc
      rw [hsilent _ (recorded hquiet hc).posts (by simp)]
      refine h.change hc (fun rqe' hrqe' _ => htail rqe' hrqe') rfl (fun _ => id) (by simp) ?_
      intro l' c hcall hdone
      by_cases hl' : l' = l
      · subst hl'
        -- the draining rank answers EIO itself and the call has gone nowhere
        obtain ⟨l'', mqe, c', haddr'', -, hcall', -, hserved⟩ := h.queued r rqe hmem hop
        obtain rfl : l' = l'' := by simpa [haddr] using haddr''
        obtain rfl : c = c' := Option.some.inj (hcall.symm.trans hcall')
        refine .inl ⟨?_, hserved⟩
        simp [releaseMgr, releaseLtab, haddr]
      · simp only [releaseMgr, releaseLtab, haddr, Function.update_of_ne hl'] at hdone ⊢
        exact h.finished r l' c hcall hdone
    | retclean l' haddr' hlt hbusy hop =>
      have hquietly : ∀ post ∈ sent s r [((0 : ℕ), Frame.of 0 (.terminated
          ⟨(((s.view r).mgr).ltab l').gtabIdx, (((s.view r).mgr).ltab l').seq⟩
          (((s.view r).mgr).ltab l').pthState))], forwarded post.2.body.op = false ∧
            replyTo post.2.body = none := by
        intro post hpost
        obtain rfl := List.mem_singleton.mp (mem_sent hpost)
        exact ⟨rfl, rfl⟩
      rw [hsilent _ (recorded hquiet hc).posts hquietly]
      refine h.change hc (fun rqe' hrqe' _ => htail rqe' hrqe') rfl (fun _ => id) hquietly
        (hidle _ fun l' => ?_)
      unfold freeLtabMgr freeLtab
      split
      · apply sameResult_update
        exact ⟨rfl, rfl, rfl, rfl⟩
      · exact .refl _
    | app0Other l' haddr' hop hrank =>
      have hsent : sent s r [] = [] := by simp [sent]
      rw [hsent] at hc
      rw [hsilent _ (recorded hquiet hc).posts (by simp)]
      exact h.change hc (fun rqe' hrqe' _ => htail rqe' hrqe') rfl (fun _ => id) (by simp)
        (hidle _ fun _ => .refl _)

theorem booked_moves (h : Booked L s) (hf : Facts job s) (hf' : Facts job s')
    (hs : Moves job s e s') : Booked (L.record e) s' := by
  have hquiet := hf.sane.quiet
  cases hs with
  | app r l act hr hl hen => exact h.app hf hen
  | recv p net addr err v hr hd hproc => exact h.msg hf hf' hd hproc
  | req r rqe q v hr hq hproc => exact h.req hf hq hproc
  | shutdown hidle hdrain =>
    obtain ⟨hc, -⟩ := shutdown_change s.net (broadcastShutdown_spec job (s.view 0) (hquiet 0).1)
      (hquiet 0).1 (hquiet 0).2 rfl
    exact h.change hc (fun rqe hrqe _ => hrqe) rfl (fun _ => id)
      (fun post hpost => bcasts_quiet job _ post (mem_sent hpost))
      (fun l c hcall hdone => h.finished 0 l c hcall hdone)

end Steps

theorem ledgerOk_start : LedgerOk .start where
  calls r l c h := by cases h
  owner k c h := by cases h
  served c h := by cases h
  servedOnce := List.nodup_nil
  answersServed a h := by cases h
  answeredOnce := List.nodup_nil

theorem booked_init (job : Job) : Booked .start (sysInit job) where
  toLedgerOk := ledgerOk_start
  queued r rqe hrqe := by
    by_cases hr : r = 0
    · subst hr
      simp [sysInit, mgrStartapp, dtqInit] at hrqe
    · simp [sysInit, hr, dtqInit] at hrqe
  pending r rqe hrqe := by simp [sysInit_rpending] at hrqe
  asked p hp := by simp [sysInit] at hp
  waiting rqe hrqe := by simp [sysInit_rpending] at hrqe
  replies p hp := by simp [sysInit] at hp
  finished r l c hcall := by cases hcall

theorem logged_booked {job : Job} {log : List Record} {s : Sys} (h : Logged job log s) :
    Booked (ledger log) s := by
  induction h with
  | init => exact booked_init job
  | snoc hlog hs ih =>
    rw [ledger_snoc]
    exact booked_moves ih (reachable_facts hlog.reachable)
      (reachable_facts (hlog.snoc hs).reachable) hs

/-- In every run, whatever the order of its steps: a call is handled at most
once and answered at most once, only a handled call is answered and the answer
is of its kind. A thread whose call is done reads the answer to that very call,
unless its own manager has refused it with EIO; then nobody has seen the call. -/
theorem calls_answered_once {job : Job} {log : List Record} {s : Sys} (h : Logged job log s) :
    (ledger log).served.Nodup ∧ ((ledger log).answers.map Prod.fst).Nodup ∧
      (∀ a ∈ (ledger log).answers, a.1 ∈ (ledger log).served ∧
        replyTo a.2 = some a.1.body.op) ∧
      ∀ r l c, (ledger log).calls (r, l) = some c → ((s.rk r).mgr.ltab l).reqstate = .done →
        Finished (ledger log) c ((s.rk r).mgr.ltab l) := by
  have hbooked := logged_booked h
  exact ⟨hbooked.servedOnce, hbooked.answeredOnce, hbooked.answersServed, hbooked.finished⟩

/-- A run of `twoRanks` up to the CREATED of its first thread. -/
def answeredRun : { run : List Record × Sys // Logged twoRanks run.1 run.2 } :=
  ⟨(_, _), .snoc (.snoc (.snoc (.snoc (.snoc (.snoc .init
    (.app 0 0 (.post createBody 0) (by decide) (by decide) ⟨rfl, rfl, rfl⟩))
    (.req 0 _ _ _ (by decide) rfl rfl))
    (.recv ⟨0, 0, _⟩ _ 0 0 _ (by decide) ⟨[], [], rfl, rfl, by simp⟩ rfl))
    (.recv ⟨0, 1, _⟩ _ 0 0 _ (by decide) ⟨[], [], rfl, rfl, by simp⟩ rfl))
    (.recv ⟨1, 0, _⟩ _ 0 0 _ (by decide) ⟨[], [], rfl, rfl, by simp⟩ rfl))
    (.recv ⟨0, 0, _⟩ _ 0 0 _ (by decide) ⟨[], [], rfl, rfl, by simp⟩ rfl)⟩

theorem calls_answered_once_created :
    ((answeredRun.1.2.rk 0).mgr.ltab 0).reqstate = .done ∧
      Finished (ledger answeredRun.1.1) ⟨0, 0, 0, createBody⟩
        ((answeredRun.1.2.rk 0).mgr.ltab 0) :=
  ⟨rfl, (calls_answered_once answeredRun.2).2.2.2 0 0 ⟨0, 0, 0, createBody⟩ rfl rfl⟩

end Dthread.CallLedger
