import Dthread.BufferDisposal
import Dthread.MpiSystem

/-!
Who owns a buffer. At every moment a buffer is in exactly one place: on a list
of the queues, in a send that is not complete, held by a client or being
received into. So nobody writes to a buffer that is queued or being sent, and
its contents are those that it was queued with.
-/
namespace Dthread.MpiBuffers

open ReqMsg Queuing SendDrain Wakeups MpiTestsome MpiSystem BufferDisposal

/-- How often a buffer is on the lists of the queues, or not yet allocated. -/
def stock (q : Dtq) (a : ℕ) : ℕ := places q a + if q.nmqe ≤ a then 1 else 0

section Stock

variable {q q' : Dtq} {m : Mqe} {addr : ℕ} (a : ℕ)

theorem stock_mqeAlloc (h : dtqMqeAlloc q = (some addr, q')) :
    stock q' a + [addr].count a = stock q a := by
  rcases mqeAlloc_some h with ⟨rest, hfree, rfl⟩ | ⟨rfl, rfl⟩
  · simp only [stock, places, hfree, List.count_cons, List.count_nil]
    omega
  · -- the new buffer was the first one not allocated
    by_cases heq : q.nmqe = a
    · simp [stock, places, heq]
    · have hiff : q.nmqe + 1 ≤ a ↔ q.nmqe ≤ a := by omega
      simp [stock, places, heq, hiff]

theorem stock_free (q : Dtq) (addr : ℕ) :
    stock { q with mqefree := addr :: q.mqefree } a = stock q a + [addr].count a := by
  simp only [stock, places, List.count_cons, List.count_nil]
  omega

theorem stock_sendEnqueue {r : ℕ} (h : dtqSendEnqueue r q m = (none, q')) :
    stock q' a = stock q a + [m.addr].count a := by
  unfold dtqSendEnqueue at h
  split at h
  · simp at h
  · split at h
    · obtain rfl := (Prod.mk.inj h).2
      simp only [stock, places, List.map_append, List.map_cons, List.map_nil, List.count_append]
      omega
    · obtain rfl := (Prod.mk.inj h).2
      simp only [stock, places, List.map_append, List.map_cons, List.map_nil, List.count_append]
      omega

theorem stock_sendRelease (q : Dtq) (addr : ℕ) :
    stock (dtqSendRelease q addr).2 a = stock q a + [addr].count a := by
  rw [← stock_free]
  simp only [dtqSendRelease]
  split <;> rfl

theorem stock_recvEnqueue (q : Dtq) (m : Mqe) :
    stock (dtqRecvEnqueue q m) a = stock q a + [m.addr].count a := by
  rw [dtqRecvEnqueue]
  simp only [stock, places, List.map_append, List.map_cons, List.map_nil, List.count_append]
  omega

theorem stock_recvDequeue (q : Dtq) :
    stock (dtqRecvDequeue q).2 a + ((dtqRecvDequeue q).1.map Mqe.addr).toList.count a =
      stock q a := by
  unfold dtqRecvDequeue
  split
  · rename_i m rest hq
    simp only [stock, places, hq, List.map_cons, List.count_cons, Option.map_some,
      Option.toList_some, List.count_nil]
    omega
  · simp

end Stock

/-- The buffer that an MPI thread receives into. -/
def held : MpiPc → List ℕ
  | .recv addr _ _ => [addr]
  | .recvEnqueue addr => [addr]
  | .recvDrop addr => [addr]
  | _ => []

/-- The buffer that an MPI thread is about to send. -/
def toSend : MpiPc → List ℕ
  | .isend addr => [addr]
  | _ => []

def sending (n : Rank) : List Mqe := n.threads.sends.sending

/-- The places of a buffer. -/
def uses (n : Rank) (a : ℕ) : ℕ :=
  stock n.q a + ((sending n).map Mqe.addr).count a + n.hands.count a + (held n.pc).count a

/-- The messages on the queues and those being sent. -/
def Listed (n : Rank) (m : Mqe) : Prop :=
  m ∈ n.q.mpisendq ∨ m ∈ n.q.mpirecvq ∨ m ∈ sending n

structure Buffers (r : ℕ) (n : Rank) : Prop where
  once : ∀ a, uses n a = 1
  snap : ∀ m, Listed n m → n.mqeAt m.addr = m
  away : ∀ m, m ∈ n.q.mpisendq ∨ m ∈ sending n → m.peer ≠ r

/-- The arrays of mpimts_test at a point of the loop. -/
def MtsOk : MpiPc → Mts MpiReq → Prop
  | .releasing got firsthole idxout, m => Releasing m got firsthole idxout
  | _, m => m.Full

/-- The buffers in a send are those in the arrays, and one about to be sent. -/
structure Flight (n : Rank) : Prop where
  perm : ((sending n).map Mqe.addr).Perm (toSend n.pc ++ n.mts.entries.map Prod.fst)
  mts : MtsOk n.pc n.mts

structure RankOk (r : ℕ) (n : Rank) : Prop where
  threads : Wakeups.Reachable r n.threads
  buffers : Buffers r n
  flight : Flight n
  arrived : ∀ a, n.pc = .recvEnqueue a → (n.mem a).peer ≠ r
  stopped : n.stop = true → n.threads.mgr = .left
  finalizing : ∀ lcv, n.pc = .finalize lcv → n.stop = true

variable {r : ℕ} {n n' : Rank} {m : Mqe} {a : ℕ}

theorem count_cons_singleton (x : ℕ) (l : List ℕ) (a : ℕ) :
    (x :: l).count a = l.count a + [x].count a := by
  simp only [List.count_cons, List.count_nil, Nat.zero_add]

theorem count_map_erase {α : Type*} [DecidableEq α] (f : α → ℕ) {l : List α} {x : α} (h : x ∈ l)
    (a : ℕ) : ((l.erase x).map f).count a + [f x].count a = (l.map f).count a := by
  rw [((List.perm_cons_erase h).map f).count_eq a]
  simp only [List.map_cons, List.count_cons, List.count_nil]
  omega

theorem count_erase {l : List ℕ} {addr : ℕ} (h : addr ∈ l) (a : ℕ) :
    (l.erase addr).count a + [addr].count a = l.count a := by
  have hcount := count_map_erase id h a
  rwa [List.map_id, List.map_id] at hcount

/-- A listed message's buffer is counted once for it. -/
theorem Listed.count_pos (h : Listed n m) :
    0 < stock n.q m.addr + ((sending n).map Mqe.addr).count m.addr := by
  rcases h with hm | hm | hm
  · have hpos := List.count_pos_iff.mpr (List.mem_map_of_mem (f := Mqe.addr) hm)
    simp only [stock, places]
    omega
  · have hpos := List.count_pos_iff.mpr (List.mem_map_of_mem (f := Mqe.addr) hm)
    simp only [stock, places]
    omega
  · have hpos := List.count_pos_iff.mpr (List.mem_map_of_mem (f := Mqe.addr) hm)
    omega

namespace Buffers

theorem not_listed (h : Buffers r n) (ha : a ∈ n.hands ∨ a ∈ held n.pc) (hm : Listed n m) :
    m.addr ≠ a := by
  rintro rfl
  have hone := h.once m.addr
  have hpos := hm.count_pos
  unfold uses at hone
  rcases ha with hin | hin
  · have hcount := List.count_pos_iff.mpr hin
    omega
  · have hcount := List.count_pos_iff.mpr hin
    omega

theorem hand_ne_held (h : Buffers r n) {addr : ℕ} (hin : addr ∈ n.hands) (ha : a ∈ held n.pc) :
    a ≠ addr := by
  rintro rfl
  have hone := h.once a
  have hhand := List.count_pos_iff.mpr hin
  have hheld := List.count_pos_iff.mpr ha
  unfold uses at hone
  omega

/-- Writing to a buffer that a client holds or that is being received into. -/
theorem write (h : Buffers r n) (ha : a ∈ n.hands ∨ a ∈ held n.pc) (e : Entry) :
    Buffers r { n with mem := Function.update n.mem a e } := by
  refine ⟨h.once, fun m hm => ?_, h.away⟩
  have hne : m.addr ≠ a := h.not_listed ha hm
  have hsnap := h.snap m hm
  simpa only [Rank.mqeAt, Function.update_of_ne hne] using hsnap

/-- A step that moves buffers between places. -/
theorem move (h : Buffers r n) (hmem : n'.mem = n.mem) (huses : ∀ a, uses n' a = uses n a)
    (hlisted : ∀ m, Listed n' m → Listed n m ∨ n.mqeAt m.addr = m)
    (haway : ∀ m, m ∈ n'.q.mpisendq ∨ m ∈ sending n' →
      (m ∈ n.q.mpisendq ∨ m ∈ sending n) ∨ m.peer ≠ r) : Buffers r n' := by
  refine ⟨fun a => (huses a).trans (h.once a), fun m hm => ?_, fun m hm => ?_⟩
  · have hat : n'.mqeAt m.addr = n.mqeAt m.addr := by rw [Rank.mqeAt, Rank.mqeAt, hmem]
    rw [hat]
    rcases hlisted m hm with hold | hnew
    · exact h.snap m hold
    · exact hnew
  · rcases haway m hm with hold | hnew
    · exact h.away m hold
    · exact hnew

/-- The lists are left alone. -/
theorem same (h : Buffers r n) (hmem : n'.mem = n.mem) (huses : ∀ a, uses n' a = uses n a)
    (hsendq : n'.q.mpisendq = n.q.mpisendq) (hrecvq : n'.q.mpirecvq = n.q.mpirecvq)
    (hsending : sending n' = sending n) : Buffers r n' := by
  refine h.move hmem huses (fun m hm => Or.inl ?_) (fun m hm => Or.inl ?_)
  · rwa [Listed, hsendq, hrecvq, hsending] at hm
  · rwa [hsendq, hsending] at hm

end Buffers

namespace RankOk

/-- The buffers in a send are those of the messages being sent. -/
theorem mqeAt_sending (h : RankOk r n)
    (ha : a ∈ toSend n.pc ++ n.mts.entries.map Prod.fst) : n.mqeAt a ∈ sending n := by
  obtain ⟨m, hm, rfl⟩ := List.mem_map.mp (h.flight.perm.mem_iff.mpr ha)
  rw [h.buffers.snap m (Or.inr (Or.inr hm))]
  exact hm

theorem releasing (h : RankOk r n) {got firsthole : ℕ} {idxout : List ℕ}
    (hpc : n.pc = .releasing got firsthole idxout) : Releasing n.mts got firsthole idxout := by
  have hmts := h.flight.mts
  rwa [hpc] at hmts

/-- The buffer that mpimts_test releases next is in a send. -/
theorem released (h : RankOk r n) {got firsthole i : ℕ} {idxout : List ℕ}
    (hpc : n.pc = .releasing got firsthole (i :: idxout)) (hi : n.mts.slots.mqes i = some a) :
    n.mqeAt a ∈ sending n := by
  have hlt : i < n.mts.nused := (h.releasing hpc).inUse i List.mem_cons_self
  have hentry := (entries_clearMqe hlt hi).mem_iff.mpr List.mem_cons_self
  exact h.mqeAt_sending (List.mem_append_right _ (List.mem_map.mpr ⟨_, hentry, rfl⟩))

/-- When the loop is left no send is in progress. -/
theorem finalizing_empty (h : RankOk r n) {lcv : ℕ} (hpc : n.pc = .finalize lcv) :
    n.mts.nused = 0 := by
  have hdrained := left_drained h.threads (h.stopped (h.finalizing lcv hpc))
  have hnil : sending n = [] := by
    have hdrain := h.threads.run.counted.drain
    rw [show n.threads.sends.q.mpisqDraindown = .drained from hdrained, drainOf] at hdrain
    split at hdrain
    · split at hdrain
      next hempty => exact hempty.2
      next => cases hdrain
    · cases hdrain
  have hperm := h.flight.perm
  have hfull := h.flight.mts
  rw [hnil, hpc] at hperm
  rw [hpc] at hfull
  have hentries : n.mts.entries = [] := by simpa [toSend] using hperm
  have hlen : n.mts.entries.length = n.mts.nused := hfull
  rw [← hlen, hentries]
  rfl

end RankOk

section Sections

variable (t : Threads)

theorem sendEnqueue_q (r : ℕ) (m : Mqe) :
    (t.sendEnqueue r m).q = (dtqSendEnqueue r t.q m).2 := notify_q _ _

theorem sendEnqueue_sending (r : ℕ) (m : Mqe) :
    (t.sendEnqueue r m).sends.sending = t.sends.sending := by
  rw [Threads.sendEnqueue, notify_sends]
  rfl

theorem sendRelease_q (m : Mqe) : (t.sendRelease m).q = (dtqSendRelease t.q m.addr).2 :=
  notify_q _ _

theorem sendRelease_sending (m : Mqe) :
    (t.sendRelease m).sends.sending = t.sends.sending.erase m := by
  rw [Threads.sendRelease, notify_sends]
  rfl

theorem recvEnqueue_q (m : Mqe) : (t.recvEnqueue m).q = dtqRecvEnqueue t.q m := notify_q _ _

theorem recvEnqueue_sending (m : Mqe) : (t.recvEnqueue m).sends.sending = t.sends.sending := by
  rw [Threads.recvEnqueue, notify_sends]
  rfl

end Sections

theorem sendRelease_lists (q : Dtq) (addr : ℕ) :
    (dtqSendRelease q addr).2.mpisendq = q.mpisendq ∧
      (dtqSendRelease q addr).2.mpirecvq = q.mpirecvq := by
  simp only [dtqSendRelease]
  split <;> exact ⟨rfl, rfl⟩

theorem mqeAlloc_lists {q q' : Dtq} {addr : ℕ} (h : dtqMqeAlloc q = (some addr, q')) :
    q'.mpisendq = q.mpisendq ∧ q'.mpirecvq = q.mpirecvq := by
  obtain ⟨free, k, ms, hq⟩ := mqeAlloc_queues q
  rw [h] at hq
  obtain rfl : q' = _ := hq
  exact ⟨rfl, rfl⟩

theorem reqDequeue_stock (q : Dtq) (a : ℕ) : stock (dtqReqDequeue q).2 a = stock q a := by
  unfold dtqReqDequeue
  split <;> rfl

theorem reqDequeue_lists (q : Dtq) : (dtqReqDequeue q).2.mpisendq = q.mpisendq ∧
    (dtqReqDequeue q).2.mpirecvq = q.mpirecvq := by
  unfold dtqReqDequeue
  split <;> exact ⟨rfl, rfl⟩

/-- The three outcomes of dtq_send_enqueue. -/
theorem sendEnqueue_cases (r : ℕ) (n : Rank) (addr : ℕ) :
    n.sendEnqueue r addr = (none, { n with threads := n.threads.sendEnqueue r (n.mqeAt addr) }) ∧
        dtqSendEnqueue r n.q (n.mqeAt addr) = (some (n.mqeAt addr), n.q) ∨
      ∃ q', n.sendEnqueue r addr = (some (.put (r, (n.mem addr).peer) (n.mem addr).frame),
          { n with threads := n.threads.sendEnqueue r (n.mqeAt addr),
                   hands := n.hands.erase addr }) ∧
        dtqSendEnqueue r n.q (n.mqeAt addr) = (none, q') ∧
        ((n.mem addr).peer = r ∧ q'.mpirecvq = n.q.mpirecvq ++ [n.mqeAt addr] ∧
            q'.mpisendq = n.q.mpisendq ∨
          (n.mem addr).peer ≠ r ∧ q'.mpirecvq = n.q.mpirecvq ∧
            q'.mpisendq = n.q.mpisendq ++ [n.mqeAt addr]) := by
  by_cases hdd : n.q.mpisqDraindown = .init
  · right
    by_cases hpeer : (n.mqeAt addr).peer = r
    · have he : dtqSendEnqueue r n.q (n.mqeAt addr) = (none, { n.q with
          mpirecvq := n.q.mpirecvq ++ [n.mqeAt addr],
          accepted := n.q.accepted ++ [n.mqeAt addr] }) := by
        simp [dtqSendEnqueue, hdd, hpeer]
      exact ⟨_, by simp only [Rank.sendEnqueue, he], he, Or.inl ⟨hpeer, rfl, rfl⟩⟩
    · have he : dtqSendEnqueue r n.q (n.mqeAt addr) = (none, { n.q with
          mpisendq := n.q.mpisendq ++ [n.mqeAt addr], mpisqlen := n.q.mpisqlen + 1,
          accepted := n.q.accepted ++ [n.mqeAt addr] }) := by
        simp [dtqSendEnqueue, hdd, hpeer]
      exact ⟨_, by simp only [Rank.sendEnqueue, he], he, Or.inr ⟨hpeer, rfl, rfl⟩⟩
  · left
    have he := sendEnqueue_draining r n.q (n.mqeAt addr) hdd
    exact ⟨by simp only [Rank.sendEnqueue, he], he⟩

theorem takeWork_q (n : Rank) (r : ℕ) :
    (n.takeWork r).2.q = (dtqReqDequeue (dtqRecvDequeue n.q).2).2 := by
  unfold Rank.takeWork
  split <;> rfl

/-- What the manager is handed. -/
theorem takeWork_cases (r : ℕ) (n : Rank) :
    n.takeWork r = (none, { n with threads := n.threads.takeWork }) ∧ n.q.mpirecvq = [] ∧
        (dtqRecvDequeue n.q).2 = n.q ∨
      ∃ m rest, n.q.mpirecvq = m :: rest ∧
        (dtqRecvDequeue n.q).2 = { n.q with mpirecvq := rest } ∧
        n.takeWork r = (some (.take ((n.mem m.addr).peer, r) (n.mem m.addr).frame),
          { n with threads := n.threads.takeWork, hands := m.addr :: n.hands }) := by
  rcases hq : n.q.mpirecvq with _ | ⟨m, rest⟩
  · have he : dtqRecvDequeue n.q = (none, n.q) := by simp [dtqRecvDequeue, hq]
    exact Or.inl ⟨by simp only [Rank.takeWork, he], rfl, by rw [he]⟩
  · have he : dtqRecvDequeue n.q = (some m, { n.q with mpirecvq := rest }) := by
      simp [dtqRecvDequeue, hq]
    exact Or.inr ⟨m, rest, rfl, by rw [he], by simp only [Rank.takeWork, he]⟩

theorem sendDequeue_cases (n : Rank) :
    n.sendDequeue = { n with pc := .probe } ∨
      ∃ m rest, n.q.mpisendq = m :: rest ∧
        n.sendDequeue = { n with
          threads := { n.threads with sends := n.threads.sends.dequeue }
          pc := .isend m.addr } ∧
        dtqSendDequeue n.q = (some m, { n.q with
          mpisendq := rest
          mpisqlen := n.q.mpisqlen - 1
          mpindequeuedsends := n.q.mpindequeuedsends + 1 }) := by
  rcases hq : n.q.mpisendq with _ | ⟨m, rest⟩
  · have he : dtqSendDequeue n.q = (none, n.q) := by simp [dtqSendDequeue, hq]
    exact Or.inl (by simp only [Rank.sendDequeue, he])
  · have he : dtqSendDequeue n.q = (some m, { n.q with
        mpisendq := rest
        mpisqlen := n.q.mpisqlen - 1
        mpindequeuedsends := n.q.mpindequeuedsends + 1 }) := by
      simp [dtqSendDequeue, hq]
    exact Or.inr ⟨m, rest, rfl, by simp only [Rank.sendDequeue, he], he⟩

theorem notifywait_cases (r : ℕ) (n : Rank) :
    n.notifywait r = (none, { n with threads := n.threads.notifywait }) ∧
        SameMqes n.threads n.threads.notifywait ∨
      n.notifywait r = n.takeWork r ∧ n.threads.notifywait = n.threads.takeWork := by
  by_cases hempty : wasEmpty n.q = true
  · have ht : n.threads.notifywait =
        { n.threads with mgr := .blocked (n.threads.q.notifytimelimit ≠ 0) false } :=
      if_pos hempty
    refine Or.inl ⟨if_pos hempty, ?_⟩
    rw [ht]
    exact ⟨rfl, rfl, rfl, rfl, rfl⟩
  · exact Or.inr ⟨if_neg hempty, if_neg hempty⟩

/-- What a manager leaves as it is when it takes its work. -/
theorem takeWork_same (r : ℕ) (n : Rank) : (n.takeWork r).2.threads = n.threads.takeWork ∧
    (n.takeWork r).2.mem = n.mem ∧ (n.takeWork r).2.mts = n.mts ∧ (n.takeWork r).2.pc = n.pc ∧
    (n.takeWork r).2.stop = n.stop := by
  unfold Rank.takeWork
  split <;> exact ⟨rfl, rfl, rfl, rfl, rfl⟩

theorem sendEnqueue_same (r : ℕ) (n : Rank) (addr : ℕ) :
    (n.sendEnqueue r addr).2.threads = n.threads.sendEnqueue r (n.mqeAt addr) ∧
    (n.sendEnqueue r addr).2.mem = n.mem ∧ (n.sendEnqueue r addr).2.mts = n.mts ∧
    (n.sendEnqueue r addr).2.pc = n.pc ∧ (n.sendEnqueue r addr).2.stop = n.stop := by
  unfold Rank.sendEnqueue
  dsimp only
  split <;> exact ⟨rfl, rfl, rfl, rfl, rfl⟩

variable {ev : Option Event}

/-- What a client's step leaves as it is. -/
structure ByClient (n n' : Rank) : Prop where
  mts : n'.mts = n.mts
  pc : n'.pc = n.pc
  sending : sending n' = MpiBuffers.sending n
  memory : ∀ a, a ∈ held n.pc ∨ a ∈ (MpiBuffers.sending n).map Mqe.addr → n'.mem a = n.mem a
  stop : n'.stop = n.stop ∨ n'.stop = true ∧ n.threads.mgr = .left

theorem byClient_takeWork (r : ℕ) (n : Rank) : ByClient n (n.takeWork r).2 := by
  obtain ⟨hthreads, hmem, hmts, hpc, hstop⟩ := takeWork_same r n
  exact ⟨hmts, hpc, by rw [sending, hthreads]; rfl, fun a _ => congrFun hmem a, Or.inl hstop⟩

theorem client_frame (h : RankOk r n) (hc : ClientStep r n ev n') : ByClient n n' := by
  cases hc with
  | mqeAlloc addr q hq => exact ⟨rfl, rfl, rfl, fun _ _ => rfl, Or.inl rfl⟩
  | fill addr e hin =>
    refine ⟨rfl, rfl, rfl, fun a ha => Function.update_of_ne ?_ e n.mem, Or.inl rfl⟩
    rcases ha with hheld | hsend
    · exact h.buffers.hand_ne_held hin hheld
    · obtain ⟨m, hm, rfl⟩ := List.mem_map.mp hsend
      exact h.buffers.not_listed (Or.inl hin) (Or.inr (Or.inr hm))
  | mqeUnalloc addr hin => exact ⟨rfl, rfl, rfl, fun _ _ => rfl, Or.inl rfl⟩
  | recvRelease addr hin => exact ⟨rfl, rfl, rfl, fun _ _ => rfl, Or.inl rfl⟩
  | sendEnqueue addr hin hmgr =>
    obtain ⟨hthreads, hmem, hmts, hpc, hstop⟩ := sendEnqueue_same r n addr
    refine ⟨hmts, hpc, ?_, fun a _ => congrFun hmem a, Or.inl hstop⟩
    rw [sending, hthreads, sendEnqueue_sending]
    rfl
  | notifywait hmgr =>
    rcases notifywait_cases r n with ⟨he, hsame⟩ | ⟨he, -⟩
    · rw [he]
      exact ⟨rfl, rfl, hsame.sending, fun _ _ => rfl, Or.inl rfl⟩
    · rw [he]
      exact byClient_takeWork r n
  | wake timed signaled hmgr => exact byClient_takeWork r n
  | other t ht hsame => exact ⟨rfl, rfl, hsame.sending, fun _ _ => rfl, Or.inl rfl⟩
  | mpitStop hmgr => exact ⟨rfl, rfl, rfl, fun _ _ => rfl, Or.inr ⟨rfl, hmgr⟩⟩

/-- The message that mpimqerecv is receiving: its sender and its length. -/
def receiving : MpiPc → Option (ℕ × ℕ)
  | .recvAlloc src count => some (src, count)
  | .recv _ src count => some (src, count)
  | _ => none

/-- What a step of the MPI thread leaves as it is. It keeps the requests that are
not complete, and writes to no buffer. -/
structure ByThread (n n' : Rank) : Prop where
  memory : n'.mem = n.mem
  stop : n'.stop = n.stop
  requests : ∀ a req, (a, some req) ∈ n.mts.entries → (a, some req) ∈ n'.mts.entries
  arrived : ∀ a, n'.pc ≠ .recvEnqueue a
  finalizing : ∀ lcv, n'.pc = .finalize lcv → n.stop = true
  receiving : ∀ x, receiving n'.pc = some x → MpiBuffers.receiving n.pc = some x

theorem thread_frame (h : RankOk r n) (ht : ThreadStep n n') : ByThread n n' := by
  cases ht with
  | testNothing hpc hrun hused => exact ⟨rfl, rfl, fun _ _ => id, nofun, nofun, nofun⟩
  | release got firsthole i addr idxout hpc hi =>
    refine ⟨rfl, rfl, fun a req ha => ?_, nofun, nofun, nofun⟩
    have hmts := h.releasing hpc
    rcases List.mem_cons.mp
      ((entries_clearMqe (hmts.inUse i List.mem_cons_self) hi).mem_iff.mp ha) with heq | hin
    · -- the request of the slot was completed
      rw [hmts.null i List.mem_cons_self] at heq
      cases heq
    · exact hin
  | compact got firsthole hpc =>
    exact ⟨rfl, rfl, fun a req ha => (h.releasing hpc).compact.2.mem_iff.mpr ha,
      nofun, nofun, nofun⟩
  | sendDequeue hpc =>
    rcases sendDequeue_cases n with he | ⟨m, rest, -, he, -⟩
    · rw [he]
      exact ⟨rfl, rfl, fun _ _ => id, nofun, nofun, nofun⟩
    · rw [he]
      exact ⟨rfl, rfl, fun _ _ => id, nofun, nofun, nofun⟩
  | probeNothing hpc => exact ⟨rfl, rfl, fun _ _ => id, nofun, nofun, nofun⟩
  | recvAlloc src count addr q hpc hq =>
    exact ⟨rfl, rfl, fun _ _ => id, nofun, nofun, fun x hx => by rwa [hpc]⟩
  | recvEnqueue addr hpc => exact ⟨rfl, rfl, fun _ _ => id, nofun, nofun, nofun⟩
  | recvDrop addr hpc => exact ⟨rfl, rfl, fun _ _ => id, nofun, nofun, nofun⟩
  | leave hpc hstop => exact ⟨rfl, rfl, fun _ _ => id, nofun, fun _ _ => hstop, nofun⟩
  | finalizeSlot lcv hpc hlt =>
    have hzero := h.finalizing_empty hpc
    omega
  | finalized lcv hpc hle => exact ⟨rfl, rfl, fun _ _ => id, nofun, nofun, nofun⟩

theorem step_mqeAlloc {t : Threads} {q : Dtq} (h : dtqMqeAlloc t.q = (some a, q)) :
    Wakeups.Step r t (t.setDtq q) := by
  have hcall := FreeListCall.mqeAlloc (q := t.q)
  rw [h] at hcall
  exact .freeLists q hcall

/-- What a client does is a section of the rank's threads, or nothing that they
share. -/
theorem client_threads (hc : ClientStep r n ev n') :
    n'.threads = n.threads ∨ Wakeups.Step r n.threads n'.threads := by
  cases hc with
  | mqeAlloc addr q hq => exact Or.inr (step_mqeAlloc hq)
  | fill addr e hin => exact Or.inl rfl
  | mqeUnalloc addr hin => exact Or.inr (.freeLists _ (.mqeUnalloc addr))
  | recvRelease addr hin => exact Or.inr (.freeLists _ (.recvRelease addr))
  | sendEnqueue addr hin hmgr =>
    rw [(sendEnqueue_same r n addr).1]
    exact Or.inr (.sendEnqueue _ hmgr)
  | notifywait hmgr =>
    right
    rcases notifywait_cases r n with ⟨he, -⟩ | ⟨he, ht⟩
    · rw [he]
      exact .notifywait hmgr
    · rw [he, (takeWork_same r n).1, ← ht]
      exact .notifywait hmgr
  | wake timed signaled hmgr =>
    rw [(takeWork_same r n).1]
    exact Or.inr (.wake timed signaled hmgr)
  | other t ht hsame => exact Or.inr ht
  | mpitStop hmgr => exact Or.inl rfl

theorem thread_threads (h : RankOk r n) (ht : ThreadStep n n') :
    n'.threads = n.threads ∨ Wakeups.Step r n.threads n'.threads := by
  cases ht with
  | testNothing hpc hrun hused => exact Or.inl rfl
  | release got firsthole i addr idxout hpc hi =>
    exact Or.inr (.sendRelease _ (h.released hpc hi))
  | compact got firsthole hpc => exact Or.inl rfl
  | sendDequeue hpc =>
    rcases sendDequeue_cases n with he | ⟨m, rest, -, he, -⟩
    · exact Or.inl (by rw [he])
    · rw [he]
      exact Or.inr .sendDequeue
  | probeNothing hpc => exact Or.inl rfl
  | recvAlloc src count addr q hpc hq => exact Or.inr (step_mqeAlloc hq)
  | recvEnqueue addr hpc => exact Or.inr (.recvEnqueue _)
  | recvDrop addr hpc => exact Or.inr (.freeLists _ (.recvRelease addr))
  | leave hpc hstop => exact Or.inl rfl
  | finalizeSlot lcv hpc hlt =>
    have hzero := h.finalizing_empty hpc
    omega
  | finalized lcv hpc hle => exact Or.inl rfl

theorem buffers_takeWork (h : Buffers r n) : Buffers r (n.takeWork r).2 := by
  have hq := takeWork_q n r
  obtain ⟨hthreads, hmem, hmts, hpc, hstop⟩ := takeWork_same r n
  have hsending : sending (n.takeWork r).2 = sending n := by
    rw [sending, hthreads]
    rfl
  obtain ⟨hsendq, hrecvq⟩ := reqDequeue_lists (dtqRecvDequeue n.q).2
  rw [← hq] at hsendq hrecvq
  have hstock (a : ℕ) : stock (n.takeWork r).2.q a = stock (dtqRecvDequeue n.q).2 a := by
    rw [hq, reqDequeue_stock]
  rcases takeWork_cases r n with ⟨he, -, hdeq⟩ | ⟨m, rest, hcons, hdeq, he⟩
  · rw [hdeq] at hsendq hrecvq hstock
    refine h.same hmem (fun a => ?_) hsendq hrecvq hsending
    rw [uses, uses, hstock, hsending, hpc, he]
  · rw [hdeq] at hsendq hrecvq
    refine h.move hmem (fun a => ?_) (fun m' hm' => Or.inl ?_) (fun m' hm' => Or.inl ?_)
    · have hcount := stock_recvDequeue a n.q
      rw [show (dtqRecvDequeue n.q).1 = some m by simp [dtqRecvDequeue, hcons]] at hcount
      have hhands : (n.takeWork r).2.hands = m.addr :: n.hands := by rw [he]
      rw [uses, uses, hstock, hsending, hpc, hhands, count_cons_singleton]
      simp only [Option.map_some, Option.toList_some] at hcount
      omega
    · rw [Listed, hsendq, hrecvq, hsending] at hm'
      rcases hm' with hin | hin | hin
      · exact Or.inl hin
      · exact Or.inr (Or.inl (hcons ▸ List.mem_cons_of_mem m hin))
      · exact Or.inr (Or.inr hin)
    · rwa [hsendq, hsending] at hm'

theorem buffers_sendEnqueue (h : Buffers r n) (hin : a ∈ n.hands) :
    Buffers r (n.sendEnqueue r a).2 := by
  have hsending : sending (n.sendEnqueue r a).2 = sending n := by
    rw [sending, (sendEnqueue_same r n a).1, sendEnqueue_sending]
    rfl
  have hq : (n.sendEnqueue r a).2.q = (dtqSendEnqueue r n.q (n.mqeAt a)).2 := by
    rw [Rank.q, (sendEnqueue_same r n a).1, sendEnqueue_q]
    rfl
  obtain ⟨-, hmem, -, hpc, -⟩ := sendEnqueue_same r n a
  rcases sendEnqueue_cases r n a with ⟨he, hdraining⟩ | ⟨q', he, hsent, hwhere⟩
  · rw [hdraining] at hq
    refine h.same hmem (fun b => ?_) (by rw [hq]) (by rw [hq]) hsending
    rw [uses, uses, hq, hsending, hpc, he]
  · replace hq : (n.sendEnqueue r a).2.q = q' := by rw [hq, hsent]
    have huses (b : ℕ) : uses (n.sendEnqueue r a).2 b = uses n b := by
      have hstock := stock_sendEnqueue b hsent
      have hcount := count_erase hin b
      have hhands : (n.sendEnqueue r a).2.hands = n.hands.erase a := by rw [he]
      rw [uses, uses, hq, hsending, hpc, hhands]
      simp only [Rank.mqeAt] at hstock
      omega
    rcases hwhere with ⟨hpeer, hrecvq, hsendq⟩ | ⟨hpeer, hrecvq, hsendq⟩
    · refine h.move hmem huses (fun m hm => ?_) (fun m hm => Or.inl ?_)
      · rw [Listed, hq, hsendq, hrecvq, hsending, List.mem_append, List.mem_singleton] at hm
        rcases hm with hm | (hm | rfl) | hm
        · exact Or.inl (Or.inl hm)
        · exact Or.inl (Or.inr (Or.inl hm))
        · exact Or.inr rfl
        · exact Or.inl (Or.inr (Or.inr hm))
      · rwa [hq, hsendq, hsending] at hm
    · refine h.move hmem huses (fun m hm => ?_) (fun m hm => ?_)
      · rw [Listed, hq, hsendq, hrecvq, hsending, List.mem_append, List.mem_singleton] at hm
        rcases hm with (hm | rfl) | hm | hm
        · exact Or.inl (Or.inl hm)
        · exact Or.inr rfl
        · exact Or.inl (Or.inr (Or.inl hm))
        · exact Or.inl (Or.inr (Or.inr hm))
      · rw [hq, hsendq, hsending, List.mem_append, List.mem_singleton] at hm
        rcases hm with (hm | rfl) | hm
        · exact Or.inl (Or.inl hm)
        · exact Or.inr hpeer
        · exact Or.inl (Or.inr hm)

/-- A buffer that is given back goes to the free list. -/
theorem buffers_free (h : Buffers r n) {hands : List ℕ} {pc : MpiPc}
    (hcount : ∀ b, hands.count b + (held pc).count b + [a].count b =
      n.hands.count b + (held n.pc).count b) :
    Buffers r { n.setDtq { n.q with mqefree := a :: n.q.mqefree } with
      hands := hands, pc := pc } := by
  refine h.same rfl (fun b => ?_) rfl rfl rfl
  have hb := hcount b
  change stock { n.q with mqefree := a :: n.q.mqefree } b +
    ((sending n).map Mqe.addr).count b + hands.count b + (held pc).count b = uses n b
  rw [stock_free, uses]
  omega

/-- A buffer that is allocated comes into the hands of a thread. -/
theorem buffers_alloc (h : Buffers r n) {q : Dtq} {hands : List ℕ} {pc : MpiPc}
    (hq : dtqMqeAlloc n.q = (some a, q))
    (hcount : ∀ b, hands.count b + (held pc).count b =
      n.hands.count b + (held n.pc).count b + [a].count b) :
    Buffers r { n.setDtq q with hands := hands, pc := pc } := by
  obtain ⟨hsendq, hrecvq⟩ := mqeAlloc_lists hq
  refine h.same rfl (fun b => ?_) hsendq hrecvq rfl
  have hstock := stock_mqeAlloc b hq
  have hb := hcount b
  change stock q b + ((sending n).map Mqe.addr).count b + hands.count b + (held pc).count b =
    uses n b
  rw [uses]
  omega

theorem buffers_pc (h : Buffers r n) {pc : MpiPc} {mts : Mts MpiReq} {stop : Bool}
    (hheld : held pc = held n.pc) :
    Buffers r { n with mts := mts, pc := pc, stop := stop } := by
  refine h.same rfl (fun b => ?_) rfl rfl rfl
  change stock n.q b + ((sending n).map Mqe.addr).count b + n.hands.count b +
    (held pc).count b = uses n b
  rw [hheld]
  rfl

theorem buffers_sendRelease (h : Buffers r n) {pc : MpiPc} {mts : Mts MpiReq}
    (hin : n.mqeAt a ∈ sending n) (hheld : held pc = held n.pc) :
    Buffers r { n.sendRelease a with mts := mts, pc := pc } := by
  have hq : (n.sendRelease a).q = (dtqSendRelease n.q a).2 := sendRelease_q n.threads (n.mqeAt a)
  have hsending : sending (n.sendRelease a) = (sending n).erase (n.mqeAt a) :=
    sendRelease_sending n.threads (n.mqeAt a)
  obtain ⟨hsendq, hrecvq⟩ := sendRelease_lists n.q a
  refine h.move rfl (fun b => ?_) (fun m hm => Or.inl ?_) (fun m hm => Or.inl ?_)
  · have hstock := stock_sendRelease b n.q a
    have hcount : (((sending n).erase (n.mqeAt a)).map Mqe.addr).count b + [a].count b =
        ((sending n).map Mqe.addr).count b := count_map_erase Mqe.addr hin b
    change stock (n.sendRelease a).q b + ((sending (n.sendRelease a)).map Mqe.addr).count b +
      n.hands.count b + (held pc).count b = uses n b
    rw [uses, hq, hsending, hheld]
    omega
  · change m ∈ (n.sendRelease a).q.mpisendq ∨ m ∈ (n.sendRelease a).q.mpirecvq ∨
      m ∈ sending (n.sendRelease a) at hm
    rw [hq, hsendq, hrecvq, hsending] at hm
    exact hm.imp_right (Or.imp_right List.mem_of_mem_erase)
  · change m ∈ (n.sendRelease a).q.mpisendq ∨ m ∈ sending (n.sendRelease a) at hm
    rw [hq, hsendq, hsending] at hm
    exact hm.imp_right List.mem_of_mem_erase

theorem buffers_sendDequeue (h : Buffers r n) {pc : MpiPc} {rest : List Mqe}
    (hcons : n.q.mpisendq = m :: rest) (hheld : held pc = held n.pc) :
    Buffers r { n with
      threads := { n.threads with sends := n.threads.sends.dequeue }, pc := pc } := by
  have hdeq : n.threads.sends.dequeue = { n.threads.sends with
      q := { n.q with
        mpisendq := rest
        mpisqlen := n.q.mpisqlen - 1
        mpindequeuedsends := n.q.mpindequeuedsends + 1 }
      sending := sending n ++ [m] } := by
    have hcons' : n.threads.sends.q.mpisendq = m :: rest := hcons
    simp only [Sends.dequeue, dtqSendDequeue, hcons']
    rfl
  rw [hdeq]
  refine h.move rfl (fun b => ?_) (fun m' hm' => Or.inl ?_) (fun m' hm' => Or.inl ?_)
  · have hstock : stock { n.q with mpisendq := rest } b + [m.addr].count b = stock n.q b := by
      simp only [stock, places, hcons, List.map_cons]
      rw [count_cons_singleton m.addr (rest.map Mqe.addr)]
      omega
    change stock { n.q with mpisendq := rest } b + ((sending n ++ [m]).map Mqe.addr).count b +
      n.hands.count b + (held pc).count b = uses n b
    rw [uses, List.map_append, List.count_append, hheld, ← hstock]
    simp only [List.map_cons, List.map_nil]
    omega
  · change m' ∈ rest ∨ m' ∈ n.q.mpirecvq ∨ m' ∈ sending n ++ [m] at hm'
    rw [List.mem_append, List.mem_singleton] at hm'
    rcases hm' with hin | hin | hin | rfl
    · exact Or.inl (hcons ▸ List.mem_cons_of_mem m hin)
    · exact Or.inr (Or.inl hin)
    · exact Or.inr (Or.inr hin)
    · exact Or.inl (hcons ▸ List.mem_cons_self)
  · change m' ∈ rest ∨ m' ∈ sending n ++ [m] at hm'
    rw [List.mem_append, List.mem_singleton] at hm'
    rcases hm' with hin | hin | rfl
    · exact Or.inl (hcons ▸ List.mem_cons_of_mem m hin)
    · exact Or.inr hin
    · exact Or.inl (hcons ▸ List.mem_cons_self)

theorem buffers_recvEnqueue (h : Buffers r n) (hpc : n.pc = .recvEnqueue a) :
    Buffers r { n with threads := n.threads.recvEnqueue (n.mqeAt a), pc := .test } := by
  have hq := recvEnqueue_q n.threads (n.mqeAt a)
  have hsending := recvEnqueue_sending n.threads (n.mqeAt a)
  refine h.move rfl (fun b => ?_) (fun m hm => ?_) (fun m hm => Or.inl ?_)
  · have hstock : stock (dtqRecvEnqueue n.threads.q (n.mqeAt a)) b = stock n.q b + [a].count b :=
      stock_recvEnqueue b n.q (n.mqeAt a)
    change stock (n.threads.recvEnqueue (n.mqeAt a)).q b +
      ((n.threads.recvEnqueue (n.mqeAt a)).sends.sending.map Mqe.addr).count b +
      n.hands.count b + List.count b [] = uses n b
    rw [hq, hsending, hstock, uses, hpc]
    simp only [held, sending, List.count_nil]
    omega
  · change m ∈ (n.threads.recvEnqueue (n.mqeAt a)).q.mpisendq ∨
      m ∈ (n.threads.recvEnqueue (n.mqeAt a)).q.mpirecvq ∨
      m ∈ (n.threads.recvEnqueue (n.mqeAt a)).sends.sending at hm
    rw [hq, hsending] at hm
    change m ∈ n.q.mpisendq ∨ m ∈ n.q.mpirecvq ++ [n.mqeAt a] ∨ m ∈ sending n at hm
    rw [List.mem_append, List.mem_singleton] at hm
    rcases hm with hm | (hm | rfl) | hm
    · exact Or.inl (Or.inl hm)
    · exact Or.inl (Or.inr (Or.inl hm))
    · exact Or.inr rfl
    · exact Or.inl (Or.inr (Or.inr hm))
  · change m ∈ (n.threads.recvEnqueue (n.mqeAt a)).q.mpisendq ∨
      m ∈ (n.threads.recvEnqueue (n.mqeAt a)).sends.sending at hm
    rw [hq, hsending] at hm
    exact hm

theorem SameMqes.stock {t t' : Threads} (h : SameMqes t t') (b : ℕ) :
    stock t'.q b = MpiBuffers.stock t.q b := by
  simp only [MpiBuffers.stock, places, h.mqefree, h.mpisendq, h.mpirecvq, h.nmqe]

theorem buffers_other (h : Buffers r n) {t : Threads} (hsame : SameMqes n.threads t) :
    Buffers r { n with threads := t } := by
  refine h.same rfl (fun b => ?_) hsame.mpisendq hsame.mpirecvq hsame.sending
  change stock t.q b + (t.sends.sending.map Mqe.addr).count b + n.hands.count b +
    (held n.pc).count b = uses n b
  rw [SameMqes.stock hsame, hsame.sending]
  rfl

theorem hands_erase (h : a ∈ n.hands) (b : ℕ) :
    (n.hands.erase a).count b + (held n.pc).count b + [a].count b =
      n.hands.count b + (held n.pc).count b := by
  have hcount := count_erase h b
  omega

theorem client_buffers (hb : Buffers r n) (hc : ClientStep r n ev n') : Buffers r n' := by
  cases hc with
  | mqeAlloc addr q hq =>
    have hcount (b : ℕ) : (addr :: n.hands).count b + (held n.pc).count b =
        n.hands.count b + (held n.pc).count b + [addr].count b := by
      rw [count_cons_singleton]
      omega
    exact buffers_alloc hb hq hcount
  | fill addr e hin => exact hb.write (Or.inl hin) e
  | mqeUnalloc addr hin => exact buffers_free hb (hands_erase hin)
  | recvRelease addr hin => exact buffers_free hb (hands_erase hin)
  | sendEnqueue addr hin hmgr => exact buffers_sendEnqueue hb hin
  | notifywait hmgr =>
    rcases notifywait_cases r n with ⟨he, hsame⟩ | ⟨he, -⟩
    · rw [he]
      exact buffers_other hb hsame
    · rw [he]
      exact buffers_takeWork hb
  | wake timed signaled hmgr => exact buffers_takeWork hb
  | other t ht hsame => exact buffers_other hb hsame
  | mpitStop hmgr => exact buffers_pc hb rfl

theorem thread_buffers (h : RankOk r n) (ht : ThreadStep n n') : Buffers r n' := by
  have hb := h.buffers
  cases ht with
  | testNothing hpc hrun hused => exact buffers_pc hb (by rw [hpc]; rfl)
  | release got firsthole i addr idxout hpc hi =>
    exact buffers_sendRelease hb (h.released hpc hi) (by rw [hpc]; rfl)
  | compact got firsthole hpc => exact buffers_pc hb (by rw [hpc]; rfl)
  | sendDequeue hpc =>
    rcases sendDequeue_cases n with he | ⟨m, rest, hcons, he, -⟩
    · rw [he]
      exact buffers_pc hb (by rw [hpc]; rfl)
    · rw [he]
      exact buffers_sendDequeue hb hcons (by rw [hpc]; rfl)
  | probeNothing hpc => exact buffers_pc hb (by rw [hpc]; rfl)
  | recvAlloc src count addr q hpc hq =>
    refine buffers_alloc hb hq fun b => ?_
    rw [hpc]
    simp only [held, List.count_nil, Rank.setDtq]
    omega
  | recvEnqueue addr hpc => exact buffers_recvEnqueue hb hpc
  | recvDrop addr hpc =>
    refine buffers_free hb fun b => ?_
    rw [hpc]
    simp only [held, List.count_nil, Rank.setDtq]
    omega
  | leave hpc hstop => exact buffers_pc hb (by rw [hpc]; rfl)
  | finalizeSlot lcv hpc hlt =>
    have hzero := h.finalizing_empty hpc
    omega
  | finalized lcv hpc hle => exact buffers_pc hb (by rw [hpc]; rfl)

/-- The arrays are left alone. -/
theorem Flight.same (h : Flight n) (hsending : sending n' = sending n) (hmts : n'.mts = n.mts)
    (htoSend : toSend n'.pc = toSend n.pc) (hok : MtsOk n.pc n.mts → MtsOk n'.pc n.mts) :
    Flight n' := by
  refine ⟨?_, ?_⟩
  · rw [hsending, hmts, htoSend]
    exact h.perm
  · rw [hmts]
    exact hok h.mts

theorem flight_release (h : RankOk r n) {got firsthole i : ℕ} {idxout : List ℕ}
    (hpc : n.pc = .releasing got firsthole (i :: idxout)) (hi : n.mts.slots.mqes i = some a) :
    Flight { n.sendRelease a with
      mts := n.mts.clearMqe i, pc := .releasing got (min firsthole i) idxout } := by
  have hmts := h.releasing hpc
  refine ⟨?_, hmts.release hi⟩
  have hold : ((sending n).map Mqe.addr).Perm (n.mts.entries.map Prod.fst) := by
    have hperm := h.flight.perm
    rwa [hpc] at hperm
  have hsend : ((sending n).map Mqe.addr).Perm
      (a :: ((sending n).erase (n.mqeAt a)).map Mqe.addr) :=
    (List.perm_cons_erase (h.released hpc hi)).map Mqe.addr
  have hslots : (n.mts.entries.map Prod.fst).Perm
      (a :: (n.mts.clearMqe i).entries.map Prod.fst) :=
    (entries_clearMqe (hmts.inUse i List.mem_cons_self) hi).map Prod.fst
  change ((n.threads.sendRelease (n.mqeAt a)).sends.sending.map Mqe.addr).Perm
    ((n.mts.clearMqe i).entries.map Prod.fst)
  rw [sendRelease_sending]
  exact ((hsend.symm.trans hold).trans hslots).cons_inv

theorem flight_sendDequeue (h : Flight n) (hpc : n.pc = .dequeue) : Flight n.sendDequeue := by
  have hfull : n.mts.Full := by
    have hmts := h.mts
    rwa [hpc] at hmts
  rcases sendDequeue_cases n with he | ⟨m, rest, hcons, he, -⟩
  · rw [he]
    exact h.same rfl rfl (by rw [hpc]; rfl) fun _ => hfull
  · rw [he]
    refine ⟨?_, hfull⟩
    have hperm := h.perm
    rw [hpc] at hperm
    have hsend : n.threads.sends.dequeue.sending = sending n ++ [m] := by
      have hcons' : n.threads.sends.q.mpisendq = m :: rest := hcons
      simp only [Sends.dequeue, dtqSendDequeue, hcons']
      rfl
    change (n.threads.sends.dequeue.sending.map Mqe.addr).Perm
      (m.addr :: n.mts.entries.map Prod.fst)
    rw [hsend, List.map_append]
    exact List.perm_append_comm.trans (hperm.cons m.addr)

theorem thread_flight (h : RankOk r n) (ht : ThreadStep n n') : Flight n' := by
  have hf := h.flight
  cases ht with
  | testNothing hpc hrun hused => exact hf.same rfl rfl (by rw [hpc]; rfl) (by rw [hpc]; exact id)
  | release got firsthole i addr idxout hpc hi => exact flight_release h hpc hi
  | compact got firsthole hpc =>
    obtain ⟨hfull, hperm⟩ := (h.releasing hpc).compact
    refine ⟨?_, hfull⟩
    have hold := hf.perm
    rw [hpc] at hold
    exact hold.trans (hperm.map Prod.fst).symm
  | sendDequeue hpc => exact flight_sendDequeue hf hpc
  | probeNothing hpc => exact hf.same rfl rfl (by rw [hpc]; rfl) (by rw [hpc]; exact id)
  | recvAlloc src count addr q hpc hq =>
    exact hf.same rfl rfl (by rw [hpc]; rfl) (by rw [hpc]; exact id)
  | recvEnqueue addr hpc =>
    exact hf.same (recvEnqueue_sending _ _) rfl (by rw [hpc]; rfl) (by rw [hpc]; exact id)
  | recvDrop addr hpc => exact hf.same rfl rfl (by rw [hpc]; rfl) (by rw [hpc]; exact id)
  | leave hpc hstop => exact hf.same rfl rfl (by rw [hpc]; rfl) (by rw [hpc]; exact id)
  | finalizeSlot lcv hpc hlt =>
    have hzero := h.finalizing_empty hpc
    omega
  | finalized lcv hpc hle => exact hf.same rfl rfl (by rw [hpc]; rfl) (by rw [hpc]; exact id)

/-- A manager that has left its loop does not come back. -/
theorem left_stays {t t' : Threads} (h : Wakeups.Step r t t') (hl : t.mgr = .left) :
    t'.mgr = .left := by
  have hnotify (u : Threads) (cond : Bool) (hu : u.mgr = .left) :
      (u.notify cond).mgr = .left := by
    cases cond with
    | false => exact hu
    | true => simp only [Threads.notify, if_true, hu, MgrPc.signal]
  cases h with
  | reqEnqueue req => exact hnotify _ _ hl
  | recvEnqueue mqe => exact hnotify _ _ hl
  | sendDequeue => exact hl
  | sendRelease mqe hmem => exact hnotify _ _ hl
  | freeLists q hq => exact hl
  | sendEnqueue mqe hrun => exact hnotify _ _ hl
  | draindown hrun => rw [hl] at hrun; cases hrun
  | timelimit hshut => rw [hl] at hshut; cases hshut
  | notifywait hrun => rw [hl] at hrun; cases hrun
  | wake timed signaled hb => rw [hl] at hb; cases hb
  | leave hrun hleave => rfl

/-- What holds of the threads of a rank, and of a manager that has left. -/
theorem RankOk.threads_step (h : RankOk r n)
    (ht : n'.threads = n.threads ∨ Wakeups.Step r n.threads n'.threads) :
    Wakeups.Reachable r n'.threads ∧ (n.threads.mgr = .left → n'.threads.mgr = .left) := by
  rcases ht with he | hs
  · rw [he]
    exact ⟨h.threads, id⟩
  · exact ⟨h.threads.tail hs, left_stays hs⟩

theorem client_ok (h : RankOk r n) (hc : ClientStep r n ev n') : RankOk r n' := by
  obtain ⟨hreach, hleft⟩ := h.threads_step (client_threads hc)
  have hf := client_frame h hc
  refine ⟨hreach, client_buffers h.buffers hc, ?_, ?_, ?_, ?_⟩
  · exact h.flight.same hf.sending hf.mts (by rw [hf.pc]) (by rw [hf.pc]; exact id)
  · intro a ha
    rw [hf.pc] at ha
    rw [hf.memory a (Or.inl (by rw [ha]; exact List.mem_singleton_self a))]
    exact h.arrived a ha
  · intro hs
    rcases hf.stop with hsame | ⟨-, hmgr⟩
    · exact hleft (h.stopped (hsame ▸ hs))
    · exact hleft hmgr
  · intro lcv hlcv
    rw [hf.pc] at hlcv
    rcases hf.stop with hsame | ⟨hs, -⟩
    · rw [hsame]
      exact h.finalizing lcv hlcv
    · exact hs

theorem thread_ok (h : RankOk r n) (ht : ThreadStep n n') : RankOk r n' := by
  obtain ⟨hreach, hleft⟩ := h.threads_step (thread_threads h ht)
  have hf := thread_frame h ht
  refine ⟨hreach, thread_buffers h ht, thread_flight h ht, ?_, ?_, ?_⟩
  · intro a ha
    exact absurd ha (hf.arrived a)
  · intro hs
    exact hleft (h.stopped (hf.stop ▸ hs))
  · intro lcv hlcv
    rw [hf.stop]
    exact hf.finalizing lcv hlcv

/-- An MPI call that is not a receive. -/
theorem RankOk.call (h : RankOk r n) {pc : MpiPc} {mts : Mts MpiReq}
    (hheld : held pc = held n.pc) (hflight : Flight { n with mts := mts, pc := pc })
    (harr : ∀ a, pc ≠ .recvEnqueue a) (hfin : ∀ lcv, pc ≠ .finalize lcv) :
    RankOk r { n with mts := mts, pc := pc } :=
  ⟨h.threads, buffers_pc h.buffers hheld, hflight, fun a ha => absurd ha (harr a), h.stopped,
    fun lcv hlcv => absurd hlcv (hfin lcv)⟩

theorem testsome_ok (h : RankOk r n) (hpc : n.pc = .test) {idxout : List ℕ}
    (hnodup : idxout.Nodup) (hin : ∀ i ∈ idxout, i < n.mts.nused) :
    RankOk r { n with mts := testsome n.mts idxout, pc := World.testPc idxout } := by
  have hperm := h.flight.perm
  have hfull : n.mts.Full := by
    have hmts := h.flight.mts
    rwa [hpc] at hmts
  rw [hpc] at hperm
  cases idxout with
  | nil =>
    refine h.call (by rw [hpc]; rfl) ⟨?_, ?_⟩ nofun nofun
    · exact hperm.trans (by rw [entries_testsome_fst]; exact List.Perm.refl _)
    · change (testsome n.mts []).entries.length = n.mts.nused
      rw [← List.length_map Prod.fst, entries_testsome_fst, List.length_map, hfull]
  | cons i idxout =>
    refine h.call (by rw [hpc]; rfl) ⟨?_, releasing_testsome hfull hnodup hin⟩ nofun nofun
    exact hperm.trans (by rw [entries_testsome_fst]; exact List.Perm.refl _)

theorem isend_ok (h : RankOk r n) (hpc : n.pc = .isend a) (req : MpiReq) :
    RankOk r { n with mts := mpimtsAdd n.mts a req, pc := .probe } := by
  have hperm := h.flight.perm
  have hfull : n.mts.Full := by
    have hmts := h.flight.mts
    rwa [hpc] at hmts
  rw [hpc] at hperm
  refine h.call (by rw [hpc]; rfl) ⟨?_, full_mpimtsAdd hfull a req⟩ nofun nofun
  change ((sending n).map Mqe.addr).Perm ((mpimtsAdd n.mts a req).entries.map Prod.fst)
  rw [entries_mpimtsAdd, List.map_append]
  exact hperm.trans List.perm_append_comm

theorem probe_ok (h : RankOk r n) (hpc : n.pc = .probe) (src count : ℕ) :
    RankOk r { n with pc := if count < 1 then .exited else .recvAlloc src count } := by
  have hflight := h.flight
  split
  · exact h.call (by rw [hpc]; rfl)
      (hflight.same rfl rfl (by rw [hpc]; rfl) (by rw [hpc]; exact id)) nofun nofun
  · exact h.call (by rw [hpc]; rfl)
      (hflight.same rfl rfl (by rw [hpc]; rfl) (by rw [hpc]; exact id)) nofun nofun

/-- A received message comes from another rank. -/
theorem recv_ok (h : RankOk r n) {src count : ℕ} (hpc : n.pc = .recv a src count) {e : Entry}
    (hsrc : e.peer ≠ r) :
    RankOk r { n with mem := Function.update n.mem a e, pc := .recvEnqueue a } := by
  have hheld : held (.recvEnqueue a) = held n.pc := by
    rw [hpc]
    rfl
  have hin : a ∈ held n.pc := hheld ▸ List.mem_singleton_self a
  have hb : Buffers r { n with mem := Function.update n.mem a e, pc := .recvEnqueue a } :=
    buffers_pc (h.buffers.write (Or.inr hin) e) hheld
  refine ⟨h.threads, hb, ?_, ?_, h.stopped, nofun⟩
  · exact h.flight.same rfl rfl (by rw [hpc]; rfl) (by rw [hpc]; exact id)
  · intro b hb
    obtain rfl : a = b := MpiPc.recvEnqueue.inj hb
    change (Function.update n.mem a e a).peer ≠ r
    rwa [Function.update_self]

end Dthread.MpiBuffers
