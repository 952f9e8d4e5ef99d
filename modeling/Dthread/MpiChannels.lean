import Dthread.MpiBuffers

/-!
The channel between two managers. The frames that one has queued for the other
and that were not handed over yet lie, from front to back, in the receive queue,
in the MPI thread that received last, in MPI, in the MPI thread that sends and
in the send queue. Every step of the ranks and of MPI keeps this list, puts a
frame behind it or takes the first one off.
-/
namespace Dthread.MpiChannels

open ReqMsg Queuing SendDrain Wakeups MpiTestsome MpiSystem MpiBuffers FifoChannels

/-- The message that an MPI thread has received and not queued yet. -/
def arriving (n : Rank) : List Mqe :=
  match n.pc with
  | .recvEnqueue addr => [n.mqeAt addr]
  | _ => []

def incoming (n : Rank) : List Mqe := n.q.mpirecvq ++ arriving n

def outgoing (n : Rank) : List Mqe := (toSend n.pc).map n.mqeAt ++ n.q.mpisendq

/-- The frame of a message in MPI, read from the buffer if MPI has not done so. -/
def content (mem : ℕ → Entry) (m : Message) : Frame :=
  { m.data.getD (mem m.addr).frame with flen := m.count }

def onWire (mem : ℕ → Entry) (c : Channel) : List Frame := (c.msgs.drop c.taken).map (content mem)

def framesOf (peer : ℕ) (l : List Mqe) : List Frame :=
  (l.filter fun m => m.peer = peer).map Mqe.frame

/-- The frames between the managers of two ranks. -/
def pending (s : World) (c : ℕ × ℕ) : List Frame :=
  framesOf c.1 (incoming (s.rank c.2)) ++
    (onWire (s.rank c.1).mem (s.chan c.1 c.2) ++ framesOf c.2 (outgoing (s.rank c.1)))

/-- What a step between MPI calls does to the messages at a rank. -/
inductive Moves (r : ℕ) (n n' : Rank) : Option Event → Prop
  | quiet (hin : incoming n' = incoming n) (hout : outgoing n' = outgoing n) : Moves r n n' none
  -- a message to the own rank is queued ahead of one that has just arrived
  | loop (m : Mqe) (pre post : List Mqe) (hpeer : m.peer = r) (hold : incoming n = pre ++ post)
      (hnew : incoming n' = pre ++ m :: post) (hpost : ∀ x ∈ post, x.peer ≠ r)
      (hout : outgoing n' = outgoing n) : Moves r n n' (some (.put (r, m.peer) m.frame))
  | send (m : Mqe) (hpeer : m.peer ≠ r) (hin : incoming n' = incoming n)
      (hout : outgoing n' = outgoing n ++ [m]) :
      Moves r n n' (some (.put (r, m.peer) m.frame))
  | hand (m : Mqe) (hin : incoming n = m :: incoming n') (hout : outgoing n' = outgoing n) :
      Moves r n n' (some (.take (m.peer, r) m.frame))

variable {r : ℕ} {n n' : Rank} {ev : Option Event}

section Frames

variable (peer : ℕ) (l l' : List Mqe) (m : Mqe)

@[simp] theorem framesOf_nil : framesOf peer [] = [] := rfl

@[simp] theorem framesOf_append :
    framesOf peer (l ++ l') = framesOf peer l ++ framesOf peer l' := by
  simp [framesOf]

@[simp] theorem framesOf_cons :
    framesOf peer (m :: l) = (if m.peer = peer then [m.frame] else []) ++ framesOf peer l := by
  by_cases h : m.peer = peer <;> simp [framesOf, h]

theorem framesOf_eq_nil {peer : ℕ} {l : List Mqe} (h : ∀ m ∈ l, m.peer ≠ peer) :
    framesOf peer l = [] := by
  simp only [framesOf, List.map_eq_nil_iff, List.filter_eq_nil_iff]
  intro m hm
  simpa using h m hm

end Frames

theorem arriving_away (h : RankOk r n) : ∀ m ∈ arriving n, m.peer ≠ r := by
  intro m hm
  unfold arriving at hm
  split at hm
  next addr hpc =>
    obtain rfl := List.mem_singleton.mp hm
    exact h.arrived addr hpc
  next => cases hm

theorem outgoing_away (h : RankOk r n) : ∀ m ∈ outgoing n, m.peer ≠ r := by
  intro m hm
  rcases List.mem_append.mp hm with hm | hm
  · obtain ⟨a, ha, rfl⟩ := List.mem_map.mp hm
    exact h.buffers.away _ (Or.inr (h.mqeAt_sending (List.mem_append_left _ ha)))
  · exact h.buffers.away m (Or.inl hm)

theorem arriving_congr (hpc : n'.pc = n.pc) (hmem : ∀ a ∈ held n.pc, n'.mem a = n.mem a) :
    arriving n' = arriving n := by
  unfold arriving
  rw [hpc]
  split
  next addr ha =>
    rw [Rank.mqeAt, Rank.mqeAt, hmem addr (by rw [ha]; exact List.mem_singleton_self addr)]
  next => rfl

theorem leaving_congr (hpc : n'.pc = n.pc) (hmem : ∀ a ∈ toSend n.pc, n'.mem a = n.mem a) :
    (toSend n'.pc).map n'.mqeAt = (toSend n.pc).map n.mqeAt := by
  rw [hpc]
  refine List.map_congr_left fun a ha => ?_
  rw [Rank.mqeAt, Rank.mqeAt, hmem a ha]

/-- Neither the queues nor the messages at the MPI thread change. -/
theorem Moves.same (hrecvq : n'.q.mpirecvq = n.q.mpirecvq) (hsendq : n'.q.mpisendq = n.q.mpisendq)
    (harr : arriving n' = arriving n)
    (hleave : (toSend n'.pc).map n'.mqeAt = (toSend n.pc).map n.mqeAt) : Moves r n n' none := by
  refine .quiet ?_ ?_
  · rw [incoming, incoming, hrecvq, harr]
  · rw [outgoing, outgoing, hsendq, hleave]

/-- A client's step that leaves the queues and the memory alone. -/
theorem Moves.client (hrecvq : n'.q.mpirecvq = n.q.mpirecvq)
    (hsendq : n'.q.mpisendq = n.q.mpisendq) (hpc : n'.pc = n.pc) (hmem : n'.mem = n.mem) :
    Moves r n n' none :=
  .same hrecvq hsendq (arriving_congr hpc fun a _ => congrFun hmem a)
    (leaving_congr hpc fun a _ => congrFun hmem a)

/-- The MPI thread moves on, with no message in its hands. -/
theorem Moves.thread (hrecvq : n'.q.mpirecvq = n.q.mpirecvq)
    (hsendq : n'.q.mpisendq = n.q.mpisendq) (harr : arriving n = []) (hleave : toSend n.pc = [])
    (harr' : arriving n' = []) (hleave' : toSend n'.pc = []) : Moves r n n' none :=
  .same hrecvq hsendq (harr'.trans harr.symm) (by rw [hleave, hleave']; rfl)

theorem moves_fill (h : RankOk r n) {addr : ℕ} (hin : addr ∈ n.hands) (e : Entry) :
    Moves r n { n with mem := Function.update n.mem addr e } none := by
  refine .same rfl rfl (arriving_congr rfl fun a ha => ?_) (leaving_congr rfl fun a ha => ?_)
  · exact Function.update_of_ne (h.buffers.hand_ne_held hin ha) e n.mem
  · have hsend := h.mqeAt_sending (List.mem_append_left _ ha)
    have hne : a ≠ addr := h.buffers.not_listed (Or.inl hin) (Or.inr (Or.inr hsend))
    exact Function.update_of_ne hne e n.mem

theorem moves_sendEnqueue (h : RankOk r n) (addr : ℕ) :
    Moves r n (n.sendEnqueue r addr).2 (n.sendEnqueue r addr).1 := by
  obtain ⟨hthreads, hmem, -, hpc, -⟩ := sendEnqueue_same r n addr
  have hq : (n.sendEnqueue r addr).2.q = (dtqSendEnqueue r n.q (n.mqeAt addr)).2 := by
    rw [Rank.q, hthreads, sendEnqueue_q]
    rfl
  have harr : arriving (n.sendEnqueue r addr).2 = arriving n :=
    arriving_congr hpc fun a _ => congrFun hmem a
  have hleave := leaving_congr hpc fun a (_ : a ∈ toSend n.pc) => congrFun hmem a
  rcases sendEnqueue_cases r n addr with ⟨he, hdraining⟩ | ⟨q', he, hsent, hwhere⟩
  · have hev : (n.sendEnqueue r addr).1 = none := by rw [he]
    rw [hdraining] at hq
    rw [hev]
    exact .same (by rw [hq]) (by rw [hq]) harr hleave
  · have hev : (n.sendEnqueue r addr).1 =
        some (.put (r, (n.mqeAt addr).peer) (n.mqeAt addr).frame) := by rw [he]; rfl
    replace hq : (n.sendEnqueue r addr).2.q = q' := by rw [hq, hsent]
    rw [hev]
    rcases hwhere with ⟨hpeer, hrecvq, hsendq⟩ | ⟨hpeer, hrecvq, hsendq⟩
    · refine .loop (n.mqeAt addr) n.q.mpirecvq (arriving n) hpeer rfl ?_ (arriving_away h) ?_
      · rw [incoming, hq, hrecvq, harr, List.append_assoc]
        rfl
      · rw [outgoing, outgoing, hq, hsendq, hleave]
    · refine .send (n.mqeAt addr) hpeer ?_ ?_
      · rw [incoming, incoming, hq, hrecvq, harr]
      · rw [outgoing, outgoing, hq, hsendq, hleave, List.append_assoc]

theorem moves_takeWork (h : RankOk r n) : Moves r n (n.takeWork r).2 (n.takeWork r).1 := by
  obtain ⟨-, hmem, -, hpc, -⟩ := takeWork_same r n
  have harr : arriving (n.takeWork r).2 = arriving n :=
    arriving_congr hpc fun a _ => congrFun hmem a
  have hleave := leaving_congr hpc fun a (_ : a ∈ toSend n.pc) => congrFun hmem a
  obtain ⟨hsendq, hrecvq⟩ := reqDequeue_lists (dtqRecvDequeue n.q).2
  rw [← takeWork_q n r] at hsendq hrecvq
  rcases takeWork_cases r n with ⟨he, -, hdeq⟩ | ⟨m, rest, hcons, hdeq, he⟩
  · have hev : (n.takeWork r).1 = none := by rw [he]
    rw [hdeq] at hsendq hrecvq
    rw [hev]
    exact .same hrecvq hsendq harr hleave
  · -- the manager reads what the message was queued with
    have hsnap : n.mqeAt m.addr = m :=
      h.buffers.snap m (Or.inr (Or.inl (hcons ▸ List.mem_cons_self)))
    have hev : (n.takeWork r).1 = some (.take (m.peer, r) m.frame) := by
      rw [he, ← hsnap]
      rfl
    rw [hdeq] at hsendq hrecvq
    rw [hev]
    refine .hand m ?_ ?_
    · rw [incoming, incoming, hrecvq, harr, hcons]
      rfl
    · rw [outgoing, outgoing, hsendq, hleave]

theorem moves_sendDequeue (h : RankOk r n) (hpc : n.pc = .dequeue) :
    Moves r n n.sendDequeue none := by
  have harr : arriving n = [] := by rw [arriving, hpc]
  rcases sendDequeue_cases n with he | ⟨m, rest, hcons, he, hdeq⟩
  · rw [he]
    exact .thread rfl rfl harr (by rw [hpc]; rfl) rfl rfl
  · have hsnap : n.mqeAt m.addr = m := h.buffers.snap m (Or.inl (hcons ▸ List.mem_cons_self))
    have hq : n.threads.sends.dequeue.q = { n.q with
        mpisendq := rest
        mpisqlen := n.q.mpisqlen - 1
        mpindequeuedsends := n.q.mpindequeuedsends + 1 } := by
      have hcons' : n.threads.sends.q.mpisendq = m :: rest := hcons
      simp only [Sends.dequeue, dtqSendDequeue, hcons']
      rfl
    rw [he]
    refine .quiet ?_ ?_
    · change n.threads.sends.dequeue.q.mpirecvq ++ [] = incoming n
      rw [hq, incoming, harr]
    · -- the message stays first, in the hands of the MPI thread
      change n.mqeAt m.addr :: n.threads.sends.dequeue.q.mpisendq = outgoing n
      rw [hq, hsnap, outgoing, hpc, hcons]
      rfl

theorem client_moves (h : RankOk r n) (hc : ClientStep r n ev n') : Moves r n n' ev := by
  cases hc with
  | mqeAlloc addr q hq =>
    obtain ⟨hsendq, hrecvq⟩ := mqeAlloc_lists hq
    exact .client hrecvq hsendq rfl rfl
  | fill addr e hin => exact moves_fill h hin e
  | mqeUnalloc addr hin => exact .client rfl rfl rfl rfl
  | recvRelease addr hin => exact .client rfl rfl rfl rfl
  | sendEnqueue addr hin hmgr => exact moves_sendEnqueue h addr
  | notifywait hmgr =>
    rcases notifywait_cases r n with ⟨he, hsame⟩ | ⟨he, -⟩
    · rw [he]
      exact .client hsame.mpirecvq hsame.mpisendq rfl rfl
    · rw [he]
      exact moves_takeWork h
  | wake timed signaled hmgr => exact moves_takeWork h
  | other t ht hsame => exact .client hsame.mpirecvq hsame.mpisendq rfl rfl
  | mpitStop hmgr => exact .client rfl rfl rfl rfl

theorem thread_moves (h : RankOk r n) (ht : ThreadStep n n') : Moves r n n' none := by
  cases ht with
  | testNothing hpc hrun hused =>
    exact .thread rfl rfl (by rw [arriving, hpc]) (by rw [hpc]; rfl) rfl rfl
  | release got firsthole i addr idxout hpc hi =>
    obtain ⟨hsendq, hrecvq⟩ := sendRelease_lists n.q addr
    have hq : (n.sendRelease addr).q = (dtqSendRelease n.q addr).2 :=
      sendRelease_q n.threads (n.mqeAt addr)
    rw [← hq] at hsendq hrecvq
    exact .thread hrecvq hsendq (by rw [arriving, hpc]) (by rw [hpc]; rfl) rfl rfl
  | compact got firsthole hpc =>
    exact .thread rfl rfl (by rw [arriving, hpc]) (by rw [hpc]; rfl) rfl rfl
  | sendDequeue hpc => exact moves_sendDequeue h hpc
  | probeNothing hpc => exact .thread rfl rfl (by rw [arriving, hpc]) (by rw [hpc]; rfl) rfl rfl
  | recvAlloc src count addr q hpc hq =>
    obtain ⟨hsendq, hrecvq⟩ := mqeAlloc_lists hq
    exact .thread hrecvq hsendq (by rw [arriving, hpc]) (by rw [hpc]; rfl) rfl rfl
  | recvEnqueue addr hpc =>
    have hq := recvEnqueue_q n.threads (n.mqeAt addr)
    refine .quiet ?_ ?_
    · change (n.threads.recvEnqueue (n.mqeAt addr)).q.mpirecvq ++ [] = incoming n
      rw [hq, incoming, arriving, hpc, List.append_nil]
      rfl
    · change (n.threads.recvEnqueue (n.mqeAt addr)).q.mpisendq = outgoing n
      rw [hq, outgoing, hpc]
      rfl
  | recvDrop addr hpc => exact .thread rfl rfl (by rw [arriving, hpc]) (by rw [hpc]; rfl) rfl rfl
  | leave hpc hstop => exact .thread rfl rfl (by rw [arriving, hpc]) (by rw [hpc]; rfl) rfl rfl
  | finalizeSlot lcv hpc hlt =>
    have hzero := h.finalizing_empty hpc
    omega
  | finalized lcv hpc hle =>
    exact .thread rfl rfl (by rw [arriving, hpc]) (by rw [hpc]; rfl) rfl rfl

/-- The messages from one rank to another. Those that MPI has not read belong to
requests that are tested, and the one being received is the next. -/
structure ChanOk (s : World) (src dst : ℕ) : Prop where
  unread : ∀ k m, (s.chan src dst).msgs[k]? = some m → m.data = none →
    (m.addr, some (dst, k)) ∈ (s.rank src).mts.entries
  fits : ∀ m ∈ (s.chan src dst).msgs, m.count ≤ DTQ_MAXMSGSIZE
  taken_le : (s.chan src dst).taken ≤ (s.chan src dst).msgs.length
  loop : src = dst → (s.chan src dst).msgs = []
  next : ∀ count, receiving (s.rank dst).pc = some (src, count) →
    ∃ m, (s.chan src dst).msgs[(s.chan src dst).taken]? = some m ∧ m.count = count

structure WorldOk (s : World) : Prop where
  rank : ∀ r, RankOk r (s.rank r)
  chan : ∀ src dst, ChanOk s src dst

variable {s s' : World} {src dst : ℕ}

/-- What MPI relies on when a rank takes a step: requests that are not complete
stay in the arrays, the buffers of sends are not written to, and what is being
received is the next message. -/
structure Keeps (s : World) (r : ℕ) (n' : Rank) : Prop where
  requests : ∀ a req, ¬ s.Complete r req → (a, some req) ∈ (s.rank r).mts.entries →
    (a, some req) ∈ n'.mts.entries
  memory : ∀ a ∈ (sending (s.rank r)).map Mqe.addr, n'.mem a = (s.rank r).mem a
  next : ∀ src count, receiving n'.pc = some (src, count) →
    ∃ m, (s.chan src r).msgs[(s.chan src r).taken]? = some m ∧ m.count = count

theorem ByClient.keeps (hf : ByClient (s.rank r) n') (h : WorldOk s) : Keeps s r n' := by
  refine ⟨fun _ _ _ ha => hf.mts ▸ ha, fun a ha => hf.memory a (Or.inr ha), ?_⟩
  intro src count hx
  exact (h.chan src r).next count (hf.pc ▸ hx)

theorem ByThread.keeps (hf : ByThread (s.rank r) n') (h : WorldOk s) : Keeps s r n' := by
  refine ⟨fun a req _ => hf.requests a req, fun a _ => congrFun hf.memory a, ?_⟩
  intro src count hx
  exact (h.chan src r).next count (hf.receiving _ hx)

theorem not_complete {k : ℕ} {m : Message} (hm : (s.chan src dst).msgs[k]? = some m)
    (hdata : m.data = none) : ¬ s.Complete src (dst, k) := by
  rintro ⟨m', d, hm', hd⟩
  obtain rfl : m = m' := Option.some.inj (hm.symm.trans hm')
  rw [hdata] at hd
  cases hd

/-- MPI has yet to read the buffers of sends in progress only. -/
theorem ChanOk.unread_sending (h : ChanOk s src dst) (hr : RankOk src (s.rank src)) {m : Message}
    (hm : m ∈ (s.chan src dst).msgs) (hdata : m.data = none) :
    m.addr ∈ (sending (s.rank src)).map Mqe.addr := by
  obtain ⟨k, hk⟩ := List.mem_iff_getElem?.mp hm
  have hentry := h.unread k m hk hdata
  exact hr.flight.perm.mem_iff.mpr
    (List.mem_append_right _ (List.mem_map.mpr ⟨_, hentry, rfl⟩))

theorem content_congr {mem mem' : ℕ → Entry} {m : Message}
    (h : m.data = none → mem' m.addr = mem m.addr) : content mem' m = content mem m := by
  unfold content
  cases hd : m.data with
  | none => rw [h hd]
  | some d => rfl

/-- What is in MPI does not change while the buffers of sends are left alone. -/
theorem onWire_keeps (h : ChanOk s src dst) (hr : RankOk src (s.rank src))
    (hk : Keeps s src n') :
    onWire n'.mem (s.chan src dst) = onWire (s.rank src).mem (s.chan src dst) := by
  refine List.map_congr_left fun m hm => content_congr fun hdata => ?_
  exact hk.memory m.addr (h.unread_sending hr (List.mem_of_mem_drop hm) hdata)

/-- A step of one rank that MPI does not notice. -/
theorem worldOk_setRank (h : WorldOk s) (hr : RankOk r n') (hk : Keeps s r n') :
    WorldOk (s.setRank r n') := by
  refine ⟨fun k => ?_, fun src dst => ?_⟩
  · by_cases hkr : k = r
    · subst hkr
      rwa [World.setRank_self]
    · rw [World.setRank_of_ne _ _ _ hkr]
      exact h.rank k
  · have hc := h.chan src dst
    refine ⟨?_, hc.fits, hc.taken_le, hc.loop, ?_⟩
    · intro k m hm hdata
      have hold := hc.unread k m hm hdata
      by_cases hsrc : src = r
      · subst hsrc
        rw [World.setRank_self]
        exact hk.requests _ _ (not_complete hm hdata) hold
      · rwa [World.setRank_of_ne _ _ _ hsrc]
    · intro count hcount
      by_cases hdst : dst = r
      · subst hdst
        rw [World.setRank_self] at hcount
        exact hk.next src count hcount
      · rw [World.setRank_of_ne _ _ _ hdst] at hcount
        exact hc.next count hcount

/-- The channel from its parts at the two ends and in MPI. -/
theorem pending_eq {l l' : List Mqe} {w : List Frame} (hin : incoming (s.rank dst) = l)
    (hwire : onWire (s.rank src).mem (s.chan src dst) = w) (hout : outgoing (s.rank src) = l') :
    pending s (src, dst) = framesOf src l ++ (w ++ framesOf dst l') := by
  rw [pending, hin, hwire, hout]

/-- A step of one rank, on the channels from and to it. -/
theorem fifo_setRank (h : WorldOk s) (hk : Keeps s r n')
    (hm : Moves r (s.rank r) n' ev) :
    FifoChannels.Step (pending s) ev (pending (s.setRank r n')) := by
  have hwire (src dst : ℕ) : onWire ((s.setRank r n').rank src).mem (s.chan src dst) =
      onWire (s.rank src).mem (s.chan src dst) := by
    by_cases hsrc : src = r
    · subst hsrc
      rw [World.setRank_self]
      exact onWire_keeps (h.chan src dst) (h.rank src) hk
    · rw [World.setRank_of_ne _ _ _ hsrc]
  have hsame {α : Type} (f : Rank → α) (hf : f n' = f (s.rank r)) (k : ℕ) :
      f ((s.setRank r n').rank k) = f (s.rank k) := by
    by_cases hkr : k = r
    · subst hkr
      rw [World.setRank_self, hf]
    · rw [World.setRank_of_ne _ _ _ hkr]
  rw [step_iff]
  rintro ⟨src, dst⟩
  cases hm with
  | quiet hin hout =>
    have hp : pending (s.setRank r n') (src, dst) = pending s (src, dst) :=
      pending_eq (hsame incoming hin dst) (hwire src dst) (hsame outgoing hout src)
    rw [hp]
    simp
  | loop m pre post hpeer hold hnew hpost hout =>
    have hout' := hsame outgoing hout src
    by_cases hdst : dst = r
    · subst hdst
      have hin' : incoming ((s.setRank dst n').rank dst) = pre ++ m :: post := by
        rw [World.setRank_self, hnew]
      rw [pending_eq hin' (hwire src dst) hout', pending_eq hold rfl rfl]
      by_cases hsrc : src = dst
      · -- nothing else is on the way from a rank to itself
        subst hsrc
        have hnil : onWire (s.rank src).mem (s.chan src src) = [] := by
          rw [onWire, (h.chan src src).loop rfl, List.drop_nil, List.map_nil]
        have hnone := framesOf_eq_nil (outgoing_away (h.rank src))
        simp [hnil, hnone, framesOf_eq_nil hpost, hpeer]
      · have hne : dst ≠ src := Ne.symm hsrc
        simp [hpeer, hne]
    · have hin' : incoming ((s.setRank r n').rank dst) = incoming (s.rank dst) := by
        rw [World.setRank_of_ne _ _ _ hdst]
      have hp : pending (s.setRank r n') (src, dst) = pending s (src, dst) :=
        pending_eq hin' (hwire src dst) hout'
      have hne : r ≠ dst := Ne.symm hdst
      rw [hp]
      simp [hpeer, hne]
  | send m hpeer hin hout =>
    have hin' := hsame incoming hin dst
    by_cases hsrc : src = r
    · subst hsrc
      have hout' : outgoing ((s.setRank src n').rank src) = outgoing (s.rank src) ++ [m] := by
        rw [World.setRank_self, hout]
      rw [pending_eq hin' (hwire src dst) hout', pending_eq rfl rfl rfl]
      simp
    · have hout' : outgoing ((s.setRank r n').rank src) = outgoing (s.rank src) := by
        rw [World.setRank_of_ne _ _ _ hsrc]
      have hp : pending (s.setRank r n') (src, dst) = pending s (src, dst) :=
        pending_eq hin' (hwire src dst) hout'
      have hne : r ≠ src := Ne.symm hsrc
      rw [hp]
      simp [hne]
  | hand m hin hout =>
    have hout' := hsame outgoing hout src
    by_cases hdst : dst = r
    · subst hdst
      have hin' : incoming ((s.setRank dst n').rank dst) = incoming n' := by
        rw [World.setRank_self]
      rw [pending_eq hin' (hwire src dst) hout', pending_eq hin rfl rfl]
      simp
    · have hin' : incoming ((s.setRank r n').rank dst) = incoming (s.rank dst) := by
        rw [World.setRank_of_ne _ _ _ hdst]
      have hp : pending (s.setRank r n') (src, dst) = pending s (src, dst) :=
        pending_eq hin' (hwire src dst) hout'
      have hne : r ≠ dst := Ne.symm hdst
      rw [hp]
      simp [hne]

theorem keeps_testsome {idxout : List ℕ}
    (hdone : ∀ i ∈ idxout, i < (s.rank r).mts.nused ∧
      ∃ req, (s.rank r).mts.slots.reqs i = some req ∧ s.Complete r req) :
    Keeps s r { s.rank r with
      mts := testsome (s.rank r).mts idxout, pc := World.testPc idxout } := by
  refine ⟨?_, fun _ _ => rfl, ?_⟩
  · intro a req hnot ha
    obtain ⟨i, hi, hentry⟩ := Slots.mem_entries.mp ha
    refine Slots.mem_entries.mpr ⟨i, hi, ?_⟩
    -- a slot that was reported has a completed request
    have hnotin : i ∉ idxout := by
      intro hin
      obtain ⟨-, req', hreq', hcomplete⟩ := hdone i hin
      obtain ⟨b, -, heq⟩ := Option.map_eq_some_iff.mp hentry
      rw [hreq'] at heq
      obtain rfl : req' = req := Option.some.inj (Prod.mk.inj heq).2
      exact hnot hcomplete
    simpa [testsome, Slots.entry, hnotin] using hentry
  · intro src count hx
    cases idxout <;> cases hx

theorem moves_testsome (hpc : n.pc = .test) (mts : Mts MpiReq) (idxout : List ℕ) :
    Moves r n { n with mts := mts, pc := World.testPc idxout } none := by
  refine .thread rfl rfl (by rw [arriving, hpc]) (by rw [hpc]; rfl) ?_ ?_
  · cases idxout <;> rfl
  · cases idxout <;> rfl

theorem keeps_probe {m : Message}
    (hm : (s.chan src r).msgs[(s.chan src r).taken]? = some m) :
    Keeps s r { s.rank r with
      pc := if m.count < 1 then .exited else .recvAlloc src m.count } := by
  refine ⟨fun _ _ _ ha => ha, fun _ _ => rfl, ?_⟩
  intro src' count hx
  dsimp only at hx
  split at hx
  · cases hx
  · obtain ⟨rfl, rfl⟩ : src = src' ∧ m.count = count := by simpa [receiving] using hx
    exact ⟨m, hm, rfl⟩

theorem moves_probe (hpc : n.pc = .probe) (src count : ℕ) :
    Moves r n { n with pc := if count < 1 then .exited else .recvAlloc src count } none := by
  split
  · exact .thread rfl rfl (by rw [arriving, hpc]) (by rw [hpc]; rfl) rfl rfl
  · exact .thread rfl rfl (by rw [arriving, hpc]) (by rw [hpc]; rfl) rfl rfl

/-- A change of one channel, with the rank at one of its ends. -/
theorem worldOk_setChan (h : WorldOk s) {c : Channel} (hc : ChanOk (s.setChan src dst c) src dst) :
    WorldOk (s.setChan src dst c) := by
  refine ⟨h.rank, fun src' dst' => ?_⟩
  by_cases heq : src' = src ∧ dst' = dst
  · obtain ⟨rfl, rfl⟩ := heq
    exact hc
  · have hold := h.chan src' dst'
    have hchan := s.setChan_of_ne src dst c heq
    refine ⟨?_, ?_, ?_, ?_, ?_⟩
    · rw [hchan]
      exact hold.unread
    · rw [hchan]
      exact hold.fits
    · rw [hchan]
      exact hold.taken_le
    · rw [hchan]
      exact hold.loop
    · rw [hchan]
      exact hold.next

section Isend

variable {a : ℕ}

/-- The sending rank after MPI_Isend and mpimts_add. -/
def sent (s : World) (r a : ℕ) : Rank :=
  { s.rank r with
    mts := mpimtsAdd (s.rank r).mts a
      (((s.rank r).mem a).peer, (s.chan r ((s.rank r).mem a).peer).msgs.length)
    pc := .probe }

theorem keeps_isend : Keeps s r (sent s r a) := by
  refine ⟨fun b req _ hb => ?_, fun _ _ => rfl, nofun⟩
  change _ ∈ (mpimtsAdd _ _ _).entries
  rw [entries_mpimtsAdd]
  exact List.mem_append_left _ hb

/-- A message is sent to another rank. -/
theorem isend_away (h : RankOk r n) (hpc : n.pc = .isend a) : (n.mem a).peer ≠ r := by
  have hin : n.mqeAt a ∈ outgoing n := by
    rw [outgoing, hpc]
    exact List.mem_append_left _ (List.mem_singleton_self _)
  exact outgoing_away h _ hin

theorem worldOk_isend (h : WorldOk s) (hpc : (s.rank r).pc = .isend a) :
    WorldOk (s.isend r a) := by
  have h' := worldOk_setRank h (isend_ok (h.rank r) hpc _) (keeps_isend (s := s) (a := a))
  have hold := h'.chan r ((s.rank r).mem a).peer
  refine worldOk_setChan h' ⟨?_, ?_, ?_, ?_, ?_⟩
  · intro k m hm hdata
    rw [World.setChan_self] at hm
    rw [List.getElem?_append] at hm
    split at hm
    · exact hold.unread k m hm hdata
    next hge =>
      -- the new message, whose request was added last
      obtain ⟨hk, hm⟩ := List.getElem?_eq_some_iff.mp hm
      rw [List.length_singleton] at hk
      obtain rfl : k = (s.chan r ((s.rank r).mem a).peer).msgs.length := by omega
      simp only [Nat.sub_self, List.getElem_cons_zero] at hm
      rw [← hm, World.setChan_rank, World.setRank_self, entries_mpimtsAdd]
      exact List.mem_append_right _ (List.mem_singleton_self _)
  · intro m hm
    rw [World.setChan_self] at hm
    rcases List.mem_append.mp hm with hm | hm
    · exact hold.fits m hm
    · obtain rfl := List.mem_singleton.mp hm
      exact ((s.rank r).mem a).fits
  · rw [World.setChan_self]
    exact hold.taken_le.trans (by simp)
  · intro heq
    exact absurd heq.symm (isend_away (h.rank r) hpc)
  · intro count hcount
    obtain ⟨m, hm, hlen⟩ := hold.next count hcount
    rw [World.setChan_self]
    have hlt := (List.getElem?_eq_some_iff.mp hm).1
    exact ⟨m, (List.getElem?_append_left hlt).trans hm, hlen⟩

/-- The message that the MPI thread held is the last one in MPI. -/
theorem fifo_isend (h : WorldOk s) (hpc : (s.rank r).pc = .isend a) :
    FifoChannels.Step (pending s) none (pending (s.isend r a)) := by
  have hin (dst : ℕ) : incoming ((s.isend r a).rank dst) = incoming (s.rank dst) := by
    by_cases hdst : dst = r
    · subst hdst
      simp [World.isend, incoming, arriving, hpc, Rank.q]
    · simp [World.isend, hdst]
  rw [step_iff]
  rintro ⟨src, dst⟩
  simp only [Option.toList_none, puts_nil, takes_nil, List.append_nil, List.nil_append]
  by_cases hsrc : src = r
  · subst hsrc
    have hold : outgoing (s.rank src) = (s.rank src).mqeAt a :: (s.rank src).q.mpisendq := by
      rw [outgoing, hpc]
      rfl
    have hnew : outgoing ((s.isend src a).rank src) = (s.rank src).q.mpisendq := by
      simp [World.isend, outgoing, toSend, Rank.q]
    have hmem : ((s.isend src a).rank src).mem = (s.rank src).mem := by
      simp [World.isend]
    by_cases hdst : dst = ((s.rank src).mem a).peer
    · subst hdst
      have hchan : (s.isend src a).chan src ((s.rank src).mem a).peer =
          { s.chan src ((s.rank src).mem a).peer with
            msgs := (s.chan src ((s.rank src).mem a).peer).msgs ++
              [⟨a, ((s.rank src).mem a).frame.flen, none⟩] } := by
        simp [World.isend]
      have hwire : onWire ((s.isend src a).rank src).mem
            ((s.isend src a).chan src ((s.rank src).mem a).peer) =
          onWire (s.rank src).mem (s.chan src ((s.rank src).mem a).peer) ++
            [((s.rank src).mem a).frame] := by
        rw [hmem, hchan]
        simp only [onWire]
        rw [List.drop_append_of_le_length (h.chan src _).taken_le, List.map_append]
        rfl
      rw [pending_eq rfl rfl hold, pending_eq (hin _) hwire hnew]
      simp [Rank.mqeAt]
    · have hne : ((s.rank src).mem a).peer ≠ dst := Ne.symm hdst
      have hchan : (s.isend src a).chan src dst = s.chan src dst := by
        unfold World.isend
        exact World.setChan_of_ne _ _ _ _ fun heq => hdst heq.2
      rw [pending_eq rfl rfl hold, pending_eq (hin _) (by rw [hmem, hchan]) hnew]
      simp [Rank.mqeAt, hne]
  · have hrank : (s.isend r a).rank src = s.rank src := by
      simp [World.isend, hsrc]
    have hchan : (s.isend r a).chan src dst = s.chan src dst := by
      unfold World.isend
      exact World.setChan_of_ne _ _ _ _ fun heq => hsrc heq.1
    exact (pending_eq (hin _) (by rw [hrank, hchan]) (by rw [hrank])).symm

end Isend

section Fetch

variable {k : ℕ} {m : Message}

theorem getElem?_fetch {c : Channel} {m' : Message} (hm : c.msgs[k]? = some m) {j : ℕ}
    {x : Message} (hx : (c.msgs.set k m')[j]? = some x) :
    j = k ∧ x = m' ∨ c.msgs[j]? = some x := by
  by_cases hj : j = k
  · subst hj
    have hlt := (List.getElem?_eq_some_iff.mp hm).1
    rw [List.getElem?_set_self hlt] at hx
    exact Or.inl ⟨rfl, (Option.some.inj hx).symm⟩
  · rw [List.getElem?_set_ne (Ne.symm hj)] at hx
    exact Or.inr hx

theorem worldOk_fetch (h : WorldOk s) (hm : (s.chan src dst).msgs[k]? = some m) :
    WorldOk (s.fetch src dst k m) := by
  have hold := h.chan src dst
  refine worldOk_setChan h ⟨?_, ?_, ?_, ?_, ?_⟩
  · intro j x hx hdata
    rw [World.setChan_self] at hx
    rcases getElem?_fetch hm hx with ⟨-, rfl⟩ | hx
    · cases hdata
    · exact hold.unread j x hx hdata
  · intro x hx
    rw [World.setChan_self] at hx
    obtain ⟨j, hj⟩ := List.mem_iff_getElem?.mp hx
    rcases getElem?_fetch hm hj with ⟨-, rfl⟩ | hj
    · exact hold.fits m (List.mem_of_getElem? hm)
    · exact hold.fits x (List.mem_of_getElem? hj)
  · rw [World.setChan_self, List.length_set]
    exact hold.taken_le
  · intro heq
    rw [World.setChan_self, hold.loop heq]
    rfl
  · intro count hcount
    obtain ⟨x, hx, hlen⟩ := hold.next count hcount
    rw [World.setChan_self]
    by_cases hk : (s.chan src dst).taken = k
    · subst hk
      obtain rfl : m = x := Option.some.inj (hm.symm.trans hx)
      have hlt := (List.getElem?_eq_some_iff.mp hm).1
      exact ⟨{ m with data := some ((s.rank src).mem m.addr).frame },
        List.getElem?_set_self hlt, hlen⟩
    · exact ⟨x, (List.getElem?_set_ne (Ne.symm hk)).trans hx, hlen⟩

/-- MPI reads what the buffer was sent with. -/
theorem onWire_fetch (mem : ℕ → Entry) {c : Channel} (hm : c.msgs[k]? = some m)
    (hdata : m.data = none) :
    onWire mem { c with msgs := c.msgs.set k { m with data := some (mem m.addr).frame } } =
      onWire mem c := by
  have hcontent : content mem { m with data := some (mem m.addr).frame } = content mem m := by
    simp [content, hdata]
  have hget : (c.msgs.map (content mem))[k]? = some (content mem m) := by
    rw [List.getElem?_map, hm]
    rfl
  simp only [onWire, List.map_drop, List.map_set, hcontent]
  congr 1
  obtain ⟨hlt, hval⟩ := List.getElem?_eq_some_iff.mp hget
  rw [← hval]
  exact List.set_getElem_self hlt

theorem fifo_fetch (hm : (s.chan src dst).msgs[k]? = some m) (hdata : m.data = none) :
    FifoChannels.Step (pending s) none (pending (s.fetch src dst k m)) := by
  rw [step_iff]
  rintro ⟨src', dst'⟩
  simp only [Option.toList_none, puts_nil, takes_nil, List.append_nil, List.nil_append]
  have hwire : onWire (s.rank src').mem ((s.fetch src dst k m).chan src' dst') =
      onWire (s.rank src').mem (s.chan src' dst') := by
    by_cases heq : src' = src ∧ dst' = dst
    · obtain ⟨rfl, rfl⟩ := heq
      rw [World.fetch, World.setChan_self]
      exact onWire_fetch _ hm hdata
    · rw [World.fetch, World.setChan_of_ne _ _ _ _ heq]
  have hp : pending (s.fetch src dst k m) (src', dst') = pending s (src', dst') :=
    pending_eq rfl hwire rfl
  exact hp.symm

end Fetch

section Recv

variable {a count : ℕ} {m : Message} {d : Frame}

/-- The receiving rank after MPI_Recv. -/
def received (s : World) (r a : ℕ) (e : Entry) : Rank :=
  { s.rank r with mem := Function.update (s.rank r).mem a e, pc := .recvEnqueue a }

/-- No message is longer than a buffer, so that none is dropped. -/
theorem recv_eq (h : WorldOk s) (hpc : (s.rank r).pc = .recv a src count)
    (hm : (s.chan src r).msgs[(s.chan src r).taken]? = some m) (hdata : m.data = some d) :
    ∃ e : Entry, e.peer = src ∧ e.frame = content (s.rank src).mem m ∧
      s.recv r a src count d = (s.setRank r (received s r a e)).setChan src r
        { s.chan src r with taken := (s.chan src r).taken + 1 } := by
  obtain ⟨m', hm', hlen⟩ := (h.chan src r).next count (by rw [hpc]; rfl)
  obtain rfl : m = m' := Option.some.inj (hm.symm.trans hm')
  have hfits : count ≤ DTQ_MAXMSGSIZE := hlen ▸ (h.chan src r).fits m (List.mem_of_getElem? hm)
  refine ⟨⟨src, { d with flen := count }, hfits⟩, rfl, ?_, ?_⟩
  · simp only [content, hdata, hlen, Option.getD_some]
  · unfold World.recv
    rw [dif_pos hfits]
    rfl

theorem recv_other (h : WorldOk s) (hm : (s.chan src r).msgs[(s.chan src r).taken]? = some m) :
    src ≠ r := by
  intro heq
  rw [(h.chan src r).loop heq] at hm
  cases hm

theorem keeps_recv (h : WorldOk s) (hpc : (s.rank r).pc = .recv a src count) (e : Entry) :
    Keeps s r (received s r a e) := by
  refine ⟨fun _ _ _ hb => hb, fun b hb => ?_, nofun⟩
  obtain ⟨m, hm, rfl⟩ := List.mem_map.mp hb
  have hin : a ∈ held (s.rank r).pc := by
    rw [hpc]
    exact List.mem_singleton_self a
  have hne := (h.rank r).buffers.not_listed (Or.inr hin) (Or.inr (Or.inr hm))
  exact Function.update_of_ne hne e (s.rank r).mem

theorem worldOk_recv (h : WorldOk s) (hpc : (s.rank r).pc = .recv a src count)
    (hm : (s.chan src r).msgs[(s.chan src r).taken]? = some m) (hdata : m.data = some d) :
    WorldOk (s.recv r a src count d) := by
  obtain ⟨e, hpeer, -, heq⟩ := recv_eq h hpc hm hdata
  have hrank : RankOk r (received s r a e) :=
    recv_ok (h.rank r) hpc (by rw [hpeer]; exact recv_other h hm)
  have h' := worldOk_setRank h hrank (keeps_recv h hpc e)
  have hold := h'.chan src r
  rw [heq]
  refine worldOk_setChan h' ⟨?_, ?_, ?_, ?_, ?_⟩
  · rw [World.setChan_self]
    exact hold.unread
  · rw [World.setChan_self]
    exact hold.fits
  · rw [World.setChan_self]
    exact (List.getElem?_eq_some_iff.mp hm).1
  · rw [World.setChan_self]
    exact hold.loop
  · intro count hcount
    rw [World.setChan_rank, World.setRank_self] at hcount
    cases hcount

/-- The first message in MPI is the last one to arrive at its rank. -/
theorem fifo_recv (h : WorldOk s) (hpc : (s.rank r).pc = .recv a src count)
    (hm : (s.chan src r).msgs[(s.chan src r).taken]? = some m) (hdata : m.data = some d) :
    FifoChannels.Step (pending s) none (pending (s.recv r a src count d)) := by
  obtain ⟨e, hpeer, hframe, heq⟩ := recv_eq h hpc hm hdata
  have hk := keeps_recv h hpc e
  have hout (k : ℕ) : outgoing ((s.recv r a src count d).rank k) = outgoing (s.rank k) := by
    rw [heq, World.setChan_rank]
    by_cases hkr : k = r
    · subst hkr
      rw [World.setRank_self]
      simp [outgoing, received, toSend, hpc, Rank.q]
    · rw [World.setRank_of_ne _ _ _ hkr]
  have hmem (src' dst : ℕ) :
      onWire ((s.recv r a src count d).rank src').mem (s.chan src' dst) =
        onWire (s.rank src').mem (s.chan src' dst) := by
    rw [heq, World.setChan_rank]
    by_cases hkr : src' = r
    · subst hkr
      rw [World.setRank_self]
      exact onWire_keeps (h.chan src' dst) (h.rank src') hk
    · rw [World.setRank_of_ne _ _ _ hkr]
  rw [step_iff]
  rintro ⟨src', dst'⟩
  simp only [Option.toList_none, puts_nil, takes_nil, List.append_nil, List.nil_append]
  by_cases hdst : dst' = r
  · subst hdst
    have hold : arriving (s.rank dst') = [] := by rw [arriving, hpc]
    have hin : incoming ((s.recv dst' a src count d).rank dst') =
        incoming (s.rank dst') ++ [⟨a, src, e.frame⟩] := by
      rw [heq, World.setChan_rank, World.setRank_self, incoming, incoming, hold, List.append_nil]
      simp [received, arriving, Rank.mqeAt, Rank.q, hpeer]
    by_cases hsrc : src' = src
    · subst hsrc
      have hwire : onWire (s.rank src').mem (s.chan src' dst') = e.frame ::
          onWire ((s.recv dst' a src' count d).rank src').mem
            ((s.recv dst' a src' count d).chan src' dst') := by
        have hne := recv_other h hm
        obtain ⟨hlt, hval⟩ := List.getElem?_eq_some_iff.mp hm
        rw [hframe, heq, World.setChan_rank, World.setChan_self, World.setRank_of_ne _ _ _ hne]
        simp only [onWire]
        rw [List.drop_eq_getElem_cons hlt, hval, List.map_cons]
      rw [pending_eq rfl hwire rfl, pending_eq hin rfl (hout _)]
      simp
    · have hne : src ≠ src' := Ne.symm hsrc
      have hchan : (s.recv dst' a src count d).chan src' dst' = s.chan src' dst' := by
        rw [heq]
        exact World.setChan_of_ne _ _ _ _ fun he => hsrc he.1
      have hwire := hmem src' dst'
      rw [← hchan] at hwire
      rw [pending_eq rfl rfl rfl, pending_eq hin hwire (hout _), hchan]
      simp [hne]
  · have hin : incoming ((s.recv r a src count d).rank dst') = incoming (s.rank dst') := by
      rw [heq, World.setChan_rank, World.setRank_of_ne _ _ _ hdst]
    have hchan : (s.recv r a src count d).chan src' dst' = s.chan src' dst' := by
      rw [heq]
      exact World.setChan_of_ne _ _ _ _ fun he => hdst he.2
    exact (pending_eq hin (by rw [hchan]; exact hmem src' dst') (hout _)).symm

end Recv

/-- One step of the job: the invariant is kept, and the channels make a step of
first-in first-out channels. -/
theorem step_ok (h : WorldOk s) (hs : MpiSystem.Step s ev s') :
    WorldOk s' ∧ FifoChannels.Step (pending s) ev (pending s') := by
  cases hs with
  | client r ev n halive hc =>
    have hk := ByClient.keeps (client_frame (h.rank r) hc) h
    exact ⟨worldOk_setRank h (client_ok (h.rank r) hc) hk,
      fifo_setRank h hk (client_moves (h.rank r) hc)⟩
  | thread r n ht =>
    have hk := ByThread.keeps (thread_frame (h.rank r) ht) h
    exact ⟨worldOk_setRank h (thread_ok (h.rank r) ht) hk,
      fifo_setRank h hk (thread_moves (h.rank r) ht)⟩
  | testsome r idxout hpc hrun hused hnodup hdone =>
    have hk := keeps_testsome hdone
    exact ⟨worldOk_setRank h
        (testsome_ok (h.rank r) hpc hnodup fun i hi => (hdone i hi).1) hk,
      fifo_setRank h hk (moves_testsome hpc _ idxout)⟩
  | isend r a hpc => exact ⟨worldOk_isend h hpc, fifo_isend h hpc⟩
  | fetch src dst k m hm hdata => exact ⟨worldOk_fetch h hm, fifo_fetch hm hdata⟩
  | probe r src m hpc hm =>
    have hk := keeps_probe hm
    exact ⟨worldOk_setRank h (probe_ok (h.rank r) hpc src m.count) hk,
      fifo_setRank h hk (moves_probe hpc src m.count)⟩
  | recv r a src count m d hpc hm hdata =>
    exact ⟨worldOk_recv h hpc hm hdata, fifo_recv h hpc hm hdata⟩

theorem rankOk_initial (h : Initial s) (r : ℕ) : RankOk r (s.rank r) := by
  have hq : (s.rank r).q = dtqInit := by
    rw [Rank.q, h.threads r]
    rfl
  have hsending : sending (s.rank r) = [] := by
    rw [sending, h.threads r]
    rfl
  refine ⟨?_, ⟨?_, ?_, ?_⟩, ⟨?_, ?_⟩, ?_, ?_, ?_⟩
  · rw [h.threads r]
    exact .refl
  · intro a
    rw [uses, hq, hsending, h.hands r, h.pc r]
    simp [stock, BufferDisposal.places, dtqInit, held]
  · intro m hm
    rw [Listed, hq, hsending] at hm
    simp [dtqInit] at hm
  · intro m hm
    rw [hq, hsending] at hm
    simp [dtqInit] at hm
  · rw [hsending, h.pc r, h.mts r]
    exact List.Perm.refl _
  · rw [h.pc r, h.mts r]
    rfl
  · intro a ha
    rw [h.pc r] at ha
    cases ha
  · intro hs
    rw [h.stop r] at hs
    cases hs
  · intro lcv hlcv
    rw [h.pc r] at hlcv
    cases hlcv

theorem worldOk_initial (h : Initial s) : WorldOk s := by
  refine ⟨rankOk_initial h, fun src dst => ?_⟩
  refine ⟨?_, ?_, ?_, ?_, ?_⟩
  · intro k m hm
    rw [h.chan src dst] at hm
    cases hm
  · intro m hm
    rw [h.chan src dst] at hm
    cases hm
  · rw [h.chan src dst]
    exact Nat.le_refl 0
  · intro _
    rw [h.chan src dst]
  · intro count hcount
    rw [h.pc dst] at hcount
    cases hcount

theorem pending_initial (h : Initial s) : pending s = fun _ => [] := by
  funext c
  have hq (r : ℕ) : (s.rank r).q = dtqInit := by
    rw [Rank.q, h.threads r]
    rfl
  simp [pending, incoming, arriving, outgoing, onWire, hq, h.pc, h.chan, dtqInit, toSend]

/-- Every run is a run of first-in first-out channels with the same trace. -/
theorem run_fifo {tr : List Event} (h : MpiSystem.Run tr s) :
    WorldOk s ∧ FifoChannels.Run tr (pending s) := by
  induction h with
  | init hi =>
    refine ⟨worldOk_initial hi, ?_⟩
    rw [pending_initial hi]
    exact .init
  | snoc _ hs ih =>
    obtain ⟨hok, hfifo⟩ := step_ok ih.1 hs
    exact ⟨hok, ih.2.snoc hfifo⟩

/-- The channels between managers are first-in first-out: the frames that a
manager was handed from a sender, with their contents, lengths and sender, are
the first of those that the sender has queued for it. -/
theorem channel_refines_fifo {tr : List Event} (h : MpiSystem.Run tr s) :
    FifoChannels.Run tr (pending s) ∧
      ∀ src dst, takes (src, dst) tr <+: puts (src, dst) tr := by
  have hfifo := (run_fifo h).2
  exact ⟨hfifo, fun src dst => hfifo.takes_prefix (src, dst)⟩

/-- A job at its start, with every buffer holding the same message. -/
def startWorld : World where
  rank _ := ⟨Threads.init, fun _ => Entry.of 0 0 .bcastshutdown, [], mpimtsInit, .test, false⟩
  chan _ _ := ⟨[], 0⟩

/-- Rank 0 queues a STARTED for rank 1, both MPI threads carry it over, and the
manager of rank 1 is handed it. -/
theorem exists_delivered_run :
    ∃ tr s, MpiSystem.Run tr s ∧ takes (0, 1) tr = [Frame.of 7 (.started 0)] := by
  have h0 : MpiSystem.Run [] startWorld :=
    .init ⟨fun _ => rfl, fun _ => rfl, fun _ => rfl, fun _ => rfl, fun _ => rfl, fun _ _ => rfl⟩
  have h1 : MpiSystem.Run _ _ := h0.snoc (.client 0 none _ nofun (.mqeAlloc 0 _ rfl))
  have h2 : MpiSystem.Run _ _ := h1.snoc
    (.client 0 none _ nofun (.fill 0 (Entry.of 1 7 (.started 0)) (List.mem_singleton_self 0)))
  have h3 : MpiSystem.Run _ _ := h2.snoc
    (.client 0 _ _ nofun (.sendEnqueue 0 (List.mem_singleton_self 0) rfl))
  have h4 : MpiSystem.Run _ _ := h3.snoc (.thread 0 _ (.testNothing rfl rfl rfl))
  have h5 : MpiSystem.Run _ _ := h4.snoc (.thread 0 _ (.sendDequeue rfl))
  have h6 : MpiSystem.Run _ _ := h5.snoc (.isend 0 0 rfl)
  have h7 : MpiSystem.Run _ _ := h6.snoc (.fetch 0 1 0 ⟨0, 12, none⟩ rfl rfl)
  have h8 : MpiSystem.Run _ _ := h7.snoc (.thread 1 _ (.testNothing rfl rfl rfl))
  have h9 : MpiSystem.Run _ _ := h8.snoc (.thread 1 _ (.sendDequeue rfl))
  have h10 : MpiSystem.Run _ _ := h9.snoc
    (.probe 1 0 ⟨0, 12, some (Frame.of 7 (.started 0))⟩ rfl rfl)
  have h11 : MpiSystem.Run _ _ := h10.snoc (.thread 1 _ (.recvAlloc 0 12 0 _ rfl rfl))
  have h12 : MpiSystem.Run _ _ := h11.snoc
    (.recv 1 0 0 12 ⟨0, 12, some (Frame.of 7 (.started 0))⟩ _ rfl rfl rfl)
  have h13 : MpiSystem.Run _ _ := h12.snoc (.thread 1 _ (.recvEnqueue 0 rfl))
  have h14 : MpiSystem.Run _ _ := h13.snoc (.client 1 _ _ nofun (.notifywait rfl))
  exact ⟨_, _, h14, by rfl⟩

theorem channel_refines_fifo_delivered :
    ∃ tr s, MpiSystem.Run tr s ∧ takes (0, 1) tr = [Frame.of 7 (.started 0)] ∧
      takes (0, 1) tr <+: puts (0, 1) tr := by
  obtain ⟨tr, s, hrun, htakes⟩ := exists_delivered_run
  exact ⟨tr, s, hrun, htakes, (channel_refines_fifo hrun).2 0 1⟩

end Dthread.MpiChannels
