import Dthread.FifoChannels
import Dthread.MpiTestsome
import Dthread.Wakeups

/-!
The ranks of a job with their managers, application threads and MPI threads
(mpit_main of dt_mpithread.c), the memory of their buffers and the messages
that MPI carries. A rank's threads interleave at every section under dtqlock
and at every MPI call. The clients, a manager and its application threads,
fill buffers that they hold, and give them up by queuing or releasing them.

Allocations and MPI calls succeed. A message refers to the sender's buffer
until MPI has read it, which happens at any time before the send completes.
Between two ranks messages are received in the order of their sends.
-/
namespace Dthread.MpiSystem

open ReqMsg Queuing SendDrain Wakeups MpiTestsome

/-- The size of the frame array of a buffer: the largest message, a CREATE. -/
def DTQ_MAXMSGSIZE : ℕ := 144

theorem size_le_maxmsgsize (body : Body) : body.size ≤ DTQ_MAXMSGSIZE := by
  cases body <;> simp [Body.size, Body.op, Op.msgSize, headerSize, DTQ_MAXMSGSIZE]

/-- What a buffer (dtq_mpiqentry) holds. Its frame does not exceed the array. -/
structure Entry where
  peer : ℕ
  frame : Frame
  fits : frame.flen ≤ DTQ_MAXMSGSIZE

/-- A buffer filled with a message of the protocol. -/
def Entry.of (peer xidseq : ℕ) (body : Body) : Entry :=
  ⟨peer, Frame.of xidseq body, size_le_maxmsgsize body⟩

/-- A message from its MPI_Isend on: the buffer it is sent from, its length,
and the contents of the buffer once MPI has read it. -/
structure Message where
  addr : ℕ
  count : ℕ
  data : Option Frame

/-- The messages ever sent from one rank to another, of which the first `taken`
have been received. -/
structure Channel where
  msgs : List Message
  taken : ℕ

/-- Where an MPI thread is in the loop of mpit_main. -/
inductive MpiPc where
  | test
  -- the release loop of mpimts_test, with the rest of idxout
  | releasing (got firsthole : ℕ) (idxout : List ℕ)
  | dequeue
  | isend (addr : ℕ)
  | probe
  -- mpimqerecv
  | recvAlloc (src count : ℕ)
  | recv (addr src count : ℕ)
  | recvEnqueue (addr : ℕ)
  | recvDrop (addr : ℕ)
  -- past the loop
  | finalize (lcv : ℕ)
  | done
  -- the process has exited on a fatal error
  | exited

/-- An MPI_Request of a send: the receiving rank and the number of the message. -/
abbrev MpiReq : Type := ℕ × ℕ

/-- A rank. `hands` are the buffers that its clients hold, and `stop` is set
from mpit_stop on. -/
structure Rank where
  threads : Threads
  mem : ℕ → Entry
  hands : List ℕ
  mts : Mts MpiReq
  pc : MpiPc
  stop : Bool

structure World where
  rank : ℕ → Rank
  chan : ℕ → ℕ → Channel

/-- What is seen of the channel between two managers, sender first: the frames
that were queued, and those that were handed over. -/
abbrev Event : Type := FifoChannels.Event (ℕ × ℕ) Frame

namespace Rank

def q (n : Rank) : Dtq := n.threads.q

def setDtq (n : Rank) (q : Dtq) : Rank := { n with threads := n.threads.setDtq q }

/-- A buffer as its contents are at present. -/
def mqeAt (n : Rank) (addr : ℕ) : Mqe := ⟨addr, (n.mem addr).peer, (n.mem addr).frame⟩

/-- dtq_send_enqueue of a buffer. A draining rank gives it back. -/
def sendEnqueue (r : ℕ) (n : Rank) (addr : ℕ) : Option Event × Rank :=
  let n' := { n with threads := n.threads.sendEnqueue r (n.mqeAt addr) }
  match dtqSendEnqueue r n.q (n.mqeAt addr) with
  | (none, _) =>
    (some (.put (r, (n.mem addr).peer) (n.mem addr).frame),
      { n' with hands := n.hands.erase addr })
  | (some _, _) => (none, n')

/-- The end of dtq_notifywait: the manager is handed the first received buffer,
if any, and reads its sender and frame. -/
def takeWork (r : ℕ) (n : Rank) : Option Event × Rank :=
  let n' := { n with threads := n.threads.takeWork }
  match (dtqRecvDequeue n.q).1 with
  | some mqe =>
    (some (.take ((n.mem mqe.addr).peer, r) (n.mem mqe.addr).frame),
      { n' with hands := mqe.addr :: n.hands })
  | none => (none, n')

def notifywait (r : ℕ) (n : Rank) : Option Event × Rank :=
  if wasEmpty n.q then (none, { n with threads := n.threads.notifywait }) else n.takeWork r

/-- dtq_send_release of a buffer whose send is over. -/
def sendRelease (n : Rank) (addr : ℕ) : Rank :=
  { n with threads := n.threads.sendRelease (n.mqeAt addr) }

def sendDequeue (n : Rank) : Rank :=
  match (dtqSendDequeue n.q).1 with
  | some mqe =>
    { n with threads := { n.threads with sends := n.threads.sends.dequeue }, pc := .isend mqe.addr }
  | none => { n with pc := .probe }

/-- One turn of mpimts_finalize: a buffer still in its slot is released. -/
def finalizeSlot (n : Rank) (lcv : ℕ) : Rank :=
  match n.mts.slots.mqes lcv with
  | some addr => { n.sendRelease addr with pc := .finalize (lcv + 1) }
  | none => { n with pc := .finalize (lcv + 1) }

end Rank

/-- Sections that leave every buffer where it is. -/
structure SameMqes (t t' : Threads) : Prop where
  mqefree : t'.q.mqefree = t.q.mqefree
  mpisendq : t'.q.mpisendq = t.q.mpisendq
  mpirecvq : t'.q.mpirecvq = t.q.mpirecvq
  nmqe : t'.q.nmqe = t.q.nmqe
  sending : t'.sends.sending = t.sends.sending

/-- The steps of the manager and the application threads. -/
inductive ClientStep (r : ℕ) (n : Rank) : Option Event → Rank → Prop
  | mqeAlloc (addr : ℕ) (q : Dtq) (h : dtqMqeAlloc n.q = (some addr, q)) :
      ClientStep r n none { n.setDtq q with hands := addr :: n.hands }
  | fill (addr : ℕ) (e : Entry) (h : addr ∈ n.hands) :
      ClientStep r n none { n with mem := Function.update n.mem addr e }
  | mqeUnalloc (addr : ℕ) (h : addr ∈ n.hands) :
      ClientStep r n none { n.setDtq (dtqMqeUnalloc n.q addr) with hands := n.hands.erase addr }
  | recvRelease (addr : ℕ) (h : addr ∈ n.hands) :
      ClientStep r n none { n.setDtq (dtqRecvRelease n.q addr) with hands := n.hands.erase addr }
  | sendEnqueue (addr : ℕ) (h : addr ∈ n.hands) (hmgr : n.threads.mgr = .running) :
      ClientStep r n (n.sendEnqueue r addr).1 (n.sendEnqueue r addr).2
  | notifywait (hmgr : n.threads.mgr = .running) :
      ClientStep r n (n.notifywait r).1 (n.notifywait r).2
  | wake (timed signaled : Bool) (hmgr : n.threads.mgr = .blocked timed signaled) :
      ClientStep r n (n.takeWork r).1 (n.takeWork r).2
  -- requests, the draindown and the end of the manager's loop
  | other (t : Threads) (h : Wakeups.Step r n.threads t) (hsame : SameMqes n.threads t) :
      ClientStep r n none { n with threads := t }
  | mpitStop (hmgr : n.threads.mgr = .left) : ClientStep r n none { n with stop := true }

/-- The steps of the MPI thread between its MPI calls. -/
inductive ThreadStep (n : Rank) : Rank → Prop
  | testNothing (hpc : n.pc = .test) (hrun : n.stop = false) (h : n.mts.nused = 0) :
      ThreadStep n { n with pc := .dequeue }
  | release (got firsthole i addr : ℕ) (idxout : List ℕ)
      (hpc : n.pc = .releasing got firsthole (i :: idxout))
      (h : n.mts.slots.mqes i = some addr) :
      ThreadStep n { n.sendRelease addr with
        mts := n.mts.clearMqe i, pc := .releasing got (min firsthole i) idxout }
  | compact (got firsthole : ℕ) (hpc : n.pc = .releasing got firsthole []) :
      ThreadStep n { n with mts := compact n.mts got firsthole, pc := .dequeue }
  | sendDequeue (hpc : n.pc = .dequeue) : ThreadStep n n.sendDequeue
  | probeNothing (hpc : n.pc = .probe) : ThreadStep n { n with pc := .test }
  | recvAlloc (src count addr : ℕ) (q : Dtq) (hpc : n.pc = .recvAlloc src count)
      (h : dtqMqeAlloc n.q = (some addr, q)) :
      ThreadStep n { n.setDtq q with pc := .recv addr src count }
  | recvEnqueue (addr : ℕ) (hpc : n.pc = .recvEnqueue addr) :
      ThreadStep n { n with threads := n.threads.recvEnqueue (n.mqeAt addr), pc := .test }
  | recvDrop (addr : ℕ) (hpc : n.pc = .recvDrop addr) :
      ThreadStep n { n.setDtq (dtqRecvRelease n.q addr) with pc := .test }
  | leave (hpc : n.pc = .test) (hstop : n.stop = true) :
      ThreadStep n { n with pc := .finalize 0 }
  | finalizeSlot (lcv : ℕ) (hpc : n.pc = .finalize lcv) (h : lcv < n.mts.nused) :
      ThreadStep n (n.finalizeSlot lcv)
  | finalized (lcv : ℕ) (hpc : n.pc = .finalize lcv) (h : n.mts.nused ≤ lcv) :
      ThreadStep n { n with pc := .done }

namespace World

def setRank (s : World) (r : ℕ) (n : Rank) : World :=
  { s with rank := Function.update s.rank r n }

def setChan (s : World) (src dst : ℕ) (c : Channel) : World :=
  { s with chan := Function.update s.chan src (Function.update (s.chan src) dst c) }

section Lenses

variable (s : World) (r src dst : ℕ) (n : Rank) (c : Channel)

@[simp] theorem setRank_self : (s.setRank r n).rank r = n := by
  simp [setRank]

@[simp] theorem setRank_of_ne {k : ℕ} (h : k ≠ r) : (s.setRank r n).rank k = s.rank k := by
  simp [setRank, h]

@[simp] theorem setRank_chan : (s.setRank r n).chan = s.chan := rfl

@[simp] theorem setChan_rank : (s.setChan src dst c).rank = s.rank := rfl

@[simp] theorem setChan_self : (s.setChan src dst c).chan src dst = c := by
  simp [setChan]

theorem setChan_of_ne {src' dst' : ℕ} (h : ¬ (src' = src ∧ dst' = dst)) :
    (s.setChan src dst c).chan src' dst' = s.chan src' dst' := by
  by_cases hsrc : src' = src
  · subst hsrc
    have hdst : dst' ≠ dst := fun he => h ⟨rfl, he⟩
    simp [setChan, hdst]
  · simp [setChan, hsrc]

end Lenses

/-- A send is complete when MPI has read its buffer. -/
def Complete (s : World) (src : ℕ) (req : MpiReq) : Prop :=
  ∃ m d, (s.chan src req.1).msgs[req.2]? = some m ∧ m.data = some d

/-- Where mpimts_test goes on after MPI_Testsome. -/
def testPc : List ℕ → MpiPc
  | [] => .dequeue
  | i :: idxout => .releasing (i :: idxout).length i (i :: idxout)

/-- MPI_Isend of a buffer, and mpimts_add. -/
def isend (s : World) (r addr : ℕ) : World :=
  let n := s.rank r
  let dst := (n.mem addr).peer
  let c := s.chan r dst
  (s.setRank r { n with mts := mpimtsAdd n.mts addr (dst, c.msgs.length), pc := .probe }).setChan
    r dst { c with msgs := c.msgs ++ [⟨addr, (n.mem addr).frame.flen, none⟩] }

/-- MPI reads the buffer of message `k`. -/
def fetch (s : World) (src dst k : ℕ) (m : Message) : World :=
  let c := s.chan src dst
  s.setChan src dst
    { c with msgs := c.msgs.set k { m with data := some ((s.rank src).mem m.addr).frame } }

/-- mpimqerecv gets the length of a message, which must not be empty. -/
def probe (s : World) (r src : ℕ) (m : Message) : World :=
  s.setRank r { s.rank r with
    pc := if m.count < 1 then .exited else .recvAlloc src m.count }

/-- MPI_Recv of the contents `d` into a buffer. A message that is longer than
the buffer is dropped. -/
def recv (s : World) (r addr src count : ℕ) (d : Frame) : World :=
  let n := s.rank r
  let c := s.chan src r
  let s' := s.setChan src r { c with taken := c.taken + 1 }
  if h : count ≤ DTQ_MAXMSGSIZE then
    s'.setRank r { n with
      mem := Function.update n.mem addr ⟨src, { d with flen := count }, h⟩
      pc := .recvEnqueue addr }
  else s'.setRank r { n with pc := .recvDrop addr }

end World

inductive Step (s : World) : Option Event → World → Prop
  | client (r : ℕ) (ev : Option Event) (n : Rank) (halive : (s.rank r).pc ≠ .exited)
      (h : ClientStep r (s.rank r) ev n) : Step s ev (s.setRank r n)
  | thread (r : ℕ) (n : Rank) (h : ThreadStep (s.rank r) n) : Step s none (s.setRank r n)
  | testsome (r : ℕ) (idxout : List ℕ) (hpc : (s.rank r).pc = .test)
      (hrun : (s.rank r).stop = false) (hused : (s.rank r).mts.nused ≠ 0) (hnodup : idxout.Nodup)
      (hdone : ∀ i ∈ idxout, i < (s.rank r).mts.nused ∧
        ∃ req, (s.rank r).mts.slots.reqs i = some req ∧ s.Complete r req) :
      Step s none (s.setRank r { s.rank r with
        mts := testsome (s.rank r).mts idxout, pc := World.testPc idxout })
  | isend (r addr : ℕ) (hpc : (s.rank r).pc = .isend addr) : Step s none (s.isend r addr)
  | fetch (src dst k : ℕ) (m : Message) (h : (s.chan src dst).msgs[k]? = some m)
      (hdata : m.data = none) : Step s none (s.fetch src dst k m)
  | probe (r src : ℕ) (m : Message) (hpc : (s.rank r).pc = .probe)
      (h : (s.chan src r).msgs[(s.chan src r).taken]? = some m) : Step s none (s.probe r src m)
  | recv (r addr src count : ℕ) (m : Message) (d : Frame)
      (hpc : (s.rank r).pc = .recv addr src count)
      (h : (s.chan src r).msgs[(s.chan src r).taken]? = some m) (hdata : m.data = some d) :
      Step s none (s.recv r addr src count d)

/-- A job at its start. The memory of its buffers is arbitrary. -/
structure Initial (s : World) : Prop where
  threads : ∀ r, (s.rank r).threads = Threads.init
  hands : ∀ r, (s.rank r).hands = []
  mts : ∀ r, (s.rank r).mts = mpimtsInit
  pc : ∀ r, (s.rank r).pc = .test
  stop : ∀ r, (s.rank r).stop = false
  chan : ∀ src dst, s.chan src dst = ⟨[], 0⟩

/-- The runs of a job with their traces. -/
inductive Run : List Event → World → Prop
  | init {s : World} (h : Initial s) : Run [] s
  | snoc {tr : List Event} {s s' : World} {ev : Option Event} (h : Run tr s) (hs : Step s ev s') :
      Run (tr ++ ev.toList) s'

end Dthread.MpiSystem
