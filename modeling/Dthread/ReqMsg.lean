import Mathlib.Logic.Function.Basic
import Mathlib.Data.List.Basic
import Mathlib.Data.Int.Notation
import Mathlib.Tactic

/-!
Data of the thread lifecycle protocol: operations, thread handles, the
messages carried between managers and the requests kept by them.
The types follow dt_reqmsg.h, dt_internal.h and dthread.h. Sizes are those of
a 64-bit build, where a pthread_attr_t takes 56 bytes.
-/
namespace Dthread.ReqMsg

/-- Operations of requests and messages (DTOP_*). `unknown` stands for every
value of the 32-bit op field that no message handler switches on. -/
inductive Op where
  | none | create | created | start | started | detach | detached
  | cancel | canceled | join | joined | joinwait | retclean | terminated
  | app0Ret | bcastshutdown
  | unknown (code : ℕ)
deriving DecidableEq, Repr

/-- Values of pth_state (LT_*), in the order of their numeric codes. -/
inductive LtState where
  | none | starting | running | returned | exited | canceled | cleanup
deriving DecidableEq, Repr

def LtState.code : LtState → ℕ
  | .none => 0
  | .starting => 1
  | .running => 2
  | .returned => 3
  | .exited => 4
  | .canceled => 5
  | .cleanup => 6

/-- LT_NEED_FINALSTATE: the thread has not reached a final state yet. -/
def LtState.needFinalstate (s : LtState) : Bool :=
  decide (s.code ≤ LtState.running.code)

def EIO : ℕ := 5
def ESRCH : ℕ := 3
def EAGAIN : ℕ := 11
def ENOMEM : ℕ := 12
def EINVAL : ℕ := 22

/-- dthread_t: a slot of the global thread table and its generation. -/
structure DThread where
  dtIndex : ℕ
  dtSeq : ℕ
deriving DecidableEq, Repr

def DTHREAD_NODATA : ℕ := 1
def DTHREAD_INLINE : ℕ := 2
def DTHREAD_SHMREF : ℕ := 3
def DTHREAD_CANCELED : ℕ := 4

/-- dthread_argret_t: its type, its inline length and the bytes of its union. -/
structure Argret where
  dtArgretType : ℕ
  dtInlinelen : ℕ
  u : List ℕ
deriving DecidableEq, Repr

def Argret.zero : Argret := ⟨0, 0, []⟩

inductive DetachState where
  | joinable | detached
deriving DecidableEq, Repr

/-- The part of a pthread_attr_t that the managers read and write. -/
structure Attr where
  detachstate : DetachState
  stackaddr : ℕ
  stacksize : ℕ
deriving DecidableEq, Repr

def PTHREAD_STACK_MIN : ℕ := 16384

/-- pthread_attr_setstack fails, changing nothing, below the minimum size. -/
def Attr.setstack (a : Attr) (addr size : ℕ) : Attr :=
  if size < PTHREAD_STACK_MIN then a else { a with stackaddr := addr, stacksize := size }

/-- The messages: one constructor for each dtmsg_* structure, less its header. The final
state of a TERMINATED is one of the LT_* values; the numbers above LT_CLEANUP, which no
sender puts into the field, cannot be written here. -/
inductive Body where
  | create (attrs : Attr) (dispIdx : ℕ) (arg : Argret)
  | created (errstatus : ℕ) (newthread : DThread)
  | start (thread : DThread) (attrs : Attr)
  | started (errstatus : ℕ)
  | detach (thread : DThread)
  | detached (errstatus : ℕ)
  | cancel (thread : DThread)
  | canceled (errstatus : ℕ)
  | join (thread : DThread)
  | joined (errstatus : ℕ) (joinret : Argret)
  | terminated (thread : DThread) (finalstate : LtState)
  | bcastshutdown
  | other (code : ℕ)
deriving DecidableEq, Repr

def Body.op : Body → Op
  | .create .. => .create
  | .created .. => .created
  | .start .. => .start
  | .started .. => .started
  | .detach .. => .detach
  | .detached .. => .detached
  | .cancel .. => .cancel
  | .canceled .. => .canceled
  | .join .. => .join
  | .joined .. => .joined
  | .terminated .. => .terminated
  | .bcastshutdown => .bcastshutdown
  | .other code => .unknown code

def headerSize : ℕ := 8

/-- sizeof the dtmsg_* structure of an operation, which the cases of process_mqe compare
flen with. -/
def Op.msgSize : Op → ℕ
  | .create => 144
  | .created => 20
  | .start => 72
  | .started => 12
  | .detach => 16
  | .detached => 12
  | .cancel => 16
  | .canceled => 12
  | .join => 16
  | .joined => 88
  | .terminated => 20
  | _ => headerSize

def Body.size (body : Body) : ℕ := body.op.msgSize

theorem Body.headerSize_le_size (body : Body) : headerSize ≤ body.size := by
  cases body <;> simp [headerSize, Body.size, Body.op, Op.msgSize]

/-- A frame buffer: its header's xidseq, its message and its length. -/
structure Frame where
  xidseq : ℕ
  body : Body
  flen : ℕ
deriving DecidableEq, Repr

/-- A frame as the senders build it, with the length of its structure. -/
def Frame.of (xidseq : ℕ) (body : Body) : Frame := ⟨xidseq, body, body.size⟩

/-- dtq_mpiqentry. `addr` identifies the buffer itself. -/
structure Mqe where
  addr : ℕ
  peer : ℕ
  frame : Frame
deriving DecidableEq, Repr

/-- recycle_dtmsg_mqe: the buffer is reused for another message. -/
def Mqe.recycle (mqe : Mqe) (xidseq : ℕ) (body : Body) : Mqe :=
  { mqe with frame := Frame.of xidseq body }

/-- What the rank 0 manager keeps of a CREATE while it waits for STARTED. -/
structure CreateInfo where
  cThread : DThread
  cPeer : ℕ
  cXidseq : ℕ
deriving DecidableEq, Repr

/-- A request is embedded in a local table entry or allocated by the manager. -/
inductive ReqAddr where
  | ltab (lidx : ℕ)
  | internal (n : ℕ)
deriving DecidableEq, Repr

/-- dthread_request. The members of its union are kept apart; every operation
reads only its own member. -/
structure Request where
  addr : ReqAddr
  reqpeer : ℕ
  reqop : Op
  mqe : Option Mqe
  xidseq : ℕ
  reqerror : ℕ
  newdthread : DThread
  retval : Argret
  creinfo : CreateInfo
  waitthread : DThread
deriving DecidableEq, Repr

/-- States of an application thread's own request (DTREQ_*). -/
inductive ReqState where
  | idle | busy | done
deriving DecidableEq, Repr

/-- dthread_gtab_t: an entry of the global thread table. -/
structure Gtab where
  allocated : Bool
  rank : ℕ
  seq : ℕ
  dispIdx : ℕ
  arg : Argret
  ret : Argret
  detached : Bool
  terminated : LtState
  hasLtab : Bool
  ltabIdx : ℕ
deriving DecidableEq, Repr

def Gtab.zero : Gtab := ⟨false, 0, 0, 0, .zero, .zero, false, .none, false, 0⟩

/-- Where the pthread behind a local table entry stands in dthreadwrap. -/
inductive WrapPc where
  | none
  | starting
  | app
  | exiting
  | cleanup (returned : Bool)
  | ended
deriving DecidableEq, Repr

/-- dthread_ltab_t, with the state and results of its embedded request and the
control point of its pthread. -/
structure Ltab where
  gtabIdx : ℕ
  seq : ℕ
  pthState : LtState
  reqstate : ReqState
  reqerror : ℕ
  newdthread : DThread
  retval : Argret
  pc : WrapPc
deriving DecidableEq, Repr

def Ltab.zero : Ltab := ⟨0, 0, .none, .idle, 0, ⟨0, 0⟩, .zero, .none⟩

/-- Presence of the proc functions of a dispatch table entry. -/
structure Dispatch where
  dtArgproc : Bool
  dtRetproc : Bool
deriving DecidableEq, Repr

/-- What is the same on every rank of a job, as dthread_run has checked it. -/
structure Job where
  wsize : ℕ
  nmaxthread : ℕ
  ndsps : ℕ
  dsps : ℕ → Dispatch
  wsize_pos : 0 < wsize
  wsize_lt : wsize < 2 ^ 31
  nmaxthread_pos : 0 < nmaxthread
  nmaxthread_lt : nmaxthread < 2 ^ 31
  ndsps_pos : 0 < ndsps

end Dthread.ReqMsg
