import Dthread.HandlerSteps
import Dthread.JobSystem

/-!
What becomes of the buffer of a received message. It ends up on the free list,
on the send queue or, when the reply goes to the own rank, on the receive
queue; the number of its occurrences on those lists is followed through every
operation of the handler.
-/
namespace Dthread.BufferDisposal

open ReqMsg Queuing ManagerTables ManagerHandlers ManagerEffects HandlerSteps JobSystem

/-- How often a buffer is on the lists of a rank. -/
def places (q : Dtq) (addr : ℕ) : ℕ :=
  q.mqefree.count addr + (q.mpisendq.map Mqe.addr).count addr +
    (q.mpirecvq.map Mqe.addr).count addr

/-- A buffer that the manager has taken off the receive queue: it has been
allocated at some time and is on no list. -/
structure Received (q : Dtq) (addr : ℕ) : Prop where
  allocated : addr < q.nmqe
  nowhere : places q addr = 0

variable {job : Job} {v v' : View} {c c' : Work} {addr : ℕ}

/-- The occurrences of a buffer on the lists and in the handler's hands. -/
def occurrences (c : Work) (addr : ℕ) : ℕ := places c.view.dtq addr + c.bufs.count addr

/-- Operations on requests and tables leave the buffers where they are. -/
structure SameBuffers (q q' : Dtq) : Prop where
  mqefree : q'.mqefree = q.mqefree
  mpisendq : q'.mpisendq = q.mpisendq
  mpirecvq : q'.mpirecvq = q.mpirecvq
  nmqe : q'.nmqe = q.nmqe

theorem SameBuffers.places_eq {q q' : Dtq} (h : SameBuffers q q') (addr : ℕ) :
    places q' addr = places q addr := by
  rw [places, places, h.mqefree, h.mpisendq, h.mpirecvq]

theorem SameBuffers.occurrences_eq {b : List ℕ} {r r' : List Request}
    (h : SameBuffers v.dtq v'.dtq) (ha : addr < v.dtq.nmqe) :
    addr < v'.dtq.nmqe ∧ occurrences ⟨b, r', v'⟩ addr = occurrences ⟨b, r, v⟩ addr := by
  refine ⟨by rwa [h.nmqe], ?_⟩
  rw [occurrences, occurrences, h.places_eq]

theorem sameBuffers_reqAlloc {n : Option ℕ} {q : Dtq} (h : dtqReqAlloc v.dtq = (n, q)) :
    SameBuffers v.dtq (v.setDtq q).dtq := by
  obtain ⟨free, k, ms, hq⟩ := reqAlloc_queues v.dtq
  rw [h] at hq
  obtain rfl : q = _ := hq
  exact ⟨rfl, rfl, rfl, rfl⟩

theorem sameBuffers_reqRelease (v : View) (rqe : Request) (notify : Bool) :
    SameBuffers v.dtq (dtqReqRelease v rqe notify).dtq := by
  unfold dtqReqRelease
  split <;> exact ⟨rfl, rfl, rfl, rfl⟩

theorem mqeAlloc_occurrences {b : List ℕ} {r : List Request} {a : ℕ} {q : Dtq}
    (h : dtqMqeAlloc v.dtq = (some a, q)) (ha : addr < v.dtq.nmqe) :
    addr < q.nmqe ∧
      occurrences ⟨a :: b, r, v.setDtq q⟩ addr = occurrences ⟨b, r, v⟩ addr := by
  rcases mqeAlloc_some h with ⟨rest, hfree, rfl⟩ | ⟨rfl, rfl⟩
  · refine ⟨ha, ?_⟩
    simp only [occurrences, places, View.setDtq, hfree, List.count_cons]
    omega
  · -- a new buffer is not the given one
    have hne : (v.dtq.nmqe == addr) = false := by
      rw [beq_eq_false_iff_ne]
      omega
    refine ⟨Nat.lt_succ_of_lt ha, ?_⟩
    simp only [occurrences, places, View.setDtq, List.count_cons, hne]
    simp

theorem sendEnqueue_occurrences {b : List ℕ} {r : List Request} {mqe : Mqe} {q : Dtq} {rank : ℕ}
    (h : dtqSendEnqueue rank v.dtq mqe = (none, q)) :
    q.nmqe = v.dtq.nmqe ∧
      occurrences ⟨b, r, v.setDtq q⟩ addr = occurrences ⟨mqe.addr :: b, r, v⟩ addr := by
  unfold dtqSendEnqueue at h
  split at h
  · simp at h
  · split at h
    · obtain rfl := (Prod.mk.inj h).2
      refine ⟨rfl, ?_⟩
      simp only [occurrences, places, View.setDtq, List.map_append, List.map_cons, List.map_nil,
        List.count_append, List.count_cons, List.count_nil]
      omega
    · obtain rfl := (Prod.mk.inj h).2
      refine ⟨rfl, ?_⟩
      simp only [occurrences, places, View.setDtq, List.map_append, List.map_cons, List.map_nil,
        List.count_append, List.count_cons, List.count_nil]
      omega

/-- No operation loses or doubles an allocated buffer. -/
theorem prim_occurrences (h : Prim job c c') (ha : addr < c.view.dtq.nmqe) :
    addr < c'.view.dtq.nmqe ∧ occurrences c' addr = occurrences c addr := by
  cases h with
  | mqeAlloc h => exact mqeAlloc_occurrences h ha
  | mqeAllocFail h =>
    obtain rfl := mqeAlloc_none h
    exact ⟨ha, rfl⟩
  | mqeUnalloc =>
    refine ⟨ha, ?_⟩
    simp only [occurrences, places, View.setDtq, dtqMqeUnalloc, List.count_cons]
    omega
  | recvRelease =>
    refine ⟨ha, ?_⟩
    simp only [occurrences, places, View.setDtq, dtqRecvRelease, List.count_cons]
    omega
  | sendEnqueue mqe h =>
    obtain ⟨hn, hocc⟩ := sendEnqueue_occurrences h
    exact ⟨by rw [← hn] at ha; exact ha, hocc⟩
  | reqAlloc h => exact (sameBuffers_reqAlloc h).occurrences_eq ha
  | reqAllocFail h => exact (sameBuffers_reqAlloc h).occurrences_eq ha
  | reqFill rqe' h => exact ⟨ha, rfl⟩
  | reqRelease notify => exact (sameBuffers_reqRelease _ _ notify).occurrences_eq ha
  | pend h => exact ⟨ha, rfl⟩
  | unpend h => exact ⟨ha, rfl⟩
  | gtabAlloc rank dispIdx i arg hrank h =>
    obtain ⟨-, -, rfl⟩ := gtabAlloc_taken _ _ _ _ _ _ _ h
    exact ⟨ha, rfl⟩
  | @gtabFree b r v i hrank h =>
    have hs : SameBuffers v.dtq (gtabFree v i).dtq := by
      rw [gtabFree_eq]
      exact ⟨rfl, rfl, rfl, rfl⟩
    exact hs.occurrences_eq ha
  | getFreeSeq op rv h =>
    obtain ⟨-, rfl⟩ := getFreeSeq_some _ _ _ h
    exact ⟨ha, rfl⟩
  | @other b r v v' h =>
    have hs : SameBuffers v.dtq v'.dtq := ⟨h.mqefree, h.mpisendq, h.mpirecvq, h.nmqe⟩
    exact hs.occurrences_eq ha

theorem run_occurrences (h : Run job c c') (ha : addr < c.view.dtq.nmqe) :
    addr < c'.view.dtq.nmqe ∧ occurrences c' addr = occurrences c addr := by
  induction h with
  | refl => exact ⟨ha, rfl⟩
  | tail _ hp ih =>
    obtain ⟨hb, hocc⟩ := prim_occurrences hp ih.1
    exact ⟨hb, hocc.trans ih.2⟩

/-- When process_mqe returns, the buffer of its message is on exactly one list,
once, except for a DETACH or CANCEL that is too short: such a buffer is lost. -/
theorem disposed_iff {mqe : Mqe} {err : ℕ} (hin : Received v.dtq mqe.addr)
    (h : processMqe job v mqe err = some v') :
    places v'.dtq mqe.addr = 1 ↔ ¬ RuntRequest v mqe := by
  by_cases hrunt : RuntRequest v mqe
  · rw [processMqe_runt hrunt] at h
    obtain rfl := Option.some.inj h
    rw [hin.nowhere]
    simp [hrunt]
  · have hrun := processMqe_run (b := []) (r := []) h hrunt
    have hocc := (run_occurrences hrun hin.allocated).2
    simp only [occurrences, hin.nowhere, List.count_cons_self, List.count_nil] at hocc
    simp only [hrunt, not_false_eq_true, iff_true]
    omega

/-- Rank 0 of `twoRanks` with one buffer in the manager's hands. -/
def oneBuffer : View := { (sysInit twoRanks).view 0 with dtq := { dtqInit with nmqe := 1 } }

/-- A DETACH of 8 bytes, the header alone. -/
def runtDetach : Mqe := ⟨0, 0, ⟨2, .detach ⟨0, 2⟩, 8⟩⟩

/-- The runt is dropped without being released. -/
theorem runtDetach_lost : Received oneBuffer.dtq runtDetach.addr ∧
    ∃ v', processMqe twoRanks oneBuffer runtDetach 0 = some v' ∧
      places v'.dtq runtDetach.addr = 0 :=
  ⟨⟨by decide, by decide⟩, oneBuffer, rfl, by decide⟩

def fullDetach : Mqe := ⟨0, 0, .of 2 (.detach ⟨0, 2⟩)⟩

/-- A complete DETACH is recycled: its buffer carries the DETACHED. -/
theorem fullDetach_recycled : Received oneBuffer.dtq fullDetach.addr ∧
    ∃ v', processMqe twoRanks oneBuffer fullDetach 0 = some v' ∧
      places v'.dtq fullDetach.addr = 1 := by
  have hin : Received oneBuffer.dtq fullDetach.addr := ⟨by decide, by decide⟩
  have hout : processMqe twoRanks oneBuffer fullDetach 0 =
      some (detachThread twoRanks oneBuffer fullDetach ⟨0, 2⟩) := rfl
  exact ⟨hin, _, hout, (disposed_iff hin hout).mpr (by decide)⟩

end Dthread.BufferDisposal
