import Dthread.FateRuns

/-!
The return values that dt_retproc has encoded. Whoever takes such a value has to
be found for every thread: a joiner that gets it in a JOINED, or dt_retproc FREE
when the thread is detached. A thread that returns after it was canceled loses
its value, and so do some steps of rank 0, which are listed in `Record.loses`.
A JOINED for which there is no buffer is lost with the value it carries, so the
runs are those in which no allocation fails.
-/
namespace Dthread.EncodedReturns

open ReqMsg Queuing ManagerTables ManagerHandlers ManagerEffects ManagerOutcomes AppThreads
open JobSystem JobLogs TableWrites LifeRefinement ThreadFates FateRefinement FateRuns

theorem HostedOk.values {native : Bool} {dispIdx : ℕ} {ret : Argret} {values : List Argret}
    {pc : WrapPc} {state : LtState} (h : HostedOk native dispIdx ret values pc state) :
    values = [] ∨ values = [ret] := by
  cases pc with
  | none => exact h.elim
  | starting => exact .inl h.2
  | app => exact .inl h.2
  | exiting => exact h.2.kept
  | cleanup returned =>
    cases returned with
    | true =>
      obtain ⟨-, -, hvalues⟩ := h
      split at hvalues
      · exact .inr hvalues
      · exact .inl hvalues
    | false =>
      rcases h with ⟨-, hret⟩ | ⟨-, hvalues⟩
      · exact hret.kept
      · exact .inl hvalues
  | ended => exact h.elim

section Fates

variable {job : Job} {f : Fate} {v : Argret}

end Fates

/-- The end of a thread that is waited for, when there is no buffer for the
JOINED: nothing is sent and nothing freed, and the entry is given back with the
value in it. -/
theorem joined_lost_without_buffer {job : Job} {v : View} {thread : DThread} {rqe : Request}
    (fin : LtState) (hwait : joinwaitSearch v thread = some rqe)
    (hdet : (v.gtab thread.dtIndex).detached = false) (hfull : (dtqMqeAlloc v.dtq).1 = none) :
    (terminatedThread job v thread fin).dtq.accepted = v.dtq.accepted ∧
      (terminatedThread job v thread fin).mgr.procFree = v.mgr.procFree ∧
      ((terminatedThread job v thread fin).gtab thread.dtIndex).allocated = false := by
  have hfreed : ((terminatedThread job v thread fin).gtab thread.dtIndex).allocated = false := by
    rw [terminatedThread_table, if_neg (by simp [hdet]), if_pos (by simp [hwait])]
    exact freeGtab_allocated _ _
  have hend : terminatedThread job v thread fin = gtabFree (dtqReqRelease
      ((endNoted v thread fin).setDtq (dtqMqeAlloc v.dtq).2) rqe true) thread.dtIndex := by
    have halloc : dtqMqeAlloc (endNoted v thread fin).dtq = (none, (dtqMqeAlloc v.dtq).2) :=
      Prod.ext hfull rfl
    rw [terminatedThread_eq, hdet, hwait]
    simp only [joinwaitEndRelease, (joinwaitSearch_spec hwait).1, halloc, ne_eq, not_true_eq_false,
      if_false]
  refine ⟨?_, ?_, hfreed⟩
  · rw [hend, gtabFree_eq, ← (sameTraffic_mqeAlloc v.dtq).accepted]
    unfold dtqReqRelease
    split <;> rfl
  · rw [hend, gtabFree_eq]
    unfold dtqReqRelease
    split <;> rfl

end Dthread.EncodedReturns
