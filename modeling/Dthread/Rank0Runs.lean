import Dthread.JobSystem
import Dthread.TableWrites

/-!
Runs of the rank 0 manager alone: the messages only it handles, in any order
and with any contents, and the writes of other parties to the shared table.
-/
namespace Dthread.Rank0Runs

open ReqMsg Queuing ManagerTables ManagerHandlers ManagerEffects ManagerOutcomes JobSystem
open TableWrites

/-- A message with the result of a pthread_create it may lead to, or a table
as other ranks leave it. -/
inductive Event where
  | msg (mqe : Mqe) (err : ℕ)
  | write (gtab : ℕ → Gtab)

/-- What the owner of an entry may change: the thread's argument and return
value and its link to a local table. -/
def OwnerWrite (old new : Gtab) : Prop :=
  new = { old with arg := new.arg, ret := new.ret, hasLtab := new.hasLtab, ltabIdx := new.ltabIdx }

inductive Mgr0Step (job : Job) (v : View) : Event → View → Prop
  | msg (mqe : Mqe) (err : ℕ) (v' : View) (hop : rank0Only mqe.frame.body.op = true)
      (h : processMqe job v mqe err = some v') : Mgr0Step job v (.msg mqe err) v'
  | write (gtab : ℕ → Gtab) (h : ∀ i, OwnerWrite (v.gtab i) (gtab i)) :
      Mgr0Step job v (.write gtab) { v with gtab := gtab }

/-- A run, with the states in which its events happened. -/
inductive Mgr0Run (job : Job) (start : View) : List (View × Event) → View → Prop
  | nil : Mgr0Run job start [] start
  | snoc {tr : List (View × Event)} {v v' : View} {e : Event} (h : Mgr0Run job start tr v)
      (hs : Mgr0Step job v e v') : Mgr0Run job start (tr ++ [(v, e)]) v'

/-- Rank 0 after mgr_startapp, over any state of its queues. -/
def mgr0Start (job : Job) (q : Dtq) : View :=
  mgrStartapp job ⟨mgrInit job 0, fun _ => .zero, q⟩

/-- The handler that a message reaches at rank 0, or none for a short one. -/
theorem processMqe_rank0 {job : Job} {v v' : View} {mqe : Mqe} {err : ℕ}
    (hrank : v.mgr.mpiRank = 0) (hop : rank0Only mqe.frame.body.op = true)
    (h : processMqe job v mqe err = some v') :
    (∃ q, v' = v.setDtq q ∧ SameTraffic v.dtq q ∧ mqe.frame.flen < mqe.frame.body.size) ∨
      mqe.frame.body.size ≤ mqe.frame.flen ∧
        ∃ w, v'.gtab = w.gtab ∧ v'.mgr = w.mgr ∧
          match mqe.frame.body with
          | .create attrs dispIdx arg => createThread job v mqe attrs dispIdx arg = some w
          | .started e => w = startedReply v mqe e
          | .detach thread => w = detachThread job v mqe thread
          | .join thread => w = joinThread job v mqe thread
          | .terminated thread fin => w = terminatedMsg job v mqe thread fin
          | _ => False := by
  have hhdr := mqe.frame.body.headerSize_le_size
  unfold processMqe at h
  simp only at h
  split at h
  · obtain rfl : _ = v' := by simpa using h
    exact .inl ⟨_, rfl, sameTraffic_recvRelease _ _, by omega⟩
  rw [if_neg (by simp [hrank])] at h
  by_cases hlen : mqe.frame.body.size ≤ mqe.frame.flen
  · refine .inr ⟨hlen, ?_⟩
    cases hb : mqe.frame.body with
    | create attrs dispIdx arg =>
      rw [hb] at hlen
      simp only [hb, hlen, if_true, Option.map_eq_some_iff] at h
      obtain ⟨w, hw, rfl⟩ := h
      exact ⟨w, rfl, rfl, hw⟩
    | started e => exact ⟨v', rfl, rfl, by simpa [hb] using h.symm⟩
    | detach thread =>
      rw [hb] at hlen
      exact ⟨v', rfl, rfl, by simpa [hb, hlen] using h.symm⟩
    | join thread =>
      rw [hb] at hlen
      exact ⟨v', rfl, rfl, by simpa [hb, hlen] using h.symm⟩
    | terminated thread fin => exact ⟨v', rfl, rfl, by simpa [hb] using h.symm⟩
    | _ => simp [hb, rank0Only, Body.op] at hop
  · have hfind (op : Op) : findPendingMsgreq v mqe op = none := by
      unfold findPendingMsgreq
      rw [if_pos (by omega)]
    have hlen' : mqe.frame.flen ≠ mqe.frame.body.size := by omega
    have hrelease (heq : v' = v.setDtq (dtqRecvRelease v.dtq mqe.addr)) :
        ∃ q, v' = v.setDtq q ∧ SameTraffic v.dtq q ∧ mqe.frame.flen < mqe.frame.body.size :=
      ⟨_, heq, sameTraffic_recvRelease _ _, not_le.mp hlen⟩
    left
    cases hb : mqe.frame.body with
    | started e =>
      refine hb ▸ hrelease ?_
      obtain rfl : startedReply v mqe e = v' := by simpa [hb] using h
      simp [startedReply, hfind]
    | terminated thread fin =>
      refine hb ▸ hrelease ?_
      obtain rfl : terminatedMsg job v mqe thread fin = v' := by simpa [hb] using h
      simp [terminatedMsg, hlen']
    | create attrs dispIdx arg =>
      refine hb ▸ hrelease ?_
      rw [hb] at hlen
      simpa [hb, hlen] using h.symm
    | detach thread =>
      rw [hb] at hlen
      obtain rfl : v = v' := by simpa [hb, hlen] using h
      exact ⟨v.dtq, rfl, SameTraffic.refl _, not_le.mp hlen⟩
    | join thread =>
      refine hb ▸ hrelease ?_
      rw [hb] at hlen
      simpa [hb, hlen] using h.symm
    | _ => simp [hb, rank0Only, Body.op] at hop

theorem terminatedMsg_cases (job : Job) (v : View) (mqe : Mqe) (thread : DThread)
    (fin : LtState) :
    (terminatedMsg job v mqe thread fin).gtab = v.gtab ∧
        (terminatedMsg job v mqe thread fin).mgr = v.mgr ∨
      (thread.dtIndex < job.nmaxthread ∧ (v.gtab thread.dtIndex).seq = thread.dtSeq) ∧
        fin ≠ .running ∧
        (terminatedMsg job v mqe thread fin).gtab = (terminatedThread job v thread fin).gtab ∧
        (terminatedMsg job v mqe thread fin).mgr = (terminatedThread job v thread fin).mgr := by
  unfold terminatedMsg
  simp only
  split
  · exact .inl ⟨rfl, rfl⟩
  split
  · exact .inl ⟨rfl, rfl⟩
  split
  · exact .inl ⟨rfl, rfl⟩
  · rename_i hbad hfin
    push Not at hbad
    exact .inr ⟨hbad, hfin, rfl, rfl⟩

theorem Mgr0Step.mpiRank {job : Job} {v v' : View} {e : Event} (h : Mgr0Step job v e v')
    (hrank : v.mgr.mpiRank = 0) : v'.mgr.mpiRank = 0 := by
  cases h with
  | write gtab h => exact hrank
  | msg mqe err _ hop h =>
    rcases processMqe_rank0 hrank hop h with ⟨q, rfl, -⟩ | ⟨-, w, -, hm, hw⟩
    · exact hrank
    · rw [hm, ← hrank]
      split at hw
      · exact createThread_mpiRank hw
      · rw [hw, startedReply_mpiRank]
      · rw [hw, detachThread_mpiRank]
      · rw [hw, joinThread_mpiRank]
      · rw [hw]
        rcases terminatedMsg_cases job v mqe _ _ with ⟨-, hm'⟩ | ⟨-, -, -, hm'⟩
        · rw [hm']
        · rw [hm', terminatedThread_mpiRank]
      · exact hw.elim

theorem Mgr0Run.mpiRank {job : Job} {q : Dtq} {tr : List (View × Event)} {v : View}
    (h : Mgr0Run job (mgr0Start job q) tr v) : v.mgr.mpiRank = 0 := by
  induction h with
  | nil => rfl
  | snoc _ hs ih => exact hs.mpiRank ih

end Dthread.Rank0Runs
