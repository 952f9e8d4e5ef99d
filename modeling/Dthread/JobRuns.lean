import Dthread.JobSystem

/-!
Runs of a job with the messages that were handled, each with the state it was
handled in.
-/
namespace Dthread.JobRuns

open ReqMsg JobSystem

/-- A run from the start of the job, with the messages handled so far and the
states in which they were handled. -/
inductive Run (job : Job) : List (Sys × Packet) → Sys → Prop
  | init : Run job [] (sysInit job)
  | deliver {hist : List (Sys × Packet)} {s s' : Sys} (h : Run job hist s) (p : Packet)
      (hs : Delivers job s p s') : Run job (hist ++ [(s, p)]) s'
  | quiet {hist : List (Sys × Packet)} {s s' : Sys} (h : Run job hist s)
      (hs : Local job s s') : Run job hist s'

theorem Run.reachable {job : Job} {hist : List (Sys × Packet)} {s : Sys} (h : Run job hist s) :
    Reachable job s := by
  induction h with
  | init => exact .refl
  | deliver _ p hs ih => exact ih.tail (step_iff.mpr (.inl ⟨p, hs⟩))
  | quiet _ hs ih => exact ih.tail (step_iff.mpr (.inr hs))

theorem exists_run {job : Job} {s : Sys} (h : Reachable job s) : ∃ hist, Run job hist s := by
  induction h with
  | refl => exact ⟨[], .init⟩
  | tail _ hs ih =>
    obtain ⟨hist, hrun⟩ := ih
    rcases step_iff.mp hs with ⟨p, hp⟩ | hlocal
    · exact ⟨_, hrun.deliver p hp⟩
    · exact ⟨_, hrun.quiet hlocal⟩

end Dthread.JobRuns
