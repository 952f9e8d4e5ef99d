import Dthread.Rank0Runs

/-!
Detached threads and zombies in the table of rank 0. terminated_thread frees
the entry of a detached thread, but detach_thread never looks at `terminated`:
an entry whose thread has ended before it is detached is kept for good. Apart
from that no handler leaves an allocated entry detached and terminated.
-/
namespace Dthread.DetachedZombies

open ReqMsg Queuing ManagerTables ManagerHandlers ManagerEffects ManagerOutcomes JobSystem
open TableWrites Rank0Runs

/-- An entry that nothing will free any more. -/
def Leaked (gt : Gtab) : Prop :=
  gt.allocated = true ∧ gt.detached = true ∧ gt.terminated.needFinalstate = false

instance (gt : Gtab) : Decidable (Leaked gt) := inferInstanceAs (Decidable (_ ∧ _ ∧ _))

def NoLeak (gtab : ℕ → Gtab) : Prop := ∀ i, ¬ Leaked (gtab i)

/-- A DETACH for a thread that has ended and was not joined yet. -/
def DetachesZombie (job : Job) (v : View) : Event → Prop
  | .write _ => False
  | .msg mqe _ =>
    mqe.frame.body.size ≤ mqe.frame.flen ∧ ∃ thread, mqe.frame.body = .detach thread ∧
      dt2gtab job v.gtab thread = some thread.dtIndex ∧
      (v.gtab thread.dtIndex).terminated.needFinalstate = false

theorem noLeak_update {gtab : ℕ → Gtab} (h : NoLeak gtab) (i : ℕ) {gt : Gtab}
    (hgt : ¬ Leaked gt) : NoLeak (Function.update gtab i gt) := by
  intro j
  by_cases hj : j = i
  · subst hj
    simpa using hgt
  · simpa [hj] using h j

/-- Freeing the only entry that may be leaked leaves none. -/
theorem noLeak_freeGtab {gtab : ℕ → Gtab} (i : ℕ) (h : ∀ j, j ≠ i → ¬ Leaked (gtab j)) :
    NoLeak (freeGtab gtab i) := by
  intro j
  by_cases hj : j = i
  · subst hj
    intro hleak
    exact absurd hleak.1 (by simp [freeGtab_allocated])
  · rw [freeGtab_of_ne gtab hj]
    exact h j hj

theorem noLeak_createTable {gtab gtab' : ℕ → Gtab} (h : NoLeak gtab)
    (hc : CreateTable gtab gtab') : NoLeak gtab' := by
  cases hc with
  | same => exact h
  | alloc i rank seq dispIdx arg hfree => exact noLeak_update h i (by simp [Leaked, gtabInit])
  | back i rank seq dispIdx arg hfree =>
    refine noLeak_freeGtab i fun j hj => ?_
    simpa [hj] using h j

theorem noLeak_terminatedThread (job : Job) (v : View) (thread : DThread) (fin : LtState)
    (h : NoLeak v.gtab) : NoLeak (terminatedThread job v thread fin).gtab := by
  rw [terminatedThread_table]
  split
  · refine noLeak_freeGtab _ fun j hj => ?_
    rw [cleanupGtab_zombie_of_ne hj]
    exact h j
  rename_i hdet
  split
  · refine noLeak_freeGtab _ fun j hj => ?_
    rw [zombieGtab_of_ne _ _ _ hj]
    exact h j
  · exact noLeak_update h _ (by simp [Leaked, hdet])

/-- One message creates a leaked entry exactly if it detaches a zombie. -/
theorem noLeak_msg_iff {job : Job} {v v' : View} {mqe : Mqe} {err : ℕ}
    (hrank : v.mgr.mpiRank = 0) (hop : rank0Only mqe.frame.body.op = true)
    (h : processMqe job v mqe err = some v') (hno : NoLeak v.gtab) :
    NoLeak v'.gtab ↔ ¬ DetachesZombie job v (.msg mqe err) := by
  rcases processMqe_rank0 hrank hop h with ⟨q, rfl, -, hlen⟩ | ⟨hlen, w, hgt, -, hw⟩
  · exact iff_of_true hno fun hd => absurd hd.1 (by omega)
  rw [hgt]
  have hother (hne : ∀ thread, mqe.frame.body ≠ .detach thread) :
      ¬ DetachesZombie job v (.msg mqe err) := fun ⟨_, thread, hb, _⟩ => hne thread hb
  split at hw
  · rename_i hb
    exact iff_of_true (noLeak_createTable hno (createThread_table hw)) (hother (by simp [hb]))
  · rename_i e hb
    refine iff_of_true ?_ (hother (by simp [hb]))
    rcases startedReply_table v mqe e with hsame | ⟨i, hfree⟩
    · rw [hw, hsame]
      exact hno
    · rw [hw, hfree]
      exact noLeak_freeGtab i fun j _ => hno j
  · rename_i thread hb
    cases hfind : dt2gtab job v.gtab thread with
    | none =>
      rw [hw, detachThread_table_none mqe hfind]
      refine iff_of_true hno fun ⟨_, thread', hb', hfind', _⟩ => ?_
      obtain rfl : thread = thread' := by simpa [hb] using hb'
      simp [hfind] at hfind'
    | some i =>
      obtain rfl := dt2gtab_eq _ _ _ hfind
      rw [hw, detachThread_table mqe hfind]
      have halloc := (dt2gtab_valid.mp hfind).2.1
      constructor
      · intro hleak hz
        obtain ⟨_, thread', hb', _, hfin⟩ := hz
        obtain rfl : thread = thread' := by simpa [hb] using hb'
        exact hleak thread.dtIndex (by simp [Leaked, halloc, hfin])
      · intro hz
        refine noLeak_update hno _ fun hleak => hz ?_
        exact ⟨hlen, thread, hb, hfind, hleak.2.2⟩
  · rename_i thread hb
    refine iff_of_true ?_ (hother (by simp [hb]))
    rcases joinThread_table job v mqe thread with hsame | hfree
    · rw [hw, hsame]
      exact hno
    · rw [hw, hfree]
      exact noLeak_freeGtab _ fun j _ => hno j
  · rename_i thread fin hb
    refine iff_of_true ?_ (hother (by simp [hb]))
    rcases terminatedMsg_cases job v mqe thread fin with ⟨hsame, -⟩ | ⟨-, -, hterm, -⟩
    · rw [hw, hsame]
      exact hno
    · rw [hw, hterm]
      exact noLeak_terminatedThread job v thread fin hno
  · exact hw.elim

theorem noLeak_step_iff {job : Job} {v v' : View} {e : Event} (hrank : v.mgr.mpiRank = 0)
    (h : Mgr0Step job v e v') (hno : NoLeak v.gtab) :
    NoLeak v'.gtab ↔ ¬ DetachesZombie job v e := by
  cases h with
  | msg mqe err _ hop h => exact noLeak_msg_iff hrank hop h hno
  | write gtab h =>
    refine iff_of_true (fun i hleak => hno i ?_) id
    have hi : OwnerWrite (v.gtab i) (gtab i) := h i
    unfold OwnerWrite at hi
    simp only at hleak
    rw [hi] at hleak
    exact hleak

theorem noLeak_start (job : Job) (q : Dtq) : NoLeak (mgr0Start job q).gtab := by
  intro i hleak
  have hdet := hleak.2.1
  by_cases hi : i = 0
  · subst hi
    simp [mgr0Start, mgrStartapp] at hdet
  · simp [mgr0Start, mgrStartapp, hi, Gtab.zero] at hdet

/-- A run of rank 0 has no leaked entry in any of its states exactly if no
DETACH in it finds its thread already terminated. -/
theorem detached_zombie_iff {job : Job} {q : Dtq} {tr : List (View × Event)} {v : View}
    (h : Mgr0Run job (mgr0Start job q) tr v) :
    ((∀ we ∈ tr, NoLeak we.1.gtab) ∧ NoLeak v.gtab) ↔
      ∀ we ∈ tr, ¬ DetachesZombie job we.1 we.2 := by
  induction h with
  | nil => simpa using noLeak_start job q
  | @snoc tr v v' e hrun hs ih =>
    simp only [List.mem_append, List.mem_singleton, or_imp, forall_and, forall_eq]
    rw [← ih]
    constructor
    · rintro ⟨⟨htr, hv⟩, hv'⟩
      exact ⟨⟨htr, hv⟩, (noLeak_step_iff hrun.mpiRank hs hv).mp hv'⟩
    · rintro ⟨⟨htr, hv⟩, hz⟩
      exact ⟨⟨htr, hv⟩, (noLeak_step_iff hrun.mpiRank hs hv).mpr hz⟩

/-- The other order works: a thread that is detached while it runs has its
entry freed and uncounted by its TERMINATED. -/
theorem detached_then_terminated_frees {job : Job} {v : View} {thread : DThread} (mqe : Mqe)
    (fin : LtState) (h : dt2gtab job v.gtab thread = some thread.dtIndex)
    (halloc : (v.gtab thread.dtIndex).allocated = true) :
    ((terminatedThread job (detachThread job v mqe thread) thread fin).gtab
        thread.dtIndex).allocated = false ∧
      (terminatedThread job (detachThread job v mqe thread) thread fin).mgr.threadsAlloc =
        v.mgr.threadsAlloc - 1 := by
  have hgt := detachThread_table mqe h
  have hdet : ((detachThread job v mqe thread).gtab thread.dtIndex).detached = true := by
    simp [hgt]
  have halloc' : ((detachThread job v mqe thread).gtab thread.dtIndex).allocated = true := by
    simp [hgt, halloc]
  constructor
  · rw [terminatedThread_table, if_pos hdet]
    exact freeGtab_allocated _ _
  · rw [terminatedThread_threadsAlloc fin hdet halloc', detachThread_threadsAlloc]

/-- A thread is created and ends, and only then it is detached: the DETACH is
answered with success, and the entry stays allocated and counted. -/
theorem terminated_then_detached_leaks :
    ∃ tr v, Mgr0Run twoRanks (mgr0Start twoRanks dtqInit) tr v ∧ Leaked (v.gtab 1) ∧
      v.mgr.threadsAlloc = 2 :=
  ⟨_, _,
    .snoc (.snoc (.snoc (.snoc .nil
      (.msg ⟨0, 0, .of 4 createBody⟩ 0 _ rfl rfl))
      (.msg ⟨0, 1, .of 6 (.started 0)⟩ 0 _ rfl rfl))
      (.msg ⟨0, 1, .of 0 (.terminated ⟨1, 4⟩ .returned)⟩ 0 _ rfl rfl))
      (.msg ⟨0, 0, .of 8 (.detach ⟨1, 4⟩)⟩ 0 _ rfl rfl),
    ⟨rfl, rfl, rfl⟩, rfl⟩

/-- A run that detaches its thread before the end keeps the table clean. -/
theorem detached_zombie_iff_detach_first :
    ∃ tr v, Mgr0Run twoRanks (mgr0Start twoRanks dtqInit) tr v ∧ NoLeak v.gtab := by
  have hrun : Mgr0Run twoRanks (mgr0Start twoRanks dtqInit) _ _ := .snoc (.snoc (.snoc .nil
    (.msg ⟨0, 0, .of 4 createBody⟩ 0 _ rfl rfl))
    (.msg ⟨0, 0, .of 8 (.detach ⟨1, 4⟩)⟩ 0 _ rfl rfl))
    (.msg ⟨0, 1, .of 0 (.terminated ⟨1, 4⟩ .returned)⟩ 0 _ rfl rfl)
  refine ⟨_, _, hrun, ((detached_zombie_iff hrun).mpr ?_).2⟩
  intro we hwe
  simp only [List.nil_append, List.cons_append, List.mem_cons, List.not_mem_nil, or_false] at hwe
  rcases hwe with rfl | rfl | rfl
  · rintro ⟨-, thread, hb, -⟩
    exact Body.noConfusion hb
  · rintro ⟨-, thread, hb, -, hfin⟩
    obtain rfl : _ = thread := by simpa [Frame.of] using hb
    exact Bool.noConfusion hfin
  · rintro ⟨-, thread, hb, -⟩
    exact Body.noConfusion hb

end Dthread.DetachedZombies
