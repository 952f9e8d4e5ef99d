import Dthread.FateRuns

/-!
The final state of a thread, the TERMINATED that reports it and the value that
a joiner receives. They agree in every run, in whatever order the thread ends,
is canceled and is joined. A report is missing only for a thread whose rank was
draining when its RETCLEAN was taken.
-/
namespace Dthread.FinalStates

open ReqMsg Queuing ManagerTables ManagerHandlers ManagerEffects ManagerOutcomes AppThreads
open JobSystem JobLogs ThreadFates FateRefinement FateSteps FateRuns

/-- Some local slot belongs to the thread of entry `i`. -/
def Held (s : Sys) (i : ℕ) : Prop :=
  ∃ r l, ((s.rk r).mgr.ltab l).pthState ≠ .none ∧ ((s.rk r).mgr.ltab l).gtabIdx = i

/-- How the records of a thread agree. `held` says that it is in a slot. -/
structure EndsOnce (native : Bool) (held : Prop) (past : News) : Prop where
  final : ∀ fin ∈ past.finals, fin ≠ .none ∧ fin ≠ .starting ∧ fin ≠ .running
  running : held → past.started = 1 ∧ past.finals = [] ∧ past.dropped = 0
  left : ¬ held → past.finals.length + past.dropped = past.started ∧ past.started ≤ 1
  canceled : ∀ fin ∈ past.finals, fin = .canceled ∨ fin = .cleanup →
    ∀ ret ∈ past.joined, ret.dtArgretType = DTHREAD_CANCELED
  returned : native = true → .returned ∈ past.finals → ∀ ret ∈ past.joined, past.values = [ret]
  exited : native = true → .exited ∈ past.finals → ∀ ret ∈ past.joined,
    past.values = [ret] ∨ past.values = [] ∧ ret.dtArgretType = DTHREAD_NODATA

theorem final_ne {fin : LtState} (h : fin.needFinalstate = false) :
    fin ≠ .none ∧ fin ≠ .starting ∧ fin ≠ .running := by
  cases fin <;> simp [LtState.needFinalstate, LtState.code] at h ⊢

/-- The stages of a thread in a local slot. -/
def InSlot : Stage → Prop
  | .hosted _ _ => True
  | .ended _ => True
  | .done => True
  | _ => False

section Fates

variable {job : Job} {s : Sys} {i : ℕ} {f : Fate}

theorem held_of_inSlot (h : Shows job s i f) (hin : InSlot f.stage) : Held s i := by
  have hheld {r l : ℕ} {pc : WrapPc} {st : LtState} (hl : Hosts ((s.rk r).mgr.ltab l) i pc st) :
      Held s i := by
    obtain ⟨hidx, -, hst, hne⟩ := hl
    exact ⟨r, l, hst ▸ hne, hidx⟩
  have hstage := h.stage
  cases hf : f.stage with
  | hosted pc st =>
    rw [hf] at hstage
    obtain ⟨-, r, l, hl⟩ := hstage
    exact hheld hl
  | ended fin =>
    rw [hf] at hstage
    obtain ⟨r, l, hl, -⟩ := hstage
    exact hheld hl
  | done =>
    rw [hf] at hstage
    obtain ⟨r, l, st, hl, -⟩ := hstage
    exact hheld hl
  | _ =>
    rw [hf] at hin
    exact hin.elim

theorem inSlot_of_held (h : Shows job s i f) (hr : Reachable job s) (hheld : Held s i) :
    InSlot f.stage := by
  obtain ⟨r, l, hused, hidx⟩ := hheld
  have hl : Hosts ((s.rk r).mgr.ltab l) i _ _ := ⟨hidx, rfl, rfl, hused⟩
  rcases h.of_hosts (LifeRefinement.reachable_lifeOk hr) hl with
    ⟨-, hf⟩ | ⟨-, -, hf⟩ | ⟨-, -, hf⟩
  · rw [hf]
    trivial
  · rw [hf]
    trivial
  · rw [hf]
    trivial

/-- A thread in a slot has been started and not reported. -/
theorem past_inSlot (h : FateOk job f) (hin : InSlot f.stage) :
    ∃ values, f.past = .hosted values := by
  have hstage := h.stage
  cases hf : f.stage with
  | hosted pc st =>
    rw [hf] at hstage
    obtain ⟨values, hpast, -⟩ := hstage
    exact ⟨values, hpast⟩
  | ended fin =>
    rw [hf] at hstage
    obtain ⟨values, hpast, -⟩ := hstage
    exact ⟨values, hpast⟩
  | done =>
    rw [hf] at hstage
    exact ⟨[], hstage⟩
  | _ =>
    rw [hf] at hin
    exact hin.elim

/-- A thread without a slot has not been started, or its end was reported, or
the report was dropped. -/
theorem past_left (h : FateOk job f) (hin : ¬ InSlot f.stage) :
    f.past = .none ∨ (∃ values, f.past = ⟨1, values, [], 1, [], []⟩) ∨
      ∃ values fin joined freed, f.past = ⟨1, values, [fin], 0, joined, freed⟩ ∧
        Agrees (isNative job f) fin f.ret values ∧ (joined = [] ∨ joined = [f.ret]) := by
  have hstage := h.stage
  cases hf : f.stage with
  | waiting =>
    rw [hf] at hstage
    exact .inl hstage
  | reported fin =>
    rw [hf] at hstage
    obtain ⟨values, hpast, hagree⟩ := hstage
    exact .inr (.inr ⟨values, fin, [], [], hpast, hagree, .inl rfl⟩)
  | lost =>
    rw [hf] at hstage
    exact .inr (.inl hstage)
  | zombie fin =>
    rw [hf] at hstage
    obtain ⟨values, hpast, hagree⟩ := hstage
    exact .inr (.inr ⟨values, fin, [], [], hpast, hagree, .inl rfl⟩)
  | closed =>
    rw [hf] at hstage
    rcases hstage with hpast | ⟨values, fin, joined, freed, hpast, hagree, hway⟩
    · exact .inl hpast
    · refine .inr (.inr ⟨values, fin, joined, freed, hpast, hagree, ?_⟩)
      rcases hway with ⟨hjoined, -⟩ | ⟨hjoined, -⟩
      · exact .inr hjoined
      · exact .inl hjoined
  | _ =>
    rw [hf] at hin
    exact absurd trivial hin

end Fates

theorem endsOnce_hosted {native : Bool} {held : Prop} {values : List Argret} (h : held) :
    EndsOnce native held (.hosted values) := by
  constructor <;> simp [News.hosted, h]

theorem endsOnce_none {native : Bool} {held : Prop} (h : ¬ held) : EndsOnce native held .none := by
  constructor <;> simp [News.none, h]

theorem endsOnce_dropped {native : Bool} {held : Prop} {values : List Argret} (h : ¬ held) :
    EndsOnce native held ⟨1, values, [], 1, [], []⟩ := by
  constructor <;> simp [h]

/-- A thread whose end was reported. -/
theorem endsOnce_reported {native : Bool} {held : Prop} {values joined freed : List Argret}
    {fin : LtState} {ret : Argret} (h : ¬ held) (hagree : Agrees native fin ret values)
    (hjoined : joined = [] ∨ joined = [ret]) :
    EndsOnce native held ⟨1, values, [fin], 0, joined, freed⟩ := by
  have hret {ret' : Argret} (hmem : ret' ∈ joined) : ret' = ret := by
    rcases hjoined with rfl | rfl
    · simp at hmem
    · simpa using hmem
  refine ⟨?_, fun hh => absurd hh h, fun _ => ⟨rfl, le_refl 1⟩, ?_, ?_, ?_⟩
  · simp only [List.mem_singleton, forall_eq]
    exact final_ne hagree.final
  · simp only [List.mem_singleton, forall_eq]
    intro hfin ret' hmem
    rw [hret hmem]
    exact hagree.canceled hfin
  · simp only [List.mem_singleton]
    intro _ hfin ret' hmem
    rw [hret hmem]
    exact hagree.returned hfin.symm
  · simp only [List.mem_singleton]
    intro hn hfin ret' hmem
    rw [hret hmem]
    rcases hagree.exited hfin.symm with hvalues | ⟨hvalues, hnodata | ⟨hpth, -⟩⟩
    · exact .inl hvalues
    · exact .inr ⟨hvalues, hnodata⟩
    · rw [hn] at hpth
      exact Bool.noConfusion hpth

theorem endsOnce_left {job : Job} {f : Fate} {held : Prop} (h : FateOk job f)
    (hin : ¬ InSlot f.stage) (hheld : ¬ held) : EndsOnce (isNative job f) held f.past := by
  rcases past_left h hin with hpast | ⟨values, hpast⟩ |
    ⟨values, fin, joined, freed, hpast, hagree, hjoined⟩
  · rw [hpast]
    exact endsOnce_none hheld
  · rw [hpast]
    exact endsOnce_dropped hheld
  · rw [hpast]
    exact endsOnce_reported hheld hagree hjoined

/-- Nothing that a step of a draining rank hands to the queues is sent. -/
theorem posts_of_draining {job : Job} {s s' : Sys} {e : Record} (hquiet : Quiet s)
    (h : Moves job s e s') (hd : e.pre.dtq.mpisqDraindown ≠ .init) : e.posts = [] := by
  have hsent (r : ℕ) (out : List Post) (hr : draindown s r ≠ .init) : sent s r out = [] :=
    if_neg hr
  cases h with
  | app r l act hr hl h =>
    obtain ⟨lt, gt, rq, -, he⟩ :=
      appStep_outcome job l (s.view r) _ (hquiet r).1 (appStep_iff.mpr ⟨act, h, rfl⟩)
    simp [Record.posts, he.accepted]
  | recv p net addr err v hr hd' h =>
    rcases processMqe_outcome job _ v _ err (hquiet p.dst).1 h with ⟨-, hs⟩ | ⟨m, gt, out, -, he⟩
    · obtain ⟨hc, -⟩ := shutdown_change net hs (hquiet p.dst).1 (hquiet p.dst).2 rfl
      exact (recorded hquiet hc).posts.trans (hsent p.dst _ hd)
    · obtain ⟨hc, -⟩ := effect_change net he (hquiet p.dst).1 (hquiet p.dst).2 rfl
      exact (recorded hquiet hc).posts.trans (hsent p.dst _ hd)
  | req r rqe q v hr hq h =>
    obtain ⟨rest, -, ⟨l, -, -, -, -, hc⟩ | ⟨m, gt, out, -, -, hc⟩⟩ := req_cases hquiet hq h
    · exact (recorded hquiet hc).posts.trans (hsent r _ hd)
    · exact (recorded hquiet hc).posts.trans (hsent r _ hd)
  | shutdown hidle hdrain =>
    obtain ⟨hc, -⟩ := shutdown_change s.net (broadcastShutdown_spec job (s.view 0) (hquiet 0).1)
      (hquiet 0).1 (hquiet 0).2 rfl
    exact (recorded hquiet hc).posts.trans (hsent 0 _ hd)

theorem finals_of_draining {job : Job} {log : List Record} {s : Sys} (h : Logged job log s)
    (i : ℕ) : ∀ e ∈ log, e.pre.dtq.mpisqDraindown ≠ .init → e.finals i = [] := by
  induction h with
  | init => simp
  | @snoc log s s' e hl hs ih =>
    intro e' he' hd
    rw [List.mem_append, List.mem_singleton] at he'
    rcases he' with he' | rfl
    · exact ih e' he' hd
    · have hquiet := (reachable_settled hl.reachable).facts.sane.quiet
      simp [Record.finals, posts_of_draining hquiet hs hd]

/-- In every run and for every use of an entry: the TERMINATED carries a final
state and is sent once when the thread leaves its slot, and it is missing
exactly when the rank drains then; the value that a joiner receives is marked as
canceled when that state says so, and it is the value a native thread has
returned or exited with, where an exit without a value gives NODATA. -/
theorem final_state_agrees {job : Job} {log : List Record} {s : Sys} (h : Logged job log s)
    (i g : ℕ) :
    EndsOnce (native (job.dsps ((history job log).disp i g)))
        (g = (history job log).gen i ∧ Held s i) ((history job log).past i g) ∧
      ∀ e ∈ log, e.Leaves job i → (e.finals i = [] ↔ e.pre.dtq.mpisqDraindown ≠ .init) := by
  obtain ⟨f, hf⟩ := exists_traced h i g
  refine ⟨?_, fun e he hleaves => ⟨fun hnone => ?_, finals_of_draining h i e he⟩⟩
  · rw [← hf.past, ← hf.disp]
    by_cases hheld : g = (history job log).gen i ∧ Held s i
    · obtain ⟨values, hpast⟩ := past_inSlot hf.ok
        (inSlot_of_held (hf.now hheld.1) h.reachable hheld.2)
      rw [hpast]
      exact endsOnce_hosted hheld
    · refine endsOnce_left hf.ok (fun hin => hheld ?_) hheld
      have hg : g = (history job log).gen i := by
        by_contra hne
        rw [hf.ended hne] at hin
        exact hin
      exact ⟨hg, held_of_inSlot (hf.now hg) hin⟩
  · apply dropped_drains h i e he
    simp [Record.news, hleaves, hnone]

/-- A thread of `twoRanks` is joined while it runs and then returns a value: its
one TERMINATED says so and the joiner receives the value. -/
theorem final_state_agrees_joined :
    ∃ log s, Logged twoRanks log s ∧
      (history twoRanks log).past 1 1 = ⟨1, [⟨DTHREAD_INLINE, 1, [7]⟩], [.returned], 0,
        [⟨DTHREAD_INLINE, 1, [7]⟩], []⟩ ∧
      EndsOnce true (1 = (history twoRanks log).gen 1 ∧ Held s 1)
        ((history twoRanks log).past 1 1) := by
  have hwaits : Logged twoRanks _ _ := .snoc (.snoc (.snoc createdRun.2
    (.app 0 0 (.post (.join ⟨1, 6⟩) 0) (by decide) (by decide) ⟨rfl, rfl, rfl⟩))
    (.req 0 _ _ _ (by decide) rfl rfl))
    (.recv ⟨0, 0, _⟩ _ 0 0 _ (by decide) ⟨[], [], rfl, rfl, by simp⟩ rfl)
  have hended : Logged twoRanks _ _ := .snoc (.snoc (.snoc (.snoc (.snoc hwaits
    (.app 1 0 .publish (by decide) (by decide) ⟨rfl, by decide, rfl, by decide⟩))
    (.app 1 0 (.appReturn ⟨DTHREAD_INLINE, 1, [7]⟩) (by decide) (by decide)
      ⟨rfl, rfl, by decide⟩))
    (.app 1 0 (.cleanup true none) (by decide) (by decide) rfl))
    (.req 1 _ _ _ (by decide) rfl rfl))
    (.recv ⟨1, 0, _⟩ _ 0 0 _ (by decide) ⟨[], [], rfl, rfl, by simp⟩ rfl)
  exact ⟨_, _, hended, rfl, (final_state_agrees hended 1 1).1⟩

/-- A thread of `twoRanks` is created, and the main thread returns before the
new thread has published itself. Its rank drains when it fails, so its slot is
given back and no TERMINATED is sent. -/
theorem draining_rank_reports_nothing :
    ∃ log s, Logged twoRanks log s ∧ (history twoRanks log).gen 1 = 1 ∧
      (history twoRanks log).past 1 1 = ⟨1, [], [], 1, [], []⟩ := by
  have hdrain : Logged twoRanks _ _ := .snoc (.snoc (.snoc createdRun.2
    (.app 0 0 .app0Return (by decide) (by decide) ⟨rfl, rfl, rfl⟩))
    (.req 0 _ _ _ (by decide) rfl rfl))
    (.recv ⟨0, 1, _⟩ _ 0 0 _ (by decide) ⟨[], [], rfl, rfl, by simp⟩ rfl)
  have hlost : Logged twoRanks _ _ := .snoc (.snoc hdrain
    (.app 1 0 .wrapFail (by decide) (by decide) ⟨rfl, by decide, rfl⟩))
    (.req 1 _ _ _ (by decide) rfl rfl)
  exact ⟨_, _, hlost, rfl, rfl⟩

end Dthread.FinalStates
