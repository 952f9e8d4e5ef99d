import Dthread.FateSteps

/-!
The fates of all threads of a run. An entry of the shared table is used again
and again; incarnation `g` of an entry is its `g`-th use, and the history of a
log keeps what was recorded about each of them.
-/
namespace Dthread.FateRuns

open ReqMsg Queuing ManagerTables ManagerHandlers ManagerEffects ManagerOutcomes AppThreads
open FifoNet JobSystem JobLogs TableWrites RequestReply LocalSlots ThreadLife LifeRefinement
open CancelEffect TableSteps ThreadFates FateRefinement FateSteps

/-- The use an entry is in, and for each use the dispatch entry of its thread
and what is recorded about it. -/
structure History where
  gen : ℕ → ℕ
  disp : ℕ → ℕ → ℕ
  past : ℕ → ℕ → News

/-- Before the run, entry 0 and a slot of rank 0 belong to the main thread. -/
def History.start : History where
  gen i := if i = 0 then 1 else 0
  disp _ _ := 0
  past i g := if i = 0 ∧ g = 1 then .hosted [] else .none

def History.record (job : Job) (h : History) (e : Record) : History where
  gen i := h.gen i + if e.opened i then 1 else 0
  disp i g := if e.opened i ∧ g = h.gen i + 1 then (e.post.gtab i).dispIdx else h.disp i g
  past i g := if g = h.gen i then (h.past i g).add (e.news job i) else h.past i g

def history (job : Job) (log : List Record) : History :=
  log.foldl (History.record job) .start

theorem history_snoc (job : Job) (log : List Record) (e : Record) :
    history job (log ++ [e]) = (history job log).record job e := by
  simp [history]

/-- A message opens an entry only by a CREATE. -/
theorem mqeOutcome_opens {job : Job} {v : View} {mqe : Mqe} {m : Mgr} {gt : ℕ → Gtab}
    {out : List Post} {i : ℕ} (ho : MqeOutcome job v mqe m gt out)
    (hold : (v.gtab i).allocated = false) (hnew : (gt i).allocated = true) :
    ∃ rank seq dispIdx arg, gt i = gtabInit rank seq dispIdx arg (v.gtab i) ∧
      i < job.nmaxthread ∧ dispIdx < job.ndsps ∧ m.ltab = v.mgr.ltab ∧
      mqe.frame.body.op = .create := by
  have hsame (h : (gt i).allocated = (v.gtab i).allocated) : False := by
    rw [h, hold] at hnew
    exact Bool.noConfusion hnew
  have hupdate {k : ℕ} {x : Gtab} (hgt : gt = Function.update v.gtab k x)
      (hx : x.allocated = (v.gtab k).allocated) : False := by
    apply hsame
    rw [hgt]
    by_cases hi : i = k
    · subst hi
      rw [Function.update_self, hx]
    · rw [Function.update_of_ne hi]
  have hfreed {g : ℕ → Gtab} {k : ℕ} (hgt : gt = freeGtab g k)
      (hg : ∀ j, (g j).allocated = (v.gtab j).allocated) : False := by
    subst hgt
    by_cases hi : i = k
    · subst hi
      rw [freeGtab_allocated] at hnew
      exact Bool.noConfusion hnew
    · apply hsame
      rw [freeGtab_of_ne _ hi, hg]
  cases ho with
  | createOk attrs dispIdx arg n gidx xidseq hb hdisp hroom hfree hlt hxid hinit =>
    by_cases hi : i = gidx
    · subst hi
      exact ⟨_, _, _, _, Function.update_self _ _ _, hlt, hdisp.2, rfl, by rw [hb]; rfl⟩
    · exact (hsame (by rw [Function.update_of_ne hi])).elim
  | createDrain attrs dispIdx arg gidx xidseq hb hfree hlt hdrain =>
    exact (hupdate rfl hfree.symm).elim
  | detachPlain => exact (hupdate rfl (by rfl)).elim
  | detachWait => exact (hupdate rfl (by rfl)).elim
  | joinZombie => exact (hfreed rfl fun _ => rfl).elim
  | terminatedZombie => exact (hsame (zombieGtab_allocated _ _ _ _)).elim
  | terminatedDetached =>
    exact (hfreed rfl fun j =>
      (cleanupGtab_allocated _ _ _ j).trans (zombieGtab_allocated _ _ _ j)).elim
  | terminatedJoined => exact (hfreed rfl fun j => zombieGtab_allocated _ _ _ j).elim
  | terminatedDetachedJoined =>
    exact (hfreed rfl fun j =>
      (cleanupGtab_allocated _ _ _ j).trans (zombieGtab_allocated _ _ _ j)).elim
  | startedErr => exact (hfreed rfl fun _ => rfl).elim
  | _ => exact (hsame rfl).elim

theorem opened_iff {e : Record} {i : ℕ} :
    e.opened i = true ↔ (e.pre.gtab i).allocated = false ∧ (e.post.gtab i).allocated = true := by
  simp [Record.opened]

/-- The fate of a thread whose entry was just opened. -/
def fresh (gt : Gtab) : Fate := ⟨.waiting, gt.ret, gt.detached, gt.dispIdx, .none⟩

section Openings

variable {job : Job} {s s' : Sys} {e : Record} {i : ℕ} {f : Fate}

/-- Only the handler of a message opens an entry. -/
theorem opens_msg (hs : Settled job s) (h : Moves job s e s') (hopened : e.opened i = true) :
    ∃ p net m gt out addr, Handled job s s' e p net m gt out ∧
      MqeOutcome job (s.view p.dst) ⟨addr, p.src, p.frame⟩ m gt out := by
  have hquiet := hs.facts.sane.quiet
  obtain ⟨o, hcase⟩ := step_cases hquiet (step_iff_moves.mpr ⟨e, h⟩)
  have hlife : LifeStep (life job s) (life job s') := step_life hs.facts hcase
  obtain ⟨hold, hnew⟩ := opened_iff.mp hopened
  have hsame (h : (e.post.gtab i).allocated = (e.pre.gtab i).allocated) : False := by
    rw [h, hold] at hnew
    exact Bool.noConfusion hnew
  cases h with
  | app r l act hr hl h =>
    obtain ⟨lt, g, rq, ha⟩ := acted_run job (s.view r) l act (hquiet r).1
    refine (hsame ?_).elim
    show ((act.run job (s.view r) l).gtab i).allocated = ((s.view r).gtab i).allocated
    rw [ha.effect.gtab]
    by_cases hi : i = ((s.view r).mgr.ltab l).gtabIdx
    · subst hi
      rw [Function.update_self, ha.entry]
    · rw [Function.update_of_ne hi]
  | recv p net addr err v hr hd h =>
    rcases processMqe_outcome job _ v _ err (hquiet p.dst).1 h with ⟨hb, hd'⟩ | ⟨m, gt, out, ho, he⟩
    · exact (hsame (by rw [hd'.gtab])).elim
    · obtain ⟨hc, -⟩ := effect_change net he (hquiet p.dst).1 (hquiet p.dst).2 rfl
      exact ⟨p, net, m, gt, out, addr,
        ⟨rfl, hd, hc, recorded hquiet hc, mqeOutcome_no_terminated ho, hlife⟩, ho⟩
  | req r rqe q v hr hq h =>
    obtain ⟨rest, hrest, ⟨l, hop, haddr, hrank, hdd, hc⟩ | ⟨m, gt, out, hdd, ho, hc⟩⟩ :=
      req_cases hquiet hq h
    · exact (hsame (congrArg (fun g => (g i).allocated) hc.gtab)).elim
    · refine (hsame ?_).elim
      have hgt : v.gtab = gt := hc.gtab
      show (v.gtab i).allocated = (s.gtab i).allocated
      rw [hgt]
      cases ho with
      | retclean l haddr hlt hbusy hop =>
        exact (retcleanGtab_sameUse (s.rk r).mgr s.gtab l i).allocated
      | _ => rfl
  | shutdown hidle hdrain =>
    refine (hsame ?_).elim
    rw [(broadcastShutdown_spec job (s.view 0) (hquiet 0).1).gtab]

/-- The entry that a step opens was closed, and its new thread waits. -/
theorem opens_moves (hs : Settled job s) (h : Moves job s e s') (hshow : Shows job s i f)
    (hopened : e.opened i = true) :
    f.stage = .closed ∧ e.news job i = .none ∧ Shows job s' i (fresh (e.post.gtab i)) ∧
      (e.post.gtab i).dispIdx < job.ndsps := by
  obtain ⟨p, net, m, gt, out, addr, hh, ho⟩ := opens_msg hs h hopened
  obtain ⟨hold, hnew⟩ := opened_iff.mp hopened
  rw [hh.recorded.pre] at hold
  rw [hh.recorded.gtab] at hnew ⊢
  have hfree : (s.gtab i).allocated = false := hold
  have hclosed := hshow.of_free hs.life hfree
  obtain ⟨rank, seq, dispIdx, arg, hgt, hlt, hdisp, hltab, hb⟩ := mqeOutcome_opens ho hfree hnew
  have hslots (l : ℕ) (pc : WrapPc) (st : LtState) :
      Hosts (m.ltab l) i pc st ↔ Hosts ((s.rk p.dst).mgr.ltab l) i pc st := by
    rw [hltab]
    exact Iff.rfl
  have hnohost (r l : ℕ) (pc : WrapPc) (st : LtState) : ¬ Hosts ((s.rk r).mgr.ltab l) i pc st := by
    intro hl
    rcases hshow.of_hosts hs.life hl with ⟨-, hf⟩ | ⟨-, -, hf⟩ | ⟨-, -, hf⟩ <;>
      simp [hclosed] at hf
  refine ⟨hclosed, ?_, ⟨?_, fun _ => ?_⟩, ?_⟩
  · have hnames : e.names i = false := by
      simp only at hb
      cases hbody : p.frame.body <;> simp [hbody, Body.op] at hb
      simp [Record.names, hh.event, hbody]
    rw [hh.news hslots, hnames]
    rfl
  · refine ⟨?_, fun r l pc st hl => ?_, fun q hq fin hend => ?_⟩
    · simp [life, liveSet, isLive, hlt, hh.change.gtab, hgt, gtabInit, LtState.needFinalstate,
        LtState.code]
    · by_cases hr : r = p.dst
      · subst hr
        rw [hh.change.mgr] at hl
        exact hnohost _ l pc st ((hslots l pc st).mp hl)
      · rw [hh.change.others r hr] at hl
        exact hnohost r l pc st hl
    · rw [hh.change.net, List.mem_append, List.mem_map] at hq
      rcases hq with hq | ⟨post, hpost, rfl⟩
      · have hf := hshow.of_end hs.life (hh.deliver.mem_of_mem hq) hend
        simp [hclosed] at hf
      · have hfinal := isEnd_pack hend
        rw [hh.posts i post hpost] at hfinal
        exact absurd hfinal (by simp)
  · rw [hh.change.gtab]
    exact ⟨rfl, rfl, rfl⟩
  · rw [hgt]
    exact hdisp

end Openings

/-- Nothing is recorded about a use that has not begun. -/
theorem history_future (job : Job) (log : List Record) {i g : ℕ}
    (hg : (history job log).gen i < g) : (history job log).past i g = .none := by
  induction log using List.reverseRecOn with
  | nil =>
    have hne : ¬ (i = 0 ∧ g = 1) := by
      rintro ⟨rfl, rfl⟩
      exact absurd hg (by simp [history, History.start])
    exact if_neg hne
  | append_singleton log e ih =>
    rw [history_snoc] at hg ⊢
    simp only [History.record] at hg ⊢
    have hlt : (history job log).gen i < g := by omega
    rw [if_neg (by omega), ih hlt]

/-- Some step of the run loses the value of use `g` of entry `i`. -/
def LosesUse (job : Job) (log : List Record) (i g : ℕ) : Prop :=
  ∃ before e after, log = before ++ e :: after ∧ (history job before).gen i = g ∧
    e.loses job i = true

theorem LosesUse.append {job : Job} {log : List Record} {i g : ℕ} (h : LosesUse job log i g)
    (e : Record) : LosesUse job (log ++ [e]) i g := by
  obtain ⟨before, e', after, rfl, hg, hloses⟩ := h
  exact ⟨before, e', after ++ [e], by simp, hg, hloses⟩

/-- Fate `f` is that of use `g` of entry `i` in a run with log `log`. -/
structure Traced (job : Job) (log : List Record) (s : Sys) (i g : ℕ) (f : Fate) : Prop where
  ok : FateOk job f
  past : f.past = (history job log).past i g
  disp : f.dispIdx = (history job log).disp i g
  now : g = (history job log).gen i → Shows job s i f
  ended : g ≠ (history job log).gen i → f.stage = .closed
  kept : ¬ LosesUse job log i g → (job.dsps f.dispIdx).dtRetproc = true → Kept f

theorem traced_init (job : Job) (i g : ℕ) : ∃ f, Traced job [] (sysInit job) i g f := by
  by_cases hmain : i = 0 ∧ g = 1
  · obtain ⟨rfl, rfl⟩ := hmain
    refine ⟨⟨.hosted .app .running, ((sysInit job).gtab 0).ret, false, 0, .hosted []⟩,
      ⟨job.ndsps_pos, [], rfl, .inl rfl, rfl⟩, rfl, rfl, fun _ => ?_, fun hg => absurd rfl hg,
      fun _ _ => trivial⟩
    exact ⟨⟨nofun, 0, 0, rfl, rfl, rfl, nofun⟩, fun _ => ⟨rfl, rfl, rfl⟩⟩
  · refine ⟨⟨.closed, .zero, false, 0, .none⟩, ⟨job.ndsps_pos, .inl rfl⟩, ?_, rfl, fun hg => ?_,
      fun _ => rfl, fun _ _ => .inl rfl⟩
    · exact (if_neg hmain).symm
    · refine shows_closed rfl ?_
      have hi : i ≠ 0 := by
        rintro rfl
        exact hmain ⟨rfl, hg⟩
      simp [sysInit, mgrStartapp, hi, Gtab.zero]

section Steps

variable {job : Job} {log : List Record} {s s' : Sys} {e : Record} {i g : ℕ} {f : Fate}

/-- A use that a step neither opens nor finds in progress. -/
theorem Traced.idle (h : Traced job log s i g f)
    (hpast : ((history job log).record job e).past i g = (history job log).past i g)
    (hdisp : ((history job log).record job e).disp i g = (history job log).disp i g)
    (hgen : g ≠ ((history job log).record job e).gen i) (hstage : f.stage = .closed) :
    Traced job (log ++ [e]) s' i g f where
  ok := h.ok
  past := by
    rw [history_snoc, hpast]
    exact h.past
  disp := by
    rw [history_snoc, hdisp]
    exact h.disp
  now hg := by
    rw [history_snoc] at hg
    exact absurd hg hgen
  ended _ := hstage
  kept hlog hproc := h.kept (fun hlost => hlog (hlost.append e)) hproc

/-- The use of an entry that a step does not open goes on. -/
theorem Traced.follow (h : Traced job log s i g f) (hg : g = (history job log).gen i)
    (hopened : e.opened i = false) (hf : Follows job e s' i f) :
    ∃ f', Traced job (log ++ [e]) s' i g f' := by
  obtain ⟨loss, f', hstep, hshow, hloss, -⟩ := hf
  refine ⟨f', hstep.ok h.ok, ?_, ?_, fun _ => hshow, fun hne => ?_, fun hlog hproc => ?_⟩
  · rw [history_snoc, hstep.past, h.past]
    simp only [History.record]
    rw [if_pos hg]
  · rw [history_snoc, hstep.dispIdx, h.disp]
    simp [History.record, hopened]
  · refine absurd ?_ hne
    rw [history_snoc, hg]
    simp [History.record, hopened]
  · rw [hstep.dispIdx] at hproc
    have hnone : loss = .none := by
      by_contra hne
      exact hlog ⟨log, e, [], rfl, hg.symm, hloss hne hproc⟩
    subst hnone
    have hpth : isNative job f = false := by simp [isNative, native, hproc]
    exact FateStep.kept h.ok hpth
      (h.kept (fun hlost => hlog (hlost.append e)) hproc) hstep

/-- A use begins. -/
theorem traced_fresh (hshow : Shows job s' i (fresh (e.post.gtab i)))
    (hdisp : (e.post.gtab i).dispIdx < job.ndsps) (hopened : e.opened i = true) :
    Traced job (log ++ [e]) s' i ((history job log).gen i + 1) (fresh (e.post.gtab i)) where
  ok := ⟨hdisp, rfl⟩
  past := by
    rw [history_snoc]
    simp only [History.record]
    rw [if_neg (by omega), history_future job log (by omega)]
    rfl
  disp := by
    rw [history_snoc]
    simp [History.record, hopened, fresh]
  now _ := hshow
  ended hne := by
    refine absurd ?_ hne
    rw [history_snoc]
    simp [History.record, hopened]
  kept _ _ := trivial

theorem traced_step (hr : Reachable job s) (hs : Moves job s e s')
    (h : ∀ i g, ∃ f, Traced job log s i g f) (i g : ℕ) :
    ∃ f, Traced job (log ++ [e]) s' i g f := by
  have hset := reachable_settled hr
  obtain ⟨f, hf⟩ := h i g
  obtain ⟨f₀, hf₀⟩ := h i ((history job log).gen i)
  cases hopened : e.opened i with
  | false =>
    by_cases hg : g = (history job log).gen i
    · exact hf.follow hg hopened (follows_moves hset hs (hf.now hg) hf.ok hopened)
    · refine ⟨f, hf.idle ?_ ?_ ?_ (hf.ended hg)⟩
      · simp [History.record, hg]
      · simp [History.record, hopened]
      · simpa [History.record, hopened] using hg
  | true =>
    obtain ⟨hclosed, hnews, hshow, hdisp⟩ := opens_moves hset hs (hf₀.now rfl) hopened
    by_cases hnew : g = (history job log).gen i + 1
    · subst hnew
      exact ⟨_, traced_fresh hshow hdisp hopened⟩
    · refine ⟨f, hf.idle ?_ ?_ ?_ ?_⟩
      · simp [History.record, hnews]
      · simp [History.record, hnew]
      · simpa [History.record, hopened] using hnew
      · by_cases hg : g = (history job log).gen i
        · exact (opens_moves hset hs (hf.now hg) hopened).1
        · exact hf.ended hg

end Steps

/-- Every use of an entry in a run is the fate of a thread. -/
theorem exists_traced {job : Job} {log : List Record} {s : Sys} (h : Logged job log s) (i g : ℕ) :
    ∃ f, Traced job log s i g f := by
  induction h generalizing i g with
  | init => exact traced_init job i g
  | snoc hl hs ih => exact traced_step hl.reachable hs ih i g

/-- A report is dropped only at a rank that drains. -/
theorem dropped_drains {job : Job} {log : List Record} {s : Sys} (h : Logged job log s) (i : ℕ) :
    ∀ e ∈ log, (e.news job i).dropped ≠ 0 → e.pre.dtq.mpisqDraindown ≠ .init := by
  induction h with
  | init => simp
  | @snoc log s s' e hl hs ih =>
    intro e' he'
    rw [List.mem_append, List.mem_singleton] at he'
    rcases he' with he' | rfl
    · exact ih e' he'
    · have hset := reachable_settled hl.reachable
      obtain ⟨f, hf⟩ := exists_traced hl i ((history job log).gen i)
      cases hopened : e'.opened i with
      | true =>
        obtain ⟨-, hnews, -⟩ := opens_moves hset hs (hf.now rfl) hopened
        rw [hnews]
        exact fun hne => absurd rfl hne
      | false =>
        obtain ⟨loss, f', -, -, -, hdrains⟩ := follows_moves hset hs (hf.now rfl) hf.ok hopened
        exact hdrains

end Dthread.FateRuns
