import Dthread.Generations
import Dthread.HandlerSteps
import Dthread.Rank0Runs
import Dthread.SequenceSource

/-!
Thread handles. A handle is a slot of the shared table and the generation the
slot was given; dthread_dt2gtab accepts it while the slot has that generation.
The generations come from rank 0's sequence source, which message numbers are
drawn from as well.
-/
namespace Dthread.Handles

open ReqMsg Queuing ManagerTables ManagerHandlers ManagerEffects ManagerOutcomes AppThreads
open JobSystem TableWrites Rank0Runs HandlerSteps SequenceSource
open Generations (Slots Steps draws)

/-- The part of rank 0's state that handles depend on. -/
def slotsOf (v : View) : Slots :=
  ⟨v.mgr.seqsrc, fun i => if (v.gtab i).allocated then some (v.gtab i).seq else none⟩

/-- The numbers that get_free_seq draws, round by round. -/
def drawnSeqs (job : Job) (rank : ℕ) (rpending : List Request) (op : Op) : ℕ → ℕ → List ℕ
  | 0, _ => []
  | fuel + 1, rv =>
    rv :: if op = .none ∨ findPendingReq rpending op rv = none then []
      else drawnSeqs job rank rpending op fuel (seqNext job rank rv)

/-- Changes that leave the sequence source and the generations alone. -/
structure SameKeys (v v' : View) : Prop where
  rank : v'.mgr.mpiRank = v.mgr.mpiRank
  src : v'.mgr.seqsrc = v.mgr.seqsrc
  allocated : ∀ i, (v'.gtab i).allocated = (v.gtab i).allocated
  seq : ∀ i, (v'.gtab i).seq = (v.gtab i).seq

/-- The calls that concern the generations, with what they do to the slots, and
whatever else goes on at rank 0. -/
inductive TableCall (job : Job) (v : View) : List Generations.Op → View → Prop
  | gtabAlloc (rank dispIdx p : ℕ) (arg : Argret) (v' : View)
      (h : gtabAlloc job v rank dispIdx arg = some (some p, v')) :
      TableCall job v [.alloc p (v'.gtab p).seq] v'
  | gtabFree (i : ℕ) (h : (v.gtab i).allocated = true) :
      TableCall job v [.free i] (gtabFree v i)
  | getFreeSeq (op : Op) (rv : ℕ) (v' : View) (h : getFreeSeq job v op = some (rv, v')) :
      TableCall job v ((drawnSeqs job v.mgr.mpiRank v.mgr.rpending op (2 ^ 32)
        v.mgr.seqsrc).map .draw) v'
  | other (v' : View) (h : SameKeys v v') : TableCall job v [] v'

inductive TableRun (job : Job) (start : View) : List Generations.Op → View → Prop
  | nil : TableRun job start [] start
  | snoc {ops ops' : List Generations.Op} {v v' : View} (h : TableRun job start ops v)
      (hc : TableCall job v ops' v') : TableRun job start (ops ++ ops') v'

/-- What rank 0 has done to the slots since the start of mgr_startapp, which
takes the first of them. -/
inductive Rank0Table (job : Job) (q : Dtq) : List Generations.Op → View → Prop
  | mk {ops : List Generations.Op} {v : View} (h : TableRun job (mgr0Start job q) ops v) :
      Rank0Table job q (.alloc 0 ((mgr0Start job q).gtab 0).seq :: ops) v

section Steps

variable {job : Job} {v v' : View} {ops : List Generations.Op}

theorem drawnSeqs_steps {rank : ℕ} {rpending : List Request} {op : Op} {gen : ℕ → Option ℕ}
    (fuel src : ℕ) {rv src' : ℕ}
    (h : getFreeSeqLoop job rank rpending op fuel src = some (rv, src')) :
    Steps (seqNext job rank) ⟨src, gen⟩ ((drawnSeqs job rank rpending op fuel src).map .draw)
      ⟨src', gen⟩ := by
  induction fuel generalizing src with
  | zero => simp [getFreeSeqLoop] at h
  | succ fuel ih =>
    have hfirst : Steps (seqNext job rank) ⟨src, gen⟩ [.draw src] ⟨seqNext job rank src, gen⟩ :=
      .single .draw
    unfold getFreeSeqLoop at h
    unfold drawnSeqs
    split at h
    · rename_i hfree
      simp only [Option.some.injEq, Prod.mk.injEq] at h
      obtain ⟨rfl, rfl⟩ := h
      rw [if_pos hfree]
      exact hfirst
    · rename_i hbusy
      rw [if_neg hbusy]
      exact hfirst.append (ih _ h)

theorem SameKeys.slotsOf (h : SameKeys v v') : slotsOf v' = slotsOf v := by
  simp [Handles.slotsOf, h.src, h.allocated, h.seq]

/-- A call does to the slots what is written down for it. -/
theorem TableCall.steps (h : TableCall job v ops v') :
    Steps (seqNext job v.mgr.mpiRank) (slotsOf v) ops (slotsOf v') ∧
      v'.mgr.mpiRank = v.mgr.mpiRank := by
  cases h with
  | gtabAlloc rank dispIdx p arg _ h =>
    obtain ⟨hfree, -, rfl⟩ := gtabAlloc_taken _ _ _ _ _ _ _ h
    refine ⟨?_, rfl⟩
    have hgen : ((gtabTaken job v p rank dispIdx arg).gtab p).seq = v.mgr.seqsrc := by
      simp [gtabTaken, gtabInit]
    have hslots : slotsOf (gtabTaken job v p rank dispIdx arg) =
        ⟨seqNext job v.mgr.mpiRank (slotsOf v).src,
          Function.update (slotsOf v).gen p (some (slotsOf v).src)⟩ := by
      unfold slotsOf
      congr 1
      funext i
      by_cases hi : i = p
      · subst hi
        simp [gtabTaken, gtabInit]
      · simp [gtabTaken, hi]
    rw [hgen, hslots]
    exact .single (.alloc p (by simp [slotsOf, hfree]))
  | gtabFree i h =>
    refine ⟨?_, by simp⟩
    have hslots : slotsOf (ManagerTables.gtabFree v i) =
        ⟨(slotsOf v).src, Function.update (slotsOf v).gen i none⟩ := by
      unfold slotsOf ManagerTables.gtabFree
      rw [if_pos h]
      congr 1
      funext j
      by_cases hj : j = i
      · subst hj
        simp [View.setGtab, View.setMgr]
      · simp [View.setGtab, View.setMgr, hj]
    rw [hslots]
    exact .single (.free i (by simp [slotsOf, h]))
  | getFreeSeq op rv _ h =>
    unfold ManagerTables.getFreeSeq at h
    simp only [Option.map_eq_some_iff, Prod.exists, Prod.mk.injEq] at h
    obtain ⟨rv', src, hloop, -, rfl⟩ := h
    exact ⟨drawnSeqs_steps _ _ hloop, rfl⟩
  | other _ h =>
    rw [h.slotsOf]
    exact ⟨.nil, h.rank⟩

theorem TableRun.steps {start : View} (h : TableRun job start ops v) :
    Steps (seqNext job start.mgr.mpiRank) (slotsOf start) ops (slotsOf v) ∧
      v.mgr.mpiRank = start.mgr.mpiRank := by
  induction h with
  | nil => exact ⟨.nil, rfl⟩
  | snoc _ hc ih =>
    obtain ⟨hsteps, hrank⟩ := hc.steps
    rw [ih.2] at hsteps hrank
    exact ⟨ih.1.append hsteps, hrank⟩

end Steps

/-- Rank 0 before mgr_startapp: no slot is in use. -/
def emptySlots (job : Job) : Slots := ⟨job.wsize, fun _ => none⟩

section Source

variable {job : Job}

theorem Rank0Table.steps {q : Dtq} {ops : List Generations.Op} {v : View}
    (h : Rank0Table job q ops v) :
    Steps (seqNext job 0) (emptySlots job) ops (slotsOf v) := by
  obtain ⟨hrun⟩ := h
  have hfirst : Generations.Step (seqNext job 0) (emptySlots job)
      (.alloc 0 ((mgr0Start job q).gtab 0).seq) (slotsOf (mgr0Start job q)) := by
    have hw : (0 + job.wsize) % 2 ^ 32 = job.wsize := by
      have hlt := job.wsize_lt
      omega
    have hseq : ((mgr0Start job q).gtab 0).seq = job.wsize := hw
    have hslots : slotsOf (mgr0Start job q) = ⟨seqNext job 0 job.wsize,
        Function.update (fun _ => none) 0 (some job.wsize)⟩ := by
      unfold slotsOf
      congr 1
      · simp only [mgr0Start, mgrStartapp, mgrInit, hw]
      · funext i
        by_cases hi : i = 0
        · subst hi
          rw [Function.update_self, hseq]
          rfl
        · simp [mgr0Start, mgrStartapp, hi, Gtab.zero]
    rw [hseq, hslots]
    exact .alloc 0 rfl
  have hrest := hrun.steps.1
  exact (Steps.single hfirst).append hrest

/-- The numbers of rank 0 come from the cycle of its sequence source. -/
theorem iterate_seqNext (job : Job) (i : ℕ) :
    (seqNext job 0)^[i] job.wsize = seqAt job 0 (i % seqPeriod job 0) := by
  have hfirst : seqAt job 0 0 = job.wsize := by simp [seqAt]
  have hround := iterate_seqNext_seqAt job.wsize_pos (seqPeriod_pos job.wsize_pos) i
  rwa [hfirst, Nat.zero_add] at hround

theorem iterate_seqNext_inj {n : ℕ} (hn : n ≤ (2 ^ 32 - 1) / job.wsize) (i j : ℕ) (hi : i < n)
    (hj : j < n)
    (h : (seqNext job 0)^[i] job.wsize = (seqNext job 0)^[j] job.wsize) : i = j := by
  have hplace (k : ℕ) (hk : k < n) : k % seqPeriod job 0 = k :=
    Nat.mod_eq_of_lt (lt_of_lt_of_le hk hn)
  rw [iterate_seqNext, iterate_seqNext, hplace i hi, hplace j hj] at h
  exact seqAt_injective job 0 h

/-- The source never comes to 0, not even when it wraps. -/
theorem iterate_seqNext_ne_zero (i : ℕ) : (seqNext job 0)^[i] job.wsize ≠ 0 := by
  rw [iterate_seqNext]
  exact seqAt_ne_zero job 0 _

end Source

/-- A slot that was taken lies in the table. -/
theorem Rank0Table.slot_lt {job : Job} {q : Dtq} {ops : List Generations.Op} {v : View}
    (h : Rank0Table job q ops v) {slot gen : ℕ} (hmem : Generations.Op.alloc slot gen ∈ ops) :
    slot < job.nmaxthread := by
  obtain ⟨hrun⟩ := h
  rw [List.mem_cons] at hmem
  rcases hmem with heq | hmem
  · obtain ⟨rfl, -⟩ : slot = 0 ∧ _ := by simpa using heq
    exact job.nmaxthread_pos
  · induction hrun with
    | nil => simp at hmem
    | snoc _ hc ih =>
      rw [List.mem_append] at hmem
      rcases hmem with hmem | hmem
      · exact ih hmem
      · cases hc with
        | gtabAlloc rank dispIdx p arg _ h =>
          obtain ⟨rfl, -⟩ : slot = p ∧ _ := by simpa using hmem
          exact (gtabAlloc_taken _ _ _ _ _ _ _ h).2.1
        | gtabFree i h => simp at hmem
        | getFreeSeq op rv _ h => simp at hmem
        | other _ h => simp at hmem

/-- dthread_dt2gtab in terms of the generations. -/
theorem dt2gtab_eq_if {job : Job} {v : View} {slot gen : ℕ} (hslot : slot < job.nmaxthread) :
    dt2gtab job v.gtab ⟨slot, gen⟩ =
      if (slotsOf v).gen slot = some gen then some slot else none := by
  unfold dt2gtab slotsOf
  rw [if_neg (not_le.mpr hslot)]
  simp only
  by_cases halloc : (v.gtab slot).allocated = true
  · by_cases hseq : (v.gtab slot).seq = gen
    · simp [halloc, hseq]
    · simp [halloc, hseq, Ne.symm hseq]
  · simp [halloc]

/-- A handle is good from the gtab_alloc that made it to the gtab_free of its
slot, and never again, as long as rank 0 has drawn fewer numbers than there are
before the source wraps. A handle with generation 0 is never good. -/
theorem handles_resolve {job : Job} {q : Dtq} {ops : List Generations.Op} {v : View}
    (h : Rank0Table job q ops v) :
    (draws ops < (2 ^ 32 - 1) / job.wsize → ∀ slot gen before after,
        ops = before ++ .alloc slot gen :: after →
          dt2gtab job v.gtab ⟨slot, gen⟩ = if .free slot ∈ after then none else some slot) ∧
      ∀ i, dt2gtab job v.gtab ⟨i, 0⟩ = none := by
  constructor
  · intro hdraws slot gen before after hops
    have hmem : Generations.Op.alloc slot gen ∈ ops := by
      rw [hops]
      simp
    have hiff := h.steps.gen_iff (iterate_seqNext_inj hdraws.le) hops
    rw [dt2gtab_eq_if (h.slot_lt hmem)]
    by_cases hfree : Generations.Op.free slot ∈ after
    · rw [if_neg (fun hgen => hiff.mp hgen hfree), if_pos hfree]
    · rw [if_pos (hiff.mpr hfree), if_neg hfree]
  · intro i
    by_contra hvalid
    obtain ⟨j, hj⟩ := Option.ne_none_iff_exists'.mp hvalid
    rw [dt2gtab_eq _ _ _ hj] at hj
    obtain ⟨-, halloc, hseq⟩ := dt2gtab_valid.mp hj
    have hgen : (slotsOf v).gen i = some 0 := by
      simp only at halloc hseq
      simp [slotsOf, halloc, hseq]
    rcases h.steps.alloc_of_gen hgen with hmem | hnone
    · obtain ⟨k, -, hk⟩ := h.steps.gen_drawn hmem
      exact iterate_seqNext_ne_zero k hk.symm
    · simp [emptySlots] at hnone

/-- Slot 1 of `twoRanks` is taken and freed: its handle is no good then, and
that of the main thread still is. -/
theorem handles_resolve_freed :
    ∃ v, Rank0Table twoRanks dtqInit [.alloc 0 2, .alloc 1 4, .free 1] v ∧
      dt2gtab twoRanks v.gtab ⟨1, 4⟩ = none ∧ dt2gtab twoRanks v.gtab ⟨0, 2⟩ = some 0 := by
  have halloc : gtabAlloc twoRanks (mgr0Start twoRanks dtqInit) 1 1 .zero =
      some (some 1, gtabTaken twoRanks (mgr0Start twoRanks dtqInit) 1 1 1 .zero) := rfl
  have hrun : TableRun twoRanks (mgr0Start twoRanks dtqInit) [.alloc 1 4, .free 1]
      (gtabFree (gtabTaken twoRanks (mgr0Start twoRanks dtqInit) 1 1 1 .zero) 1) :=
    (TableRun.nil.snoc (.gtabAlloc 1 1 1 .zero _ halloc)).snoc (.gtabFree 1 rfl)
  have hok := (handles_resolve (Rank0Table.mk hrun)).1 (by decide)
  exact ⟨_, .mk hrun, hok 1 4 [.alloc 0 2] [.free 1] rfl, hok 0 2 [] [.alloc 1 4, .free 1] rfl⟩

section Handlers

variable {job : Job} {v v' w : View}

theorem SameKeys.trans (h : SameKeys v w) (h' : SameKeys w v') : SameKeys v v' where
  rank := h'.rank.trans h.rank
  src := h'.src.trans h.src
  allocated i := (h'.allocated i).trans (h.allocated i)
  seq i := (h'.seq i).trans (h.seq i)

/-- Only the manager's own fields differ, and not those two. -/
theorem sameKeys_of_gtab (hgt : v'.gtab = v.gtab) (hrank : v'.mgr.mpiRank = v.mgr.mpiRank)
    (hsrc : v'.mgr.seqsrc = v.mgr.seqsrc) : SameKeys v v' where
  rank := hrank
  src := hsrc
  allocated i := by rw [hgt]
  seq i := by rw [hgt]

namespace TableRun

variable {start : View} {ops : List Generations.Op}

theorem keep (h : TableRun job start ops v) (hsame : SameKeys v v') :
    TableRun job start ops v' := by
  have hlast := h.snoc (.other v' hsame)
  rwa [List.append_nil] at hlast

theorem append {ops' : List Generations.Op} (h : TableRun job start ops v)
    (h' : TableRun job v ops' w) : TableRun job start (ops ++ ops') w := by
  induction h' with
  | nil =>
    rw [List.append_nil]
    exact h
  | snoc _ hc ih =>
    rw [← List.append_assoc]
    exact ih.snoc hc

end TableRun

/-- An elementary operation of a handler is one of those calls. -/
theorem prim_tableCall {c c' : Work} (h : Prim job c c') :
    ∃ ops, TableCall job c.view ops c'.view := by
  cases h with
  | gtabAlloc rank dispIdx i arg _ halloc => exact ⟨_, .gtabAlloc rank dispIdx i arg _ halloc⟩
  | gtabFree i _ hused => exact ⟨_, .gtabFree i hused⟩
  | getFreeSeq op rv hseq => exact ⟨_, .getFreeSeq op rv _ hseq⟩
  | other h => exact ⟨_, .other _ ⟨h.rank, h.seqsrc, h.allocated, h.seq⟩⟩
  | reqRelease notify =>
    refine ⟨_, .other _ (sameKeys_of_gtab ?_ ?_ ?_)⟩
    all_goals
      unfold dtqReqRelease
      split <;> rfl
  | _ => exact ⟨_, .other _ (sameKeys_of_gtab rfl rfl rfl)⟩

theorem run_tableRun {c c' : Work} (h : Run job c c') :
    ∃ ops, TableRun job c.view ops c'.view := by
  induction h with
  | refl => exact ⟨_, .nil⟩
  | tail _ hp ih =>
    obtain ⟨ops, hops⟩ := ih
    obtain ⟨ops', hcall⟩ := prim_tableCall hp
    exact ⟨_, hops.snoc hcall⟩

/-- Away from rank 0 no handler changes a generation. -/
theorem run_gens {c c' : Work} (h : Run job c c') (hrank : c.view.mgr.mpiRank ≠ 0) (i : ℕ) :
    (c'.view.gtab i).allocated = (c.view.gtab i).allocated ∧
      (c'.view.gtab i).seq = (c.view.gtab i).seq := by
  induction h with
  | refl => exact ⟨rfl, rfl⟩
  | tail hr hp ih =>
    have hrank' := (Run.rank hr).trans_ne hrank
    refine ⟨?_, ?_⟩
    all_goals
      cases hp with
      | gtabAlloc _ _ _ _ h0 _ => exact absurd h0 hrank'
      | gtabFree _ h0 _ => exact absurd h0 hrank'
      | getFreeSeq op rv hseq =>
        obtain ⟨-, rfl⟩ := getFreeSeq_some _ _ _ hseq
        first | exact ih.1 | exact ih.2
      | other h => first | exact (h.allocated i).trans ih.1 | exact (h.seq i).trans ih.2
      | reqRelease notify =>
        unfold dtqReqRelease
        split <;> first | exact ih.1 | exact ih.2
      | _ => first | exact ih.1 | exact ih.2

/-- The handling of any message changes the slots by those calls only, and at a
rank other than 0 not at all. -/
theorem processMqe_tableRun {mqe : Mqe} {err : ℕ} (h : processMqe job v mqe err = some v') :
    (∃ ops, TableRun job v ops v') ∧ (v.mgr.mpiRank ≠ 0 → ∀ i,
      (v'.gtab i).allocated = (v.gtab i).allocated ∧ (v'.gtab i).seq = (v.gtab i).seq) := by
  by_cases hrunt : RuntRequest v mqe
  · rw [processMqe_runt hrunt] at h
    obtain rfl := Option.some.inj h
    exact ⟨⟨_, .nil⟩, fun _ _ => ⟨rfl, rfl⟩⟩
  · have hrun := processMqe_run (b := []) (r := []) h hrunt
    exact ⟨run_tableRun hrun, run_gens hrun⟩

theorem processReq_tableRun {rqe : Request} (h : processReq job v rqe = some v') :
    (∃ ops, TableRun job v ops v') ∧ (v.mgr.mpiRank ≠ 0 → ∀ i,
      (v'.gtab i).allocated = (v.gtab i).allocated ∧ (v'.gtab i).seq = (v.gtab i).seq) := by
  obtain ⟨b', hrun⟩ := processReq_run (b := []) (r := []) h
  exact ⟨run_tableRun hrun, run_gens hrun⟩

end Handlers

section Job

variable {job : Job} {s s' : Sys}

/-- A step of another rank that keeps the generations is nothing to rank 0. -/
theorem rank0_put_other {r : ℕ} (hr : r ≠ 0) (net : List Packet) {v : View}
    (h : ∀ i, (v.gtab i).allocated = (s.gtab i).allocated ∧ (v.gtab i).seq = (s.gtab i).seq) :
    SameKeys (s.view 0) (({ s with net := net }.put r v).view 0) := by
  have hrk : ({ s with net := net }.put r v).rk 0 = s.rk 0 := by
    simp [Sys.put, Function.update_of_ne (Ne.symm hr)]
  refine ⟨?_, ?_, fun i => (h i).1, fun i => (h i).2⟩
  · simp only [Sys.view, hrk]
  · simp only [Sys.view, hrk]

theorem rank0_put_self (net : List Packet) (v : View) :
    SameKeys v (({ s with net := net }.put 0 v).view 0) := by
  refine sameKeys_of_gtab rfl ?_ ?_
  · simp [Sys.view, Sys.put]
  · simp [Sys.view, Sys.put]

/-- Every step of the job is to rank 0 a sequence of those calls. -/
theorem step_tableRun (hsane : Sane s) (hs : Step job s s') :
    ∃ ops, TableRun job (s.view 0) ops (s'.view 0) := by
  cases hs with
  | app r l v hr hl h =>
    obtain ⟨lt, gt, rq, ho, he⟩ := appStep_outcome job l (s.view r) v (hsane.quiet r).1 h
    have hentry : gt.allocated = (s.gtab ((s.rk r).mgr.ltab l).gtabIdx).allocated ∧
        gt.seq = (s.gtab ((s.rk r).mgr.ltab l).gtabIdx).seq := by
      cases ho <;> exact ⟨rfl, rfl⟩
    have hgens (i : ℕ) : (v.gtab i).allocated = (s.gtab i).allocated ∧
        (v.gtab i).seq = (s.gtab i).seq := by
      rw [he.gtab]
      by_cases hi : i = ((s.view r).mgr.ltab l).gtabIdx
      · rw [hi, Function.update_self]
        exact hentry
      · rw [Function.update_of_ne hi]
        exact ⟨rfl, rfl⟩
    refine ⟨_, TableRun.nil.keep ?_⟩
    by_cases hr0 : r = 0
    · subst hr0
      refine SameKeys.trans (w := v) ?_ (rank0_put_self s.net v)
      refine ⟨?_, ?_, fun i => (hgens i).1, fun i => (hgens i).2⟩
      · rw [he.mgr]
        rfl
      · rw [he.mgr]
        rfl
    · exact rank0_put_other hr0 s.net hgens
  | recv p net addr err v hr hd h =>
    obtain ⟨⟨ops, hops⟩, hgens⟩ := processMqe_tableRun h
    by_cases hr0 : p.dst = 0
    · rw [hr0] at hops ⊢
      exact ⟨ops, hops.keep (rank0_put_self net v)⟩
    · have hrank : (s.view p.dst).mgr.mpiRank ≠ 0 := by
        simp only [Sys.view, hsane.rank]
        exact hr0
      exact ⟨_, TableRun.nil.keep (rank0_put_other hr0 net (hgens hrank))⟩
  | req r rqe q v hr hq h =>
    obtain ⟨⟨ops, hops⟩, hgens⟩ := processReq_tableRun h
    by_cases hr0 : r = 0
    · subst hr0
      have hdequeued : TableRun job (s.view 0) [] ((s.view 0).setDtq q) :=
        TableRun.nil.keep (sameKeys_of_gtab rfl rfl rfl)
      exact ⟨_, (hdequeued.append hops).keep (rank0_put_self s.net v)⟩
    · have hrank : ((s.view r).setDtq q).mgr.mpiRank ≠ 0 := by
        simp only [View.setDtq, Sys.view, hsane.rank]
        exact hr0
      exact ⟨_, TableRun.nil.keep (rank0_put_other hr0 s.net (hgens hrank))⟩
  | shutdown hidle hd =>
    obtain ⟨ops, hops⟩ := run_tableRun (broadcastShutdown_run (b := []) (r := []) (s.view 0))
    exact ⟨ops, hops.keep (rank0_put_self s.net _)⟩

/-- In every state of a job the shared table is as such a run of rank 0 leaves
it. -/
theorem reachable_rank0Table (h : Reachable job s) :
    ∃ ops, Rank0Table job dtqInit ops (s.view 0) := by
  induction h with
  | refl => exact ⟨_, .mk .nil⟩
  | tail hr hs ih =>
    obtain ⟨_, ⟨hrun⟩⟩ := ih
    obtain ⟨ops, hops⟩ := step_tableRun (Reachable.sane hr) hs
    exact ⟨_, .mk (hrun.append hops)⟩

end Job

end Dthread.Handles
