import Dthread.JobSystem

/-!
The sequence source of a rank (get_free_seq, and dt_init.c where it starts). The
values of rank `r` of `W` ranks are r+W, r+2W and so on up to the last one below
2^32. The wrap test leads from there back to r+W, so that the source goes round
a cycle of the residue class of `r` and never comes to 0.
-/
namespace Dthread.SequenceSource

open ReqMsg Queuing ManagerTables ManagerEffects JobSystem

/-- The number of values of the source. -/
def seqPeriod (job : Job) (rank : ℕ) : ℕ := (2 ^ 32 - 1 - rank) / job.wsize

/-- The value at place `k` of the cycle. -/
def seqAt (job : Job) (rank k : ℕ) : ℕ := rank + (k + 1) * job.wsize

/-- The calls of get_free_seq on a rank, oldest first, with their operations and
results, and the source after them. Between two calls everything but the source
may change. -/
inductive Draws (job : Job) (rank : ℕ) : List (Op × ℕ) → ℕ → Prop
  | start : Draws job rank [] (mgrInit job rank).seqsrc
  | call {calls : List (Op × ℕ)} {rv : ℕ} (v v' : View) (op : Op)
      (h : Draws job rank calls v.mgr.seqsrc) (hrank : v.mgr.mpiRank = rank)
      (hcall : getFreeSeq job v op = some (rv, v')) :
      Draws job rank (calls ++ [(op, rv)]) v'.mgr.seqsrc

/-- The pending requests of an operation. -/
def pendingOf (rpending : List Request) (op : Op) : List Request :=
  rpending.filter fun rqe => rqe.reqop == op

section Cycle

variable {job : Job} {r k : ℕ}

theorem lt_seqPeriod_iff : k < seqPeriod job r ↔ r + (k + 1) * job.wsize < 2 ^ 32 := by
  have hpos : 0 < (k + 1) * job.wsize := Nat.mul_pos k.succ_pos job.wsize_pos
  rw [seqPeriod, ← Nat.add_one_le_iff, Nat.le_div_iff_mul_le job.wsize_pos]
  omega

theorem seqPeriod_pos (hr : r < job.wsize) : 0 < seqPeriod job r := by
  have hlt := job.wsize_lt
  rw [lt_seqPeriod_iff]
  omega

theorem seqPeriod_lt (job : Job) (r : ℕ) : seqPeriod job r < 2 ^ 32 := by
  have hle : (2 ^ 32 - 1 - r) / job.wsize ≤ 2 ^ 32 - 1 - r := Nat.div_le_self _ _
  unfold seqPeriod
  omega

theorem seqAt_succ (job : Job) (r k : ℕ) : seqAt job r (k + 1) = seqAt job r k + job.wsize := by
  unfold seqAt
  ring

theorem seqAt_lt (hk : k < seqPeriod job r) : seqAt job r k < 2 ^ 32 := lt_seqPeriod_iff.mp hk

theorem seqAt_ne_zero (job : Job) (r k : ℕ) : seqAt job r k ≠ 0 := by
  have hpos : 0 < (k + 1) * job.wsize := Nat.mul_pos k.succ_pos job.wsize_pos
  unfold seqAt
  omega

theorem seqAt_mod (hr : r < job.wsize) (k : ℕ) : seqAt job r k % job.wsize = r := by
  rw [seqAt, Nat.add_mul_mod_self_right, Nat.mod_eq_of_lt hr]

theorem seqAt_injective (job : Job) (r : ℕ) : Function.Injective (seqAt job r) := by
  intro i j h
  have hmul : (i + 1) * job.wsize = (j + 1) * job.wsize := Nat.add_left_cancel h
  have hsucc := Nat.eq_of_mul_eq_mul_right job.wsize_pos hmul
  omega

theorem seqsrc_start (hr : r < job.wsize) : (mgrInit job r).seqsrc = seqAt job r 0 := by
  have hlt := job.wsize_lt
  have hsum : (mgrInit job r).seqsrc = (r + job.wsize) % 2 ^ 32 := rfl
  rw [hsum, Nat.mod_eq_of_lt (by omega), seqAt]
  ring

/-- One draw moves the source to the next place of the cycle. The wrap test
fires at the last place only. -/
theorem seqNext_seqAt (hr : r < job.wsize) (hk : k < seqPeriod job r) :
    seqNext job r (seqAt job r k) = seqAt job r ((k + 1) % seqPeriod job r) := by
  have hwsize := job.wsize_lt
  have hlt := seqAt_lt hk
  have hne := seqAt_ne_zero job r k
  unfold seqNext
  simp only
  rw [← seqAt_succ]
  by_cases hlast : k + 1 < seqPeriod job r
  · rw [Nat.mod_eq_of_lt (seqAt_lt hlast), Nat.mod_eq_of_lt hlast, seqAt_succ, if_neg (by omega)]
  · have hend : k + 1 = seqPeriod job r := by omega
    have hover : 2 ^ 32 ≤ seqAt job r (k + 1) := not_lt.mp (mt lt_seqPeriod_iff.mpr hlast)
    have hwrap : seqAt job r (k + 1) % 2 ^ 32 = seqAt job r k + job.wsize - 2 ^ 32 := by
      rw [seqAt_succ] at hover ⊢
      rw [Nat.mod_eq_sub_mod hover, Nat.mod_eq_of_lt (by omega)]
    have hstart : (r + job.wsize) % 2 ^ 32 = seqAt job r 0 := seqsrc_start hr
    rw [hwrap, if_pos (by omega), hstart, hend, Nat.mod_self]

theorem iterate_seqNext_seqAt (hr : r < job.wsize) (hk : k < seqPeriod job r) (j : ℕ) :
    (seqNext job r)^[j] (seqAt job r k) = seqAt job r ((k + j) % seqPeriod job r) := by
  induction j with
  | zero => rw [Nat.add_zero, Nat.mod_eq_of_lt hk, Function.iterate_zero, id]
  | succ j ih =>
    have hplace := Nat.mod_lt (k + j) (seqPeriod_pos hr)
    rw [Function.iterate_succ_apply', ih, seqNext_seqAt hr hplace, Nat.mod_add_mod, Nat.add_assoc]

/-- Within one round the source takes no value twice. -/
theorem add_mod_seqPeriod_inj {i j : ℕ} (hi : i < seqPeriod job r) (hj : j < seqPeriod job r)
    (h : (k + i) % seqPeriod job r = (k + j) % seqPeriod job r) : i = j := by
  have hmod := Nat.ModEq.add_left_cancel' k h
  rwa [Nat.ModEq, Nat.mod_eq_of_lt hi, Nat.mod_eq_of_lt hj] at hmod

end Cycle

section Loop

variable {job : Job} {r : ℕ} {rpending : List Request} {op : Op}

theorem findPendingReq_eq_none {seq : ℕ} :
    findPendingReq rpending op seq = none ↔
      ∀ rqe ∈ rpending, rqe.reqop = op → rqe.xidseq ≠ seq := by
  simp [findPendingReq, pendingMatch]
  tauto

/-- The loop draws values of the source until one is free. -/
theorem getFreeSeqLoop_draws (fuel src : ℕ) {rv src' : ℕ}
    (h : getFreeSeqLoop job r rpending op fuel src = some (rv, src')) :
    ∃ j, rv = (seqNext job r)^[j] src := by
  induction fuel generalizing src with
  | zero => simp [getFreeSeqLoop] at h
  | succ fuel ih =>
    unfold getFreeSeqLoop at h
    split at h
    · simp only [Option.some.injEq, Prod.mk.injEq] at h
      exact ⟨0, h.1.symm⟩
    · obtain ⟨j, hj⟩ := ih _ h
      exact ⟨j + 1, hj⟩

/-- A free value ahead ends the loop. -/
theorem getFreeSeqLoop_ends (fuel src j : ℕ) (hj : j < fuel)
    (hfree : findPendingReq rpending op ((seqNext job r)^[j] src) = none) :
    ∃ out, getFreeSeqLoop job r rpending op fuel src = some out := by
  induction fuel generalizing src j with
  | zero => omega
  | succ fuel ih =>
    unfold getFreeSeqLoop
    split
    · exact ⟨_, rfl⟩
    · rename_i hbusy
      cases j with
      | zero => exact absurd (.inr hfree) hbusy
      | succ j => exact ih _ j (by omega) hfree

end Loop

section Runs

variable {job : Job} {r src : ℕ} {calls pre block : List (Op × ℕ)}

/-- The source stands at a place of the cycle, and so did every value drawn. -/
theorem Draws.places (hr : r < job.wsize) (h : Draws job r calls src) :
    (∃ k < seqPeriod job r, src = seqAt job r k) ∧
      ∀ x ∈ calls, ∃ k < seqPeriod job r, x.2 = seqAt job r k := by
  induction h with
  | start => exact ⟨⟨0, seqPeriod_pos hr, seqsrc_start hr⟩, by simp⟩
  | @call calls rv v v' op _ hrank hcall ih =>
    obtain ⟨⟨k, hk, hsrc⟩, hdrawn⟩ := ih
    have hrv : ∃ i < seqPeriod job r, rv = seqAt job r i := by
      unfold getFreeSeq at hcall
      simp only [Option.map_eq_some_iff, Prod.exists, Prod.mk.injEq] at hcall
      obtain ⟨a, b, hloop, rfl, -⟩ := hcall
      rw [hrank, hsrc] at hloop
      obtain ⟨j, hj⟩ := getFreeSeqLoop_draws _ _ hloop
      rw [iterate_seqNext_seqAt hr hk] at hj
      exact ⟨_, Nat.mod_lt _ (seqPeriod_pos hr), hj⟩
    constructor
    · obtain ⟨i, hi, hplace⟩ := hrv
      obtain ⟨-, rfl⟩ := getFreeSeq_some job v op hcall
      refine ⟨(i + 1) % seqPeriod job r, Nat.mod_lt _ (seqPeriod_pos hr), ?_⟩
      rw [← seqNext_seqAt hr hi, ← hplace, ← hrank]
      rfl
    · intro x hx
      rcases List.mem_append.mp hx with hx | hx
      · exact hdrawn x hx
      · rw [List.mem_singleton.mp hx]
        exact hrv

/-- A run that ends in a call, cut in two. -/
theorem append_eq_snoc {x : Op × ℕ} (h : calls ++ [x] = pre ++ block) :
    (block = [] ∧ pre = calls ++ [x]) ∨
      ∃ block', block = block' ++ [x] ∧ calls = pre ++ block' := by
  rcases List.eq_nil_or_concat' block with rfl | ⟨block', y, rfl⟩
  · exact .inl ⟨rfl, by simpa using h.symm⟩
  · rw [← List.append_assoc] at h
    obtain ⟨hcalls, hx⟩ := List.append_inj' h rfl
    rw [List.singleton_inj] at hx
    exact .inr ⟨block', by rw [hx], hcalls⟩

/-- The calls up to a point of a run are a run. -/
theorem Draws.of_append (h : Draws job r calls src) (hcalls : calls = pre ++ block) :
    ∃ src', Draws job r pre src' := by
  induction h generalizing block with
  | start =>
    obtain ⟨rfl, -⟩ := List.append_eq_nil_iff.mp hcalls.symm
    exact ⟨_, .start⟩
  | call v v' op h hrank hcall ih =>
    rcases append_eq_snoc hcalls with ⟨-, rfl⟩ | ⟨block', -, hpre⟩
    · exact ⟨_, .call v v' op h hrank hcall⟩
    · exact ih hpre

/-- Calls for DTOP_NONE in a row draw places of the cycle in a row. -/
theorem Draws.block_places (hr : r < job.wsize) (h : Draws job r calls src)
    (hcalls : calls = pre ++ block) (hnone : ∀ x ∈ block, x.1 = .none) :
    ∃ k, block.map Prod.snd =
        (List.range block.length).map (fun i => seqAt job r ((k + i) % seqPeriod job r)) ∧
      src = seqAt job r ((k + block.length) % seqPeriod job r) := by
  induction h generalizing block with
  | start =>
    obtain ⟨-, rfl⟩ := List.append_eq_nil_iff.mp hcalls.symm
    refine ⟨0, rfl, ?_⟩
    rw [seqsrc_start hr]
    simp
  | @call calls rv v v' op h hrank hcall ih =>
    rcases append_eq_snoc hcalls with ⟨rfl, -⟩ | ⟨block', rfl, hpre⟩
    · obtain ⟨⟨k, hk, hsrc⟩, -⟩ := (Draws.call v v' op h hrank hcall).places hr
      refine ⟨k, rfl, ?_⟩
      rw [hsrc, List.length_nil, Nat.add_zero, Nat.mod_eq_of_lt hk]
    · obtain ⟨k, hdrawn, hsrc⟩ := ih hpre fun x hx => hnone x (by simp [hx])
      obtain rfl : op = .none := hnone (op, rv) (by simp)
      rw [getFreeSeq_none] at hcall
      simp only [Option.some.injEq, Prod.mk.injEq] at hcall
      obtain ⟨rfl, rfl⟩ := hcall
      have hplace := Nat.mod_lt (k + block'.length) (seqPeriod_pos hr)
      refine ⟨k, ?_, ?_⟩
      · rw [List.map_append, hdrawn, List.length_append, List.length_singleton, List.range_succ,
          List.map_append, List.map_singleton, List.map_singleton, hsrc]
      · have hnext : seqNext job r v.mgr.seqsrc =
            seqAt job r ((k + (block' ++ [(Op.none, v.mgr.seqsrc)]).length) % seqPeriod job r) := by
          rw [hsrc, seqNext_seqAt hr hplace, Nat.mod_add_mod, List.length_append, Nat.add_assoc]
          rfl
        rw [← hnext, ← hrank]
        rfl

/-- One round of calls for DTOP_NONE draws no value twice. -/
theorem Draws.nodup (hr : r < job.wsize) (h : Draws job r calls src) (hcalls : calls = pre ++ block)
    (hnone : ∀ x ∈ block, x.1 = .none) (hlen : block.length ≤ seqPeriod job r) :
    (block.map Prod.snd).Nodup := by
  obtain ⟨k, hdrawn, -⟩ := h.block_places hr hcalls hnone
  rw [hdrawn]
  refine List.Nodup.map_on ?_ List.nodup_range
  intro i hi j hj heq
  rw [List.mem_range] at hi hj
  exact add_mod_seqPeriod_inj (by omega) (by omega) (seqAt_injective job r heq)

end Runs

/-- Of the values of one round some value is not that of a pending request,
when fewer requests of the operation are pending. -/
theorem exists_free_place {job : Job} {r k : ℕ} {rpending : List Request} {op : Op}
    (hfew : (pendingOf rpending op).length < seqPeriod job r) :
    ∃ j < seqPeriod job r,
      findPendingReq rpending op (seqAt job r ((k + j) % seqPeriod job r)) = none := by
  set place : ℕ → ℕ := fun j => seqAt job r ((k + j) % seqPeriod job r) with hplace
  have hinj : Set.InjOn place (Finset.range (seqPeriod job r)) := by
    intro i hi j hj heq
    rw [Finset.coe_range, Set.mem_Iio] at hi hj
    exact add_mod_seqPeriod_inj hi hj (seqAt_injective job r heq)
  have hcard : ((pendingOf rpending op).map Request.xidseq).toFinset.card <
      ((Finset.range (seqPeriod job r)).image place).card := by
    rw [Finset.card_image_of_injOn hinj, Finset.card_range]
    refine lt_of_le_of_lt (List.toFinset_card_le _) ?_
    rwa [List.length_map]
  obtain ⟨seq, hseq, hnot⟩ := Finset.exists_mem_notMem_of_card_lt_card hcard
  obtain ⟨j, hj, rfl⟩ := Finset.mem_image.mp hseq
  refine ⟨j, Finset.mem_range.mp hj, findPendingReq_eq_none.mpr fun rqe hrqe hop heq => hnot ?_⟩
  rw [List.mem_toFinset, List.mem_map]
  exact ⟨rqe, List.mem_filter.mpr ⟨hrqe, by simp [hop]⟩, heq⟩

/-- The sequence source of a rank. Over every run of calls the values are not 0
and keep to the residue class of the rank, a round of calls for DTOP_NONE has no
value twice, and a call for an operation ends with a value that no pending
request of it has, when fewer than a round of them are pending. -/
theorem sequence_source (job : Job) (r : ℕ) (hr : r < job.wsize) (calls : List (Op × ℕ)) (src : ℕ)
    (h : Draws job r calls src) :
    (∀ x ∈ calls, x.2 ≠ 0 ∧ x.2 % job.wsize = r) ∧
    (∀ r' calls' src', r' < job.wsize → r' ≠ r → Draws job r' calls' src' →
      ∀ x ∈ calls, ∀ y ∈ calls', x.2 ≠ y.2) ∧
    (∀ pre block post, calls = pre ++ block ++ post → (∀ x ∈ block, x.1 = .none) →
      block.length ≤ (2 ^ 32 - 1 - r) / job.wsize → (block.map Prod.snd).Nodup) ∧
    (∀ v op, v.mgr.mpiRank = r → v.mgr.seqsrc = src → op ≠ .none →
      (pendingOf v.mgr.rpending op).length < (2 ^ 32 - 1 - r) / job.wsize →
      ∃ rv v', getFreeSeq job v op = some (rv, v') ∧
        ∀ rqe ∈ v.mgr.rpending, rqe.reqop = op → rqe.xidseq ≠ rv) := by
  have hclass {r' : ℕ} {calls' : List (Op × ℕ)} {src' : ℕ} (hr' : r' < job.wsize)
      (h' : Draws job r' calls' src') : ∀ x ∈ calls', x.2 ≠ 0 ∧ x.2 % job.wsize = r' := by
    intro x hx
    obtain ⟨k, -, hk⟩ := (h'.places hr').2 x hx
    rw [hk]
    exact ⟨seqAt_ne_zero job r' k, seqAt_mod hr' k⟩
  refine ⟨hclass hr h, ?_, ?_, ?_⟩
  · intro r' calls' src' hr' hne h' x hx y hy heq
    have hx' := (hclass hr h x hx).2
    have hy' := (hclass hr' h' y hy).2
    rw [heq, hy'] at hx'
    exact hne hx'
  · intro pre block post hcalls hnone hlen
    obtain ⟨src', h'⟩ := h.of_append hcalls
    exact h'.nodup hr rfl hnone hlen
  · intro v op hrank hsrc hop hfew
    obtain ⟨⟨k, hk, hplace⟩, -⟩ := h.places hr
    obtain ⟨j, hj, hfree⟩ := exists_free_place (k := k) hfew
    rw [← iterate_seqNext_seqAt hr hk, ← hplace, ← hsrc, ← hrank] at hfree
    have hfuel : j < 2 ^ 32 := hj.trans (seqPeriod_lt job r)
    obtain ⟨out, hout⟩ := getFreeSeqLoop_ends (2 ^ 32) v.mgr.seqsrc j hfuel hfree
    have hcall : getFreeSeq job v op =
        some (out.1, v.setMgr { v.mgr with seqsrc := out.2 }) := by
      rw [getFreeSeq, hout]
      rfl
    obtain ⟨hspec, -⟩ := getFreeSeq_some job v op hcall
    exact ⟨_, _, hcall, findPendingReq_eq_none.mp (hspec.resolve_left hop)⟩

/-- Rank 1 of two ranks before its first call. -/
def rank1View : View := ⟨mgrInit twoRanks 1, fun _ => .zero, dtqInit⟩

theorem sequence_source_rank1 :
    ∃ calls src, Draws twoRanks 1 calls src ∧ calls.map Prod.snd = [3, 5] ∧
      (calls.map Prod.snd).Nodup ∧ (∀ x ∈ calls, x.2 ≠ 0 ∧ x.2 % 2 = 1) ∧
      ∃ v rv v', v.mgr.seqsrc = src ∧ getFreeSeq twoRanks v .join = some (rv, v') := by
  have hfirst := Draws.call rank1View _ .none Draws.start rfl (getFreeSeq_none twoRanks rank1View)
  have hsecond := Draws.call (rank1View.setMgr { mgrInit twoRanks 1 with seqsrc := 5 }) _ .none
    hfirst rfl (getFreeSeq_none twoRanks _)
  have hrank : (1 : ℕ) < twoRanks.wsize := by decide
  obtain ⟨hclass, -, hdistinct, hfree⟩ := sequence_source twoRanks 1 hrank _ _ hsecond
  refine ⟨_, _, hsecond, rfl, ?_, hclass, ?_⟩
  · exact hdistinct [] _ [] rfl (by simp) (by decide)
  · obtain ⟨rv, v', hcall, -⟩ := hfree
      (rank1View.setMgr { mgrInit twoRanks 1 with seqsrc := 7 }) .join rfl rfl (by decide)
      (by decide)
    exact ⟨_, rv, v', rfl, hcall⟩

end Dthread.SequenceSource
