import Dthread.MpiSystem

/-!
mpimts_test of dt_mpithread.c as one call. MPI_Testsome reports the slots of the
completed sends, the loop over idxout releases their buffers, and the holes
they leave are closed. The error code of a completed send is looked up in
statout by its slot, and not by its place in idxout.
-/
namespace Dthread.SendCompaction

open MpiTestsome

variable {ρ : Type*}

def MPI_SUCCESS : ℤ := 0

/-- The return value of MPI_Testsome. -/
inductive TestsomeRv
  | success
  | errInStatus
  | undefined
  | other (rv : ℤ)
  deriving DecidableEq, Repr

/-- What MPI_Testsome leaves behind: the completed slots in idxout[0..got-1],
and the MPI_ERROR fields of the array statout, where the entries from `got` on
are those of earlier calls. -/
structure Testsome where
  rv : TestsomeRv
  idxout : List ℕ
  statout : ℕ → ℤ

namespace Testsome

def got (t : Testsome) : ℕ := t.idxout.length

/-- The entry of statout that the loop reads for slot `i`. -/
def statusRead (t : Testsome) (i : ℕ) : Option ℕ := if t.rv = .success then none else some i

def err (t : Testsome) (i : ℕ) : ℤ := (t.statusRead i).elim MPI_SUCCESS t.statout

/-- The error code that MPI reports for the request of slot `i`: statout[k]
belongs to the request idxout[k]. -/
def reported (t : Testsome) (i : ℕ) : ℤ := t.statout (t.idxout.idxOf i)

end Testsome

/-- A turn of the loop over idxout: the slot, the buffer handed to mpimts_done,
the entry of statout that was read, and the error code. -/
structure Release where
  slot : ℕ
  mqe : Option ℕ
  statusRead : Option ℕ
  err : ℤ
  deriving DecidableEq, Repr

def release (t : Testsome) (m : Mts ρ) (i : ℕ) : Release :=
  ⟨i, m.slots.mqes i, t.statusRead i, t.err i⟩

/-- The loop over idxout with what it released, the arrays and firsthole. -/
def releaseLoop (t : Testsome) : List ℕ → Mts ρ → ℕ → List Release × Mts ρ × ℕ
  | [], m, firsthole => ([], m, firsthole)
  | i :: idxout, m, firsthole =>
    let (rest, out) := releaseLoop t idxout (m.clearMqe i) (min firsthole i)
    (release t m i :: rest, out)

/-- The branch of `compact` that reports a pull overflow is taken. -/
def pullOverflow (m : Mts ρ) (got firsthole : ℕ) : Bool :=
  got < m.nused && (m.pullUp got firsthole).isNone

/-- A call of mpimts_test: its return value, what it released, whether it
reported a pull overflow, and the arrays after it. -/
structure TestRun (ρ : Type*) where
  ret : ℤ
  releases : List Release
  overflow : Bool
  mts : Mts ρ

/-- mpimts_test from the loop over idxout on. -/
def releaseCompleted (t : Testsome) (m : Mts ρ) : TestRun ρ :=
  match t.idxout with
  | [] => ⟨0, [], false, m⟩
  | i :: _ =>
    let (releases, m', firsthole) := releaseLoop t t.idxout m i
    ⟨0, releases, pullOverflow m' t.got firsthole, compact m' t.got firsthole⟩

def mpimtsTest (m : Mts ρ) (t : Testsome) : TestRun ρ :=
  if m.nused = 0 then ⟨0, [], false, m⟩
  else
    let m' := testsome m t.idxout
    match t.rv with
    | .undefined => ⟨0, [], false, { m' with nused := 0, nused_le := Nat.zero_le _ }⟩
    | .other _ => ⟨-1, [], false, m'⟩
    | .success => releaseCompleted t m'
    | .errInStatus => releaseCompleted t m'

/-- The pairs of the slots in use, holes included. -/
def pairs (m : Mts ρ) : List (Option ℕ × Option ρ) :=
  (List.range m.nused).map fun i => (m.slots.mqes i, m.slots.reqs i)

/-- The pairs of the slots that did not complete. -/
def pendingPairs (m : Mts ρ) (idxout : List ℕ) : List (Option ℕ × Option ρ) :=
  ((List.range m.nused).filter (· ∉ idxout)).map fun i => (m.slots.mqes i, m.slots.reqs i)

/-- MPI_Testsome ended normally with distinct completed slots in use. -/
structure Completes (m : Mts ρ) (t : Testsome) : Prop where
  normal : t.rv = .success ∨ t.rv = .errInStatus
  nodup : t.idxout.Nodup
  inUse : ∀ i ∈ t.idxout, i < m.nused

variable {m : Mts ρ} {t : Testsome} {got firsthole i : ℕ} {idxout : List ℕ}

theorem clearMqe_mqes (m : Mts ρ) (i j : ℕ) :
    (m.clearMqe i).slots.mqes j = if j = i then none else m.slots.mqes j := by
  simp [Mts.clearMqe, Slots.clearMqe, Function.update_apply]

/-- What the loop does to the arrays: it clears the buffers of idxout. -/
theorem releaseLoop_arrays (t : Testsome) (idxout : List ℕ) (m : Mts ρ) (firsthole : ℕ) :
    (releaseLoop t idxout m firsthole).2.1.nused = m.nused ∧
      (releaseLoop t idxout m firsthole).2.1.slots.reqs = m.slots.reqs ∧
      ∀ j, (releaseLoop t idxout m firsthole).2.1.slots.mqes j =
        if j ∈ idxout then none else m.slots.mqes j := by
  induction idxout generalizing m firsthole with
  | nil => exact ⟨rfl, rfl, fun j => by simp [releaseLoop]⟩
  | cons i idxout ih =>
    obtain ⟨hnused, hreqs, hmqes⟩ := ih (m.clearMqe i) (min firsthole i)
    refine ⟨hnused, hreqs, fun j => ?_⟩
    have hj := hmqes j
    rw [clearMqe_mqes] at hj
    change (releaseLoop t idxout (m.clearMqe i) (min firsthole i)).2.1.slots.mqes j = _
    rw [hj]
    by_cases hji : j = i
    · simp [hji]
    · simp [hji]

/-- Each slot of idxout is released once, with the buffer it had before. -/
theorem releaseLoop_releases (t : Testsome) (m : Mts ρ) (firsthole : ℕ) (h : idxout.Nodup) :
    (releaseLoop t idxout m firsthole).1 = idxout.map (release t m) := by
  induction idxout generalizing m firsthole with
  | nil => rfl
  | cons i idxout ih =>
    obtain ⟨hnot, hnodup⟩ := List.nodup_cons.mp h
    have hrest : (releaseLoop t (i :: idxout) m firsthole).1 =
        release t m i :: (releaseLoop t idxout (m.clearMqe i) (min firsthole i)).1 := rfl
    rw [hrest, ih (m.clearMqe i) (min firsthole i) hnodup, List.map_cons]
    congr 1
    refine List.map_congr_left fun j hj => ?_
    have hji : j ≠ i := fun he => hnot (he ▸ hj)
    simp [release, clearMqe_mqes, hji]

theorem releaseLoop_releasing (t : Testsome) (h : Releasing m got firsthole idxout) :
    Releasing (releaseLoop t idxout m firsthole).2.1 got
      (releaseLoop t idxout m firsthole).2.2 [] := by
  induction idxout generalizing m firsthole with
  | nil => exact h
  | cons i idxout ih =>
    obtain ⟨a, ha⟩ := Option.ne_none_iff_exists'.mp (h.present i List.mem_cons_self)
    exact ih (h.release ha)

theorem compact_nused (h : Releasing m got firsthole []) :
    (compact m got firsthole).nused = m.nused - got := by
  obtain ⟨hfull, hperm⟩ := h.compact
  have hcount : m.entries.length + got = m.nused := h.count
  have hlen := hperm.length_eq
  rw [hfull] at hlen
  omega

/-- The entries left over suffice for the holes: an overflow would leave no
entry at all. -/
theorem pullOverflow_eq_false (h : Releasing m got firsthole []) :
    pullOverflow m got firsthole = false := by
  unfold pullOverflow
  rw [Bool.and_eq_false_imp]
  intro hlt
  rw [decide_eq_true_eq] at hlt
  rw [Option.isNone_eq_false_iff, Option.isSome_iff_ne_none]
  intro hnone
  have hzero : (compact m got firsthole).nused = 0 := by
    unfold compact
    rw [if_neg (not_le.mpr hlt)]
    simp only [hnone]
  have hnused := compact_nused h
  omega

/-- Without holes the pairs are the entries. -/
theorem pairs_eq_entries (h : m.Full) :
    pairs m = m.entries.map fun x => (some x.1, x.2) := by
  rw [pairs, Mts.entries, Slots.entries, List.map_filterMap, ← List.range_eq_range',
    ← List.filterMap_eq_map]
  refine List.filterMap_congr fun i hi => ?_
  obtain ⟨a, ha⟩ := Option.ne_none_iff_exists'.mp (h.mqes_ne (List.mem_range.mp hi))
  simp [Slots.entry, ha]

theorem full_of_mqes (h : ∀ i < m.nused, m.slots.mqes i ≠ none) : m.Full :=
  Slots.length_entries_of_full fun i _ hi => h i (by omega)

/-- With the completed buffers taken out, the entries are the pairs that did
not complete. -/
theorem entries_releaseLoop (hfull : ∀ i < m.nused, m.slots.mqes i ≠ none) (firsthole : ℕ) :
    (releaseLoop t idxout (testsome m idxout) firsthole).2.1.entries.map
      (fun x => (some x.1, x.2)) = pendingPairs m idxout := by
  obtain ⟨hnused, hreqs, hmqes⟩ := releaseLoop_arrays t idxout (testsome m idxout) firsthole
  rw [pendingPairs, Mts.entries, Slots.entries, List.map_filterMap, ← List.range_eq_range',
    ← List.filterMap_eq_map, List.filterMap_filter, hnused]
  refine List.filterMap_congr fun i hi => ?_
  obtain ⟨a, ha⟩ := Option.ne_none_iff_exists'.mp (hfull i (List.mem_range.mp hi))
  have hmqe : (testsome m idxout).slots.mqes i = some a := ha
  by_cases hmem : i ∈ idxout
  · simp [Slots.entry, hmqes, hmem]
  · have hreq : (testsome m idxout).slots.reqs i = m.slots.reqs i := if_neg hmem
    simp [Slots.entry, hmqes, hreqs, hmem, hmqe, hreq, ha]

/-- A normal end of MPI_Testsome leads to the loop over idxout. -/
theorem mpimtsTest_normal (h : Completes m t) (hi : i ∈ t.idxout) :
    mpimtsTest m t = releaseCompleted t (testsome m t.idxout) := by
  have hused : m.nused ≠ 0 := by
    have hlt := h.inUse i hi
    omega
  rw [mpimtsTest, if_neg hused]
  rcases h.normal with hrv | hrv
  · simp only [hrv]
  · simp only [hrv]

theorem Completes.releasing (h : Completes m t) (hfull : ∀ i < m.nused, m.slots.mqes i ≠ none)
    (hidx : t.idxout = i :: idxout) : Releasing (testsome m t.idxout) t.got i t.idxout := by
  have hnodup := h.nodup
  have hin := h.inUse
  rw [Testsome.got, hidx]
  rw [hidx] at hnodup hin
  exact releasing_testsome (full_of_mqes hfull) hnodup hin

theorem mpimtsTest_cons (h : Completes m t) (hidx : t.idxout = i :: idxout) :
    mpimtsTest m t = ⟨0, (releaseLoop t t.idxout (testsome m t.idxout) i).1,
      pullOverflow (releaseLoop t t.idxout (testsome m t.idxout) i).2.1 t.got
        (releaseLoop t t.idxout (testsome m t.idxout) i).2.2,
      compact (releaseLoop t t.idxout (testsome m t.idxout) i).2.1 t.got
        (releaseLoop t t.idxout (testsome m t.idxout) i).2.2⟩ := by
  rw [mpimtsTest_normal h (hidx ▸ List.mem_cons_self), releaseCompleted, hidx]

theorem releases_eq (h : Completes m t) :
    (mpimtsTest m t).releases = t.idxout.map (release t m) := by
  rcases hidx : t.idxout with _ | ⟨i, idxout⟩
  · have hnil (m' : Mts ρ) : releaseCompleted t m' = ⟨0, [], false, m'⟩ := by
      rw [releaseCompleted, hidx]
    rw [mpimtsTest, List.map_nil]
    split
    · rfl
    · rcases h.normal with hrv | hrv
      · simp only [hrv, hnil]
      · simp only [hrv, hnil]
  · rw [mpimtsTest_cons h hidx, ← hidx]
    exact releaseLoop_releases t (testsome m t.idxout) i h.nodup

/-- A call that finds completed sends releases each of their buffers once and
keeps every other send, paired with its request. -/
theorem compaction_keeps_sends (m : Mts ρ) (t : Testsome)
    (hfull : ∀ i < m.nused, m.slots.mqes i ≠ none) (h : Completes m t) (hgot : 1 ≤ t.got) :
    (mpimtsTest m t).releases.map Release.mqe = t.idxout.map m.slots.mqes ∧
      t.got ≤ m.nused ∧ (mpimtsTest m t).mts.nused = m.nused - t.got ∧
      (pairs (mpimtsTest m t).mts).Perm (pendingPairs m t.idxout) ∧
      (mpimtsTest m t).overflow = false := by
  obtain ⟨i, idxout, hidx⟩ := List.exists_cons_of_length_pos (l := t.idxout) hgot
  have hloop := releaseLoop_releasing t (h.releasing hfull hidx)
  have hcall := mpimtsTest_cons h hidx
  have hnused : (releaseLoop t t.idxout (testsome m t.idxout) i).2.1.nused = m.nused :=
    (releaseLoop_arrays t t.idxout (testsome m t.idxout) i).1
  have hcount := hloop.count
  refine ⟨?_, ?_, ?_, ?_, ?_⟩
  · rw [releases_eq h, List.map_map]
    rfl
  · rw [hnused, List.length_nil] at hcount
    omega
  · rw [hcall, compact_nused hloop, hnused]
  · obtain ⟨hdense, hperm⟩ := hloop.compact
    rw [hcall, pairs_eq_entries hdense, ← entries_releaseLoop (t := t) hfull i]
    exact hperm.map _
  · rw [hcall]
    exact pullOverflow_eq_false hloop

section ThreadSteps

open MpiSystem

/-- The release steps of the MPI thread go through the loop over idxout. -/
theorem threadSteps_releaseLoop {n : Rank} (t : Testsome)
    (h : Releasing n.mts got firsthole idxout) (hpc : n.pc = .releasing got firsthole idxout) :
    ∃ n', Relation.ReflTransGen ThreadStep n n' ∧ n'.mem = n.mem ∧
      n'.threads = ((releaseLoop t idxout n.mts firsthole).1.filterMap Release.mqe).foldl
        (fun threads addr => threads.sendRelease (n.mqeAt addr)) n.threads ∧
      n'.mts = (releaseLoop t idxout n.mts firsthole).2.1 ∧
      n'.pc = .releasing got (releaseLoop t idxout n.mts firsthole).2.2 [] := by
  induction idxout generalizing n firsthole with
  | nil => exact ⟨n, .refl, rfl, rfl, rfl, hpc⟩
  | cons i idxout ih =>
    obtain ⟨addr, haddr⟩ := Option.ne_none_iff_exists'.mp (h.present i List.mem_cons_self)
    have hstep := ThreadStep.release got firsthole i addr idxout hpc haddr
    obtain ⟨n', hsteps, hmem, hthreads, hmts, hpc'⟩ := ih
      (n := { n.sendRelease addr with
        mts := n.mts.clearMqe i, pc := .releasing got (min firsthole i) idxout })
      (h.release haddr) rfl
    refine ⟨n', .head hstep hsteps, hmem, ?_, hmts, hpc'⟩
    have hlog : (releaseLoop t (i :: idxout) n.mts firsthole).1 = release t n.mts i ::
        (releaseLoop t idxout (n.mts.clearMqe i) (min firsthole i)).1 := rfl
    have hmqe : (release t n.mts i).mqe = some addr := haddr
    rw [hthreads, hlog, List.filterMap_cons_some hmqe, List.foldl_cons]
    rfl

/-- From the return of MPI_Testsome on, the steps of the MPI thread are a call
of mpimts_test. -/
theorem threadSteps_mpimtsTest (n : Rank) (hfull : ∀ i < n.mts.nused, n.mts.slots.mqes i ≠ none)
    (h : Completes n.mts t) (hidx : t.idxout = i :: idxout) :
    ∃ n', Relation.ReflTransGen ThreadStep
        { n with mts := testsome n.mts t.idxout, pc := World.testPc t.idxout } n' ∧
      n'.threads = ((mpimtsTest n.mts t).releases.filterMap Release.mqe).foldl
        (fun threads addr => threads.sendRelease (n.mqeAt addr)) n.threads ∧
      n'.mts = (mpimtsTest n.mts t).mts ∧ n'.pc = .dequeue := by
  have hreleasing := h.releasing hfull hidx
  have hpc : World.testPc t.idxout = .releasing t.got i t.idxout := by
    rw [Testsome.got, hidx]
    rfl
  obtain ⟨n', hsteps, -, hthreads, hmts, hpc'⟩ := threadSteps_releaseLoop
    (n := { n with mts := testsome n.mts t.idxout, pc := World.testPc t.idxout }) t hreleasing hpc
  have hlast := ThreadStep.compact _ _ hpc'
  refine ⟨_, hsteps.tail hlast, ?_, ?_, rfl⟩
  · rw [mpimtsTest_cons h hidx]
    exact hthreads
  · rw [mpimtsTest_cons h hidx, hmts]

end ThreadSteps

/-- Two sends in progress. -/
def twoSends : Mts ℕ := mpimtsAdd (mpimtsAdd mpimtsInit 10 0) 11 1

theorem compaction_keeps_sends_twoSends :
    (mpimtsTest twoSends ⟨.success, [0], fun _ => 0⟩).releases.map Release.mqe = [some 10] ∧
      (pairs (mpimtsTest twoSends ⟨.success, [0], fun _ => 0⟩).mts).Perm [(some 11, some 1)] := by
  obtain ⟨hreleased, -, -, hpairs, -⟩ := compaction_keeps_sends twoSends
    ⟨.success, [0], fun _ => 0⟩ (by decide) ⟨by decide, by decide, by decide⟩ (by decide)
  exact ⟨hreleased, hpairs⟩

/-- The error code is that of the slot's own request, and the call has written
the entry it was read from. -/
def Attributed (t : Testsome) (x : Release) : Prop :=
  x.err = t.reported x.slot ∧ ∀ k ∈ x.statusRead, k < t.got

theorem attributed_release_iff (m : Mts ρ) (hrv : t.rv = .errInStatus) (i : ℕ) :
    Attributed t (release t m i) ↔ i < t.got ∧ t.statout i = t.reported i := by
  have hread : t.statusRead i = some i := by
    rw [Testsome.statusRead, hrv]
    rfl
  simp [Attributed, release, Testsome.err, hread, and_comm]

theorem attributed_getElem_iff (m : Mts ρ) (hrv : t.rv = .errInStatus) (hnodup : t.idxout.Nodup)
    {k : ℕ} (hk : k < t.idxout.length) :
    Attributed t (release t m t.idxout[k]) ↔
      t.idxout[k] < t.got ∧ t.statout t.idxout[k] = t.statout k := by
  rw [attributed_release_iff m hrv, Testsome.reported, hnodup.idxOf_getElem k hk]

/-- Whatever the statuses are, the attribution is right exactly for sends that
complete in slot order from slot 0 on. -/
theorem forall_attributed_iff (m : Mts ρ) (hnodup : idxout.Nodup)
    (hin : ∀ i ∈ idxout, i < m.nused) :
    (∀ statout, ∀ x ∈ (mpimtsTest m ⟨.errInStatus, idxout, statout⟩).releases,
        Attributed ⟨.errInStatus, idxout, statout⟩ x) ↔ idxout = List.range idxout.length := by
  have hreleases (statout : ℕ → ℤ) :=
    releases_eq (m := m) (t := ⟨.errInStatus, idxout, statout⟩) ⟨.inr rfl, hnodup, hin⟩
  have hgetElem (statout : ℕ → ℤ) {k : ℕ} (hk : k < idxout.length) :=
    attributed_getElem_iff m (t := ⟨.errInStatus, idxout, statout⟩) rfl hnodup hk
  simp only [hreleases, List.forall_mem_map, List.forall_mem_iff_forall_getElem]
  refine ⟨fun hall => List.ext_getElem (by simp) fun k hk _ => ?_, fun heq statout k hk => ?_⟩
  · have hplace := ((hgetElem (fun i => i) hk).mp (hall (fun i => i) k hk)).2
    rw [List.getElem_range]
    exact Int.ofNat.inj hplace
  · have hplace : idxout[k] = k := by
      rw [List.getElem_of_eq heq, List.getElem_range]
    rw [hgetElem statout hk, hplace]
    exact ⟨hk, rfl⟩

/-- The errors of a call are attributed to the right sends where the statuses
at the completed slots are those at their places in idxout, and belong to the
call; with all statuses, exactly where the sends complete in slot order from
slot 0 on. -/
theorem attributed_iff (m : Mts ρ) (t : Testsome) (hrv : t.rv = .errInStatus)
    (h : Completes m t) :
    ((∀ x ∈ (mpimtsTest m t).releases, Attributed t x) ↔
      ∀ (k : ℕ) (hk : k < t.idxout.length),
        t.idxout[k] < t.got ∧ t.statout t.idxout[k] = t.statout k) ∧
    ((∀ statout, ∀ x ∈ (mpimtsTest m { t with statout := statout }).releases,
        Attributed { t with statout := statout } x) ↔ t.idxout = List.range t.idxout.length) := by
  refine ⟨?_, ?_⟩
  · rw [releases_eq h, List.forall_mem_map, List.forall_mem_iff_forall_getElem]
    exact forall₂_congr fun k hk => attributed_getElem_iff m hrv h.nodup hk
  · rw [hrv]
    exact forall_attributed_iff m h.nodup h.inUse

theorem attributed_iff_twoSends :
    Completes twoSends ⟨.errInStatus, [0], fun _ => 13⟩ ∧
      ∀ x ∈ (mpimtsTest twoSends ⟨.errInStatus, [0], fun _ => 13⟩).releases,
        Attributed ⟨.errInStatus, [0], fun _ => 13⟩ x := by
  have hdone : Completes twoSends ⟨.errInStatus, [0], fun _ => 13⟩ :=
    ⟨by decide, by decide, by decide⟩
  exact ⟨hdone, (attributed_iff twoSends _ rfl hdone).1.mpr (by decide)⟩

/-- Only the second of two sends completes, with error 13. The entry statout[1]
is left from an earlier call. -/
def secondFails : Testsome := ⟨.errInStatus, [1], fun k => if k = 0 then 13 else MPI_SUCCESS⟩

/-- The loop reads statout[1] and takes the failed send for a success. -/
theorem second_send_misattributed :
    Completes twoSends secondFails ∧ secondFails.reported 1 = 13 ∧
      (mpimtsTest twoSends secondFails).releases = [⟨1, some 11, some 1, MPI_SUCCESS⟩] ∧
      ¬ ∀ x ∈ (mpimtsTest twoSends secondFails).releases, Attributed secondFails x := by
  have hreleases : (mpimtsTest twoSends secondFails).releases =
      [⟨1, some 11, some 1, MPI_SUCCESS⟩] := by decide
  refine ⟨⟨by decide, by decide, by decide⟩, by decide, hreleases, fun hall => ?_⟩
  rw [hreleases] at hall
  have herr := (hall _ List.mem_cons_self).1
  exact absurd herr (by decide)

end Dthread.SendCompaction
