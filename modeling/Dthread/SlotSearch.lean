import Dthread.JobSystem

/-!
The circular slot search of gtab_alloc and ltab_alloc. It starts after the slot
that was taken last, comes to that slot in the end, and so has seen the whole
table before it gives up.
-/
namespace Dthread.SlotSearch

open ReqMsg Queuing ManagerTables ManagerEffects JobSystem

section Scan

variable {used : ℕ → Bool} {n last : ℕ}

/-- `p` is the first free slot in the circular order that begins after `last`. -/
def FirstFree (used : ℕ → Bool) (n last p : ℕ) : Prop :=
  ∃ j, 0 < j ∧ j ≤ n ∧ p = (last + j) % n ∧ used p = false ∧
    ∀ k, 0 < k → k < j → used ((last + k) % n) = true

/-- The slot that follows `p` in the circular order. -/
theorem next_slot {p : ℕ} (hp : p < n) : (if n ≤ p + 1 then 0 else p + 1) = (p + 1) % n := by
  split
  · obtain rfl : n = p + 1 := by omega
    simp
  · rw [Nat.mod_eq_of_lt (by omega)]

theorem next_slot_add (hn : 0 < n) (last k : ℕ) :
    (if n ≤ (last + k) % n + 1 then 0 else (last + k) % n + 1) = (last + (k + 1)) % n := by
  rw [next_slot (Nat.mod_lt _ hn), Nat.mod_add_mod, Nat.add_assoc]

/-- The search is back at `last` only after a whole round. -/
theorem back_at_last_iff (hlast : last < n) {k : ℕ} (hpos : 0 < k) (hk : k ≤ n) :
    (last + k) % n = last ↔ k = n := by
  constructor
  · intro heq
    have hmod : (last + k) % n = last % n := by rw [heq, Nat.mod_eq_of_lt hlast]
    have hdvd : n ∣ k := (Nat.modEq_zero_iff_dvd).mp
      (Nat.ModEq.add_left_cancel' last (by simpa [Nat.ModEq] using hmod))
    have hle := Nat.le_of_dvd hpos hdvd
    omega
  · rintro rfl
    rw [Nat.add_mod_right, Nat.mod_eq_of_lt hlast]

/-- Every slot is met on the way round. -/
theorem slot_on_round (hlast : last < n) {p : ℕ} (hp : p < n) :
    ∃ j, 0 < j ∧ j ≤ n ∧ p = (last + j) % n := by
  by_cases hlt : last < p
  · refine ⟨p - last, by omega, by omega, ?_⟩
    rw [Nat.add_sub_cancel' hlt.le, Nat.mod_eq_of_lt hp]
  · refine ⟨n - last + p, by omega, by omega, ?_⟩
    have hsum : last + (n - last + p) = p + n := by omega
    rw [hsum, Nat.add_mod_right, Nat.mod_eq_of_lt hp]

/-- The search from a place `k` slots past `last`, where all slots up to there
were in use. -/
theorem slotScan_from (used : ℕ → Bool) (hlast : last < n) (fuel k : ℕ) (hk : k < n)
    (hfuel : fuel + k = n) (hused : ∀ i, 0 < i → i ≤ k → used ((last + i) % n) = true) :
    (∃ p, slotScan used n last fuel ((last + k) % n) = some (some p) ∧
        FirstFree used n last p) ∨
      (slotScan used n last fuel ((last + k) % n) = some none ∧ ∀ p < n, used p = true) := by
  induction fuel generalizing k with
  | zero => omega
  | succ fuel ih =>
    have hn : 0 < n := by omega
    unfold slotScan
    simp only [next_slot_add hn]
    by_cases hfree : used ((last + (k + 1)) % n) = false
    · rw [if_pos hfree]
      refine .inl ⟨_, rfl, k + 1, by omega, by omega, rfl, hfree, ?_⟩
      intro i hpos hi
      exact hused i hpos (by omega)
    · have hnext : ∀ i, 0 < i → i ≤ k + 1 → used ((last + i) % n) = true := by
        intro i hpos hi
        rcases Nat.lt_or_eq_of_le hi with hlt | rfl
        · exact hused i hpos (by omega)
        · simpa using hfree
      rw [if_neg hfree]
      by_cases hend : k + 1 = n
      · rw [if_pos ((back_at_last_iff hlast (by omega) (by omega)).mpr hend)]
        refine .inr ⟨rfl, fun p hp => ?_⟩
        obtain ⟨j, hpos, hj, rfl⟩ := slot_on_round hlast hp
        exact hnext j hpos (by omega)
      · rw [if_neg (mt (back_at_last_iff hlast (by omega) (by omega)).mp hend)]
        exact ih (k + 1) (by omega) (by omega) hnext

/-- The search takes the first free slot, and gives up on a full table only. -/
theorem slotScan_spec (used : ℕ → Bool) (hlast : last < n) :
    (∃ p, slotScan used n last n last = some (some p) ∧ FirstFree used n last p) ∨
      (slotScan used n last n last = some none ∧ ∀ p < n, used p = true) := by
  have hstart : (last + 0) % n = last := by rw [Nat.add_zero, Nat.mod_eq_of_lt hlast]
  have hscan := slotScan_from used hlast n 0 (by omega) (by omega) (by intros; omega)
  rwa [hstart] at hscan

/-- The search finds a free slot when there is one. -/
theorem slotScan_finds (used : ℕ → Bool) (hlast : last < n) {p : ℕ} (hp : p < n)
    (hfree : used p = false) :
    ∃ q, slotScan used n last n last = some (some q) ∧ FirstFree used n last q := by
  rcases slotScan_spec used hlast with hfound | ⟨-, hfull⟩
  · exact hfound
  · exact absurd (hfull p hp) (by simp [hfree])

end Scan

section Tables

variable {α : Type*} {used : α → Bool} {n : ℕ} {tab tab' : ℕ → α}

/-- The number of slots in use. -/
def usedSlots (used : α → Bool) (n : ℕ) (tab : ℕ → α) : ℕ :=
  ((Finset.range n).filter fun p => used (tab p) = true).card

/-- Slot `p` was free and is in use now; the others are as they were. -/
structure Takes (used : α → Bool) (n : ℕ) (tab tab' : ℕ → α) (p : ℕ) : Prop where
  lt : p < n
  free : used (tab p) = false
  marked : used (tab' p) = true
  others : ∀ q ≠ p, tab' q = tab q

theorem usedSlots_le (used : α → Bool) (n : ℕ) (tab : ℕ → α) : usedSlots used n tab ≤ n :=
  (Finset.card_filter_le _ _).trans_eq (Finset.card_range n)

theorem usedSlots_eq_iff : usedSlots used n tab = n ↔ ∀ p < n, used (tab p) = true := by
  have hcard := Finset.card_filter_eq_iff (s := Finset.range n) (p := fun p => used (tab p) = true)
  simpa only [usedSlots, Finset.card_range, Finset.mem_range] using hcard

theorem usedSlots_eq_zero_iff : usedSlots used n tab = 0 ↔ ∀ p < n, used (tab p) = false := by
  simp [usedSlots, Finset.filter_eq_empty_iff]

theorem takes_update {p : ℕ} {x : α} (hp : p < n) (hfree : used (tab p) = false)
    (hx : used x = true) : Takes used n tab (Function.update tab p x) p where
  lt := hp
  free := hfree
  marked := by rwa [Function.update_self]
  others _ hq := Function.update_of_ne hq _ _

end Tables

/-- An entry of the local table is in use. -/
def ltabUsed (lt : Ltab) : Bool := lt.pthState != .none

theorem ltabUsed_eq_true {lt : Ltab} : ltabUsed lt = true ↔ lt.pthState ≠ .none := bne_iff_ne

theorem ltabUsed_eq_false {lt : Ltab} : ltabUsed lt = false ↔ lt.pthState = .none := by
  rw [← Bool.not_eq_true, ltabUsed_eq_true, not_not]

/-- The counter and the last slot of the global table are what they stand for. -/
structure GtabCounted (job : Job) (v : View) : Prop where
  alloc : v.mgr.threadsAlloc = usedSlots Gtab.allocated job.nmaxthread v.gtab
  last : v.mgr.lastSlot < job.nmaxthread

/-- The counter and the last slot of the local table are what they stand for. -/
structure LtabCounted (job : Job) (v : View) : Prop where
  alloc : v.mgr.ltabAlloc = usedSlots ltabUsed job.nmaxthread v.mgr.ltab
  last : v.mgr.ltabLastslot < job.nmaxthread

variable {job : Job} {v : View} {rank dispIdx : ℕ} {arg : Argret} {thread : DThread}

theorem GtabCounted.full_iff (h : GtabCounted job v) :
    (job.nmaxthread : ℤ) ≤ v.mgr.threadsAlloc ↔
      ∀ p < job.nmaxthread, (v.gtab p).allocated = true := by
  have hle := usedSlots_le Gtab.allocated job.nmaxthread v.gtab
  rw [← usedSlots_eq_iff, h.alloc]
  omega

theorem LtabCounted.full_iff (h : LtabCounted job v) :
    (job.nmaxthread : ℤ) ≤ v.mgr.ltabAlloc ↔
      ∀ p < job.nmaxthread, ltabUsed (v.mgr.ltab p) = true := by
  have hle := usedSlots_le ltabUsed job.nmaxthread v.mgr.ltab
  rw [← usedSlots_eq_iff, h.alloc]
  omega

theorem LtabCounted.empty_iff (h : LtabCounted job v) :
    v.mgr.ltabAlloc = 0 ↔ ∀ p < job.nmaxthread, ltabUsed (v.mgr.ltab p) = false := by
  rw [← usedSlots_eq_zero_iff, h.alloc]
  omega

theorem FirstFree.lt {used : ℕ → Bool} {n last p : ℕ} (hn : 0 < n)
    (h : FirstFree used n last p) : p < n := by
  obtain ⟨j, -, -, rfl, -, -⟩ := h
  exact Nat.mod_lt _ hn

theorem FirstFree.free {used : ℕ → Bool} {n last p : ℕ} (h : FirstFree used n last p) :
    used p = false := by
  obtain ⟨j, -, -, -, hfree, -⟩ := h
  exact hfree

/-- gtab_alloc takes the first free slot. -/
theorem gtabAlloc_free (h : GtabCounted job v) {q : ℕ} (hq : q < job.nmaxthread)
    (hfree : (v.gtab q).allocated = false) :
    ∃ p, gtabAlloc job v rank dispIdx arg = some (some p, gtabTaken job v p rank dispIdx arg) ∧
      FirstFree (fun p => (v.gtab p).allocated) job.nmaxthread v.mgr.lastSlot p := by
  have hroom : ¬ (job.nmaxthread : ℤ) ≤ v.mgr.threadsAlloc := by
    rw [h.full_iff]
    intro hall
    exact absurd (hall q hq) (by simp [hfree])
  obtain ⟨p, hscan, hfirst⟩ :=
    slotScan_finds (fun p => (v.gtab p).allocated) h.last hq hfree
  refine ⟨p, ?_, hfirst⟩
  rw [gtabAlloc, if_neg hroom]
  simp only [hscan, getFreeSeq_none, Option.map_some]
  rfl

/-- ltab_alloc takes slot 0 of an empty table, and else the first free slot. -/
theorem ltabAlloc_free (thread : DThread) (h : LtabCounted job v) {q : ℕ} (hq : q < job.nmaxthread)
    (hfree : ltabUsed (v.mgr.ltab q) = false) :
    ∃ p, ltabAlloc job v thread = some (some p, ltabInstall v thread p) ∧
      p < job.nmaxthread ∧ ltabUsed (v.mgr.ltab p) = false ∧
      if ∀ q < job.nmaxthread, ltabUsed (v.mgr.ltab q) = false then p = 0
      else FirstFree (fun p => ltabUsed (v.mgr.ltab p)) job.nmaxthread v.mgr.ltabLastslot p := by
  have hroom : ¬ (job.nmaxthread : ℤ) ≤ v.mgr.ltabAlloc := by
    rw [h.full_iff]
    intro hall
    exact absurd (hall q hq) (by simp [hfree])
  by_cases hempty : ∀ q < job.nmaxthread, ltabUsed (v.mgr.ltab q) = false
  · refine ⟨0, ?_, job.nmaxthread_pos, hempty 0 job.nmaxthread_pos, by rw [if_pos hempty]⟩
    rw [ltabAlloc, if_neg hroom, if_pos (h.empty_iff.mpr hempty)]
  · obtain ⟨p, hscan, hfirst⟩ :=
      slotScan_finds (fun p => ltabUsed (v.mgr.ltab p)) h.last hq hfree
    refine ⟨p, ?_, hfirst.lt job.nmaxthread_pos, hfirst.free, by rwa [if_neg hempty]⟩
    rw [ltabAlloc, if_neg hroom, if_neg (mt h.empty_iff.mp hempty)]
    change slotScan (fun p => (v.mgr.ltab p).pthState != .none) _ _ _ _ = _ at hscan
    simp only [hscan]

theorem gtabAlloc_none (h : GtabCounted job v)
    (hall : ∀ p < job.nmaxthread, (v.gtab p).allocated = true) :
    gtabAlloc job v rank dispIdx arg = some (none, v) := by
  rw [gtabAlloc, if_pos (h.full_iff.mpr hall)]

theorem ltabAlloc_none (h : LtabCounted job v)
    (hall : ∀ p < job.nmaxthread, ltabUsed (v.mgr.ltab p) = true) :
    ltabAlloc job v thread = some (none, v) := by
  rw [ltabAlloc, if_pos (h.full_iff.mpr hall)]

/-- Both searches end. They return -1 exactly for a full table, and else the
first free slot in the circular order after the last one, which they mark used. -/
theorem slot_search_complete (job : Job) (v : View) (rank dispIdx : ℕ) (arg : Argret)
    (thread : DThread) :
    (GtabCounted job v →
      (gtabAlloc job v rank dispIdx arg = some (none, v) ↔
        ∀ p < job.nmaxthread, (v.gtab p).allocated = true) ∧
      ((∃ p < job.nmaxthread, (v.gtab p).allocated = false) →
        ∃ p v', gtabAlloc job v rank dispIdx arg = some (some p, v') ∧
          FirstFree (fun q => (v.gtab q).allocated) job.nmaxthread v.mgr.lastSlot p ∧
          Takes Gtab.allocated job.nmaxthread v.gtab v'.gtab p)) ∧
    (LtabCounted job v →
      (ltabAlloc job v thread = some (none, v) ↔
        ∀ p < job.nmaxthread, ltabUsed (v.mgr.ltab p) = true) ∧
      ((∃ p < job.nmaxthread, ltabUsed (v.mgr.ltab p) = false) →
        ∃ p v', ltabAlloc job v thread = some (some p, v') ∧
          (if ∀ q < job.nmaxthread, ltabUsed (v.mgr.ltab q) = false then p = 0
            else FirstFree (fun q => ltabUsed (v.mgr.ltab q)) job.nmaxthread
              v.mgr.ltabLastslot p) ∧
          Takes ltabUsed job.nmaxthread v.mgr.ltab v'.mgr.ltab p)) := by
  refine ⟨fun h => ⟨⟨fun hnone p hp => ?_, gtabAlloc_none h⟩, ?_⟩,
    fun h => ⟨⟨fun hnone p hp => ?_, ltabAlloc_none h⟩, ?_⟩⟩
  · by_contra hfree
    obtain ⟨q, hq, -⟩ := gtabAlloc_free h hp (Bool.not_eq_true _ ▸ hfree)
    exact absurd (hnone.symm.trans hq) (by simp)
  · rintro ⟨q, hq, hfree⟩
    obtain ⟨p, hp, hfirst⟩ := gtabAlloc_free h hq hfree
    exact ⟨p, _, hp, hfirst, takes_update (hfirst.lt job.nmaxthread_pos) hfirst.free rfl⟩
  · by_contra hfree
    obtain ⟨q, hq, -⟩ := ltabAlloc_free thread h hp (Bool.not_eq_true _ ▸ hfree)
    exact absurd (hnone.symm.trans hq) (by simp)
  · rintro ⟨q, hq, hfree⟩
    obtain ⟨p, hp, hlt, hpfree, hplace⟩ := ltabAlloc_free thread h hq hfree
    exact ⟨p, _, hp, hplace, takes_update hlt hpfree rfl⟩

/-- Rank 0 of a new job, where app0 has slot 0 of both tables. -/
def app0View : View := mgrStartapp twoRanks ⟨mgrInit twoRanks 0, fun _ => .zero, dtqInit⟩

theorem slot_search_complete_app0View :
    (∃ p v, gtabAlloc twoRanks app0View 1 1 .zero = some (some p, v) ∧
      FirstFree (fun q => (app0View.gtab q).allocated) 4 0 p) ∧
    ∃ p v, ltabAlloc twoRanks app0View ⟨1, 4⟩ = some (some p, v) ∧
      Takes ltabUsed 4 app0View.mgr.ltab v.mgr.ltab p := by
  obtain ⟨hgtab, hltab⟩ := slot_search_complete twoRanks app0View 1 1 .zero ⟨1, 4⟩
  have hg := (hgtab ⟨by decide, by decide⟩).2 ⟨1, by decide, by decide⟩
  have hl := (hltab ⟨by decide, by decide⟩).2 ⟨1, by decide, by decide⟩
  obtain ⟨p, v, hp, hfirst, -⟩ := hg
  obtain ⟨q, w, hq, -, htakes⟩ := hl
  exact ⟨⟨p, v, hp, hfirst⟩, q, w, hq, htakes⟩

end Dthread.SlotSearch
