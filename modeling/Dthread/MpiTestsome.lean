import Mathlib.Data.List.Perm.Basic
import Mathlib.Data.List.Range
import Mathlib.Logic.Function.Basic
import Mathlib.Tactic

/-!
The sends in progress at the MPI thread (struct mpimtsmgr of dt_mpithread.c):
two arrays kept in step, of buffers and of MPI requests. A completed send
leaves a hole, and the holes are filled from the end of the arrays, so that
the entries change their order and nothing else.
-/
namespace Dthread.MpiTestsome

def MPIMTS_INITSZ : ℕ := 16

variable {ρ : Type*}

/-- The arrays mqes and reqs. NULL and MPI_REQUEST_NULL are `none`. -/
structure Slots (ρ : Type*) where
  mqes : ℕ → Option ℕ
  reqs : ℕ → Option ρ

namespace Slots

/-- The entry of a slot that is not a hole. -/
def entry (s : Slots ρ) (i : ℕ) : Option (ℕ × Option ρ) := (s.mqes i).map fun a => (a, s.reqs i)

/-- The entries of `n` slots from slot `lo` on. -/
def entries (s : Slots ρ) (lo n : ℕ) : List (ℕ × Option ρ) := (List.range' lo n).filterMap s.entry

def copy (s : Slots ρ) (src dst : ℕ) : Slots ρ :=
  ⟨Function.update s.mqes dst (s.mqes src), Function.update s.reqs dst (s.reqs src)⟩

def clearMqe (s : Slots ρ) (i : ℕ) : Slots ρ := { s with mqes := Function.update s.mqes i none }

/-- Scan at most `n` slots from `pullfrom` on for one that is not a hole. -/
def scan (s : Slots ρ) : ℕ → ℕ → ℕ
  | 0, pullfrom => pullfrom
  | n + 1, pullfrom => if s.mqes pullfrom = none then s.scan n (pullfrom + 1) else pullfrom

/-- The `n` turns of the loop that fills holes from slot `lcv` on. Running out
of entries to pull is an error. -/
def fillHoles (nused : ℕ) : ℕ → Slots ρ → ℕ → ℕ → Option (Slots ρ)
  | 0, s, _, _ => some s
  | n + 1, s, lcv, pullfrom =>
    if s.mqes lcv ≠ none then fillHoles nused n s (lcv + 1) pullfrom
    else
      let pull := s.scan (nused - pullfrom) pullfrom
      if nused ≤ pull then none
      else fillHoles nused n (s.copy pull lcv) (lcv + 1) (pull + 1)

end Slots

/-- mpimtsmgr without its statistics. -/
structure Mts (ρ : Type*) where
  nalloc : ℕ
  nused : ℕ
  slots : Slots ρ
  nalloc_pos : 0 < nalloc
  nused_le : nused ≤ nalloc

def mpimtsInit : Mts ρ := ⟨MPIMTS_INITSZ, 0, ⟨fun _ => none, fun _ => none⟩, by decide, by decide⟩

/-- mpimts_setslots, where memory is available. -/
def mpimtsSetslots (m : Mts ρ) (n : ℕ) : Mts ρ :=
  if h : n ≤ m.nalloc then m
  else { m with nalloc := n, nalloc_pos := by omega, nused_le := by have := m.nused_le; omega }

def Mts.grow (m : Mts ρ) : Mts ρ :=
  if m.nused = m.nalloc then mpimtsSetslots m (m.nalloc * 2) else m

namespace Mts

def entries (m : Mts ρ) : List (ℕ × Option ρ) := m.slots.entries 0 m.nused

/-- Every slot in use has an entry. -/
def Full (m : Mts ρ) : Prop := m.entries.length = m.nused

end Mts

theorem mpimtsSetslots_eq (m : Mts ρ) (n : ℕ) :
    (mpimtsSetslots m n).nused = m.nused ∧ (mpimtsSetslots m n).slots = m.slots := by
  unfold mpimtsSetslots
  split <;> exact ⟨rfl, rfl⟩

theorem Mts.grow_eq (m : Mts ρ) : m.grow.nused = m.nused ∧ m.grow.slots = m.slots := by
  unfold Mts.grow
  split
  · exact mpimtsSetslots_eq m _
  · exact ⟨rfl, rfl⟩

theorem Mts.grow_lt (m : Mts ρ) : m.grow.nused < m.grow.nalloc := by
  have hpos := m.nalloc_pos
  have hle := m.nused_le
  unfold Mts.grow
  split
  · rw [(mpimtsSetslots_eq m _).1]
    unfold mpimtsSetslots
    split
    · omega
    · change m.nused < m.nalloc * 2
      omega
  · omega

/-- mpimts_add: the new entry goes behind the last slot in use. -/
def mpimtsAdd (m : Mts ρ) (addr : ℕ) (req : ρ) : Mts ρ :=
  { m.grow with
    nused := m.grow.nused + 1
    slots := ⟨Function.update m.grow.slots.mqes m.grow.nused (some addr),
              Function.update m.grow.slots.reqs m.grow.nused (some req)⟩
    nused_le := m.grow_lt }

/-- MPI_Testsome sets the completed requests to MPI_REQUEST_NULL. -/
def testsome (m : Mts ρ) (idxout : List ℕ) : Mts ρ :=
  { m with slots := { m.slots with reqs := fun i => if i ∈ idxout then none else m.slots.reqs i } }

def Mts.clearMqe (m : Mts ρ) (i : ℕ) : Mts ρ := { m with slots := m.slots.clearMqe i }

/-- The loop of mpimts_test that closes the holes after `got` buffers were released;
`firsthole` is the first of them, and `none` is a pull overflow. -/
def Mts.pullUp (m : Mts ρ) (got firsthole : ℕ) : Option (Slots ρ) :=
  m.slots.fillHoles m.nused (m.nused - got - firsthole) firsthole (m.nused - got)

/-- The part of mpimts_test after `got` buffers were released. -/
def compact (m : Mts ρ) (got firsthole : ℕ) : Mts ρ :=
  if m.nused ≤ got then { m with nused := 0, nused_le := Nat.zero_le _ }
  else
    match m.pullUp got firsthole with
    | some s =>
      { m with nused := m.nused - got, slots := s, nused_le := by have := m.nused_le; omega }
    | none => { m with nused := 0, nused_le := Nat.zero_le _ }

namespace Slots

variable {s s' : Slots ρ} {i lo n : ℕ}

theorem entry_eq_none : s.entry i = none ↔ s.mqes i = none := by
  simp [entry]

theorem entries_zero (s : Slots ρ) (lo : ℕ) : s.entries lo 0 = [] := rfl

theorem entries_hole (n : ℕ) (h : s.entry lo = none) :
    s.entries lo (n + 1) = s.entries (lo + 1) n := by
  rw [entries, List.range'_succ, List.filterMap_cons_none h]
  rfl

theorem entries_entry {x : ℕ × Option ρ} (n : ℕ) (h : s.entry lo = some x) :
    s.entries lo (n + 1) = x :: s.entries (lo + 1) n := by
  rw [entries, List.range'_succ, List.filterMap_cons_some h]
  rfl

theorem entries_append (s : Slots ρ) (lo n k : ℕ) :
    s.entries lo (n + k) = s.entries lo n ++ s.entries (lo + n) k := by
  rw [entries, entries, entries, ← List.filterMap_append, List.range'_append_1]

theorem entries_congr (h : ∀ i, lo ≤ i → i < lo + n → s'.entry i = s.entry i) :
    s'.entries lo n = s.entries lo n := by
  refine List.filterMap_congr fun i hi => ?_
  rw [List.mem_range'_1] at hi
  exact h i hi.1 hi.2

theorem length_entries_le (s : Slots ρ) (lo n : ℕ) : (s.entries lo n).length ≤ n :=
  (List.length_filterMap_le _ _).trans_eq List.length_range'

theorem mem_entries {x : ℕ × Option ρ} :
    x ∈ s.entries lo n ↔ ∃ i, (lo ≤ i ∧ i < lo + n) ∧ s.entry i = some x := by
  simp only [entries, List.mem_filterMap, List.mem_range'_1]

/-- Without holes there is one entry for each slot. -/
theorem length_entries_of_full (h : ∀ i, lo ≤ i → i < lo + n → s.mqes i ≠ none) :
    (s.entries lo n).length = n := by
  induction n generalizing lo with
  | zero => rfl
  | succ n ih =>
    obtain ⟨x, hx⟩ := Option.ne_none_iff_exists'.mp
      (mt entry_eq_none.mp (h lo (le_refl lo) (by omega)))
    have htail : (s.entries (lo + 1) n).length = n :=
      ih fun i hlo hi => h i (by omega) (by omega)
    rw [entries_entry n hx, List.length_cons, htail]

theorem full_of_length_entries (h : (s.entries lo n).length = n) (hlo : lo ≤ i)
    (hi : i < lo + n) : s.mqes i ≠ none := by
  intro hnone
  obtain ⟨k, rfl⟩ := Nat.exists_eq_add_of_le hlo
  -- the slots before and after the hole cannot make up for it
  obtain ⟨j, rfl⟩ : ∃ j, n = k + (j + 1) := ⟨n - k - 1, by omega⟩
  rw [entries_append, entries_hole j (entry_eq_none.mpr hnone), List.length_append] at h
  have hfront := s.length_entries_le lo k
  have hback := s.length_entries_le (lo + k + 1) j
  omega

/-- The scan passes over holes only, and stops at an entry if there is one. -/
theorem entries_scan (s : Slots ρ) (n pullfrom : ℕ) :
    s.entries pullfrom n = s.entries (s.scan n pullfrom) (pullfrom + n - s.scan n pullfrom) ∧
      pullfrom ≤ s.scan n pullfrom ∧
      (s.scan n pullfrom < pullfrom + n → s.mqes (s.scan n pullfrom) ≠ none) := by
  induction n generalizing pullfrom with
  | zero => exact ⟨by simp [scan, entries_zero], le_refl _, fun h => absurd h (by simp [scan])⟩
  | succ n ih =>
    by_cases hnone : s.mqes pullfrom = none
    · obtain ⟨heq, hle, hstop⟩ := ih (pullfrom + 1)
      have hscan : s.scan (n + 1) pullfrom = s.scan n (pullfrom + 1) := if_pos hnone
      have hend : pullfrom + 1 + n = pullfrom + (n + 1) := by omega
      rw [hscan, entries_hole n (entry_eq_none.mpr hnone), heq, hend]
      exact ⟨rfl, by omega, fun h => hstop (hend ▸ h)⟩
    · have hscan : s.scan (n + 1) pullfrom = pullfrom := if_neg hnone
      rw [hscan, Nat.add_sub_cancel_left]
      exact ⟨rfl, le_refl _, fun _ => hnone⟩

theorem copy_entry_dst (s : Slots ρ) (src dst : ℕ) : (s.copy src dst).entry dst = s.entry src := by
  simp [copy, entry]

theorem copy_entry_of_ne (s : Slots ρ) (src : ℕ) {dst : ℕ} (h : i ≠ dst) :
    (s.copy src dst).entry i = s.entry i := by
  simp [copy, entry, h]

/-- The loop finds as many entries at the end as there are holes to fill, and
only moves entries. -/
theorem fillHoles_spec {nused lcv pullfrom : ℕ} (hpull : lcv + n ≤ pullfrom)
    (hle : pullfrom ≤ nused)
    (hcount : (s.entries lcv n).length + (s.entries pullfrom (nused - pullfrom)).length = n) :
    ∃ s', s.fillHoles nused n lcv pullfrom = some s' ∧ (∀ i < lcv, s'.entry i = s.entry i) ∧
      (s'.entries lcv n).Perm (s.entries lcv n ++ s.entries pullfrom (nused - pullfrom)) := by
  induction n generalizing s lcv pullfrom with
  | zero =>
    have hback : s.entries pullfrom (nused - pullfrom) = [] := by
      rw [← List.length_eq_zero_iff]
      omega
    refine ⟨s, rfl, fun _ _ => rfl, ?_⟩
    rw [hback, List.append_nil]
  | succ n ih =>
    by_cases hnone : s.mqes lcv = none
    · have hhole := entries_hole n (entry_eq_none.mpr hnone)
      rw [hhole] at hcount ⊢
      have hfront := s.length_entries_le (lcv + 1) n
      obtain ⟨hscan, hfrom, hstop⟩ := s.entries_scan (nused - pullfrom) pullfrom
      -- a hole in front means that an entry is left at the end
      generalize hp : s.scan (nused - pullfrom) pullfrom = pull at hscan hfrom hstop
      have hlt : pull < nused := by
        by_contra hge
        rw [show pullfrom + (nused - pullfrom) - pull = 0 by omega, entries_zero] at hscan
        rw [hscan, List.length_nil] at hcount
        omega
      obtain ⟨x, hx⟩ := Option.ne_none_iff_exists'.mp
        (mt entry_eq_none.mp (hstop (by omega)))
      rw [show pullfrom + (nused - pullfrom) - pull = nused - (pull + 1) + 1 by omega,
        entries_entry _ hx] at hscan
      have hcongr (lo k : ℕ) (hlo : lcv < lo) :
          (s.copy pull lcv).entries lo k = s.entries lo k :=
        entries_congr fun i hi _ => s.copy_entry_of_ne pull (by omega)
      have hcount' : ((s.copy pull lcv).entries (lcv + 1) n).length +
          ((s.copy pull lcv).entries (pull + 1) (nused - (pull + 1))).length = n := by
        rw [hcongr _ _ (by omega), hcongr _ _ (by omega)]
        rw [hscan, List.length_cons] at hcount
        omega
      have hnext : lcv + 1 + n ≤ pull + 1 := by omega
      obtain ⟨s', hs', hsame, hperm⟩ := ih hnext hlt hcount'
      refine ⟨s', ?_, ?_, ?_⟩
      · have hgo : s.fillHoles nused (n + 1) lcv pullfrom =
            (s.copy pull lcv).fillHoles nused n (lcv + 1) (pull + 1) := by
          simp only [fillHoles, hnone, hp, ne_eq, not_true_eq_false, if_false]
          exact if_neg (by omega)
        exact hgo.trans hs'
      · intro i hi
        rw [hsame i (by omega), s.copy_entry_of_ne pull (by omega)]
      · have hlcv : s'.entry lcv = some x := by
          rw [hsame lcv (by omega), copy_entry_dst, hx]
        rw [hcongr _ _ (by omega), hcongr _ _ (by omega)] at hperm
        rw [entries_entry n hlcv, hscan]
        exact (hperm.cons x).trans List.perm_middle.symm
    · obtain ⟨x, hx⟩ := Option.ne_none_iff_exists'.mp (mt entry_eq_none.mp hnone)
      rw [entries_entry n hx] at hcount ⊢
      rw [List.length_cons] at hcount
      have hnext : lcv + 1 + n ≤ pullfrom := by omega
      obtain ⟨s', hs', hsame, hperm⟩ := ih (s := s) hnext hle (by omega)
      refine ⟨s', ?_, fun i hi => hsame i (by omega), ?_⟩
      · have hgo : s.fillHoles nused (n + 1) lcv pullfrom =
            s.fillHoles nused n (lcv + 1) pullfrom := if_pos hnone
        exact hgo.trans hs'
      · have hlcv : s'.entry lcv = some x := (hsame lcv (by omega)).trans hx
        rw [entries_entry n hlcv]
        exact hperm.cons x

/-- Taking the buffer out of a slot removes its entry. -/
theorem entries_clearMqe {a : ℕ} (hlo : lo ≤ i) (hi : i < lo + n) (ha : s.mqes i = some a) :
    (s.entries lo n).Perm ((a, s.reqs i) :: (s.clearMqe i).entries lo n) := by
  obtain ⟨k, rfl⟩ := Nat.exists_eq_add_of_le hlo
  obtain ⟨j, rfl⟩ : ∃ j, n = k + (j + 1) := ⟨n - k - 1, by omega⟩
  have hx : s.entry (lo + k) = some (a, s.reqs (lo + k)) := by simp [entry, ha]
  have hnone : (s.clearMqe (lo + k)).entry (lo + k) = none := by simp [clearMqe, entry]
  have hcongr (lo' m : ℕ) (hne : ∀ i, lo' ≤ i → i < lo' + m → i ≠ lo + k) :
      (s.clearMqe (lo + k)).entries lo' m = s.entries lo' m := by
    refine entries_congr fun i hlo' hi' => ?_
    simp [clearMqe, entry, hne i hlo' hi']
  rw [s.entries_append lo k (j + 1), Slots.entries_append _ lo k (j + 1), entries_entry j hx,
    entries_hole j hnone, hcongr lo k (by intros; omega), hcongr (lo + k + 1) j (by intros; omega)]
  exact List.perm_middle

end Slots

/-- The middle of mpimts_test: of `got` completed sends the buffers of `idxout`
are still to be released, and no hole lies before `firsthole`. -/
structure Releasing (m : Mts ρ) (got firsthole : ℕ) (idxout : List ℕ) : Prop where
  nodup : idxout.Nodup
  inUse : ∀ i ∈ idxout, i < m.nused
  present : ∀ i ∈ idxout, m.slots.mqes i ≠ none
  null : ∀ i ∈ idxout, m.slots.reqs i = none
  firsthole_lt : firsthole < m.nused
  holes : ∀ i < m.nused, m.slots.mqes i = none → firsthole ≤ i
  count : m.entries.length + got = m.nused + idxout.length

variable {m : Mts ρ} {i got firsthole : ℕ} {idxout : List ℕ}

theorem entries_mpimtsAdd (m : Mts ρ) (addr : ℕ) (req : ρ) :
    (mpimtsAdd m addr req).entries = m.entries ++ [(addr, some req)] := by
  obtain ⟨hnused, hslots⟩ := m.grow_eq
  have hnew : (mpimtsAdd m addr req).slots.entry m.nused = some (addr, some req) := by
    simp [mpimtsAdd, Slots.entry, hnused]
  have hold : (mpimtsAdd m addr req).slots.entries 0 m.nused = m.slots.entries 0 m.nused := by
    refine Slots.entries_congr fun i _ hi => ?_
    have hne : i ≠ m.nused := by omega
    simp [mpimtsAdd, Slots.entry, hnused, hslots, hne]
  have hused : (mpimtsAdd m addr req).nused = m.nused + 1 := congrArg (· + 1) hnused
  rw [Mts.entries, hused, Slots.entries_append, hold, Nat.zero_add,
    Slots.entries_entry 0 hnew, Slots.entries_zero]
  rfl

theorem full_mpimtsAdd (h : m.Full) (addr : ℕ) (req : ρ) : (mpimtsAdd m addr req).Full := by
  have hused : (mpimtsAdd m addr req).nused = m.nused + 1 := congrArg (· + 1) m.grow_eq.1
  rw [Mts.Full, entries_mpimtsAdd, hused, List.length_append, h]
  rfl

theorem entries_testsome_fst (m : Mts ρ) (idxout : List ℕ) :
    (testsome m idxout).entries.map Prod.fst = m.entries.map Prod.fst := by
  simp only [Mts.entries, Slots.entries, List.map_filterMap]
  refine List.filterMap_congr fun i _ => ?_
  simp [testsome, Slots.entry, Function.comp_def]

theorem Mts.Full.mqes_ne (h : m.Full) (hi : i < m.nused) : m.slots.mqes i ≠ none := by
  have hlt : i < 0 + m.nused := (Nat.zero_add m.nused).symm ▸ hi
  exact Slots.full_of_length_entries h (Nat.zero_le i) hlt

theorem releasing_testsome (h : m.Full) (hnodup : (i :: idxout).Nodup)
    (hin : ∀ j ∈ i :: idxout, j < m.nused) :
    Releasing (testsome m (i :: idxout)) (i :: idxout).length i (i :: idxout) := by
  have hlen : (testsome m (i :: idxout)).entries.length = m.nused := by
    rw [← List.length_map Prod.fst, entries_testsome_fst, List.length_map, h]
  refine ⟨hnodup, hin, fun j hj => h.mqes_ne (hin j hj), fun j hj => if_pos hj,
    hin i List.mem_cons_self, ?_, by rw [hlen]; rfl⟩
  intro j hj hnone
  exact absurd hnone (h.mqes_ne hj)

theorem entries_clearMqe {a : ℕ} (hi : i < m.nused) (ha : m.slots.mqes i = some a) :
    m.entries.Perm ((a, m.slots.reqs i) :: (m.clearMqe i).entries) :=
  Slots.entries_clearMqe (Nat.zero_le i) (by omega) ha

theorem Releasing.release {a : ℕ} (h : Releasing m got firsthole (i :: idxout))
    (ha : m.slots.mqes i = some a) :
    Releasing (m.clearMqe i) got (min firsthole i) idxout := by
  have hi : i < m.nused := h.inUse i List.mem_cons_self
  obtain ⟨hnot, hnodup⟩ := List.nodup_cons.mp h.nodup
  refine ⟨hnodup, fun j hj => h.inUse j (List.mem_cons_of_mem i hj), ?_,
    fun j hj => h.null j (List.mem_cons_of_mem i hj), ?_, ?_, ?_⟩
  · intro j hj
    have hji : j ≠ i := fun he => hnot (he ▸ hj)
    simpa [Mts.clearMqe, Slots.clearMqe, hji] using h.present j (List.mem_cons_of_mem i hj)
  · exact (min_le_right firsthole i).trans_lt hi
  · intro j hj hnone
    by_cases hji : j = i
    · rw [hji]
      exact min_le_right firsthole i
    · have hold : m.slots.mqes j = none := by
        simpa [Mts.clearMqe, Slots.clearMqe, hji] using hnone
      exact (min_le_left firsthole i).trans (h.holes j hj hold)
  · have hcount := h.count
    have hlen := (entries_clearMqe hi ha).length_eq
    rw [List.length_cons] at hcount hlen
    change (m.clearMqe i).entries.length + got = m.nused + idxout.length
    omega

/-- Closing the holes keeps the entries, and leaves none. -/
theorem Releasing.compact (h : Releasing m got firsthole []) :
    (compact m got firsthole).Full ∧ (compact m got firsthole).entries.Perm m.entries := by
  have hcount : m.entries.length + got = m.nused := h.count
  have hfirst := h.firsthole_lt
  unfold MpiTestsome.compact
  split
  · have hnil : m.entries = [] := by
      rw [← List.length_eq_zero_iff]
      omega
    rw [hnil]
    exact ⟨rfl, List.Perm.refl _⟩
  · have hfront : (m.slots.entries 0 firsthole).length = firsthole :=
      Slots.length_entries_of_full fun i _ hi hnone =>
        absurd (h.holes i (by omega) hnone) (by omega)
    have hsplit : m.entries = m.slots.entries 0 firsthole ++
        m.slots.entries firsthole (m.nused - firsthole) := by
      have happ := m.slots.entries_append 0 firsthole (m.nused - firsthole)
      rwa [Nat.zero_add, show firsthole + (m.nused - firsthole) = m.nused by omega] at happ
    have hle : firsthole ≤ m.nused - got := by
      rw [hsplit, List.length_append, hfront] at hcount
      omega
    have htail : m.slots.entries firsthole (m.nused - firsthole) =
        m.slots.entries firsthole (m.nused - got - firsthole) ++
          m.slots.entries (m.nused - got) (m.nused - (m.nused - got)) := by
      have happ := m.slots.entries_append firsthole (m.nused - got - firsthole)
        (m.nused - (m.nused - got))
      rwa [show m.nused - got - firsthole + (m.nused - (m.nused - got)) = m.nused - firsthole by
        omega, show firsthole + (m.nused - got - firsthole) = m.nused - got by omega] at happ
    have hpull : firsthole + (m.nused - got - firsthole) ≤ m.nused - got := by omega
    have hroom : (m.slots.entries firsthole (m.nused - got - firsthole)).length +
        (m.slots.entries (m.nused - got) (m.nused - (m.nused - got))).length =
          m.nused - got - firsthole := by
      rw [hsplit, htail, List.length_append, List.length_append, hfront] at hcount
      omega
    obtain ⟨s', hs', hsame, hperm⟩ := Slots.fillHoles_spec hpull (Nat.sub_le m.nused got) hroom
    simp only [Mts.pullUp, hs']
    have hentries : s'.entries 0 (m.nused - got) = m.slots.entries 0 firsthole ++
        s'.entries firsthole (m.nused - got - firsthole) := by
      have happ := s'.entries_append 0 firsthole (m.nused - got - firsthole)
      rw [Nat.zero_add, show firsthole + (m.nused - got - firsthole) = m.nused - got by omega]
        at happ
      rw [happ, Slots.entries_congr fun i _ hi => hsame i (by omega)]
    have hall : (s'.entries 0 (m.nused - got)).Perm m.entries := by
      rw [hentries, hsplit, htail]
      exact hperm.append_left _
    refine ⟨?_, hall⟩
    change (s'.entries 0 (m.nused - got)).length = m.nused - got
    rw [hall.length_eq]
    omega

end Dthread.MpiTestsome
