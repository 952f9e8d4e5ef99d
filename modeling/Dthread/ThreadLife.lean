import Dthread.FifoNet

/-!
The protocol by which threads come and go, without tables and queues. Rank 0
lists the live threads and the STARTs it waits for, the ranks host threads in
slots, and letters between them tell about calls to create a thread, starts and
ends. The counters of rank 0 trail these events; the invariant below says what
they still guarantee.
-/
namespace Dthread.ThreadLife

open FifoNet

inductive Note where
  | create (call : ℕ)
  | start (xid idx : ℕ)
  | started (ok : Bool) (xid : ℕ)
  | ended (idx : ℕ)
deriving DecidableEq, Repr

structure Letter where
  src : ℕ
  dst : ℕ
  note : Note
deriving DecidableEq, Repr

def Letter.chan (p : Letter) : ℕ × ℕ := (p.src, p.dst)

/-- A START that rank 0 waits for, and the call it is for. -/
structure Start where
  xid : ℕ
  idx : ℕ
  peer : ℕ
  call : ℕ
deriving DecidableEq, Repr

/-- `slots r l` is the thread in slot `l` of rank `r`, and `calls r x l` says
that it waits in call `x`. A mute rank's letters are lost. -/
@[ext] structure Life where
  live : Finset ℕ
  starts : List Start
  slots : ℕ → ℕ → Option ℕ
  calls : ℕ → ℕ → ℕ → Prop
  mute : ℕ → Bool
  net : List Letter
  running : ℤ
  starting : ℤ

def setSlot (slots : ℕ → ℕ → Option ℕ) (r l : ℕ) (o : Option ℕ) : ℕ → ℕ → Option ℕ :=
  fun r' l' => if r' = r ∧ l' = l then o else slots r' l'

def said (a : Life) (r : ℕ) (note : Note) : List Letter :=
  if a.mute r then [] else [⟨r, 0, note⟩]

def dropStart (starts : List Start) (y : ℕ) : List Start := starts.eraseP fun st => st.xid == y

inductive LifeStep (a : Life) : Life → Prop
  | still (calls : ℕ → ℕ → ℕ → Prop) (mute : ℕ → Bool)
      (hcalls : ∀ r x l, calls r x l → a.calls r x l)
      (hmute : ∀ r, a.mute r = true → mute r = true) :
      LifeStep a { a with calls := calls, mute := mute }
  | ask (r x l i : ℕ) (hslot : a.slots r l = some i) (hmute : a.mute r = false)
      (hnew : ∀ st ∈ a.starts, ¬ (st.peer = r ∧ st.call = x))
      (hnet : (⟨r, 0, .create x⟩ : Letter) ∉ a.net) :
      LifeStep a { a with
        calls := fun r' x' l' => a.calls r' x' l' ∨ r' = r ∧ x' = x ∧ l' = l
        net := a.net ++ [⟨r, 0, .create x⟩] }
  | lose (p : Letter) (net : List Letter) (hd : Deliver Letter.chan a.net p net)
      (hp : ∀ ok y, p.note = .started ok y → ∀ st ∈ a.starts, st.xid ≠ y) :
      LifeStep a { a with net := net }
  | create (r x y i dst : ℕ) (net : List Letter)
      (hd : Deliver Letter.chan a.net ⟨r, 0, .create x⟩ net) (hi : i ∉ a.live)
      (hy : ∀ st ∈ a.starts, st.xid ≠ y) :
      LifeStep a { a with
        live := insert i a.live
        starts := a.starts ++ [⟨y, i, r, x⟩]
        starting := a.starting + 1
        net := net ++ [⟨0, dst, .start y i⟩] }
  | start (r l y i : ℕ) (net : List Letter)
      (hd : Deliver Letter.chan a.net ⟨0, r, .start y i⟩ net) (hfree : a.slots r l = none) :
      LifeStep a { a with
        slots := setSlot a.slots r l (some i)
        net := net ++ said a r (.started true y) }
  | fail (r y i : ℕ) (net : List Letter)
      (hd : Deliver Letter.chan a.net ⟨0, r, .start y i⟩ net) :
      LifeStep a { a with net := net ++ said a r (.started false y) }
  | started (r y : ℕ) (st : Start) (net : List Letter)
      (hd : Deliver Letter.chan a.net ⟨r, 0, .started true y⟩ net)
      (hst : st ∈ a.starts) (hy : st.xid = y) :
      LifeStep a { a with
        starts := dropStart a.starts y
        starting := a.starting - 1
        running := a.running + 1
        net := net }
  | failed (r y : ℕ) (st : Start) (net : List Letter)
      (hd : Deliver Letter.chan a.net ⟨r, 0, .started false y⟩ net)
      (hst : st ∈ a.starts) (hy : st.xid = y) :
      LifeStep a { a with
        live := a.live.erase st.idx
        starts := dropStart a.starts y
        starting := a.starting - 1
        net := net }
  | leave (r l i : ℕ) (hslot : a.slots r l = some i) (hcalls : ∀ x, ¬ a.calls r x l) :
      LifeStep a { a with
        slots := setSlot a.slots r l none
        net := a.net ++ said a r (.ended i) }
  | ended (r i : ℕ) (net : List Letter)
      (hd : Deliver Letter.chan a.net ⟨r, 0, .ended i⟩ net) :
      LifeStep a { a with
        live := a.live.erase i
        running := a.running - 1
        net := net }

/-- A letter that thread `i` stands behind: its START, a failed start or its
end. Together with the slots this is where the thread is. -/
def claims (starts : List Start) (i : ℕ) (p : Letter) : Bool :=
  match p.note with
  | .create _ => false
  | .start _ j => j == i
  | .started true _ => false
  | .started false y => starts.any fun st => st.xid == y && st.idx == i
  | .ended j => j == i

/-- A letter about the START with number `y`. -/
def concerns (y : ℕ) (p : Letter) : Bool :=
  match p.note with
  | .start y' _ => y' == y
  | .started _ y' => y' == y
  | _ => false

/-- The threads that rank 0 counts as running. -/
def runningSet (live : Finset ℕ) (starts : List Start) : Finset ℕ :=
  live.filter fun i => ∀ st ∈ starts, st.idx ≠ i

/-- Two STARTs with nothing in common. -/
def Start.Apart (st st' : Start) : Prop := st.xid ≠ st'.xid ∧ st.idx ≠ st'.idx

instance : Std.Symm Start.Apart := ⟨fun _ _ h => ⟨h.1.symm, h.2.symm⟩⟩

/-- What every state of the protocol satisfies: a thread is in one place, and
only live ones are anywhere; each START is for a thread of its own and has one
letter under way; a start is reported before the thread's end and before what
the thread asks for; and whoever waits for a START has been reported. -/
structure LifeOk (a : Life) : Prop where
  unique : ∀ {r l r' l' i}, a.slots r l = some i → a.slots r' l' = some i → r' = r ∧ l' = l
  flight : ∀ i, a.net.countP (claims a.starts i) ≤ 1
  apart : ∀ {r l i}, a.slots r l = some i → a.net.countP (claims a.starts i) = 0
  hostLive : ∀ {r l i}, a.slots r l = some i → i ∈ a.live
  flightLive : ∀ {i}, 0 < a.net.countP (claims a.starts i) → i ∈ a.live
  startLive : ∀ st ∈ a.starts, st.idx ∈ a.live
  distinct : a.starts.Pairwise Start.Apart
  token : ∀ y, a.net.countP (concerns y) ≤ 1
  tokenStart : ∀ {y}, 0 < a.net.countP (concerns y) → ∃ st ∈ a.starts, st.xid = y
  startMatch : ∀ {r r' y i}, (⟨r, r', .start y i⟩ : Letter) ∈ a.net →
    ∃ st ∈ a.starts, st.xid = y ∧ st.idx = i
  reported : ∀ {r l}, ∀ st ∈ a.starts, a.slots r l = some st.idx → a.mute r = false →
    (⟨r, 0, .started true st.xid⟩ : Letter) ∈ a.net
  endOrder : ∀ r, ∀ st ∈ a.starts,
    Preceded (· = ⟨r, 0, .started true st.xid⟩) (· = ⟨r, 0, .ended st.idx⟩) a.net
  askOrder : ∀ {r x l}, ∀ st ∈ a.starts, a.calls r x l → a.slots r l = some st.idx →
    Preceded (· = ⟨r, 0, .started true st.xid⟩) (· = ⟨r, 0, .create x⟩) a.net
  creator : ∀ {l i}, ∀ st ∈ a.starts, a.calls st.peer st.call l →
    a.slots st.peer l = some i → ∀ st' ∈ a.starts, st'.idx ≠ i
  callSlot : ∀ {r x l}, a.calls r x l → ∃ i, a.slots r l = some i
  running : a.running = (runningSet a.live a.starts).card
  starting : a.starting = a.starts.length

theorem mem_said {a : Life} {r : ℕ} {note : Note} {p : Letter} (h : p ∈ said a r note) :
    p = ⟨r, 0, note⟩ := by
  unfold said at h
  split at h
  · simp at h
  · simpa using h

theorem countP_said_le (a : Life) (r : ℕ) (note : Note) (f : Letter → Bool) :
    (said a r note).countP f ≤ if f ⟨r, 0, note⟩ then 1 else 0 := by
  unfold said
  split
  · simp
  · simp [List.countP_cons]

theorem setSlot_self (slots : ℕ → ℕ → Option ℕ) (r l : ℕ) (o : Option ℕ) :
    setSlot slots r l o r l = o := by
  simp [setSlot]

theorem setSlot_of_ne {slots : ℕ → ℕ → Option ℕ} {r l r' l' : ℕ} (o : Option ℕ)
    (h : ¬ (r' = r ∧ l' = l)) : setSlot slots r l o r' l' = slots r' l' := by
  simp [setSlot, h]

/-- A letter that `claims` a thread by a failed start needs a listed START. -/
theorem claims_mono {starts starts' : List Start} (h : ∀ st ∈ starts', st ∈ starts) {i : ℕ}
    {p : Letter} (hp : claims starts' i p = true) : claims starts i p = true := by
  unfold claims at hp ⊢
  split <;> simp_all only
  rw [List.any_eq_true] at hp ⊢
  obtain ⟨st, hst, hm⟩ := hp
  exact ⟨st, h st hst, hm⟩

theorem countP_claims_mono {starts starts' : List Start} (h : ∀ st ∈ starts', st ∈ starts)
    (net : List Letter) (i : ℕ) :
    net.countP (claims starts' i) ≤ net.countP (claims starts i) :=
  List.countP_mono_left fun _ _ hp => claims_mono h hp

/-- A new START changes nothing for the letters that do not concern it. -/
theorem claims_append {starts : List Start} {st : Start} {p : Letter}
    (hp : concerns st.xid p = false) (i : ℕ) :
    claims (starts ++ [st]) i p = claims starts i p := by
  unfold claims
  split <;> try rfl
  rename_i y hnote
  have hne : st.xid ≠ y := by
    intro heq
    simp [concerns, hnote, heq] at hp
  simp [hne]

theorem mem_dropStart {starts : List Start} (h : starts.Pairwise Start.Apart) {st : Start}
    {y : ℕ} : st ∈ dropStart starts y ↔ st ∈ starts ∧ st.xid ≠ y := by
  unfold dropStart
  induction starts with
  | nil => simp
  | cons st₀ starts ih =>
    rw [List.pairwise_cons] at h
    by_cases hy : st₀.xid = y
    · rw [List.eraseP_cons_of_pos (by simpa using hy)]
      constructor
      · intro hst
        refine ⟨List.mem_cons_of_mem _ hst, fun heq => ?_⟩
        exact (h.1 st hst).1 (hy.trans heq.symm)
      · rintro ⟨hst, hne⟩
        rw [List.mem_cons] at hst
        rcases hst with rfl | hst
        · exact absurd hy hne
        · exact hst
    · rw [List.eraseP_cons_of_neg (by simpa using hy), List.mem_cons, ih h.2, List.mem_cons]
      constructor
      · rintro (rfl | ⟨hst, hne⟩)
        · exact ⟨.inl rfl, hy⟩
        · exact ⟨.inr hst, hne⟩
      · rintro ⟨rfl | hst, hne⟩
        · exact .inl rfl
        · exact .inr ⟨hst, hne⟩

/-- A thread that waits for its START is not running yet. -/
theorem runningSet_create {live : Finset ℕ} {starts : List Start} {y i r x : ℕ} (hi : i ∉ live) :
    runningSet (insert i live) (starts ++ [⟨y, i, r, x⟩]) = runningSet live starts := by
  ext j
  simp only [runningSet, Finset.mem_filter, Finset.mem_insert, List.mem_append,
    List.mem_singleton]
  constructor
  · rintro ⟨hj, hall⟩
    have hij : i ≠ j := hall _ (.inr rfl)
    exact ⟨hj.resolve_left hij.symm, fun st hst => hall st (.inl hst)⟩
  · rintro ⟨hj, hall⟩
    refine ⟨.inr hj, ?_⟩
    rintro st (hst | rfl)
    · exact hall st hst
    · rintro rfl
      exact hi hj

theorem notMem_runningSet {live : Finset ℕ} {starts : List Start} {st : Start}
    (hst : st ∈ starts) : st.idx ∉ runningSet live starts := fun hmem =>
  (Finset.mem_filter.mp hmem).2 st hst rfl

namespace LifeOk

variable {a : Life}

theorem same_of_xid (h : LifeOk a) {st st' : Start} (hst : st ∈ a.starts) (hst' : st' ∈ a.starts)
    (hxid : st.xid = st'.xid) : st = st' := by
  by_contra hne
  exact (h.distinct.forall hst hst' hne).1 hxid

theorem same_of_idx (h : LifeOk a) {st st' : Start} (hst : st ∈ a.starts) (hst' : st' ∈ a.starts)
    (hidx : st.idx = st'.idx) : st = st' := by
  by_contra hne
  exact (h.distinct.forall hst hst' hne).2 hidx

/-- A thread with a letter in flight is not hosted. -/
theorem not_hosted (h : LifeOk a) {p : Letter} {i r l : ℕ} (hp : p ∈ a.net)
    (hclaim : claims a.starts i p = true) : a.slots r l ≠ some i := by
  intro hslot
  have hzero := h.apart hslot
  have hpos : 0 < a.net.countP (claims a.starts i) := List.countP_pos_iff.mpr ⟨p, hp, hclaim⟩
  omega

theorem live_of_mem (h : LifeOk a) {p : Letter} {i : ℕ} (hp : p ∈ a.net)
    (hclaim : claims a.starts i p = true) : i ∈ a.live :=
  h.flightLive (List.countP_pos_iff.mpr ⟨p, hp, hclaim⟩)

theorem runningSet_started (h : LifeOk a) {st : Start} (hst : st ∈ a.starts) :
    runningSet a.live (dropStart a.starts st.xid) =
      insert st.idx (runningSet a.live a.starts) := by
  ext i
  simp only [runningSet, Finset.mem_insert, Finset.mem_filter, mem_dropStart h.distinct]
  constructor
  · rintro ⟨hlive, hall⟩
    by_cases hi : i = st.idx
    · exact .inl hi
    · refine .inr ⟨hlive, fun st' hst' hidx => ?_⟩
      refine hall st' ⟨hst', fun hxid => ?_⟩ hidx
      exact hi (hidx.symm.trans (congrArg Start.idx (h.same_of_xid hst' hst hxid)))
  · rintro (rfl | ⟨hlive, hall⟩)
    · refine ⟨h.startLive st hst, fun st' hst' hidx => hst'.2 ?_⟩
      exact congrArg Start.xid (h.same_of_idx hst'.1 hst hidx)
    · exact ⟨hlive, fun st' hst' => hall st' hst'.1⟩

theorem runningSet_failed (h : LifeOk a) {st : Start} (hst : st ∈ a.starts) :
    runningSet (a.live.erase st.idx) (dropStart a.starts st.xid) =
      runningSet a.live a.starts := by
  ext i
  simp only [runningSet, Finset.mem_erase, Finset.mem_filter, mem_dropStart h.distinct]
  constructor
  · rintro ⟨⟨hi, hlive⟩, hall⟩
    refine ⟨hlive, fun st' hst' hidx => hall st' ⟨hst', fun hxid => ?_⟩ hidx⟩
    exact hi (hidx.symm.trans (congrArg Start.idx (h.same_of_xid hst' hst hxid)))
  · rintro ⟨hlive, hall⟩
    exact ⟨⟨(hall st hst).symm, hlive⟩, fun st' hst' => hall st' hst'.1⟩

/-- A thread whose end is reported next was counted as running. -/
theorem mem_runningSet_of_ended (h : LifeOk a) {r i : ℕ} {net : List Letter}
    (hd : Deliver Letter.chan a.net ⟨r, 0, .ended i⟩ net) : i ∈ runningSet a.live a.starts := by
  have hself : claims a.starts i ⟨r, 0, .ended i⟩ = true := by simp [claims]
  refine Finset.mem_filter.mpr ⟨h.live_of_mem hd.mem hself, fun st hst => ?_⟩
  rintro rfl
  exact (h.endOrder r st hst).not_deliver hd rfl (by rintro _ rfl; rfl)

theorem concerns_of_fresh (h : LifeOk a) {y : ℕ} (hy : ∀ st ∈ a.starts, st.xid ≠ y) {p : Letter}
    (hp : p ∈ a.net) : concerns y p = false := by
  by_contra hc
  obtain ⟨st, hst, hxid⟩ := h.tokenStart (List.countP_pos_iff.mpr ⟨p, hp, by simpa using hc⟩)
  exact hy st hst hxid

theorem still (h : LifeOk a) {calls : ℕ → ℕ → ℕ → Prop} {mute : ℕ → Bool}
    (hcalls : ∀ r x l, calls r x l → a.calls r x l)
    (hmute : ∀ r, a.mute r = true → mute r = true) :
    LifeOk { a with calls := calls, mute := mute } where
  unique := h.unique
  flight := h.flight
  apart := h.apart
  hostLive := h.hostLive
  flightLive := h.flightLive
  startLive := h.startLive
  distinct := h.distinct
  token := h.token
  tokenStart := h.tokenStart
  startMatch := h.startMatch
  reported := by
    intro r l st hst hslot hquiet
    refine h.reported st hst hslot ?_
    by_contra hm
    simp [hmute r (by simpa using hm)] at hquiet
  endOrder := h.endOrder
  askOrder st hst hcall hslot := h.askOrder st hst (hcalls _ _ _ hcall) hslot
  creator st hst hcall hslot := h.creator st hst (hcalls _ _ _ hcall) hslot
  callSlot hcall := h.callSlot (hcalls _ _ _ hcall)
  running := h.running
  starting := h.starting

theorem ask (h : LifeOk a) {r x l i : ℕ} (hslot : a.slots r l = some i)
    (hmute : a.mute r = false) (hnew : ∀ st ∈ a.starts, ¬ (st.peer = r ∧ st.call = x))
    (hnet : (⟨r, 0, .create x⟩ : Letter) ∉ a.net) :
    LifeOk { a with
      calls := fun r' x' l' => a.calls r' x' l' ∨ r' = r ∧ x' = x ∧ l' = l
      net := a.net ++ [⟨r, 0, .create x⟩] } where
  unique := h.unique
  flight i := by simpa [claims] using h.flight i
  apart hs := by simpa [claims] using h.apart hs
  hostLive := h.hostLive
  flightLive hpos := h.flightLive (by simpa [claims] using hpos)
  startLive := h.startLive
  distinct := h.distinct
  token y := by simpa [concerns] using h.token y
  tokenStart hpos := h.tokenStart (by simpa [concerns] using hpos)
  startMatch hmem := h.startMatch (by simpa using hmem)
  reported st hst hs hm := List.mem_append_left _ (h.reported st hst hs hm)
  endOrder r' st hst := (h.endOrder r' st hst).append _ (by simp)
  askOrder := by
    intro r' x' l' st hst hcall hs
    have hold : Preceded (· = ⟨r', 0, .started true st.xid⟩) (· = ⟨r', 0, .create x'⟩) a.net := by
      rcases hcall with hcall | ⟨rfl, rfl, rfl⟩
      · exact h.askOrder st hst hcall hs
      · intro b q c heq hq
        subst hq
        exact absurd (by simp [heq]) hnet
    refine hold.append _ fun q hq hB => ⟨_, ?_, rfl⟩
    obtain ⟨rfl, rfl⟩ : r' = r ∧ x' = x := by simpa [hB] using hq
    exact h.reported st hst hs hmute
  creator := by
    intro l' i' st hst hcall hs
    rcases hcall with hcall | ⟨hr, hx, -⟩
    · exact h.creator st hst hcall hs
    · exact absurd ⟨hr, hx⟩ (hnew st hst)
  callSlot hcall := by
    rcases hcall with hcall | ⟨rfl, rfl, rfl⟩
    · exact h.callSlot hcall
    · exact ⟨i, hslot⟩
  running := h.running
  starting := h.starting

theorem lose (h : LifeOk a) {p : Letter} {net : List Letter}
    (hd : Deliver Letter.chan a.net p net)
    (hp : ∀ ok y, p.note = .started ok y → ∀ st ∈ a.starts, st.xid ≠ y) :
    LifeOk { a with net := net } := by
  have hle (f : Letter → Bool) : net.countP f ≤ a.net.countP f := by
    have hcount := hd.countP f
    omega
  have hne (r : ℕ) (st : Start) (hst : st ∈ a.starts) : p ≠ ⟨r, 0, .started true st.xid⟩ := by
    rintro rfl
    exact hp true st.xid rfl st hst rfl
  exact {
    unique := h.unique
    flight := fun i => (hle _).trans (h.flight i)
    apart := fun hs => Nat.le_zero.mp ((hle _).trans (h.apart hs).le)
    hostLive := h.hostLive
    flightLive := fun hpos => h.flightLive (hpos.trans_le (hle _))
    startLive := h.startLive
    distinct := h.distinct
    token := fun y => (hle _).trans (h.token y)
    tokenStart := fun hpos => h.tokenStart (hpos.trans_le (hle _))
    startMatch := fun hmem => h.startMatch (hd.mem_of_mem hmem)
    reported := fun st hst hs hm =>
      (hd.mem_or (h.reported st hst hs hm)).resolve_left (hne _ st hst).symm
    endOrder := fun r st hst => (h.endOrder r st hst).deliver hd (hne r st hst)
    askOrder := fun st hst hcall hs => (h.askOrder st hst hcall hs).deliver hd (hne _ st hst)
    creator := h.creator
    callSlot := h.callSlot
    running := h.running
    starting := h.starting }

theorem create (h : LifeOk a) {r x y i dst : ℕ} {net : List Letter}
    (hd : Deliver Letter.chan a.net ⟨r, 0, .create x⟩ net) (hi : i ∉ a.live)
    (hy : ∀ st ∈ a.starts, st.xid ≠ y) :
    LifeOk { a with
      live := insert i a.live
      starts := a.starts ++ [⟨y, i, r, x⟩]
      starting := a.starting + 1
      net := net ++ [⟨0, dst, .start y i⟩] } := by
  have hlive (j : ℕ) (hj : j ∈ a.live) : i ≠ j := by
    rintro rfl
    exact hi hj
  have hnet (p : Letter) (hp : p ∈ net) : concerns y p = false :=
    h.concerns_of_fresh hy (hd.mem_of_mem hp)
  have hold (j : ℕ) : net.countP (claims (a.starts ++ [⟨y, i, r, x⟩]) j) =
      a.net.countP (claims a.starts j) := by
    have hcount := hd.countP (claims a.starts j)
    have hsame : net.countP (claims (a.starts ++ [⟨y, i, r, x⟩]) j) =
        net.countP (claims a.starts j) :=
      List.countP_congr fun p hp => by rw [claims_append (hnet p hp)]
    simp only [claims] at hcount
    rw [hsame]
    simpa using hcount.symm
  have hclaims (j : ℕ) : (net ++ [(⟨0, dst, .start y i⟩ : Letter)]).countP
      (claims (a.starts ++ [(⟨y, i, r, x⟩ : Start)]) j) =
      a.net.countP (claims a.starts j) + if i = j then 1 else 0 := by
    rw [List.countP_append, hold]
    simp [claims, List.countP_cons]
  have hzero : a.net.countP (claims a.starts i) = 0 := by
    by_contra hne
    exact hi (h.flightLive (Nat.pos_of_ne_zero hne))
  have htokens (z : ℕ) : (net ++ [(⟨0, dst, .start y i⟩ : Letter)]).countP (concerns z) =
      a.net.countP (concerns z) + if y = z then 1 else 0 := by
    have hcount := hd.countP (concerns z)
    simp only [concerns] at hcount
    rw [List.countP_append]
    simp [concerns, List.countP_cons] at hcount ⊢
    omega
  have hzeroTok : a.net.countP (concerns y) = 0 :=
    List.countP_eq_zero.mpr fun p hp => by simp [h.concerns_of_fresh hy hp]
  have hstart (st : Start) (hst : st ∈ a.starts ++ [⟨y, i, r, x⟩]) :
      st ∈ a.starts ∨ st = ⟨y, i, r, x⟩ := by
    simpa using hst
  have hpre (r' z : ℕ) {B : Letter → Prop} (hB : ¬ B ⟨0, dst, .start y i⟩)
      (hp : Preceded (· = ⟨r', 0, .started true z⟩) B a.net) :
      Preceded (· = ⟨r', 0, .started true z⟩) B (net ++ [⟨0, dst, .start y i⟩]) := by
    refine (hp.deliver hd (by simp)).append _ fun q hq hBq => ?_
    obtain rfl : q = _ := by simpa using hq
    exact absurd hBq hB
  refine ⟨h.unique, fun j => ?_, fun hs => ?_, fun hs => ?_, fun hpos => ?_, fun st hst => ?_, ?_,
    fun z => ?_, fun hpos => ?_, fun hmem => ?_, fun st hst hs hm => ?_, fun r' st hst => ?_,
    fun st hst hcall hs => ?_, fun st hst hcall hs st' hst' => ?_, h.callSlot, ?_, ?_⟩
  · rw [hclaims]
    by_cases hj : i = j
    · subst hj
      simp [hzero]
    · simpa [hj] using h.flight j
  · rw [hclaims, h.apart hs]
    simp [hlive _ (h.hostLive hs)]
  · exact Finset.mem_insert_of_mem (h.hostLive hs)
  · rw [hclaims] at hpos
    rename_i j
    by_cases hj : i = j
    · subst hj
      exact Finset.mem_insert_self _ _
    · exact Finset.mem_insert_of_mem (h.flightLive (by simpa [hj] using hpos))
  · rcases hstart st hst with hst | rfl
    · exact Finset.mem_insert_of_mem (h.startLive st hst)
    · exact Finset.mem_insert_self _ _
  · refine List.pairwise_append.mpr ⟨h.distinct, List.pairwise_singleton _ _, ?_⟩
    intro st hst st' hst'
    obtain rfl : st' = _ := by simpa using hst'
    exact ⟨hy st hst, (hlive _ (h.startLive st hst)).symm⟩
  · rw [htokens]
    by_cases hz : y = z
    · subst hz
      simp [hzeroTok]
    · simpa [hz] using h.token z
  · rw [htokens] at hpos
    rename_i z
    by_cases hz : y = z
    · exact ⟨_, List.mem_append_right _ (List.mem_singleton_self _), hz⟩
    · obtain ⟨st, hst, hxid⟩ := h.tokenStart (y := z) (by simpa [hz] using hpos)
      exact ⟨st, List.mem_append_left _ hst, hxid⟩
  · rw [List.mem_append, List.mem_singleton] at hmem
    rcases hmem with hmem | heq
    · obtain ⟨st, hst, hmatch⟩ := h.startMatch (hd.mem_of_mem hmem)
      exact ⟨st, List.mem_append_left _ hst, hmatch⟩
    · obtain ⟨-, -, rfl, rfl⟩ : _ ∧ _ ∧ _ = y ∧ _ = i := by simpa using heq
      exact ⟨_, List.mem_append_right _ (List.mem_singleton_self _), rfl, rfl⟩
  · rcases hstart st hst with hst | rfl
    · refine List.mem_append_left _ ((hd.mem_or (h.reported st hst hs hm)).resolve_left ?_)
      simp
    · exact absurd (h.hostLive hs) hi
  · rcases hstart st hst with hst | rfl
    · exact hpre r' st.xid (by simp) (h.endOrder r' st hst)
    · refine hpre r' y (by simp) fun b q c heq hq => ?_
      subst hq
      have hmem : (⟨r', 0, .ended i⟩ : Letter) ∈ a.net := by simp [heq]
      exact absurd (h.live_of_mem hmem (by simp [claims])) hi
  · rcases hstart st hst with hst | rfl
    · exact hpre _ st.xid (by simp) (h.askOrder st hst hcall hs)
    · exact absurd (h.hostLive hs) hi
  · have hj := h.hostLive hs
    rcases hstart st' hst' with hst' | rfl
    · rcases hstart st hst with hst | rfl
      · exact h.creator st hst hcall hs st' hst'
      · -- the creator's own start was reported ahead of its call
        rintro rfl
        exact (h.askOrder st' hst' hcall hs).not_deliver hd rfl (by rintro _ rfl; rfl)
    · exact hlive _ hj
  · simp only [runningSet_create hi]
    exact h.running
  · simp [h.starting]

/-- A START is answered: the orders of letters stay, since no report of a start
is taken out. -/
theorem preceded_answer {r r' y i z : ℕ} {net : List Letter} {note : Note} {B : Letter → Prop}
    (hd : Deliver Letter.chan a.net ⟨0, r, .start y i⟩ net) (hB : ¬ B ⟨r, 0, note⟩)
    (hp : Preceded (· = ⟨r', 0, .started true z⟩) B a.net) :
    Preceded (· = ⟨r', 0, .started true z⟩) B (net ++ said a r note) := by
  refine (hp.deliver hd (by simp)).append _ fun q hq hBq => ?_
  obtain rfl := mem_said hq
  exact absurd hBq hB

theorem token_answer {r y i : ℕ} {net : List Letter}
    (hd : Deliver Letter.chan a.net ⟨0, r, .start y i⟩ net) (ok : Bool) (z : ℕ) :
    (net ++ said a r (.started ok y)).countP (concerns z) ≤ a.net.countP (concerns z) := by
  have hcount := hd.countP (concerns z)
  have hsaid := countP_said_le a r (.started ok y) (concerns z)
  have hsame : concerns z ⟨r, 0, .started ok y⟩ = concerns z ⟨0, r, .start y i⟩ := rfl
  rw [hsame] at hsaid
  rw [List.countP_append]
  omega

theorem startMatch_answer (h : LifeOk a) {r y i r₁ r₂ z j : ℕ} {net : List Letter} {ok : Bool}
    (hd : Deliver Letter.chan a.net ⟨0, r, .start y i⟩ net)
    (hmem : (⟨r₁, r₂, .start z j⟩ : Letter) ∈ net ++ said a r (.started ok y)) :
    ∃ st ∈ a.starts, st.xid = z ∧ st.idx = j := by
  rw [List.mem_append] at hmem
  rcases hmem with hmem | hmem
  · exact h.startMatch (hd.mem_of_mem hmem)
  · simpa using mem_said hmem

theorem start (h : LifeOk a) {r l y i : ℕ} {net : List Letter}
    (hd : Deliver Letter.chan a.net ⟨0, r, .start y i⟩ net) (hfree : a.slots r l = none) :
    LifeOk { a with
      slots := setSlot a.slots r l (some i)
      net := net ++ said a r (.started true y) } := by
  have hself : claims a.starts i ⟨0, r, .start y i⟩ = true := by simp [claims]
  have hslot {r' l' j : ℕ} (hs : setSlot a.slots r l (some i) r' l' = some j) :
      r' = r ∧ l' = l ∧ j = i ∨ a.slots r' l' = some j := by
    by_cases hrl : r' = r ∧ l' = l
    · obtain ⟨rfl, rfl⟩ := hrl
      rw [setSlot_self] at hs
      exact .inl ⟨rfl, rfl, (Option.some.inj hs).symm⟩
    · rw [setSlot_of_ne _ hrl] at hs
      exact .inr hs
  have hclaims (j : ℕ) : (net ++ said a r (.started true y)).countP (claims a.starts j) +
      (if i = j then 1 else 0) = a.net.countP (claims a.starts j) := by
    have hcount := hd.countP (claims a.starts j)
    have hsaid := countP_said_le a r (.started true y) (claims a.starts j)
    have hnone : claims a.starts j ⟨r, 0, .started true y⟩ = false := rfl
    have hstart : claims a.starts j ⟨0, r, .start y i⟩ = decide (i = j) := by
      simp [claims, beq_eq_decide]
    rw [hnone] at hsaid
    rw [List.countP_append, hcount, hstart]
    simp only [Bool.false_eq_true, if_false, decide_eq_true_eq] at hsaid ⊢
    omega
  have hle (j : ℕ) : (net ++ said a r (.started true y)).countP (claims a.starts j) ≤
      a.net.countP (claims a.starts j) := by
    have hj := hclaims j
    omega
  obtain ⟨st₀, hst₀, hy₀, hi₀⟩ := h.startMatch hd.mem
  refine ⟨fun hs hs' => ?_, fun j => (hle j).trans (h.flight j), fun hs => ?_, fun hs => ?_,
    fun hpos => h.flightLive (hpos.trans_le (hle _)), h.startLive, h.distinct,
    fun z => (token_answer hd true z).trans (h.token z),
    fun hpos => h.tokenStart (hpos.trans_le (token_answer hd true _)),
    fun hmem => h.startMatch_answer hd hmem, fun st hst hs hm => ?_,
    fun r' st hst => preceded_answer hd (by simp) (h.endOrder r' st hst),
    fun st hst hcall hs => ?_, fun st hst hcall hs => ?_, fun hcall => ?_, h.running, h.starting⟩
  · rcases hslot hs with ⟨hr, hl, rfl⟩ | hold <;> rcases hslot hs' with ⟨hr', hl', hj⟩ | hold'
    · exact ⟨hr'.trans hr.symm, hl'.trans hl.symm⟩
    · exact absurd hold' (h.not_hosted hd.mem hself)
    · exact absurd (hj ▸ hold) (h.not_hosted hd.mem hself)
    · exact h.unique hold hold'
  · rename_i r' l' j
    have hj := hclaims j
    rcases hslot hs with ⟨-, -, rfl⟩ | hs
    · have hone := h.flight j
      rw [if_pos rfl] at hj
      simp only
      omega
    · have hzero := h.apart hs
      simp only
      omega
  · rcases hslot hs with ⟨-, -, rfl⟩ | hs
    · exact h.live_of_mem hd.mem hself
    · exact h.hostLive hs
  · rcases hslot hs with ⟨rfl, rfl, hidx⟩ | hs
    · obtain rfl := h.same_of_idx hst hst₀ (hidx.trans hi₀.symm)
      refine List.mem_append_right _ ?_
      simp only at hm
      simp [said, hm, hy₀]
    · exact List.mem_append_left _ ((hd.mem_or (h.reported st hst hs hm)).resolve_left (by simp))
  · rcases hslot hs with ⟨rfl, rfl, -⟩ | hs
    · obtain ⟨j, hj⟩ := h.callSlot hcall
      simp [hfree] at hj
    · exact preceded_answer hd (by simp) (h.askOrder st hst hcall hs)
  · rcases hslot hs with ⟨hr, rfl, -⟩ | hs
    · obtain ⟨j, hj⟩ := h.callSlot hcall
      simp [hr, hfree] at hj
    · exact h.creator st hst hcall hs
  · rename_i r' x l'
    obtain ⟨j, hj⟩ := h.callSlot hcall
    refine ⟨j, ?_⟩
    simp only
    rw [setSlot_of_ne, hj]
    rintro ⟨rfl, rfl⟩
    simp [hfree] at hj

theorem fail (h : LifeOk a) {r y i : ℕ} {net : List Letter}
    (hd : Deliver Letter.chan a.net ⟨0, r, .start y i⟩ net) :
    LifeOk { a with net := net ++ said a r (.started false y) } := by
  obtain ⟨st₀, hst₀, hy₀, hi₀⟩ := h.startMatch hd.mem
  have hfailed (j : ℕ) : claims a.starts j ⟨r, 0, .started false y⟩ = true → i = j := by
    intro hj
    obtain ⟨st, hst, hm⟩ := List.any_eq_true.mp hj
    simp only [Bool.and_eq_true, beq_iff_eq] at hm
    obtain rfl := h.same_of_xid hst hst₀ (hm.1.trans hy₀.symm)
    exact hi₀.symm.trans hm.2
  have hle (j : ℕ) : (net ++ said a r (.started false y)).countP (claims a.starts j) ≤
      a.net.countP (claims a.starts j) := by
    have hcount := hd.countP (claims a.starts j)
    have hsaid := countP_said_le a r (.started false y) (claims a.starts j)
    have hstart : claims a.starts j ⟨0, r, .start y i⟩ = decide (i = j) := by
      simp [claims, beq_eq_decide]
    rw [List.countP_append, hcount, hstart]
    by_cases hj : claims a.starts j ⟨r, 0, .started false y⟩ = true
    · rw [if_pos hj] at hsaid
      simp [hfailed j hj] at hsaid ⊢
      omega
    · rw [if_neg hj] at hsaid
      omega
  exact {
    unique := h.unique
    flight := fun j => (hle j).trans (h.flight j)
    apart := fun hs => Nat.le_zero.mp ((hle _).trans (h.apart hs).le)
    hostLive := h.hostLive
    flightLive := fun hpos => h.flightLive (hpos.trans_le (hle _))
    startLive := h.startLive
    distinct := h.distinct
    token := fun z => (token_answer hd false z).trans (h.token z)
    tokenStart := fun hpos => h.tokenStart (hpos.trans_le (token_answer hd false _))
    startMatch := fun hmem => h.startMatch_answer hd hmem
    reported := fun st hst hs hm => List.mem_append_left _
      ((hd.mem_or (h.reported st hst hs hm)).resolve_left (by simp))
    endOrder := fun r' st hst => preceded_answer hd (by simp) (h.endOrder r' st hst)
    askOrder := fun st hst hcall hs => preceded_answer hd (by simp) (h.askOrder st hst hcall hs)
    creator := h.creator
    callSlot := h.callSlot
    running := h.running
    starting := h.starting }

/-- Rank 0 takes the report about START `y` and drops the START: what is left
speaks of the other STARTs. -/
theorem token_report (h : LifeOk a) {r y : ℕ} {ok : Bool} {net : List Letter}
    (hd : Deliver Letter.chan a.net ⟨r, 0, .started ok y⟩ net) {z : ℕ}
    (hpos : 0 < net.countP (concerns z)) : ∃ st ∈ dropStart a.starts y, st.xid = z := by
  have hcount := hd.countP (concerns z)
  have hone := h.token z
  obtain ⟨st, hst, hz⟩ := h.tokenStart (y := z) (by omega)
  refine ⟨st, (mem_dropStart h.distinct).mpr ⟨hst, ?_⟩, hz⟩
  rintro rfl
  have hself : concerns z ⟨r, 0, .started ok st.xid⟩ = true := by simp [concerns, hz]
  rw [if_pos hself] at hcount
  omega

theorem startMatch_report (h : LifeOk a) {r y : ℕ} {ok : Bool} {net : List Letter}
    (hd : Deliver Letter.chan a.net ⟨r, 0, .started ok y⟩ net) {r₁ r₂ z j : ℕ}
    (hmem : (⟨r₁, r₂, .start z j⟩ : Letter) ∈ net) :
    ∃ st ∈ dropStart a.starts y, st.xid = z ∧ st.idx = j := by
  obtain ⟨st, hst, hz, hj⟩ := h.startMatch (hd.mem_of_mem hmem)
  obtain ⟨st', hst', hz'⟩ := h.token_report hd
    (List.countP_pos_iff.mpr ⟨_, hmem, by simp [concerns]⟩ : 0 < net.countP (concerns z))
  obtain rfl := h.same_of_xid hst ((mem_dropStart h.distinct).mp hst').1 (hz.trans hz'.symm)
  exact ⟨st, hst', hz, hj⟩

/-- The invariant after a report, up to the counters and the live threads. -/
theorem report (h : LifeOk a) {r y : ℕ} {ok : Bool} {net : List Letter} {live : Finset ℕ}
    {running starting : ℤ}
    (hd : Deliver Letter.chan a.net ⟨r, 0, .started ok y⟩ net)
    (hhost : ∀ {r l i}, a.slots r l = some i → i ∈ live)
    (hflight : ∀ {i}, 0 < net.countP (claims (dropStart a.starts y) i) → i ∈ live)
    (hstart : ∀ st ∈ dropStart a.starts y, st.idx ∈ live)
    (hrunning : running = (runningSet live (dropStart a.starts y)).card)
    (hstarting : starting = (dropStart a.starts y).length) :
    LifeOk { a with
      live := live, starts := dropStart a.starts y, net := net, running := running
      starting := starting } := by
  have hsub (st : Start) (hst : st ∈ dropStart a.starts y) : st ∈ a.starts :=
    List.mem_of_mem_eraseP hst
  have hxid (st : Start) (hst : st ∈ dropStart a.starts y) : st.xid ≠ y :=
    ((mem_dropStart h.distinct).mp hst).2
  have hle (i : ℕ) : net.countP (claims (dropStart a.starts y) i) ≤
      a.net.countP (claims a.starts i) := by
    have hcount := hd.countP (claims a.starts i)
    have hmono := countP_claims_mono hsub net i
    omega
  have hne (r' : ℕ) (st : Start) (hst : st ∈ dropStart a.starts y) :
      (⟨r, 0, .started ok y⟩ : Letter) ≠ ⟨r', 0, .started true st.xid⟩ := by
    intro heq
    have hy : y = st.xid := by
      injection heq with _ _ hnote
      injection hnote
    exact hxid st hst hy.symm
  exact {
    unique := h.unique
    flight := fun i => (hle i).trans (h.flight i)
    apart := fun hs => Nat.le_zero.mp ((hle _).trans (h.apart hs).le)
    hostLive := hhost
    flightLive := hflight
    startLive := hstart
    distinct := h.distinct.sublist List.eraseP_sublist
    token := fun z => by
      have hcount := hd.countP (concerns z)
      have hone := h.token z
      simp only
      omega
    tokenStart := fun hpos => h.token_report hd hpos
    startMatch := fun hmem => h.startMatch_report hd hmem
    reported := fun st hst hs hm =>
      (hd.mem_or (h.reported st (hsub st hst) hs hm)).resolve_left (hne _ st hst).symm
    endOrder := fun r' st hst => (h.endOrder r' st (hsub st hst)).deliver hd (hne r' st hst)
    askOrder := fun st hst hcall hs =>
      (h.askOrder st (hsub st hst) hcall hs).deliver hd (hne _ st hst)
    creator := fun st hst hcall hs st' hst' =>
      h.creator st (hsub st hst) hcall hs st' (hsub st' hst')
    callSlot := h.callSlot
    running := hrunning
    starting := hstarting }

theorem length_dropStart (h : LifeOk a) {st : Start} (hst : st ∈ a.starts) :
    a.starting - 1 = (dropStart a.starts st.xid).length := by
  have hlen : (dropStart a.starts st.xid).length + 1 = a.starts.length :=
    List.length_eraseP_add_one hst (by simp)
  rw [h.starting]
  omega

theorem started (h : LifeOk a) {r : ℕ} {st : Start} {net : List Letter}
    (hd : Deliver Letter.chan a.net ⟨r, 0, .started true st.xid⟩ net) (hst : st ∈ a.starts) :
    LifeOk { a with
      starts := dropStart a.starts st.xid
      starting := a.starting - 1
      running := a.running + 1
      net := net } := by
  have hsub (st' : Start) (hst' : st' ∈ dropStart a.starts st.xid) : st' ∈ a.starts :=
    List.mem_of_mem_eraseP hst'
  refine h.report hd h.hostLive (fun hpos => h.flightLive ?_)
    (fun st' hst' => h.startLive st' (hsub st' hst')) ?_ (h.length_dropStart hst)
  · rename_i i
    have hcount := hd.countP (claims a.starts i)
    have hmono := countP_claims_mono hsub net i
    omega
  · rw [h.runningSet_started hst, Finset.card_insert_of_notMem (notMem_runningSet hst), h.running]
    push_cast
    rfl

theorem failed (h : LifeOk a) {r : ℕ} {st : Start} {net : List Letter}
    (hd : Deliver Letter.chan a.net ⟨r, 0, .started false st.xid⟩ net) (hst : st ∈ a.starts) :
    LifeOk { a with
      live := a.live.erase st.idx
      starts := dropStart a.starts st.xid
      starting := a.starting - 1
      net := net } := by
  have hsub (st' : Start) (hst' : st' ∈ dropStart a.starts st.xid) : st' ∈ a.starts :=
    List.mem_of_mem_eraseP hst'
  have hself : claims a.starts st.idx ⟨r, 0, .started false st.xid⟩ = true :=
    List.any_eq_true.mpr ⟨st, hst, by simp⟩
  refine h.report hd (fun hs => ?_) (fun hpos => ?_) (fun st' hst' => ?_) ?_
    (h.length_dropStart hst)
  · refine Finset.mem_erase.mpr ⟨?_, h.hostLive hs⟩
    rintro rfl
    exact h.not_hosted hd.mem hself hs
  · rename_i i
    have hcount := hd.countP (claims a.starts i)
    have hmono := countP_claims_mono hsub net i
    have hone := h.flight i
    refine Finset.mem_erase.mpr ⟨?_, h.flightLive (by omega)⟩
    rintro rfl
    rw [if_pos hself] at hcount
    omega
  · refine Finset.mem_erase.mpr ⟨fun hidx => ?_, h.startLive st' (hsub st' hst')⟩
    obtain ⟨hmem, hxid⟩ := (mem_dropStart h.distinct).mp hst'
    exact hxid (congrArg Start.xid (h.same_of_idx hmem hst hidx))
  · rw [h.runningSet_failed hst, h.running]

theorem leave (h : LifeOk a) {r l i : ℕ} (hslot : a.slots r l = some i)
    (hcalls : ∀ x, ¬ a.calls r x l) :
    LifeOk { a with
      slots := setSlot a.slots r l none
      net := a.net ++ said a r (.ended i) } := by
  have hrest {r' l' j : ℕ} (hs : setSlot a.slots r l none r' l' = some j) :
      a.slots r' l' = some j ∧ j ≠ i := by
    by_cases hrl : r' = r ∧ l' = l
    · obtain ⟨rfl, rfl⟩ := hrl
      simp [setSlot_self] at hs
    · rw [setSlot_of_ne _ hrl] at hs
      refine ⟨hs, ?_⟩
      rintro rfl
      exact hrl (h.unique hslot hs)
  have hzero := h.apart hslot
  have hclaims (j : ℕ) : (a.net ++ said a r (.ended i)).countP (claims a.starts j) ≤
      a.net.countP (claims a.starts j) + if i = j then 1 else 0 := by
    have hsaid := countP_said_le a r (.ended i) (claims a.starts j)
    have hended : claims a.starts j ⟨r, 0, .ended i⟩ = decide (i = j) := by
      simp [claims, beq_eq_decide]
    rw [hended] at hsaid
    rw [List.countP_append]
    simpa using hsaid
  have hpre {r' z : ℕ} {B : Letter → Prop}
      (hB : ∀ q ∈ said a r (.ended i), B q →
        ∃ q' ∈ a.net, q' = ⟨r', 0, .started true z⟩)
      (hp : Preceded (· = ⟨r', 0, .started true z⟩) B a.net) :
      Preceded (· = ⟨r', 0, .started true z⟩) B (a.net ++ said a r (.ended i)) :=
    hp.append _ hB
  have htoken (z : ℕ) : (a.net ++ said a r (.ended i)).countP (concerns z) =
      a.net.countP (concerns z) := by
    have hsaid := countP_said_le a r (.ended i) (concerns z)
    simp only [concerns, Bool.false_eq_true, if_false, Nat.le_zero] at hsaid
    rw [List.countP_append, hsaid, Nat.add_zero]
  refine ⟨fun hs hs' => h.unique (hrest hs).1 (hrest hs').1, fun j => ?_, fun hs => ?_,
    fun hs => h.hostLive (hrest hs).1, fun hpos => ?_, h.startLive, h.distinct,
    fun z => (htoken z).trans_le (h.token z),
    fun hpos => h.tokenStart (hpos.trans_eq (htoken _)), fun hmem => ?_,
    fun st hst hs hm => List.mem_append_left _ (h.reported st hst (hrest hs).1 hm),
    fun r' st hst => hpre ?_ (h.endOrder r' st hst),
    fun st hst hcall hs => hpre ?_ (h.askOrder st hst hcall (hrest hs).1),
    fun st hst hcall hs => h.creator st hst hcall (hrest hs).1, fun hcall => ?_, h.running,
    h.starting⟩
  · have hj := hclaims j
    by_cases hij : i = j
    · subst hij
      rw [if_pos rfl, hzero] at hj
      exact hj
    · rw [if_neg hij] at hj
      exact hj.trans (h.flight j)
  · rename_i r' l' j
    obtain ⟨hs, hne⟩ := hrest hs
    have hj := hclaims j
    rw [if_neg hne.symm, h.apart hs] at hj
    exact Nat.le_zero.mp hj
  · rename_i j
    have hj := hclaims j
    by_cases hij : i = j
    · exact hij ▸ h.hostLive hslot
    · rw [if_neg hij] at hj
      exact h.flightLive (hpos.trans_le hj)
  · rw [List.mem_append] at hmem
    rcases hmem with hmem | hmem
    · exact h.startMatch hmem
    · simpa using mem_said hmem
  · -- a rank that is heard now was heard when it reported the start
    intro q hq hB
    have heq := mem_said hq
    subst hB
    obtain ⟨rfl, hidx⟩ : r' = r ∧ st.idx = i := by simpa using heq
    have hmute : a.mute r' = false := by
      by_contra hm
      simp [said, hm] at hq
    exact ⟨_, h.reported st hst (hidx ▸ hslot) hmute, rfl⟩
  · intro q hq hB
    have heq := mem_said hq
    subst hB
    simp at heq
  · rename_i r' x l'
    obtain ⟨j, hj⟩ := h.callSlot hcall
    refine ⟨j, ?_⟩
    simp only
    rw [setSlot_of_ne, hj]
    rintro ⟨rfl, rfl⟩
    exact hcalls x hcall

theorem ended (h : LifeOk a) {r i : ℕ} {net : List Letter}
    (hd : Deliver Letter.chan a.net ⟨r, 0, .ended i⟩ net) :
    LifeOk { a with
      live := a.live.erase i
      running := a.running - 1
      net := net } := by
  have hself : claims a.starts i ⟨r, 0, .ended i⟩ = true := by simp [claims]
  have hin := h.mem_runningSet_of_ended hd
  have hstart := (Finset.mem_filter.mp hin).2
  have hle (f : Letter → Bool) : net.countP f ≤ a.net.countP f := by
    have hcount := hd.countP f
    omega
  exact {
    unique := h.unique
    flight := fun j => (hle _).trans (h.flight j)
    apart := fun hs => Nat.le_zero.mp ((hle _).trans (h.apart hs).le)
    hostLive := fun hs => Finset.mem_erase.mpr
      ⟨fun hj => h.not_hosted hd.mem hself (hj ▸ hs), h.hostLive hs⟩
    flightLive := fun {j} hpos => by
      refine Finset.mem_erase.mpr ⟨?_, h.flightLive (hpos.trans_le (hle _))⟩
      rintro rfl
      have hcount := hd.countP (claims a.starts j)
      have hone := h.flight j
      rw [if_pos hself] at hcount
      simp only at hpos
      omega
    startLive := fun st hst => Finset.mem_erase.mpr ⟨hstart st hst, h.startLive st hst⟩
    distinct := h.distinct
    token := fun z => (hle _).trans (h.token z)
    tokenStart := fun hpos => h.tokenStart (hpos.trans_le (hle _))
    startMatch := fun hmem => h.startMatch (hd.mem_of_mem hmem)
    reported := fun st hst hs hm =>
      (hd.mem_or (h.reported st hst hs hm)).resolve_left (by simp)
    endOrder := fun r' st hst => (h.endOrder r' st hst).deliver hd (by simp)
    askOrder := fun st hst hcall hs => (h.askOrder st hst hcall hs).deliver hd (by simp)
    creator := h.creator
    callSlot := h.callSlot
    running := by
      have hset : runningSet (a.live.erase i) a.starts = (runningSet a.live a.starts).erase i :=
        Finset.filter_erase _ _ _
      have hcard := Finset.card_erase_add_one hin
      have hold := h.running
      simp only [hset]
      omega
    starting := h.starting }

theorem step (h : LifeOk a) {b : Life} (hs : LifeStep a b) : LifeOk b := by
  cases hs with
  | still calls mute hcalls hmute => exact h.still hcalls hmute
  | ask r x l i hslot hmute hnew hnet => exact h.ask hslot hmute hnew hnet
  | lose p net hd hp => exact h.lose hd hp
  | create r x y i dst net hd hi hy => exact h.create hd hi hy
  | start r l y i net hd hfree => exact h.start hd hfree
  | fail r y i net hd => exact h.fail hd
  | started r y st net hd hst hy =>
    subst hy
    exact h.started hd hst
  | failed r y st net hd hst hy =>
    subst hy
    exact h.failed hd hst
  | leave r l i hslot hcalls => exact h.leave hslot hcalls
  | ended r i net hd => exact h.ended hd

/-- When no START waits and nothing is counted as running, no thread is left
anywhere. -/
theorem idle (h : LifeOk a) (hstarts : a.starts = []) (hrunning : a.running = 0) :
    (∀ y, a.net.countP (concerns y) = 0) ∧ ∀ r l, a.slots r l = none := by
  have hlive : a.live = ∅ := by
    have hcard := h.running
    rw [hrunning, hstarts, eq_comm, Nat.cast_eq_zero, Finset.card_eq_zero] at hcard
    simpa [runningSet] using hcard
  constructor
  · intro y
    by_contra hne
    obtain ⟨st, hst, -⟩ := h.tokenStart (Nat.pos_of_ne_zero hne)
    simp [hstarts] at hst
  · intro r l
    cases hslot : a.slots r l with
    | none => rfl
    | some i =>
      have hmem := h.hostLive hslot
      simp [hlive] at hmem

end LifeOk

/-- A thread that has gone without a trace: nobody hosts it and no letter will
bring it back. -/
structure Gone (a : Life) (i : ℕ) : Prop where
  live : i ∈ a.live
  slots : ∀ r l, a.slots r l ≠ some i
  quiet : a.net.countP (claims a.starts i) = 0

/-- A thread that has gone stays away. -/
theorem Gone.step {a b : Life} {i : ℕ} (h : Gone a i) (hok : LifeOk a) (hs : LifeStep a b) :
    Gone b i := by
  have hnone {q : Letter} (hq : q ∈ a.net) : claims a.starts i q = false := by
    by_contra hc
    have hpos : 0 < a.net.countP (claims a.starts i) :=
      List.countP_pos_iff.mpr ⟨q, hq, by simpa using hc⟩
    have hzero := h.quiet
    omega
  obtain ⟨hlive, hslots, hzero⟩ := h
  have hdrop {p : Letter} {net : List Letter} (hd : Deliver Letter.chan a.net p net) :
      net.countP (claims a.starts i) = 0 := by
    rw [List.countP_eq_zero]
    intro q hq
    simp [hnone (hd.mem_of_mem hq)]
  have hsaid {r : ℕ} {note : Note} (hno : claims a.starts i ⟨r, 0, note⟩ = false)
      {net : List Letter} (hnet : net.countP (claims a.starts i) = 0) :
      (net ++ said a r note).countP (claims a.starts i) = 0 := by
    rw [List.countP_append, hnet, Nat.zero_add, List.countP_eq_zero]
    intro q hq
    simp [mem_said hq, hno]
  cases hs with
  | still calls mute hcalls hmute => exact ⟨hlive, hslots, hzero⟩
  | ask r x l j hslot hmute hnew hnet =>
    exact ⟨hlive, hslots, by simp [List.countP_append, hzero, claims]⟩
  | lose p net hd hp => exact ⟨hlive, hslots, hdrop hd⟩
  | create r x y j dst net hd hj hy =>
    have hij : j ≠ i := fun heq => hj (heq ▸ hlive)
    refine ⟨Finset.mem_insert_of_mem hlive, hslots, ?_⟩
    rw [List.countP_eq_zero]
    intro q hq
    rw [List.mem_append, List.mem_singleton] at hq
    rcases hq with hq | rfl
    · have hmem := hd.mem_of_mem hq
      have hfresh : concerns (⟨y, j, r, x⟩ : Start).xid q = false := hok.concerns_of_fresh hy hmem
      simp [claims_append hfresh, hnone hmem]
    · simp [claims, hij]
  | start r l y j net hd hfree =>
    have hij : j ≠ i := by
      have hc := hnone hd.mem
      simpa [claims] using hc
    refine ⟨hlive, fun r' l' => ?_, ?_⟩
    · simp only [setSlot]
      split
      · simpa using hij
      · exact hslots r' l'
    · exact hsaid rfl (hdrop hd)
  | fail r y j net hd =>
    have hij : j ≠ i := by
      have hc := hnone hd.mem
      simpa [claims] using hc
    refine ⟨hlive, hslots, hsaid ?_ (hdrop hd)⟩
    obtain ⟨st, hst, hy, hidx⟩ := hok.startMatch hd.mem
    simp only [claims, List.any_eq_false, Bool.and_eq_true, beq_iff_eq, not_and]
    intro st' hst' hxid heq
    obtain rfl := hok.same_of_xid hst hst' (hy.trans hxid.symm)
    exact hij (hidx.symm.trans heq)
  | started r y st net hd hst hy =>
    refine ⟨hlive, hslots, ?_⟩
    have hle : net.countP (claims (dropStart a.starts y) i) ≤ net.countP (claims a.starts i) :=
      countP_claims_mono (fun st' hst' => List.mem_of_mem_eraseP hst') net i
    have hz := hdrop hd
    simp only
    omega
  | failed r y st net hd hst hy =>
    have hc := hnone hd.mem
    simp only [claims, List.any_eq_false, Bool.and_eq_true, beq_iff_eq, not_and] at hc
    have hidx : st.idx ≠ i := hc st hst hy
    refine ⟨Finset.mem_erase.mpr ⟨hidx.symm, hlive⟩, hslots, ?_⟩
    have hle : net.countP (claims (dropStart a.starts y) i) ≤ net.countP (claims a.starts i) :=
      countP_claims_mono (fun st' hst' => List.mem_of_mem_eraseP hst') net i
    have hz := hdrop hd
    simp only
    omega
  | leave r l j hslot hcalls =>
    have hij : j ≠ i := fun heq => hslots r l (heq ▸ hslot)
    refine ⟨hlive, fun r' l' => ?_, ?_⟩
    · simp only [setSlot]
      split
      · simp
      · exact hslots r' l'
    · exact hsaid (by simpa [claims] using hij) hzero
  | ended r j net hd =>
    have hij : j ≠ i := by
      have hc := hnone hd.mem
      simpa [claims] using hc
    exact ⟨Finset.mem_erase.mpr ⟨hij.symm, hlive⟩, hslots, hdrop hd⟩

end Dthread.ThreadLife
