import Mathlib.Data.List.Basic
import Mathlib.Data.List.Count
import Mathlib.Tactic

/-!
A network of reliable first-in first-out channels, kept as one list of packets
in sending order. `chan` names the channel of a packet; delivery takes the
first packet of its channel, and sends are appended. The lists that are
searched for a first match and lose it are counted in the same way.
-/
namespace Dthread.FifoNet

variable {α κ : Type*} (chan : α → κ)

/-- Delivery of `p`: nothing ahead of it is on the same channel. -/
def Deliver (net : List α) (p : α) (net' : List α) : Prop :=
  ∃ a b, net = a ++ p :: b ∧ net' = a ++ b ∧ ∀ q ∈ a, chan q ≠ chan p

/-- Every packet that satisfies `B` has one that satisfies `A` ahead of it. -/
def Preceded (A B : α → Prop) (net : List α) : Prop :=
  ∀ a p b, net = a ++ p :: b → B p → ∃ q ∈ a, A q

variable {chan} {net net' : List α} {p : α} {A B : α → Prop}

namespace Deliver

theorem mem (h : Deliver chan net p net') : p ∈ net := by
  obtain ⟨a, b, rfl, -, -⟩ := h
  simp

theorem mem_of_mem (h : Deliver chan net p net') {q : α} (hq : q ∈ net') : q ∈ net := by
  obtain ⟨a, b, rfl, rfl, -⟩ := h
  simp only [List.mem_append, List.mem_cons] at hq ⊢
  tauto

theorem mem_or (h : Deliver chan net p net') {q : α} (hq : q ∈ net) : q = p ∨ q ∈ net' := by
  obtain ⟨a, b, rfl, rfl, -⟩ := h
  simp only [List.mem_append, List.mem_cons] at hq ⊢
  tauto

theorem countP (h : Deliver chan net p net') (f : α → Bool) :
    net.countP f = net'.countP f + if f p then 1 else 0 := by
  obtain ⟨a, b, rfl, rfl, -⟩ := h
  simp only [List.countP_append, List.countP_cons]
  omega

/-- Delivery as seen through a view of the packets that keeps their channels. -/
theorem filterMap {β : Type*} {chan' : β → κ} {f : α → Option β}
    (hf : ∀ q m, f q = some m → chan' m = chan q) (h : Deliver chan net p net') {m : β}
    (hp : f p = some m) : Deliver chan' (net.filterMap f) m (net'.filterMap f) := by
  obtain ⟨a, b, rfl, rfl, hfirst⟩ := h
  refine ⟨a.filterMap f, b.filterMap f, by simp [hp], by simp, ?_⟩
  intro q hq heq
  obtain ⟨q₀, hq₀, hfq⟩ := List.mem_filterMap.mp hq
  refine hfirst q₀ hq₀ ?_
  rw [← hf q₀ q hfq, heq, hf p m hp]

theorem filterMap_none {β : Type*} {f : α → Option β} (h : Deliver chan net p net')
    (hp : f p = none) : net'.filterMap f = net.filterMap f := by
  obtain ⟨a, b, rfl, rfl, -⟩ := h
  simp [hp]

/-- The first packet of a channel can be delivered, and the other channels
keep theirs. -/
theorem exists_of_filter [DecidableEq κ] {c : κ} {rest : List α}
    (h : net.filter (chan · = c) = p :: rest) :
    ∃ net', Deliver chan net p net' ∧ chan p = c ∧ net'.filter (chan · = c) = rest ∧
      ∀ c', c' ≠ c → net'.filter (chan · = c') = net.filter (chan · = c') := by
  obtain ⟨a, b, rfl, ha, hp, hb⟩ := List.filter_eq_cons_iff.mp h
  have hp' : chan p = c := by simpa using hp
  refine ⟨a ++ b, ⟨a, b, rfl, rfl, ?_⟩, hp', ?_, ?_⟩
  · intro q hq
    rw [hp']
    simpa using ha q hq
  · rw [List.filter_append, hb, List.filter_eq_nil_iff.mpr (by simpa using ha), List.nil_append]
  · intro c' hc'
    have hne : chan p ≠ c' := fun heq => hc' (heq.symm.trans hp')
    simp [hne]

end Deliver

namespace Preceded

theorem deliver (h : Preceded A B net) (hd : Deliver chan net p net') (hp : ¬ A p) :
    Preceded A B net' := by
  obtain ⟨a, b, rfl, rfl, -⟩ := hd
  intro c q d heq hq
  -- the packet lies before or after the place of the delivered one
  rcases List.append_eq_append_iff.mp heq with ⟨e, rfl, he⟩ | ⟨e, rfl, he⟩
  · obtain ⟨q', hq', hA⟩ := h (a ++ p :: e) q d (by simp [he]) hq
    simp only [List.mem_append, List.mem_cons] at hq'
    rcases hq' with hq' | rfl | hq'
    · exact ⟨q', by simp [hq'], hA⟩
    · exact absurd hA hp
    · exact ⟨q', by simp [hq'], hA⟩
  · cases e with
    | nil =>
      simp only [List.nil_append] at he
      subst he
      obtain ⟨q', hq', hA⟩ := h (c ++ [p]) q d (by simp) hq
      simp only [List.mem_append, List.mem_singleton] at hq'
      rcases hq' with hq' | rfl
      · exact ⟨q', hq', hA⟩
      · exact absurd hA hp
    | cons x e =>
      obtain ⟨rfl, rfl⟩ : q = x ∧ d = e ++ b := by simpa using he
      exact h c q (e ++ p :: b) (by simp) hq

theorem append (h : Preceded A B net) (l : List α)
    (hl : ∀ q ∈ l, B q → ∃ q' ∈ net, A q') : Preceded A B (net ++ l) := by
  intro c q d heq hq
  rcases List.append_eq_append_iff.mp heq with ⟨e, rfl, he⟩ | ⟨e, rfl, he⟩
  · obtain ⟨q', hq', hA⟩ := hl q (by simp [he]) hq
    exact ⟨q', by simp [hq'], hA⟩
  · cases e with
    | nil =>
      simp only [List.nil_append] at he
      obtain ⟨q', hq', hA⟩ := hl q (by simp [← he]) hq
      exact ⟨q', by simpa using hq', hA⟩
    | cons x e =>
      obtain ⟨rfl, rfl⟩ : q = x ∧ d = e ++ l := by simpa using he
      exact h c q e rfl hq

/-- A packet that comes after one of its own channel is not delivered next. -/
theorem not_deliver (h : Preceded A B net) (hd : Deliver chan net p net') (hp : B p)
    (hchan : ∀ q, A q → chan q = chan p) : False := by
  obtain ⟨a, b, rfl, -, hfirst⟩ := hd
  obtain ⟨q, hq, hA⟩ := h a p b rfl hp
  exact hfirst q hq (hchan q hA)

end Preceded

section PendingList

variable {l : List α} {f : α → Bool} {a : α}

/-- Taking the first match out of a list moves it and nothing else. -/
theorem perm_eraseP_of_find (h : l.find? f = some a) : l.Perm (a :: l.eraseP f) := by
  induction l with
  | nil => simp at h
  | cons b l ih =>
    by_cases hb : f b = true
    · obtain rfl : b = a := by simpa [List.find?_cons, hb] using h
      rw [List.eraseP_cons_of_pos hb]
    · have h' : l.find? f = some a := by simpa [List.find?_cons, hb] using h
      rw [List.eraseP_cons_of_neg hb]
      exact ((ih h').cons b).trans (.swap a b _)

theorem countP_eraseP_of_find (h : l.find? f = some a) (g : α → Bool) :
    l.countP g = (l.eraseP f).countP g + if g a then 1 else 0 := by
  rw [(perm_eraseP_of_find h).countP_eq, List.countP_cons]

theorem countP_eraseP_le (l : List α) (f g : α → Bool) : (l.eraseP f).countP g ≤ l.countP g :=
  List.Sublist.countP_le (List.eraseP_sublist)

theorem countP_eq_zero_of_find (h : l.find? f = none) : l.countP f = 0 :=
  List.countP_eq_zero.mpr (List.find?_eq_none.mp h)

end PendingList

end Dthread.FifoNet
