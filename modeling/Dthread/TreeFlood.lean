import Mathlib.Data.List.Count
import Mathlib.Data.List.Flatten
import Mathlib.Data.List.Perm.Subperm
import Mathlib.Logic.Relation
import Mathlib.Tactic

/-!
Flooding a tree: a node that hears of something for the first time passes it on
to its children. Messages are delivered in any order, each of them once. A tree
over all nodes is enough for every node but the root to be sent one message.
-/
namespace Dthread.TreeFlood

variable {α : Type*} {children : α → List α} {nodes : List α} {root : α}

/-- `children` is a tree over `nodes` with the given root. -/
structure Spanning [DecidableEq α] (children : α → List α) (nodes : List α) (root : α) : Prop where
  root_mem : root ∈ nodes
  root_never : root ∉ nodes.flatMap children
  once : ∀ a ∈ nodes, a ≠ root → (nodes.flatMap children).count a = 1
  closed : ∀ a ∈ nodes, ∀ b ∈ children a, b ∈ nodes
  reach : ∀ a ∈ nodes, Relation.ReflTransGen (fun x y => y ∈ children x) root a

/-- Who has passed the message on, where it is under way to, and where it was
ever sent. -/
structure Flood (α : Type*) where
  forwarded : List α
  flight : List α
  sent : List α

inductive Step (children : α → List α) (root : α) (s : Flood α) : Flood α → Prop
  | start (h : root ∉ s.forwarded) : Step children root s
      ⟨root :: s.forwarded, s.flight ++ children root, s.sent ++ children root⟩
  | deliver (a : α) (l₁ l₂ : List α) (hs : s.flight = l₁ ++ a :: l₂) (h : a ∉ s.forwarded) :
      Step children root s ⟨a :: s.forwarded, l₁ ++ l₂ ++ children a, s.sent ++ children a⟩
  | again (a : α) (l₁ l₂ : List α) (hs : s.flight = l₁ ++ a :: l₂) (h : a ∈ s.forwarded) :
      Step children root s ⟨s.forwarded, l₁ ++ l₂, s.sent⟩

def Reachable (children : α → List α) (root : α) : Flood α → Prop :=
  Relation.ReflTransGen (Step children root) ⟨[], [], []⟩

/-- What every state of a flood has. -/
structure Inv (children : α → List α) (nodes : List α) (root : α) (s : Flood α) : Prop where
  nodup : s.forwarded.Nodup
  inside : ∀ a ∈ s.forwarded, a ∈ nodes
  sent : s.sent.Perm (s.forwarded.flatMap children)
  heard : ∀ a ∈ s.sent, a ∈ s.flight ∨ a ∈ s.forwarded
  known : ∀ a ∈ s.flight, a ∈ s.sent
  told : ∀ a ∈ s.forwarded, a = root ∨ a ∈ s.sent

namespace Inv

variable {s s' : Flood α}

theorem start : Inv children nodes root ⟨[], [], []⟩ where
  nodup := List.nodup_nil
  inside := by simp
  sent := .nil
  heard := by simp
  known := by simp
  told := by simp

/-- A node that has not yet passed the message on does so. -/
theorem forward (h : Inv children nodes root s) {a : α} {rest : List α} (hnew : a ∉ s.forwarded)
    (hmem : a ∈ nodes) (htold : a = root ∨ a ∈ s.sent) (hsub : ∀ b ∈ rest, b ∈ s.flight)
    (hrest : ∀ b ∈ s.flight, b = a ∨ b ∈ rest) :
    Inv children nodes root ⟨a :: s.forwarded, rest ++ children a, s.sent ++ children a⟩ where
  nodup := List.nodup_cons.mpr ⟨hnew, h.nodup⟩
  inside := by
    intro b hb
    rcases List.mem_cons.mp hb with rfl | hb
    · exact hmem
    · exact h.inside b hb
  sent := by
    rw [List.flatMap_cons]
    exact (h.sent.append_right _).trans List.perm_append_comm
  heard := by
    intro b hb
    simp only [List.mem_append, List.mem_cons] at hb ⊢
    rcases hb with hb | hb
    · rcases h.heard b hb with hf | hf
      · rcases hrest b hf with rfl | hr
        · exact .inr (.inl rfl)
        · exact .inl (.inl hr)
      · exact .inr (.inr hf)
    · exact .inl (.inr hb)
  known := by
    intro b hb
    rcases List.mem_append.mp hb with hb | hb
    · exact List.mem_append_left _ (h.known b (hsub b hb))
    · exact List.mem_append_right _ hb
  told := by
    intro b hb
    rcases List.mem_cons.mp hb with rfl | hb
    · exact htold.imp_right (List.mem_append_left _)
    · exact (h.told b hb).imp_right (List.mem_append_left _)

variable [DecidableEq α]

/-- Only nodes of the tree are sent anything. -/
theorem sent_mem (ht : Spanning children nodes root) (h : Inv children nodes root s) {a : α}
    (ha : a ∈ s.sent) : a ∈ nodes := by
  obtain ⟨b, hb, hab⟩ := List.mem_flatMap.mp (h.sent.mem_iff.mp ha)
  exact ht.closed b (h.inside b hb) a hab

theorem step (ht : Spanning children nodes root) (h : Inv children nodes root s)
    (hs : Step children root s s') : Inv children nodes root s' := by
  have hsplit {a : α} {l₁ l₂ : List α} (hl : s.flight = l₁ ++ a :: l₂) :
      (∀ b ∈ l₁ ++ l₂, b ∈ s.flight) ∧ ∀ b ∈ s.flight, b = a ∨ b ∈ l₁ ++ l₂ := by
    rw [hl]
    constructor <;> intro b hb <;> simp only [List.mem_append, List.mem_cons] at hb ⊢ <;> tauto
  cases hs with
  | start hnew => exact h.forward hnew ht.root_mem (.inl rfl) (fun b hb => hb) fun b hb => .inr hb
  | deliver a l₁ l₂ hl hnew =>
    have hsent : a ∈ s.sent := h.known a (by simp [hl])
    exact h.forward hnew (h.sent_mem ht hsent) (.inr hsent) (hsplit hl).1 (hsplit hl).2
  | again a l₁ l₂ hl hold =>
    refine { h with heard := ?_, known := fun b hb => h.known b ((hsplit hl).1 b hb) }
    intro b hb
    rcases h.heard b hb with hf | hf
    · rcases (hsplit hl).2 b hf with rfl | hr
      · exact .inr hold
      · exact .inl hr
    · exact .inr hf

theorem of_reachable (ht : Spanning children nodes root) (h : Reachable children root s) :
    Inv children nodes root s := by
  induction h with
  | refl => exact start
  | tail _ hs ih => exact ih.step ht hs

/-- Nobody is sent more messages than it has parents. -/
theorem count_le (h : Inv children nodes root s) (a : α) :
    s.sent.count a ≤ (nodes.flatMap children).count a := by
  obtain ⟨l, hl, hsub⟩ := List.subperm_of_subset h.nodup h.inside
  calc s.sent.count a = (s.forwarded.flatMap children).count a := h.sent.count_eq a
    _ = (l.flatMap children).count a := (hl.symm.flatMap_right children).count_eq a
    _ ≤ (nodes.flatMap children).count a := (hsub.flatMap children).count_le a

end Inv

end Dthread.TreeFlood
