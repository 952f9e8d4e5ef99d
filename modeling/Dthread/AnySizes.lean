import Dthread.BreakRuns
import Dthread.BsdRuns

/-!
Runs of the two allocators with requests of any size, also of the sizes that wrap in
break_malloc and of those beyond the size classes of bsd_malloc. What is left of the
invariants is what the calls read before they look at a block: the bounds and the
alignment of the arena, and for break_malloc the place of the blocks whose size did not
wrap.
-/
namespace Dthread.AnySizes

open ByteMemory MachineInts ShmRefs BreakMalloc BsdMalloc BsdBuckets BreakRuns BsdRuns

section Break

variable {A : BreakRegion} {s s' : BreakState} {dtrs : Dtrs} {heap heap' : BreakHeap}

/-- The runs of a break arena with requests of any size. -/
def BreakRun (A : BreakRegion) (mem : Mem) : BreakState → Prop :=
  Relation.ReflTransGen (BreakMove (fun _ size => size < 2 ^ 64) A) (A.start mem)

/-- What break_malloc and break_free keep of the metadata, whatever the sizes. -/
structure Line (A : BreakRegion) (md : BreakMd) : Prop where
  setup : md = { A.md₀ with allocated := md.allocated, nalloc := md.nalloc }
  lower : A.mdsize ≤ md.allocated
  bound : md.allocated ≤ A.arena.dtLength
  aligned : (A.mapping + A.arena.dtOffset + md.allocated) % 16 = 0

/-- A block in the user part of the arena. -/
structure Placed (A : BreakRegion) (b : Block) : Prop where
  lower : A.arena.dtOffset + A.mdsize ≤ b.hdr
  upper : b.off + b.size ≤ A.arena.dtOffset + A.arena.dtLength
  aligned : (A.mapping + b.hdr) % 16 = 0

theorem Line.md_eq {md : BreakMd} (h : Line A md) :
    md = ⟨⟨A.arena, A.arena.dtOffset + A.mdsize, A.arena.dtOffset + A.arena.dtLength, 15⟩,
      md.allocated, 16, md.nalloc⟩ := by
  rw [h.setup, A.init_spec.2]

/-- A size that wraps moves the line by a header or not at all; any other size gets its
block. -/
theorem Line.malloc (h : Line A heap.md) {size : ℕ} {res : Option (ℕ × Shmref)}
    (hsize : size < 2 ^ 64) (hcall : breakMalloc dtrs A.arena heap size = (res, heap')) :
    Line A heap'.md ∧ ∀ r ∈ res, size ≤ 2 ^ 64 - 32 → Placed A ⟨r.2.dtOffset - 16, size⟩ := by
  obtain ⟨⟨-, hseg, -, -⟩, -⟩ := A.init_spec
  have h64 := A.segment
  have hlower := h.lower
  have hbound := h.bound
  have hal := h.aligned
  have hpad := add_padding_mod size
  have hpadlt := padding_lt size
  unfold alignsz at hpad hpadlt
  have hself : heap.md.amd.self = A.arena := by rw [h.md_eq]
  have hhdr : heap.md.hdrlen = 16 := by rw [h.md_eq]
  unfold breakMalloc at hcall
  simp only [hself, hhdr] at hcall
  rw [sub64_of_le hbound (by omega)] at hcall
  obtain ⟨total, htotal⟩ : ∃ total, total = wrap64 (size + padding size + 16) := ⟨_, rfl⟩
  rw [← htotal] at hcall
  unfold wrap64 at htotal
  split at hcall
  · next hfit =>
    obtain ⟨rfl, rfl⟩ := Prod.mk.inj hcall
    have hmd : heap.md.amd = A.md₀.amd := by rw [h.setup]
    refine ⟨⟨?_, ?_, ?_, ?_⟩, ?_⟩
    · simp only
      rw [hmd, A.init_spec.2]
    · simp only
      rw [wrap64_of_lt (by omega)]
      omega
    · simp only
      rw [wrap64_of_lt (by omega)]
      omega
    · simp only
      rw [wrap64_of_lt (by omega)]
      omega
    · rintro r hr hle
      obtain rfl := Option.some.inj hr
      simp only
      rw [wrap64_of_lt (by omega)]
      refine ⟨?_, ?_, ?_⟩ <;> simp only [Block.off] <;> omega
  · obtain ⟨rfl, rfl⟩ := Prod.mk.inj hcall
    exact ⟨h, fun r hr => by simp at hr⟩

theorem Line.free (h : Line A heap.md) {ref : Shmref}
    (hcall : breakFree dtrs heap ref = some heap') : Line A heap'.md := by
  obtain ⟨⟨-, hseg, hmdlen, hmdal⟩, -⟩ := A.init_spec
  have h64 := A.segment
  have hreset : sub64 heap.md.amd.minUoffset heap.md.amd.self.dtOffset = A.mdsize := by
    rw [h.md_eq]
    simp only
    rw [sub64_of_le (by omega) (by omega), Nat.add_sub_cancel_left]
  unfold breakFree at hcall
  simp only [hreset] at hcall
  split at hcall
  · obtain rfl := Option.some.inj hcall
    exact h
  obtain ⟨ptr, -, hheap⟩ := Option.map_eq_some_iff.mp hcall
  split at hheap
  swap
  · subst hheap
    exact h
  generalize (if 0 < heap.md.nalloc then heap.md.nalloc - 1 else heap.md.nalloc) = nalloc at hheap
  subst hheap
  by_cases hzero : nalloc = 0
  · refine ⟨?_, ?_, ?_, ?_⟩ <;> simp only [hzero, if_true]
    · rw [h.setup]
    · exact le_rfl
    · exact hmdlen
    · exact hmdal
  · refine ⟨?_, ?_, ?_, ?_⟩ <;> simp only [hzero, if_false]
    · rw [h.setup]
    · exact h.lower
    · exact h.bound
    · exact h.aligned

/-- A realloc returns the block where it was, or a new one. -/
theorem Line.realloc (h : Line A heap.md) {ref : Shmref} {newSize : ℕ}
    {res : Option (ℕ × Shmref)} (hid : ref.dtShmid = A.arena.dtShmid) (hsize : newSize < 2 ^ 64)
    (hcall : breakRealloc dtrs A.arena heap ref newSize = some (res, heap')) :
    Line A heap'.md ∧ ∀ r ∈ res, r.2.dtOffset = ref.dtOffset ∨
      (newSize ≤ 2 ^ 64 - 32 → Placed A ⟨r.2.dtOffset - 16, newSize⟩) := by
  unfold breakRealloc at hcall
  simp only at hcall
  split at hcall
  · obtain ⟨rfl, rfl⟩ := Prod.mk.inj (Option.some.inj hcall)
    exact ⟨h, fun r hr => by simp at hr⟩
  split at hcall
  · simp at hcall
  next ptr hptr =>
  split at hcall
  swap
  · obtain ⟨rfl, rfl⟩ := Prod.mk.inj (Option.some.inj hcall)
    exact ⟨h, fun r hr => by simp at hr⟩
  split at hcall
  · obtain ⟨rfl, rfl⟩ := Prod.mk.inj (Option.some.inj hcall)
    refine ⟨h, fun r hr => .inl ?_⟩
    obtain rfl := Option.some.inj hr
    obtain ⟨-, -, -, -, rfl⟩ := shmref2ptr_spec hptr
    simp only [hid, ptrOffset_mapping_add]
  split at hcall
  next hmalloc =>
    obtain ⟨rfl, rfl⟩ := Prod.mk.inj (Option.some.inj hcall)
    exact ⟨(h.malloc hsize hmalloc).1, fun r hr => by simp at hr⟩
  next newptr newref heap₁ hmalloc =>
    obtain ⟨hline, hplaced⟩ := h.malloc hsize hmalloc
    obtain ⟨heap₂, hfree, heq⟩ := Option.map_eq_some_iff.mp hcall
    obtain ⟨rfl, rfl⟩ := Prod.mk.inj heq
    refine ⟨Line.free ?_ hfree, fun r hr => .inr ?_⟩
    · exact hline
    · exact hplaced r hr

/-- What every state of a run with requests of any size has. -/
structure Loose (A : BreakRegion) (s : BreakState) : Prop where
  line : Line A s.heap.md
  placed : ∀ b ∈ s.live, b.size ≤ 2 ^ 64 - 32 → Placed A b

theorem Loose.step (h : Loose A s) (hs : BreakMove (fun _ size => size < 2 ^ 64) A s s') :
    Loose A s' := by
  cases hs with
  | malloc dtrs size hd hsize res heap hcall =>
    obtain ⟨hline, hplaced⟩ := h.line.malloc hsize hcall
    refine ⟨hline, fun b hb hle => ?_⟩
    rcases List.mem_append.mp hb with hb | hb
    · exact h.placed b hb hle
    · obtain ⟨r, hr, rfl⟩ := List.mem_map.mp hb
      exact hplaced r (Option.mem_toList.mp hr) hle
  | free dtrs b ref hd hb href hin heap hcall =>
    exact ⟨h.line.free hcall, fun c hc hle => h.placed c (List.mem_of_mem_erase hc) hle⟩
  | realloc dtrs b ref newSize hd hb href hin hsize res heap hcall =>
    obtain ⟨hline, hplaced⟩ := h.line.realloc href.shmid hsize hcall
    refine ⟨hline, ?_⟩
    cases res with
    | none => exact h.placed
    | some r =>
      intro c hc hle
      simp only [reallocLive] at hc
      split at hc
      · exact h.placed c hc hle
      next hmoved =>
      rcases List.mem_append.mp hc with hc | hc
      · exact h.placed c (List.mem_of_mem_erase hc) hle
      · obtain rfl := List.mem_singleton.mp hc
        rcases hplaced r rfl with hsame | hnew
        · exact absurd (hsame.trans href.offset) hmoved
        · exact hnew hle
  | write b x v hb hlo hhi => exact ⟨h.line, h.placed⟩

theorem Loose.of_run {mem : Mem} (h : BreakRun A mem s) : Loose A s := by
  induction h with
  | refl =>
    obtain ⟨⟨-, -, hlen, hal⟩, heq⟩ := A.init_spec
    have halloc : A.md₀.allocated = A.mdsize := by rw [heq]
    refine ⟨⟨rfl, ?_, ?_, ?_⟩, fun b hb => absurd hb List.not_mem_nil⟩ <;>
      simp only [BreakRegion.start, halloc]
    · exact le_rfl
    · exact hlen
    · exact hal
  | tail _ hs ih => exact ih.step hs

end Break

section Bsd

variable {A : BsdRegion} {s s' : BsdState} {dtrs : Dtrs} {heap heap' : BsdHeap}

/-- The runs of a bsd arena with requests of any size. The metadata are apart from the
bytes of the segment here, so a run ends where overwritten lists lead bsd_malloc to them. -/
def BsdRun (A : BsdRegion) (mem : Mem) : BsdState → Prop :=
  Relation.ReflTransGen (fun s s' => BsdMove (· < 2 ^ 64) BsdState.Returned A s s' ∧
    ∀ u ∈ s'.live, A.lo ≤ u.cell.off) (A.start mem)

/-- The metadata that no call of the bsd driver changes. -/
def SameSetup (heap heap' : BsdHeap) : Prop :=
  heap'.md.amd = heap.md.amd ∧ heap'.md.oversize = heap.md.oversize

theorem SameSetup.trans {heap'' : BsdHeap} (h : SameSetup heap heap')
    (h' : SameSetup heap' heap'') : SameSetup heap heap'' :=
  ⟨h'.1.trans h.1, h'.2.trans h.2⟩

theorem bsdMorecore_sameSetup (dtrs : Dtrs) (heap : BsdHeap) (bucket : ℕ) :
    SameSetup heap (bsdMorecore dtrs heap bucket) := by
  unfold bsdMorecore
  simp only
  repeat' split
  all_goals exact ⟨rfl, rfl⟩

theorem bsdMalloc_sameSetup {size : ℕ} {res : Option (ℕ × Shmref)}
    (hcall : bsdMalloc dtrs heap size = (res, heap')) : SameSetup heap heap' := by
  unfold bsdMalloc at hcall
  split at hcall
  · obtain ⟨-, rfl⟩ := Prod.mk.inj hcall
    exact ⟨rfl, rfl⟩
  next bucket hbucket =>
  have hcore : SameSetup heap
      (if heap.md.nextf bucket = 0 then bsdMorecore dtrs heap bucket else heap) := by
    split
    · exact bsdMorecore_sameSetup dtrs heap bucket
    · exact ⟨rfl, rfl⟩
  generalize (if heap.md.nextf bucket = 0 then bsdMorecore dtrs heap bucket else heap) = heap₁
    at hcall hcore
  simp only at hcall
  repeat' split at hcall
  all_goals
    obtain ⟨-, rfl⟩ := Prod.mk.inj hcall
    exact hcore

theorem bsdFree_sameSetup {ref : Shmref} (hcall : bsdFree dtrs heap ref = some heap') :
    SameSetup heap heap' := by
  unfold bsdFree at hcall
  simp only at hcall
  split at hcall
  · obtain rfl := Option.some.inj hcall
    exact ⟨rfl, rfl⟩
  obtain ⟨ptr, -, hheap⟩ := Option.map_eq_some_iff.mp hcall
  repeat' split at hheap
  all_goals
    subst hheap
    exact ⟨rfl, rfl⟩

theorem bsdRealloc_sameSetup {ref : Shmref} {newSize : ℕ} {res : Option (ℕ × Shmref)}
    (hcall : bsdRealloc dtrs heap ref newSize = some (res, heap')) : SameSetup heap heap' := by
  unfold bsdRealloc at hcall
  simp only at hcall
  split at hcall
  · obtain ⟨-, rfl⟩ := Prod.mk.inj (Option.some.inj hcall)
    exact ⟨rfl, rfl⟩
  split at hcall
  · simp at hcall
  split at hcall
  · obtain ⟨-, rfl⟩ := Prod.mk.inj (Option.some.inj hcall)
    exact ⟨rfl, rfl⟩
  split at hcall
  · obtain ⟨-, rfl⟩ := Prod.mk.inj (Option.some.inj hcall)
    exact ⟨rfl, rfl⟩
  -- the size of the next smaller bucket does not matter
  split at hcall
  all_goals
    split at hcall
    · obtain ⟨-, rfl⟩ := Prod.mk.inj (Option.some.inj hcall)
      exact ⟨rfl, rfl⟩
    split at hcall
    next hmalloc =>
      obtain ⟨-, rfl⟩ := Prod.mk.inj (Option.some.inj hcall)
      exact bsdMalloc_sameSetup hmalloc
    next hmalloc =>
      obtain ⟨heap₂, hfree, heq⟩ := Option.map_eq_some_iff.mp hcall
      obtain ⟨-, rfl⟩ := Prod.mk.inj heq
      obtain ⟨hamd, hover⟩ := bsdFree_sameSetup hfree
      exact (bsdMalloc_sameSetup hmalloc).trans ⟨hamd, hover⟩

theorem reallocState_heap (P : PageSize) (s : BsdState) (ref : Shmref) (newSize : ℕ)
    (res : Option (ℕ × Shmref)) (heap : BsdHeap) :
    (reallocState P s ref newSize res heap).heap = heap := by
  unfold reallocState
  split
  · rfl
  · split <;> rfl

theorem bsdMove_sameSetup {ok : ℕ → Prop} {usable : BsdState → Shmref → Prop}
    (hs : BsdMove ok usable A s s') : SameSetup s.heap s'.heap := by
  cases hs with
  | malloc dtrs size hd hsize res heap hcall => exact bsdMalloc_sameSetup hcall
  | free dtrs ref hd href heap hcall => exact bsdFree_sameSetup hcall
  | realloc dtrs ref newSize hd href hsize res heap hcall =>
    rw [reallocState_heap]
    exact bsdRealloc_sameSetup hcall
  | write u x v hu hlo hhi => exact ⟨rfl, rfl⟩

theorem bsdRun_setup {mem : Mem} (h : BsdRun A mem s) :
    (s.heap.md.amd = ⟨A.arena, A.lo, A.hi, 15⟩ ∧ s.heap.md.oversize = 16) ∧
      ∀ u ∈ s.live, A.lo ≤ u.cell.off := by
  induction h with
  | refl =>
    refine ⟨?_, fun u hu => absurd hu List.not_mem_nil⟩
    simp only [BsdRegion.start, A.init_eq, and_self]
  | tail _ hs ih =>
    obtain ⟨⟨hamd, hover⟩, -⟩ := ih
    obtain ⟨hamd', hover'⟩ := bsdMove_sameSetup hs.1
    exact ⟨⟨hamd'.trans hamd, hover'.trans hover⟩, hs.2⟩

end Bsd

end Dthread.AnySizes
