import Mathlib.Logic.Relation
import Dthread.Segments
import Dthread.Extents

/-!
Runs of the segment allocator. Its ranges follow each other from the page behind
the metadata to the back reserve, whichever ranks ask for them.
-/
namespace Dthread.SegmentAllocs

open MachineInts Extents ShmRefs Segments

/-- A segment that some rank has initialized, with reserves whose sum does not
wrap and an aligned start of its free space. -/
structure Segment where
  pagesize : ℕ
  src : Shmsrc
  idx : ℕ
  hint : ℕ
  sys : EstablishSys
  entry : Shmmap
  md₀ : SegMd
  established : establish pagesize src idx hint true sys = .ok (entry, md₀)
  page : 0 < pagesize
  reserve : src.dtReserveFront + src.dtReserveBack < 2 ^ 64
  size : src.dtMmsize < 2 ^ 64
  address : entry.mapping < 2 ^ 64
  aligned : md₀.firstAvail % alignsz = 0

/-- The segment's metadata, and the references given out so far. -/
structure SegState where
  md : SegMd
  refs : List Shmref

/-- A call by any rank, under the segment's lock or refused by it. -/
inductive SegStep (idx : ℕ) (s : SegState) : SegState → Prop
  | alloc (dtrs : Dtrs) (spinErr want : ℕ) (res : Option (ℕ × Shmref)) (md : SegMd)
      (h : shmsegAlloc dtrs s.md spinErr idx want = (res, md)) :
      SegStep idx s ⟨md, s.refs ++ res.toList.map Prod.snd⟩

/-- The range of the segment that a reference names. -/
def extent (ref : Shmref) : Extent := ⟨ref.dtOffset, ref.dtLength⟩

namespace Segment

variable (S : Segment)

def start : SegState := ⟨S.md₀, []⟩

def Reachable : SegState → Prop := Relation.ReflTransGen (SegStep S.idx) S.start

/-- Where the space for allocations starts. -/
def lower : ℕ := S.entry.mdOffset + S.pagesize

/-- Where the back reserve starts. -/
def upper : ℕ := S.src.dtMmsize - S.src.dtReserveBack

theorem room : 2 * S.pagesize + S.src.dtReserveFront + S.src.dtReserveBack ≤ S.src.dtMmsize := by
  have hroom := (establish_ok S.established).1
  rw [wrap64_of_lt S.reserve] at hroom
  omega

/-- The front reserve, the page of the metadata and the rest are in order. -/
theorem layout : S.src.dtReserveFront ≤ S.entry.mdOffset ∧ S.lower < S.upper := by
  have hroom := S.room
  have hsize := S.size
  obtain ⟨pad, hpad, hoff⟩ := mdOffset_eq S.src S.page S.address
  rw [← (establish_ok S.established).2.2.1, wrap64_of_lt (by omega)] at hoff
  unfold lower upper
  omega

theorem md₀_eq : S.md₀.firstAvail = S.lower ∧ S.md₀.endAvail = S.upper := by
  have hroom := S.room
  have hsize := S.size
  have hlayout := S.layout.2
  unfold lower upper at *
  rw [((establish_ok S.established).2.2.2.2 rfl).1]
  exact ⟨wrap64_of_lt (by omega), sub64_of_le (by omega) hsize⟩

end Segment

/-- The invariant of a run. Only the range that takes all the rest may end
unaligned, and then nothing is left behind it. -/
structure SegInv (S : Segment) (s : SegState) : Prop where
  endAvail : s.md.endAvail = S.upper
  bound : s.md.firstAvail ≤ S.upper
  next : s.md.firstAvail % alignsz = 0 ∨ s.md.firstAvail = S.upper
  ordered : Ordered S.lower s.md.firstAvail (s.refs.map extent)
  aligned : ∀ ref ∈ s.refs, ref.dtOffset % alignsz = 0

namespace SegInv

variable {S : Segment} {s s' : SegState}

theorem endAvail_lt (h : SegInv S s) : s.md.endAvail < 2 ^ 64 := by
  have hsize := S.size
  rw [h.endAvail, Segment.upper]
  omega

theorem start (S : Segment) : SegInv S S.start := by
  obtain ⟨hfirst, hend⟩ := S.md₀_eq
  refine ⟨hend, ?_, .inl S.aligned, ?_, fun ref href => absurd href List.not_mem_nil⟩
  · exact hfirst.le.trans S.layout.2.le
  · exact hfirst.ge

theorem step (h : SegInv S s) (hs : SegStep S.idx s s') : SegInv S s' := by
  obtain ⟨dtrs, spinErr, want, res, md, hcall⟩ := hs
  rcases shmsegAlloc_cases dtrs spinErr S.idx want h.endAvail_lt with hnull | hgot
  · obtain ⟨rfl, rfl⟩ := Prod.mk.inj (hnull.symm.trans hcall)
    simpa using h
  · obtain ⟨total, hpiece, hpos, hle, hgot⟩ := hgot
    obtain ⟨rfl, rfl⟩ := Prod.mk.inj (hgot.symm.trans hcall)
    have hend := h.endAvail
    -- the range is not empty, so the space before it has not been used up
    have hfirst : s.md.firstAvail % alignsz = 0 := h.next.resolve_right (by omega)
    constructor
    · exact hend
    · simp only
      omega
    · rcases hpiece with hpiece | hrest
      · left
        simp only
        unfold alignsz at hfirst hpiece ⊢
        omega
      · right
        exact hrest.trans hend
    · rw [List.map_append]
      exact h.ordered.snoc le_rfl le_rfl
    · intro ref href
      rcases List.mem_append.mp href with hold | hnew
      · exact h.aligned ref hold
      · obtain rfl : ref = _ := List.mem_singleton.mp hnew
        exact hfirst

theorem of_reachable (h : S.Reachable s) : SegInv S s := by
  induction h with
  | refl => exact start S
  | tail _ hs ih => exact ih.step hs

/-- A reference lies between the metadata and the back reserve. -/
theorem inside (h : SegInv S s) {ref : Shmref} (href : ref ∈ s.refs) :
    (extent ref).Inside S.lower S.upper :=
  (h.ordered.raise h.bound).inside (List.mem_map_of_mem href)

theorem firstAvail_mono (h : SegInv S s) (dtrs : Dtrs) (spinErr want : ℕ) :
    s.md.firstAvail ≤ (shmsegAlloc dtrs s.md spinErr S.idx want).2.firstAvail ∧
      (shmsegAlloc dtrs s.md spinErr S.idx want).2.firstAvail ≤ s.md.endAvail := by
  have hbound := h.bound
  rcases shmsegAlloc_cases dtrs spinErr S.idx want h.endAvail_lt with hnull | hgot
  · rw [hnull]
    exact ⟨le_rfl, hbound.trans h.endAvail.ge⟩
  · obtain ⟨total, -, -, hle, hgot⟩ := hgot
    rw [hgot]
    exact ⟨Nat.le_add_right _ _, hle⟩

theorem null_unchanged (h : SegInv S s) {dtrs : Dtrs} {spinErr want : ℕ}
    (hnull : (shmsegAlloc dtrs s.md spinErr S.idx want).1 = none) :
    (shmsegAlloc dtrs s.md spinErr S.idx want).2 = s.md := by
  rcases shmsegAlloc_cases dtrs spinErr S.idx want h.endAvail_lt with heq | hgot
  · rw [heq]
  · obtain ⟨total, -, -, -, hgot⟩ := hgot
    rw [hgot] at hnull
    exact absurd hnull (Option.some_ne_none _)

end SegInv

/-- What the segment allocator guarantees in a state of a run. -/
structure SegSafe (S : Segment) (s : SegState) : Prop where
  disjoint : (s.refs.map extent).Pairwise Extent.Apart
  aligned : ∀ ref ∈ s.refs, ref.dtOffset % 16 = 0
  inside : ∀ ref ∈ s.refs, (extent ref).Inside (S.entry.mdOffset + S.pagesize)
    (S.src.dtMmsize - S.src.dtReserveBack)
  reserved : ∀ ref ∈ s.refs, (extent ref).Apart ⟨0, S.src.dtReserveFront⟩ ∧
    (extent ref).Apart ⟨S.entry.mdOffset, S.pagesize⟩ ∧
    (extent ref).Apart ⟨S.src.dtMmsize - S.src.dtReserveBack, S.src.dtReserveBack⟩
  bound : s.md.firstAvail ≤ s.md.endAvail ∧ s.md.endAvail = S.src.dtMmsize - S.src.dtReserveBack
  forward : ∀ dtrs spinErr want,
    s.md.firstAvail ≤ (shmsegAlloc dtrs s.md spinErr S.idx want).2.firstAvail ∧
      (shmsegAlloc dtrs s.md spinErr S.idx want).2.firstAvail ≤ s.md.endAvail
  null : ∀ dtrs spinErr want, (shmsegAlloc dtrs s.md spinErr S.idx want).1 = none →
    (shmsegAlloc dtrs s.md spinErr S.idx want).2 = s.md

/-- Every sequence of calls, by any ranks and for any sizes, gets ranges that
are apart from each other, from the metadata and from the reserves. -/
theorem segment_run_safe {S : Segment} {s : SegState} (h : S.Reachable s) : SegSafe S s := by
  have hinv := SegInv.of_reachable h
  have hreserve := S.layout.1
  exact {
    disjoint := hinv.ordered.pairwise
    aligned := hinv.aligned
    inside := fun ref href => hinv.inside href
    reserved := by
      intro ref href
      obtain ⟨hlo, hhi⟩ := hinv.inside href
      unfold Segment.lower at hlo
      refine ⟨.inr ?_, .inr hlo, .inl hhi⟩
      change 0 + S.src.dtReserveFront ≤ (extent ref).off
      omega
    bound := ⟨hinv.bound.trans hinv.endAvail.ge, hinv.endAvail⟩
    forward := hinv.firstAvail_mono
    null := fun dtrs spinErr want hnull => hinv.null_unchanged hnull }

/-- A file of eight pages with a reserve at each end. -/
def smallSegment : Segment where
  pagesize := 4096
  src := ⟨DTHREAD_SRC_FILE, 0, 32768, 0, 100, 200⟩
  idx := 0
  hint := 0
  sys := ⟨0, .ok 0, 0, fun _ => .ok 65536, 0, ⟨0, ⟨0, 0, 0⟩, 0, 0, 0, 0⟩⟩
  entry := ⟨65536, 4096, 32768⟩
  md₀ := ⟨DTHREAD_SEG_MD_MAGIC, ⟨0, 0, 32768⟩, 2, 0, 8192, 32568⟩
  established := rfl
  page := by norm_num
  reserve := by norm_num
  size := by norm_num
  address := by norm_num
  aligned := rfl

/-- A run that takes a padded range and then all the rest. -/
theorem segment_run_safe_small :
    ∃ s, smallSegment.Reachable s ∧ s.refs = [⟨0, 8192, 112⟩, ⟨0, 8304, 24264⟩] ∧
      SegSafe smallSegment s := by
  have hpadded : shmsegAlloc ⟨1, fun _ => ⟨65536, 4096, 32768⟩⟩ smallSegment.md₀ 0 0 100 =
      (some (73728, ⟨0, 8192, 112⟩), { smallSegment.md₀ with firstAvail := 8304 }) := by
    decide
  have hrest : shmsegAlloc ⟨1, fun _ => ⟨131072, 4096, 32768⟩⟩
      { smallSegment.md₀ with firstAvail := 8304 } 0 0 0 =
      (some (139376, ⟨0, 8304, 24264⟩), { smallSegment.md₀ with firstAvail := 32568 }) := by
    decide
  have hone : SegStep 0 smallSegment.start _ := .alloc _ 0 100 _ _ hpadded
  have htwo := (Relation.ReflTransGen.refl.tail hone).tail (.alloc _ 0 0 _ _ hrest)
  exact ⟨_, htwo, rfl, segment_run_safe htwo⟩

end Dthread.SegmentAllocs
