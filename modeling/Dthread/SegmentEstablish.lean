import Mathlib.Data.Finset.Lattice.Fold
import Mathlib.Data.Fintype.Basic
import Dthread.Collectives
import Dthread.Segments

/-!
dthread_shmseg_establish: all ranks map the segments of a table, one after the
other, and agree on the outcome in collective calls. The program of each rank,
and what holds when any number of ranks execute it together.
-/
namespace Dthread.SegmentEstablish

open ReqMsg MachineInts ShmRefs Segments Collectives

/-- The collective calls, all of them on arrays of mpi_uintptr. -/
inductive Op
  | bcast
  | allreduceMin
  | allreduceMax
deriving DecidableEq, Repr

namespace Op

def Val : Op → Type
  | bcast => ℕ × ℕ
  | allreduceMin => ℕ
  | allreduceMax => ℕ × ℕ

/-- MPI_MIN over the ranks. -/
def least {wsize : ℕ} [NeZero wsize] (x : Fin wsize → ℕ) : ℕ :=
  Finset.univ.inf' Finset.univ_nonempty x

/-- MPI_MAX over the ranks. -/
def largest {wsize : ℕ} [NeZero wsize] (x : Fin wsize → ℕ) : ℕ :=
  Finset.univ.sup' Finset.univ_nonempty x

/-- What MPI gives to every rank. -/
def reduce {wsize : ℕ} [NeZero wsize] : (op : Op) → (Fin wsize → op.Val) → op.Val
  | bcast, x => x 0
  | allreduceMin, x => least x
  | allreduceMax, x => (largest fun r => (x r).1, largest fun r => (x r).2)

end Op

def MAP_FAILED : ℕ := 2 ^ 64 - 1

/-- What the system gives to a rank: for each segment the calls of establish,
and for each retry the address or the errno of mmap for a hint. -/
structure RankSys where
  establish : ℕ → EstablishSys
  mmap : ℕ → ℕ → ℕ → Except ℕ ℕ

/-- A rank's table of mappings, and whether its descriptor for the current
segment is open. -/
structure RankState where
  shmmap : ℕ → Shmmap
  fd : Bool

def RankState.install (st : RankState) (lcv : ℕ) (entry : Shmmap) : RankState :=
  { st with shmmap := Function.update st.shmmap lcv entry }

section Program

variable (pagesize : ℕ) (sys : RankSys) (src : Shmsrc) (lcv : ℕ)

/-- A rank without a mapping tries to get one: by establish at first, by mmap
alone when it has a descriptor. The mapping, the error and the new state. -/
def tryMap (retries hint rv : ℕ) (st : RankState) : ℕ × ℕ × RankState :=
  if (st.shmmap lcv).mapping ≠ 0 then ((st.shmmap lcv).mapping, rv, st)
  else if st.fd = false then
    match establish pagesize src lcv hint false (sys.establish lcv) with
    | .error e => (MAP_FAILED, e, st)
    | .ok (entry, _) => (entry.mapping, 0, { st.install lcv entry with fd := src.mapped })
  else
    match sys.mmap lcv retries hint with
    | .error e => (MAP_FAILED, e, st)
    | .ok mapping => (mapping, 0, st.install lcv { st.shmmap lcv with mapping := mapping })

/-- From the label retry to the end of the segment. What a rank does when a
uniform mapping was not reached is a parameter: it gets the rank's mapping, the
largest mapping, the error and the state. -/
def round (retries hint rv : ℕ) (st : RankState)
    (again : ℕ → ℕ → ℕ → RankState → Prog Op.Val (ℕ × RankState)) :
    Prog Op.Val (ℕ × RankState) :=
  let (mapping, rv, st) := tryMap pagesize sys src lcv retries hint rv st
  .coll .allreduceMin mapping fun (min : ℕ) =>
  .coll .allreduceMax (mapping, rv) fun ((max, rv) : ℕ × ℕ) =>
    if min = MAP_FAILED ∨ max = MAP_FAILED ∨ rv ≠ 0 then
      .ret (if rv = 0 then EIO else rv, st)
    else if src.umap ∧ min ≠ max then again mapping max rv st
    else .ret (0, st)

/-- A rank drops a mapping that is not at the hint. -/
def dropUnless (hint mapping : ℕ) (st : RankState) : RankState :=
  if mapping = hint then st else st.install lcv { st.shmmap lcv with mapping := 0 }

def retry : ℕ → ℕ → ℕ → RankState → Prog Op.Val (ℕ × RankState)
  | 0, hint, rv, st =>
    round pagesize sys src lcv 0 hint rv st fun _ _ _ st => .ret (EAGAIN, st)
  | retries + 1, hint, rv, st =>
    round pagesize sys src lcv (retries + 1) hint rv st fun mapping max rv st =>
      retry retries max rv (dropUnless lcv max mapping st)

/-- On rank 0, establish with the initialize flag. -/
def rank0Establish (rank : ℕ) (st : RankState) : (ℕ × ℕ) × RankState :=
  if rank = 0 then
    match establish pagesize src lcv 0 true (sys.establish lcv) with
    | .error e => ((e, 0), st)
    | .ok (entry, _) => ((0, entry.mapping), { st.install lcv entry with fd := src.mapped })
  else ((0, 0), st)

/-- The body of the loop over the segments. -/
def establishSegment (rank : ℕ) (st : RankState) : Prog Op.Val (ℕ × RankState) :=
  let (r0info, st) := rank0Establish pagesize sys src lcv rank { st with fd := false }
  .coll .bcast r0info fun (r0info : ℕ × ℕ) =>
    if r0info.1 ≠ 0 then .ret (r0info.1, st)
    else if src.umap then retry pagesize sys src lcv 9 r0info.2 0 st
    else retry pagesize sys src lcv 0 0 0 st

/-- An entry after memset. -/
def emptyMap : Shmmap := ⟨0, 0, 0⟩

/-- The label failed: the entries up to the current segment are cleared. -/
def release (st : RankState) : RankState where
  shmmap i := if i ≤ lcv then emptyMap else st.shmmap i
  fd := false

end Program

/-- dthread_shmseg_establish from segment `lcv` on: the code and the state. Error
numbers are positive and fit an int, so the casts to int keep them. -/
def shmsegEstablish (pagesize : ℕ) (sys : RankSys) (rank : ℕ) :
    List Shmsrc → ℕ → RankState → Prog Op.Val (ℕ × RankState)
  | [], _, st => .ret (0, st)
  | src :: rest, lcv, st =>
    (establishSegment pagesize sys src lcv rank st).bind fun (rv, st) =>
      if rv ≠ 0 then .ret (rv, release lcv st)
      else shmsegEstablish pagesize sys rank rest (lcv + 1) st

section Reductions

variable {wsize : ℕ} [NeZero wsize] {x : Fin wsize → ℕ}

theorem le_largest (x : Fin wsize → ℕ) (r : Fin wsize) : x r ≤ Op.largest x :=
  Finset.le_sup' x (Finset.mem_univ r)

theorem least_le (x : Fin wsize → ℕ) (r : Fin wsize) : Op.least x ≤ x r :=
  Finset.inf'_le x (Finset.mem_univ r)

theorem eq_of_least_eq_largest (h : Op.least x = Op.largest x) (r : Fin wsize) :
    x r = Op.largest x := by
  have hlow := least_le x r
  have hhigh := le_largest x r
  omega

end Reductions

/-- An address that mmap may return without MAP_FIXED. -/
structure PageAddr (pagesize p : ℕ) : Prop where
  pos : p ≠ 0
  aligned : pagesize ∣ p
  bound : p < 2 ^ 64

/-- A call of mmap fails with an error number or gives a page. -/
def MmapResult (pagesize : ℕ) : Except ℕ ℕ → Prop
  | .error e => e ≠ 0
  | .ok p => PageAddr pagesize p

/-- The system calls of a rank set errno when they fail. -/
structure RankSys.Posix (sys : RankSys) (pagesize : ℕ) : Prop where
  fstat : ∀ lcv e, (sys.establish lcv).fstat = .error e → e ≠ 0
  first : ∀ lcv hint, MmapResult pagesize ((sys.establish lcv).mmap hint)
  again : ∀ lcv retries hint, MmapResult pagesize (sys.mmap lcv retries hint)

/-- Pages of memory divide the address space. -/
structure PageUnit (pagesize : ℕ) : Prop where
  one_lt : 1 < pagesize
  dvd : pagesize ∣ 2 ^ 64

/-- An entry for a segment as establish fills it in, apart from the address. -/
structure Laid (pagesize : ℕ) (src : Shmsrc) (entry : Shmmap) : Prop where
  mdOffset : entry.mdOffset = mdOffset pagesize src 0
  size : entry.size = src.dtMmsize

/-- An entry for a mapped segment. -/
structure Mapped (pagesize : ℕ) (src : Shmsrc) (entry : Shmmap) : Prop
    extends Laid pagesize src entry where
  address : PageAddr pagesize entry.mapping

/-- Between the rounds a rank has a descriptor and the layout of the segment,
with or without a mapping, or has not tried yet. -/
def Ready (pagesize : ℕ) (src : Shmsrc) (lcv : ℕ) (st : RankState) : Prop :=
  (st.fd = false ∧ (st.shmmap lcv).mapping = 0) ∨
  (st.fd = true ∧ Laid pagesize src (st.shmmap lcv) ∧
    ((st.shmmap lcv).mapping = 0 ∨ PageAddr pagesize (st.shmmap lcv).mapping))

/-- The states differ only in the entry of a segment. -/
def SameBut (lcv : ℕ) (st st' : RankState) : Prop := ∀ i, i ≠ lcv → st'.shmmap i = st.shmmap i

theorem sameBut_install (lcv : ℕ) (st : RankState) (entry : Shmmap) :
    SameBut lcv st (st.install lcv entry) :=
  fun _ hi => Function.update_of_ne hi _ _

theorem SameBut.trans {lcv : ℕ} {st st' st'' : RankState} (h : SameBut lcv st st')
    (h' : SameBut lcv st' st'') : SameBut lcv st st'' :=
  fun i hi => (h' i hi).trans (h i hi)

section Rank

variable {pagesize : ℕ} {sys : RankSys} {src : Shmsrc} {lcv : ℕ} {st : RankState}

theorem establish_result (hpage : PageUnit pagesize) (hsys : sys.Posix pagesize)
    (hsrc : src.mapped = true) {hint : ℕ} {init : Bool} {entry : Shmmap} {md : SegMd}
    (h : establish pagesize src lcv hint init (sys.establish lcv) = .ok (entry, md)) :
    Mapped pagesize src entry := by
  obtain ⟨-, hmap, hoff, hsize, -⟩ := establish_ok h
  have haddr : PageAddr pagesize entry.mapping := by
    have hres := hsys.first lcv hint
    rwa [establishMapping_mapped hsrc hmap] at hres
  exact ⟨⟨hoff.trans (mdOffset_of_dvd src hpage.dvd haddr.bound haddr.aligned), hsize⟩, haddr⟩

theorem establish_fails (hsys : sys.Posix pagesize) {hint e : ℕ} {init : Bool}
    (h : establish pagesize src lcv hint init (sys.establish lcv) = .error e) : e ≠ 0 := by
  refine establish_error (hsys.fstat lcv) ?_ h
  intro e' he'
  have hres := hsys.first lcv hint
  rwa [he'] at hres

/-- A rank that reports no error has the segment mapped, and keeps a descriptor. -/
structure Attempt (pagesize : ℕ) (src : Shmsrc) (lcv : ℕ) (st : RankState)
    (out : ℕ × ℕ × RankState) : Prop where
  others : SameBut lcv st out.2.2
  mapped : out.2.1 = 0 → Mapped pagesize src (out.2.2.shmmap lcv) ∧
    (out.2.2.shmmap lcv).mapping = out.1 ∧ out.2.2.fd = true

theorem tryMap_spec (hpage : PageUnit pagesize) (hsys : sys.Posix pagesize)
    (hsrc : src.mapped = true) (retries hint : ℕ) (hst : Ready pagesize src lcv st) :
    Attempt pagesize src lcv st (tryMap pagesize sys src lcv retries hint 0 st) := by
  unfold tryMap
  by_cases hmap : (st.shmmap lcv).mapping = 0
  · rw [if_neg (not_not_intro hmap)]
    rcases hst with ⟨hfd, -⟩ | ⟨hfd, hlaid, -⟩
    · rw [if_pos hfd]
      cases hest : establish pagesize src lcv hint false (sys.establish lcv) with
      | error e => exact ⟨fun _ _ => rfl, fun hzero => absurd hzero (establish_fails hsys hest)⟩
      | ok res =>
        have hres := establish_result hpage hsys hsrc hest
        refine ⟨sameBut_install lcv st res.1, fun _ => ?_⟩
        simp only [RankState.install, Function.update_self]
        exact ⟨hres, trivial, hsrc⟩
    · rw [if_neg (by simp [hfd])]
      have hres := hsys.again lcv retries hint
      cases hcall : sys.mmap lcv retries hint with
      | error e =>
        rw [hcall] at hres
        exact ⟨fun _ _ => rfl, fun hzero => absurd hzero hres⟩
      | ok mapping =>
        rw [hcall] at hres
        refine ⟨sameBut_install lcv st _, fun _ => ?_⟩
        simp only [RankState.install, Function.update_self]
        exact ⟨⟨⟨hlaid.mdOffset, hlaid.size⟩, hres⟩, trivial, hfd⟩
  · rw [if_pos hmap]
    refine ⟨fun _ _ => rfl, fun _ => ?_⟩
    rcases hst with ⟨-, hzero⟩ | ⟨hfd, hlaid, haddr⟩
    · exact absurd hzero hmap
    · exact ⟨⟨hlaid, haddr.resolve_left hmap⟩, rfl, hfd⟩

theorem rank0Establish_spec (hpage : PageUnit pagesize) (hsys : sys.Posix pagesize)
    (hsrc : src.mapped = true) (rank : ℕ) (hfd : st.fd = false)
    (hclear : (st.shmmap lcv).mapping = 0) :
    SameBut lcv st (rank0Establish pagesize sys src lcv rank st).2 ∧
      ((rank0Establish pagesize sys src lcv rank st).1.1 = 0 →
        Ready pagesize src lcv (rank0Establish pagesize sys src lcv rank st).2) := by
  unfold rank0Establish
  split
  · cases hest : establish pagesize src lcv 0 true (sys.establish lcv) with
    | error e => exact ⟨fun _ _ => rfl, fun hzero => absurd hzero (establish_fails hsys hest)⟩
    | ok res =>
      have hres := establish_result hpage hsys hsrc hest
      refine ⟨sameBut_install lcv st res.1, fun _ => .inr ⟨hsrc, ?_⟩⟩
      simp only [RankState.install, Function.update_self]
      exact ⟨hres.toLaid, .inr hres.address⟩
  · exact ⟨fun _ _ => rfl, fun _ => .inl ⟨hfd, hclear⟩⟩

/-- A rank that drops its mapping is ready for the next round. -/
theorem dropUnless_ready (hmap : Mapped pagesize src (st.shmmap lcv)) (hfd : st.fd = true)
    (hint mapping : ℕ) :
    Ready pagesize src lcv (dropUnless lcv hint mapping st) ∧
      SameBut lcv st (dropUnless lcv hint mapping st) := by
  unfold dropUnless
  split
  · exact ⟨.inr ⟨hfd, hmap.toLaid, .inr hmap.address⟩, fun _ _ => rfl⟩
  · refine ⟨.inr ⟨hfd, ?_, .inl ?_⟩, sameBut_install lcv st _⟩
    · simp only [RankState.install, Function.update_self]
      exact ⟨hmap.mdOffset, hmap.size⟩
    · simp only [RankState.install, Function.update_self]

end Rank

/-- The calls of a number of rounds. -/
def roundCalls (k : ℕ) : List Op :=
  (List.replicate k [Op.allreduceMin, Op.allreduceMax]).flatten

/-- The calls for a segment. -/
def segmentCalls (k : ℕ) : List Op := .bcast :: roundCalls k

/-- All ranks have the segment mapped, and one with a uniform mapping at one
address. -/
structure Agreed {wsize : ℕ} (pagesize : ℕ) (src : Shmsrc) (entry : Fin wsize → Shmmap) :
    Prop where
  mapped : ∀ r, Mapped pagesize src (entry r)
  uniform : src.umap = true → ∀ r r', (entry r).mapping = (entry r').mapping

section Ranks

variable {pagesize wsize : ℕ} [NeZero wsize] {sys : Fin wsize → RankSys} {src : Shmsrc} {lcv : ℕ}
  {st : Fin wsize → RankState}

/-- What the ranks leave of the state, and what the code zero says about it. -/
structure Concluded (pagesize : ℕ) (src : Shmsrc) (lcv code : ℕ)
    (st st' : Fin wsize → RankState) : Prop where
  others : ∀ r, SameBut lcv (st r) (st' r)
  agreed : code = 0 → Agreed pagesize src fun r => (st' r).shmmap lcv

/-- A round ends the segment with one code on all ranks, or all of them go on
from the same hint. -/
theorem round_runs (hpage : PageUnit pagesize) (hsys : ∀ r, (sys r).Posix pagesize)
    (hsrc : src.mapped = true) (retries hint : ℕ) (hst : ∀ r, Ready pagesize src lcv (st r))
    (again : Fin wsize → ℕ → ℕ → ℕ → RankState → Prog Op.Val (ℕ × RankState)) :
    (∃ (code : ℕ) (st' : Fin wsize → RankState), Concluded pagesize src lcv code st st' ∧
      Runs Op.reduce (fun r => round pagesize (sys r) src lcv retries hint 0 (st r) (again r))
        (roundCalls 1) fun r => (code, st' r)) ∨
    ∃ (mapping : Fin wsize → ℕ) (max : ℕ) (st' : Fin wsize → RankState),
      (∀ r, SameBut lcv (st r) (st' r)) ∧
      (∀ r, Mapped pagesize src ((st' r).shmmap lcv) ∧ (st' r).fd = true) ∧
      ∀ tr a, Runs Op.reduce (fun r => again r (mapping r) max 0 (st' r)) tr a →
        Runs Op.reduce (fun r => round pagesize (sys r) src lcv retries hint 0 (st r) (again r))
          (roundCalls 1 ++ tr) a := by
  let out r := tryMap pagesize (sys r) src lcv retries hint 0 (st r)
  have htry r : Attempt pagesize src lcv (st r) (out r) :=
    tryMap_spec hpage (hsys r) hsrc retries hint (hst r)
  let min := Op.least fun r => (out r).1
  let max := Op.largest fun r => (out r).1
  let rv := Op.largest fun r => (out r).2.1
  -- both calls complete whatever the ranks put in
  have hcalls tr a (h : Runs Op.reduce (fun r =>
      if min = MAP_FAILED ∨ max = MAP_FAILED ∨ rv ≠ 0 then
        .ret (if rv = 0 then EIO else rv, (out r).2.2)
      else if src.umap ∧ min ≠ max then again r (out r).1 max rv (out r).2.2
      else .ret (0, (out r).2.2)) tr a) :
      Runs Op.reduce (fun r => round pagesize (sys r) src lcv retries hint 0 (st r) (again r))
        (roundCalls 1 ++ tr) a :=
    .coll (fun _ => rfl) (.coll (fun _ => rfl) h)
  by_cases herr : min = MAP_FAILED ∨ max = MAP_FAILED ∨ rv ≠ 0
  · refine .inl ⟨if rv = 0 then EIO else rv, fun r => (out r).2.2, ⟨fun r => (htry r).others, ?_⟩,
      hcalls [] _ (.ret fun r => if_pos herr)⟩
    intro hcode
    split at hcode
    · exact absurd hcode (by decide)
    · contradiction
  · have hrv : rv = 0 := by
      push Not at herr
      exact herr.2.2
    have hmapped r := (htry r).mapped (Nat.le_zero.mp (hrv ▸ le_largest (fun r => (out r).2.1) r))
    simp only [if_neg herr] at hcalls
    by_cases hagain : src.umap ∧ min ≠ max
    · refine .inr ⟨fun r => (out r).1, max, fun r => (out r).2.2, fun r => (htry r).others,
        fun r => ⟨(hmapped r).1, (hmapped r).2.2⟩, fun tr a h => hcalls tr a ?_⟩
      simpa only [if_pos hagain, hrv] using h
    · refine .inl ⟨0, fun r => (out r).2.2, ⟨fun r => (htry r).others, fun _ => ?_⟩,
        hcalls [] _ (.ret fun r => if_neg hagain)⟩
      refine ⟨fun r => (hmapped r).1, fun humap r r' => ?_⟩
      have hsame : min = max := by
        by_contra hne
        exact hagain ⟨humap, hne⟩
      rw [(hmapped r).2.1, (hmapped r').2.1]
      exact (eq_of_least_eq_largest hsame r).trans (eq_of_least_eq_largest hsame r').symm

theorem retry_runs (hpage : PageUnit pagesize) (hsys : ∀ r, (sys r).Posix pagesize)
    (hsrc : src.mapped = true) (retries hint : ℕ) (hst : ∀ r, Ready pagesize src lcv (st r)) :
    ∃ (k code : ℕ) (st' : Fin wsize → RankState), k ≤ retries + 1 ∧
      Concluded pagesize src lcv code st st' ∧
      Runs Op.reduce (fun r => retry pagesize (sys r) src lcv retries hint 0 (st r))
        (roundCalls k) fun r => (code, st' r) := by
  induction retries generalizing hint st with
  | zero =>
    rcases round_runs hpage hsys hsrc 0 hint hst fun _ _ _ _ st => .ret (EAGAIN, st) with
      ⟨code, st', hst', hrun⟩ | ⟨mapping, max, st', hothers, -, hagain⟩
    · exact ⟨1, code, st', le_rfl, hst', hrun⟩
    · exact ⟨1, EAGAIN, st', le_rfl, ⟨hothers, fun hcode => absurd hcode (by decide)⟩,
        hagain [] _ (.ret fun _ => rfl)⟩
  | succ retries ih =>
    rcases round_runs hpage hsys hsrc (retries + 1) hint hst fun r mapping max rv st =>
      retry pagesize (sys r) src lcv retries max rv (dropUnless lcv max mapping st) with
      ⟨code, st', hst', hrun⟩ | ⟨mapping, max, st₁, hothers, hmapped, hagain⟩
    · exact ⟨1, code, st', by omega, hst', hrun⟩
    · have hdrop r := dropUnless_ready (hmapped r).1 (hmapped r).2 max (mapping r)
      obtain ⟨k, code, st', hk, hst', hrun⟩ := ih max fun r => (hdrop r).1
      refine ⟨k + 1, code, st', by omega, ⟨fun r => ?_, hst'.agreed⟩, ?_⟩
      · exact ((hothers r).trans (hdrop r).2).trans (hst'.others r)
      · exact hagain _ _ hrun

/-- The segments are mapped one at a time: at most ten rounds each, and one code
on all ranks. -/
theorem establishSegment_runs (hpage : PageUnit pagesize) (hsys : ∀ r, (sys r).Posix pagesize)
    (hsrc : src.mapped = true) (hclear : ∀ r, ((st r).shmmap lcv).mapping = 0) :
    ∃ (k code : ℕ) (st' : Fin wsize → RankState), k ≤ 10 ∧
      Concluded pagesize src lcv code st st' ∧
      Runs Op.reduce (fun r => establishSegment pagesize (sys r) src lcv r (st r))
        (segmentCalls k) fun r => (code, st' r) := by
  let first (r : Fin wsize) := rank0Establish pagesize (sys r) src lcv r { st r with fd := false }
  have hfirst r : SameBut lcv (st r) (first r).2 ∧
      ((first r).1.1 = 0 → Ready pagesize src lcv (first r).2) :=
    rank0Establish_spec hpage (hsys r) hsrc r rfl (hclear r)
  let r0info := (first 0).1
  have hbcast k a (h : Runs Op.reduce (fun r =>
      if r0info.1 ≠ 0 then .ret (r0info.1, (first r).2)
      else if src.umap then retry pagesize (sys r) src lcv 9 r0info.2 0 (first r).2
      else retry pagesize (sys r) src lcv 0 0 0 (first r).2) (roundCalls k) a) :
      Runs Op.reduce (fun r => establishSegment pagesize (sys r) src lcv r (st r))
        (segmentCalls k) a :=
    .coll (fun _ => rfl) h
  by_cases herr : r0info.1 = 0
  · have hready r : Ready pagesize src lcv (first r).2 := by
      refine (hfirst r).2 ?_
      by_cases hr : r = 0
      · rw [hr]
        exact herr
      · have hne : (r : ℕ) ≠ 0 := fun h => hr (Fin.ext h)
        simp only [first, rank0Establish, if_neg hne]
    simp only [if_neg (not_not_intro herr)] at hbcast
    by_cases humap : src.umap = true
    · obtain ⟨k, code, st', hk, hst', hrun⟩ := retry_runs hpage hsys hsrc 9 r0info.2 hready
      refine ⟨k, code, st', hk, ⟨fun r => (hfirst r).1.trans (hst'.others r), hst'.agreed⟩, ?_⟩
      exact hbcast k _ (by simpa only [if_pos humap] using hrun)
    · obtain ⟨k, code, st', hk, hst', hrun⟩ := retry_runs hpage hsys hsrc 0 0 hready
      refine ⟨k, code, st', by omega, ⟨fun r => (hfirst r).1.trans (hst'.others r), hst'.agreed⟩,
        ?_⟩
      exact hbcast k _ (by simpa only [if_neg humap] using hrun)
  · refine ⟨0, r0info.1, fun r => (first r).2, by omega, ⟨fun r => (hfirst r).1, fun h => ?_⟩,
      hbcast 0 _ (.ret fun r => if_pos herr)⟩
    exact absurd h herr

/-- The rest of the table from segment `lcv` on. -/
theorem shmsegEstablish_runs (hpage : PageUnit pagesize) (hsys : ∀ r, (sys r).Posix pagesize)
    {table : List Shmsrc} (htable : ∀ src ∈ table, src.mapped = true) (lcv : ℕ)
    (hclear : ∀ r i, lcv ≤ i → ((st r).shmmap i).mapping = 0) :
    ∃ (ks : List ℕ) (code : ℕ) (st' : Fin wsize → RankState),
      Runs Op.reduce (fun r => shmsegEstablish pagesize (sys r) r table lcv (st r))
        (ks.flatMap segmentCalls) (fun r => (code, st' r)) ∧
      (∀ k ∈ ks, k ≤ 10) ∧
      (code = 0 → ks.length = table.length ∧
        (∀ r i, i < lcv → (st' r).shmmap i = (st r).shmmap i) ∧
        ∀ i src, table[i]? = some src → Agreed pagesize src fun r => (st' r).shmmap (lcv + i)) ∧
      (code ≠ 0 → ks ≠ [] ∧ ks.length ≤ table.length ∧
        ∀ r i, i < lcv + ks.length → (st' r).shmmap i = emptyMap) := by
  induction table generalizing lcv st with
  | nil =>
    exact ⟨[], 0, st, .ret fun _ => rfl, fun k hk => absurd hk List.not_mem_nil,
      fun _ => ⟨rfl, fun _ _ _ => rfl, fun i src h => by simp at h⟩, fun h => absurd rfl h⟩
  | cons src rest ih =>
    obtain ⟨hsrc, hrest⟩ := List.forall_mem_cons.mp htable
    obtain ⟨k, code, st₁, hk, hst₁, hrun⟩ :=
      establishSegment_runs hpage hsys hsrc fun r => hclear r lcv le_rfl
    by_cases hcode : code = 0
    · have hclear' r i (hi : lcv + 1 ≤ i) : ((st₁ r).shmmap i).mapping = 0 := by
        rw [hst₁.others r i (by omega)]
        exact hclear r i (by omega)
      obtain ⟨ks, code', st', hrun', hks, hok, hfail⟩ := ih hrest (lcv + 1) hclear'
      refine ⟨k :: ks, code', st', ?_, List.forall_mem_cons.mpr ⟨hk, hks⟩, ?_, ?_⟩
      · refine hrun.bind ?_
        simp only [if_neg (not_not_intro hcode)]
        exact hrun'
      · intro hcode'
        obtain ⟨hlen, hold, hnew⟩ := hok hcode'
        refine ⟨congrArg Nat.succ hlen, fun r i hi => ?_, fun i src' hi => ?_⟩
        · exact (hold r i (by omega)).trans (hst₁.others r i (by omega))
        · cases i with
          | zero =>
            obtain rfl : src = src' := by simpa using hi
            have hsame : (fun r => (st' r).shmmap (lcv + 0)) = fun r => (st₁ r).shmmap lcv :=
              funext fun r => hold r lcv (by omega)
            exact hsame ▸ hst₁.agreed hcode
          | succ i =>
            have hshift : lcv + (i + 1) = lcv + 1 + i := by omega
            rw [hshift]
            exact hnew i src' (by simpa using hi)
      · intro hcode'
        obtain ⟨-, hlen, hempty⟩ := hfail hcode'
        refine ⟨List.cons_ne_nil _ _, Nat.succ_le_succ hlen, fun r i hi => hempty r i ?_⟩
        rw [List.length_cons] at hi
        omega
    · refine ⟨[k], code, fun r => release lcv (st₁ r), ?_, by simpa using hk,
        fun h => absurd h hcode, fun _ => ⟨List.cons_ne_nil _ _, by simp, fun r i hi => ?_⟩⟩
      · refine hrun.bind (.ret fun r => ?_)
        exact if_pos hcode
      · have hle : i ≤ lcv := Nat.le_of_lt_succ hi
        exact if_pos hle

end Ranks

/-- The table of mappings as dthread_run allocates it. -/
def freshState : RankState := ⟨fun _ => emptyMap, false⟩

/-- What the ranks have agreed on, with the number of rounds for each segment. -/
structure Agreement {wsize : ℕ} (table : List Shmsrc) (rounds : List ℕ)
    (out : Fin wsize → ℕ × RankState) : Prop where
  bounded : ∀ k ∈ rounds, k ≤ 10
  code : ∀ r r', (out r).1 = (out r').1
  success : ∀ r, (out r).1 = 0 → ∀ i src, table[i]? = some src → ∀ r',
    ((out r).2.shmmap i).mapping ≠ 0 ∧ ((out r).2.shmmap i).size = src.dtMmsize ∧
    ((out r).2.shmmap i).size = ((out r').2.shmmap i).size ∧
    ((out r).2.shmmap i).mdOffset = ((out r').2.shmmap i).mdOffset ∧
    (src.umap = true → ((out r).2.shmmap i).mapping = ((out r').2.shmmap i).mapping)
  failure : ∀ r, (out r).1 ≠ 0 → ∃ k < table.length, rounds.length = k + 1 ∧
    ∀ r', ∀ i ≤ k, (out r').2.shmmap i = emptyMap

/-- Ranks with the same table make the same collective calls, none is left
waiting, and they agree on the code and on the mappings. -/
theorem shmsegEstablish_agrees {pagesize wsize : ℕ} [NeZero wsize] (hpage : PageUnit pagesize)
    {sys : Fin wsize → RankSys} (hsys : ∀ r, (sys r).Posix pagesize) {table : List Shmsrc}
    (htable : ∀ src ∈ table, src.mapped = true) :
    (∃ tr out, Runs Op.reduce
      (fun r => shmsegEstablish pagesize (sys r) r table 0 freshState) tr out) ∧
    ∀ tr out, Runs Op.reduce
      (fun r => shmsegEstablish pagesize (sys r) r table 0 freshState) tr out →
      ∃ rounds, tr = rounds.flatMap segmentCalls ∧ Agreement table rounds out := by
  have hclear : ∀ (_ : Fin wsize) i, 0 ≤ i → (freshState.shmmap i).mapping = 0 :=
    fun _ _ _ => rfl
  obtain ⟨ks, code, st, hrun, hks, hok, hfail⟩ :=
    shmsegEstablish_runs hpage hsys htable 0 hclear
  refine ⟨⟨_, _, hrun⟩, fun tr out hrun' => ?_⟩
  obtain ⟨rfl, rfl⟩ := hrun.unique hrun'
  refine ⟨ks, rfl, hks, fun _ _ => rfl, ?_, ?_⟩
  · intro r hcode i src hi r'
    have hagreed := (hok hcode).2.2 i src hi
    rw [Nat.zero_add] at hagreed
    obtain ⟨hmapped, huniform⟩ := hagreed
    exact ⟨(hmapped r).address.pos, (hmapped r).size, (hmapped r).size.trans (hmapped r').size.symm,
      (hmapped r).mdOffset.trans (hmapped r').mdOffset.symm, fun humap => huniform humap r r'⟩
  · intro r hcode
    obtain ⟨hne, hlen, hempty⟩ := hfail hcode
    have hpos : 0 < ks.length := List.length_pos_of_ne_nil hne
    exact ⟨ks.length - 1, by omega, by omega, fun r' i hi => hempty r' i (by omega)⟩

/-- A system in which every call succeeds, at the hint if there is one. -/
def obligingSys : RankSys where
  establish lcv := ⟨0, .ok 0, 0, fun hint => .ok (if hint % 4096 = 0 ∧ 0 < hint ∧ hint < 2 ^ 64
    then hint else 65536), 0, ⟨DTHREAD_SEG_MD_MAGIC, ⟨lcv, 0, 32768⟩, 0, 0, 0, 0⟩⟩
  mmap _ _ _ := .error EIO

/-- Two devices, the second with a front reserve and a uniform mapping. -/
def twoSegments : List Shmsrc :=
  [⟨DTHREAD_SRC_DEV, 0, 32768, 0, 0, 0⟩, ⟨DTHREAD_SRC_DEV + 8, 0, 32768, 0, 4096, 0⟩]

theorem shmsegEstablish_agrees_three :
    ∃ tr out, Runs Op.reduce (fun r : Fin 3 => shmsegEstablish 4096 obligingSys r
      twoSegments 0 freshState) tr out ∧
      ∃ rounds, tr = rounds.flatMap segmentCalls ∧ Agreement twoSegments rounds out := by
  have hpage : PageUnit 4096 := ⟨by norm_num, by norm_num⟩
  have hsys : obligingSys.Posix 4096 := by
    refine ⟨fun lcv e h => (by cases h), fun lcv hint => ?_, fun _ _ _ => Nat.succ_ne_zero _⟩
    change PageAddr 4096 (if hint % 4096 = 0 ∧ 0 < hint ∧ hint < 2 ^ 64 then hint else 65536)
    split
    next h => exact ⟨h.2.1.ne', Nat.dvd_of_mod_eq_zero h.1, h.2.2⟩
    · exact ⟨by norm_num, by norm_num, by norm_num⟩
  have htable : ∀ src ∈ twoSegments, src.mapped = true := by decide
  obtain ⟨⟨tr, out, hrun⟩, hall⟩ :=
    shmsegEstablish_agrees hpage (fun _ : Fin 3 => hsys) htable
  exact ⟨tr, out, hrun, hall tr out hrun⟩

end Dthread.SegmentEstablish
