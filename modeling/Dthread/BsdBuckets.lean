import Mathlib.Algebra.Order.Ring.Nat
import Dthread.BsdMalloc
import Dthread.Extents
import Dthread.FreeLists

/-!
The size classes of the bsd allocator: which bucket a size is put into, how many
bytes the blocks of a bucket have, and how bsd_morecore cuts and links new ones
as long as the size of the bucket fits into an int.
-/
namespace Dthread.BsdBuckets

open ByteMemory MachineInts Extents FreeLists ShmRefs BsdMalloc

/-- The last bucket whose size fits into an int. -/
def maxBucket : ℕ := 26

theorem BUCKSIZE_eq {x : ℕ} (h : x ≤ maxBucket) : BUCKSIZE x = ((2 ^ (x + 4) : ℕ) : ℤ) := by
  unfold maxBucket at h
  have hpow : 2 ^ (x + 4) < 2 ^ 31 := Nat.pow_lt_pow_right (by norm_num) (by omega)
  have hcast : (2 : ℤ) ^ (x + 4) = ((2 ^ (x + 4) : ℕ) : ℤ) := by push_cast; rfl
  unfold BUCKSIZE
  rw [Nat.mod_eq_of_lt (by omega), hcast, int32_natCast hpow]

theorem toU64_BUCKSIZE {x : ℕ} (h : x ≤ maxBucket) : toU64 (BUCKSIZE x) = 2 ^ (x + 4) := by
  rw [BUCKSIZE_eq h]
  apply toU64_natCast
  unfold maxBucket at h
  exact Nat.pow_lt_pow_right (by norm_num) (by omega)

/-- The loops of bsd_init stop at the bucket of exactly the size. -/
theorem bucketLoop_eq {t : ℕ} (ht : t ≤ maxBucket) (fuel b : ℕ) (hb : b ≤ t)
    (hfuel : t - b < fuel) : bucketLoop ((2 ^ (t + 4) : ℕ) : ℤ) fuel b = t := by
  induction fuel generalizing b with
  | zero => omega
  | succ fuel ih =>
    rw [bucketLoop, BUCKSIZE_eq (hb.trans ht)]
    by_cases hlast : b = t
    · subst hlast
      rw [if_neg (lt_irrefl _)]
    · have hlt : b < t := by omega
      have hpow : 2 ^ (b + 4) < 2 ^ (t + 4) := Nat.pow_lt_pow_right (by norm_num) (by omega)
      rw [if_pos (by exact_mod_cast hpow)]
      exact ih (b + 1) hlt (by omega)

/-- The search of bsd_malloc finds the first bucket, from `b` on, whose blocks have
enough bytes `u` for a user. Doubling the last one gives 0. -/
theorem bucketSearch_iff {size n : ℕ} {u : ℕ → ℕ}
    (hu : ∀ r, 1 ≤ r → r < NBUCKETS → wrap64 (2 ^ (r + 4) + n) = u r) (fuel b : ℕ) (hb : 1 ≤ b)
    (hlast : b < NBUCKETS) (hfuel : NBUCKETS - b ≤ fuel) (r : ℕ) :
    bucketSearch size n fuel (2 ^ (b + 4)) b = some r ↔
      b ≤ r ∧ r < NBUCKETS ∧ size ≤ u r ∧ ∀ q, b ≤ q → q < r → u q < size := by
  induction fuel generalizing b with
  | zero => omega
  | succ fuel ih =>
    rw [bucketSearch, hu b hb hlast]
    by_cases hmore : u b < size
    · have hdouble : 2 ^ (b + 4) * 2 = 2 ^ (b + 1 + 4) := by rw [← pow_succ]
      rw [if_pos hmore, hdouble]
      by_cases hend : b + 1 = NBUCKETS
      · have hzero : wrap64 (2 ^ (b + 1 + 4)) = 0 := by rw [hend]; rfl
        simp only [hzero, if_true]
        constructor
        · exact fun h => absurd h (by simp)
        · rintro ⟨hbr, hr, hfit, -⟩
          have hsame : r = b := by omega
          rw [hsame] at hfit
          omega
      · have hlt : 2 ^ (b + 1 + 4) < 2 ^ 64 :=
          Nat.pow_lt_pow_right (by norm_num) (by unfold NBUCKETS at hlast hend; omega)
        have hpos : 2 ^ (b + 1 + 4) ≠ 0 := by positivity
        simp only [wrap64_of_lt hlt, hpos, if_false]
        rw [ih (b + 1) (by omega) (by omega) (by omega)]
        constructor
        · rintro ⟨hbr, hr, hfit, hleast⟩
          refine ⟨by omega, hr, hfit, fun q hq hqr => ?_⟩
          by_cases hqb : q = b
          · rw [hqb]
            exact hmore
          · exact hleast q (by omega) hqr
        · rintro ⟨hbr, hr, hfit, hleast⟩
          have hne : r ≠ b := by
            rintro rfl
            omega
          exact ⟨by omega, hr, hfit, fun q hq hqr => hleast q (by omega) hqr⟩
    · rw [if_neg hmore]
      simp only [Option.some.injEq]
      constructor
      · rintro rfl
        exact ⟨le_rfl, hlast, not_lt.mp hmore, fun q hq hqr => by omega⟩
      · rintro ⟨hbr, -, -, hleast⟩
        by_contra hne
        exact hmore (hleast b le_rfl (by omega))

/-- The size of a page, as a power of two. -/
structure PageSize where
  order : ℕ
  lower : 12 ≤ order
  upper : order ≤ 30

namespace PageSize

variable (P : PageSize)

def bytes : ℕ := 2 ^ P.order

/-- The bytes of a block of a bucket, overhead included. -/
def blockLen (bucket : ℕ) : ℕ :=
  if bucket + 4 < P.order then 2 ^ (bucket + 4) else 2 ^ (bucket + 4) + P.bytes

/-- The bytes of a block that a user may have. -/
def capacity (bucket : ℕ) : ℕ := P.blockLen bucket - 16

theorem bytes_mod : P.bytes % 16 = 0 := by
  have hdvd : 2 ^ 4 ∣ P.bytes := pow_dvd_pow 2 (by have := P.lower; omega)
  exact Nat.mod_eq_zero_of_dvd hdvd

theorem bytes_bounds : 4096 ≤ P.bytes ∧ P.bytes ≤ 2 ^ 30 :=
  ⟨Nat.pow_le_pow_right (by norm_num : 0 < 2) P.lower,
    Nat.pow_le_pow_right (by norm_num : 0 < 2) P.upper⟩

theorem bucket_lt_iff (bucket : ℕ) : 2 ^ (bucket + 4) < P.bytes ↔ bucket + 4 < P.order :=
  Nat.pow_lt_pow_iff_right (by norm_num)

theorem blockLen_mod (bucket : ℕ) : P.blockLen bucket % 16 = 0 := by
  have hpow : 2 ^ (bucket + 4) % 16 = 0 := by
    rw [pow_add]
    exact Nat.mul_mod_left _ _
  have hpage := P.bytes_mod
  unfold blockLen
  split <;> omega

theorem blockLen_ge {bucket : ℕ} (h : 1 ≤ bucket) : 32 ≤ P.blockLen bucket := by
  have hpow : 2 ^ 5 ≤ 2 ^ (bucket + 4) := Nat.pow_le_pow_right (by norm_num) (by omega)
  unfold blockLen
  split <;> omega

theorem capacity_small {bucket : ℕ} (h : bucket + 4 < P.order) :
    P.capacity bucket = 2 ^ (bucket + 4) - 16 := by
  unfold capacity blockLen
  rw [if_pos h]

theorem capacity_large {bucket : ℕ} (h : P.order ≤ bucket + 4) :
    P.capacity bucket = 2 ^ (bucket + 4) + P.bytes - 16 := by
  unfold capacity blockLen
  rw [if_neg (not_lt.mpr h)]

theorem capacity_mono {q b : ℕ} (h : q ≤ b) : P.capacity q ≤ P.capacity b := by
  have hpow : 2 ^ (q + 4) ≤ 2 ^ (b + 4) := Nat.pow_le_pow_right (by norm_num) (by omega)
  unfold capacity blockLen
  split <;> split <;> omega

/-- Requests of up to 1 GiB stay below the last bucket of int size. -/
theorem le_capacity_maxBucket {size : ℕ} (h : size ≤ 2 ^ 30) : size ≤ P.capacity maxBucket := by
  obtain ⟨hpage, -⟩ := P.bytes_bounds
  have hupper := P.upper
  rw [P.capacity_large (by unfold maxBucket; omega)]
  unfold maxBucket
  omega

end PageSize

/-- The fields that bsd_init computes once. -/
structure Classes (P : PageSize) (md : BsdMd) : Prop where
  oversize : md.oversize = 16
  minbucket : md.minbucket = 1
  pagesz : md.pagesz = P.bytes
  pagebucket : md.pagebucket = P.order - 4

namespace Classes

variable {P : PageSize} {md : BsdMd}

theorem toU64_half : toU64 (P.bytes / 2 - (16 : ℕ)) = P.bytes / 2 - 16 := by
  obtain ⟨hpage, hpage'⟩ := P.bytes_bounds
  have hcast : (P.bytes : ℤ) / 2 - (16 : ℕ) = ((P.bytes / 2 - 16 : ℕ) : ℤ) := by omega
  rw [hcast]
  exact toU64_natCast (by omega)

theorem toU64_rest : toU64 (P.bytes - (16 : ℕ)) = P.bytes - 16 := by
  obtain ⟨hpage, hpage'⟩ := P.bytes_bounds
  have hcast : (P.bytes : ℤ) - (16 : ℕ) = ((P.bytes - 16 : ℕ) : ℤ) := by omega
  rw [hcast]
  exact toU64_natCast (by omega)

/-- Small sizes are searched for among the parts of a page. -/
theorem sizeBucket_small (h : Classes P md) {size : ℕ} (hsize : size ≤ P.bytes / 2 - 16) (b : ℕ) :
    sizeBucket md size = some b ↔ 1 ≤ b ∧ b < NBUCKETS ∧ size ≤ 2 ^ (b + 4) - 16 ∧
      ∀ q, 1 ≤ q → q < b → 2 ^ (q + 4) - 16 < size := by
  have hneg : toU64 (-(16 : ℕ)) = 2 ^ 64 - 16 := by decide
  have hstart : toU64 (BUCKSIZE 1) = 2 ^ (1 + 4) := toU64_BUCKSIZE (by unfold maxBucket; omega)
  have husable (r : ℕ) (hr : 1 ≤ r) (hlast : r < NBUCKETS) :
      wrap64 (2 ^ (r + 4) + (2 ^ 64 - 16)) = 2 ^ (r + 4) - 16 := by
    unfold NBUCKETS at hlast
    have hge : 2 ^ 5 ≤ 2 ^ (r + 4) := Nat.pow_le_pow_right (by norm_num) (by omega)
    have hle : 2 ^ (r + 4) ≤ 2 ^ 63 := Nat.pow_le_pow_right (by norm_num) (by omega)
    generalize 2 ^ (r + 4) = m at hge hle ⊢
    unfold wrap64
    omega
  unfold sizeBucket
  rw [h.oversize, h.pagesz, h.minbucket, toU64_half, if_pos hsize, hneg, hstart]
  exact bucketSearch_iff husable 65 1 le_rfl (by unfold NBUCKETS; omega)
    (by unfold NBUCKETS; omega) b

/-- Larger sizes get a block with a page of its own for the overhead. -/
theorem sizeBucket_large (h : Classes P md) {size : ℕ} (hsize : P.bytes / 2 - 16 < size) (b : ℕ) :
    sizeBucket md size = some b ↔ P.order - 4 ≤ b ∧ b < NBUCKETS ∧
      size ≤ 2 ^ (b + 4) + P.bytes - 16 ∧
      ∀ q, P.order - 4 ≤ q → q < b → 2 ^ (q + 4) + P.bytes - 16 < size := by
  have hlower := P.lower
  have hupper := P.upper
  obtain ⟨hpage, hpage'⟩ := P.bytes_bounds
  have husable (r : ℕ) (_ : 1 ≤ r) (hlast : r < NBUCKETS) :
      wrap64 (2 ^ (r + 4) + (P.bytes - 16)) = 2 ^ (r + 4) + P.bytes - 16 := by
    unfold NBUCKETS at hlast
    have hle : 2 ^ (r + 4) ≤ 2 ^ 63 := Nat.pow_le_pow_right (by norm_num) (by omega)
    generalize 2 ^ (r + 4) = m at hle ⊢
    rw [wrap64_of_lt (by omega)]
    omega
  have hstart : P.bytes = 2 ^ (P.order - 4 + 4) := by
    unfold PageSize.bytes
    congr 1
    omega
  unfold sizeBucket
  rw [h.oversize, h.pagesz, h.pagebucket, toU64_half, if_neg (not_le.mpr hsize), toU64_rest]
  have hsearch : bucketSearch size (P.bytes - 16) 65 (2 ^ (P.order - 4 + 4)) (P.order - 4) =
      some b ↔ _ :=
    bucketSearch_iff husable 65 (P.order - 4) (by omega) (by unfold NBUCKETS; omega)
      (by unfold NBUCKETS; omega) b
  rwa [← hstart] at hsearch

/-- bsd_malloc takes the smallest bucket whose blocks are large enough. -/
theorem sizeBucket_iff (h : Classes P md) (size b : ℕ) :
    sizeBucket md size = some b ↔ 1 ≤ b ∧ b < NBUCKETS ∧ size ≤ P.capacity b ∧
      ∀ q, 1 ≤ q → q < b → P.capacity q < size := by
  have hlower := P.lower
  have hupper := P.upper
  have hhalf : P.capacity (P.order - 5) = P.bytes / 2 - 16 := by
    have hsucc : P.bytes = 2 ^ (P.order - 5 + 4) * 2 := by
      rw [← pow_succ]
      unfold PageSize.bytes
      congr 1
      omega
    rw [P.capacity_small (by omega)]
    omega
  by_cases hsize : size ≤ P.bytes / 2 - 16
  · -- both searches end within the parts of a page
    rw [h.sizeBucket_small hsize]
    constructor
    · rintro ⟨hlo, hhi, hfit, hleast⟩
      have hb : b ≤ P.order - 5 := by
        by_contra hlt
        have hpart := hleast (P.order - 5) (by omega) (by omega)
        rw [← P.capacity_small (by omega), hhalf] at hpart
        omega
      rw [← P.capacity_small (by omega)] at hfit
      refine ⟨hlo, hhi, hfit, fun q hq hqb => ?_⟩
      rw [P.capacity_small (by omega)]
      exact hleast q hq hqb
    · rintro ⟨hlo, hhi, hfit, hleast⟩
      have hb : b ≤ P.order - 5 := by
        by_contra hlt
        have hpart := hleast (P.order - 5) (by omega) (by omega)
        omega
      rw [P.capacity_small (by omega)] at hfit
      refine ⟨hlo, hhi, hfit, fun q hq hqb => ?_⟩
      rw [← P.capacity_small (by omega)]
      exact hleast q hq hqb
  · rw [h.sizeBucket_large (not_le.mp hsize)]
    constructor
    · rintro ⟨hlo, hhi, hfit, hleast⟩
      rw [← P.capacity_large (by omega)] at hfit
      refine ⟨by omega, hhi, hfit, fun q hq hqb => ?_⟩
      by_cases hpart : q ≤ P.order - 5
      · have hle := P.capacity_mono hpart
        omega
      · rw [P.capacity_large (by omega)]
        exact hleast q (by omega) hqb
    · rintro ⟨hlo, hhi, hfit, hleast⟩
      have hb : P.order - 4 ≤ b := by
        by_contra hlt
        have hle := P.capacity_mono (show b ≤ P.order - 5 by omega)
        omega
      rw [P.capacity_large (by omega)] at hfit
      refine ⟨hb, hhi, hfit, fun q hq hqb => ?_⟩
      rw [← P.capacity_large (by omega)]
      exact hleast q (by omega) hqb

/-- There is a bucket for every size that the blocks of the last one hold. -/
theorem sizeBucket_of_le (h : Classes P md) {size b : ℕ} (hlo : 1 ≤ b) (hhi : b < NBUCKETS)
    (hsize : size ≤ P.capacity b) :
    ∃ r, sizeBucket md size = some r ∧ 1 ≤ r ∧ r ≤ b ∧ size ≤ P.capacity r := by
  have hex : ∃ r, 1 ≤ r ∧ size ≤ P.capacity r := ⟨b, hlo, hsize⟩
  obtain ⟨hpos, hfit⟩ := Nat.find_spec hex
  have hmin : Nat.find hex ≤ b := Nat.find_min' hex ⟨hlo, hsize⟩
  refine ⟨Nat.find hex, ?_, hpos, hmin, hfit⟩
  rw [h.sizeBucket_iff]
  refine ⟨hpos, by omega, hfit, fun q hq hlt => ?_⟩
  have hnot := Nat.find_min hex hlt
  by_contra hge
  exact hnot ⟨hq, not_lt.mp hge⟩

theorem sizeBucket_spec (h : Classes P md) {size : ℕ} (hmax : size ≤ P.capacity maxBucket) :
    ∃ b, sizeBucket md size = some b ∧ 1 ≤ b ∧ b ≤ maxBucket ∧ size ≤ P.capacity b :=
  h.sizeBucket_of_le (by unfold maxBucket; omega) (by unfold maxBucket NBUCKETS; omega) hmax

/-- bsd_realloc computes the bytes of a block as bsd_malloc does. -/
theorem userBytes_eq (h : Classes P md) {b : ℕ} (hlo : 1 ≤ b) (hhi : b ≤ maxBucket) :
    userBytes md b = P.capacity b := by
  have hhi' := hhi
  unfold maxBucket at hhi'
  have hge : 2 ^ 5 ≤ 2 ^ (b + 4) := Nat.pow_le_pow_right (by norm_num) (by omega)
  have hle : 2 ^ (b + 4) ≤ 2 ^ 30 := Nat.pow_le_pow_right (by norm_num) (by omega)
  obtain ⟨hpage, hpage'⟩ := P.bytes_bounds
  unfold userBytes PageSize.capacity PageSize.blockLen
  rw [toU64_BUCKSIZE hhi, h.pagesz, h.oversize, toU64_rest]
  simp only [P.bucket_lt_iff]
  generalize 2 ^ (b + 4) = m at hge hle ⊢
  split
  · rw [sub64_of_le (by omega) (by omega)]
  · rw [wrap64_of_lt (by omega)]
    omega

/-- The test of bsd_realloc for keeping a block: bsd_malloc would use the bucket
that it is in. -/
theorem keep_iff (h : Classes P md) {b : ℕ} (hlo : 1 ≤ b) (hhi : b ≤ maxBucket) (newSize : ℕ) :
    (newSize ≤ userBytes md b ∧
      ((if b ≤ md.minbucket then 0 else userBytes md (b - 1)) = 0 ∨
        (if b ≤ md.minbucket then 0 else userBytes md (b - 1)) < newSize)) ↔
      sizeBucket md newSize = some b := by
  have hbuckets : b < NBUCKETS := by
    unfold maxBucket at hhi
    unfold NBUCKETS
    omega
  rw [h.sizeBucket_iff, h.userBytes_eq hlo hhi, h.minbucket]
  by_cases hfirst : b ≤ 1
  · rw [if_pos hfirst]
    constructor
    · rintro ⟨hfit, -⟩
      exact ⟨hlo, hbuckets, hfit, fun q hq hqb => by omega⟩
    · rintro ⟨-, -, hfit, -⟩
      exact ⟨hfit, .inl rfl⟩
  · rw [if_neg hfirst, h.userBytes_eq (by omega) (by omega)]
    have hpos : 0 < P.capacity (b - 1) := by
      have hlen := P.blockLen_ge (show 1 ≤ b - 1 by omega)
      unfold PageSize.capacity
      omega
    constructor
    · rintro ⟨hfit, hprev⟩
      refine ⟨hlo, hbuckets, hfit, fun q hq hqb => ?_⟩
      have hle := P.capacity_mono (show q ≤ b - 1 by omega)
      omega
    · rintro ⟨-, -, hfit, hleast⟩
      exact ⟨hfit, .inr (hleast (b - 1) (by omega) (by omega))⟩

end Classes

/-- A block that was cut for a bucket. -/
structure Cell where
  off : ℕ
  bucket : ℕ
deriving DecidableEq, Repr

def Cell.extent (P : PageSize) (c : Cell) : Extent := ⟨c.off, P.blockLen c.bucket⟩

/-- Cells one after the other. -/
def cells (bucket stride : ℕ) : ℕ → ℕ → List Cell
  | _, 0 => []
  | lo, n + 1 => ⟨lo, bucket⟩ :: cells bucket stride (lo + stride) n

namespace PageSize

variable (P : PageSize)

/-- The number of blocks that bsd_morecore cuts at once. -/
def count (bucket : ℕ) : ℕ := if bucket + 4 < P.order then 2 ^ (P.order - (bucket + 4)) else 1

/-- The bytes that bsd_morecore takes. -/
def amount (bucket : ℕ) : ℕ := P.count bucket * P.blockLen bucket

/-- The cells of a new piece of core. -/
def carve (lo bucket : ℕ) : List Cell := cells bucket (P.blockLen bucket) lo (P.count bucket)

theorem amount_eq (bucket : ℕ) :
    P.amount bucket =
      if bucket + 4 < P.order then P.bytes else 2 ^ (bucket + 4) + P.bytes := by
  unfold amount count blockLen
  split
  · rename_i hlt
    rw [← pow_add]
    unfold bytes
    congr 1
    omega
  · rw [one_mul]

theorem count_pos (bucket : ℕ) : 0 < P.count bucket := by
  unfold count
  split
  · positivity
  · exact one_pos

end PageSize

/-- The stride of the linking loop is the length of the cells wherever there is
more than one of them. -/
theorem carve_eq (P : PageSize) (lo b : ℕ) :
    P.carve lo b = cells b (2 ^ (b + 4)) lo (P.count b - 1 + 1) := by
  have hpos := P.count_pos b
  rw [Nat.sub_add_cancel hpos]
  unfold PageSize.carve PageSize.blockLen PageSize.count
  split <;> rfl

theorem count_mul_le (P : PageSize) (b : ℕ) :
    (P.count b - 1) * 2 ^ (b + 4) + 2 ^ (b + 4) ≤ P.amount b := by
  have hpos := P.count_pos b
  rw [← Nat.succ_mul, Nat.succ_eq_add_one, Nat.sub_add_cancel hpos]
  apply Nat.mul_le_mul_left
  unfold PageSize.blockLen
  split
  · exact le_rfl
  · exact Nat.le_add_right _ _

theorem mem_cells {bucket stride lo n : ℕ} {c : Cell} (h : c ∈ cells bucket stride lo n) :
    c.bucket = bucket ∧ lo ≤ c.off ∧ stride ∣ c.off - lo := by
  induction n generalizing lo with
  | zero => exact absurd h List.not_mem_nil
  | succ n ih =>
    rcases List.mem_cons.mp h with rfl | h
    · exact ⟨rfl, le_rfl, by simp⟩
    · obtain ⟨hb, hle, hdvd⟩ := ih h
      refine ⟨hb, by omega, ?_⟩
      have hsum : c.off - lo = c.off - (lo + stride) + stride := by omega
      rw [hsum]
      exact (Nat.dvd_add_right hdvd).mpr dvd_rfl

theorem tiles_cells (P : PageSize) (bucket lo n : ℕ) :
    Tiles lo (lo + n * P.blockLen bucket)
      ((cells bucket (P.blockLen bucket) lo n).map (Cell.extent P)) := by
  induction n generalizing lo with
  | zero => simp [cells, Tiles]
  | succ n ih =>
    refine ⟨rfl, ?_⟩
    have hrest := ih (lo + P.blockLen bucket)
    rw [Nat.add_assoc, Nat.add_comm (P.blockLen bucket), ← Nat.succ_mul] at hrest
    exact hrest

/-- The loop of bsd_morecore links the cells in address order and writes
nothing but their links. -/
theorem linkBlocks_spec (dtrs : Dtrs) (shmid : ℕ) {sz : ℕ} (hsz : 8 ≤ sz) (bucket n : ℕ)
    (mem : Mem) {lo : ℕ} (hlo : lo ≠ 0) (hhi : lo + n * sz < 2 ^ 64) :
    Linked (linkBlocks dtrs shmid sz n mem lo ((dtrs.shmmap shmid).mapping + lo)) lo
        ((cells bucket sz lo (n + 1)).map Cell.off) ∧
      OnlyAt mem (linkBlocks dtrs shmid sz n mem lo ((dtrs.shmmap shmid).mapping + lo)) lo
        (n * sz + 8) := by
  induction n generalizing mem lo with
  | zero =>
    rw [linkBlocks, ptrOffset_mapping_add]
    refine ⟨Linked.nil.push (by norm_num) hlo fun z hz => absurd hz List.not_mem_nil, ?_⟩
    simpa using onlyAt_store 8 mem lo 0
  | succ n ih =>
    have hsucc : (n + 1) * sz = n * sz + sz := Nat.succ_mul n sz
    rw [linkBlocks, ptrOffset_mapping_add, wrap64_of_lt (by omega), Nat.add_assoc]
    obtain ⟨hlink, honly⟩ := ih (store 8 mem lo (lo + sz)) (show lo + sz ≠ 0 by omega) (by omega)
    constructor
    · -- the rest of the list lies behind this cell, so its link is kept
      refine .cons hlo ?_
      rw [load_of_onlyAt honly (by omega), load_store_self mem lo (by simpa using by omega)]
      exact hlink
    · have hfirst := onlyAt_store 8 mem lo (lo + sz)
      exact (hfirst.mono le_rfl (by omega)).trans (honly.mono (by omega) (by omega))

namespace Classes

variable {P : PageSize} {md : BsdMd}

/-- bsd_morecore takes an amount from the core if there is so much left. -/
theorem bsdMorecore_eq (h : Classes P md) (dtrs : Dtrs) (mem : Mem) {b : ℕ} (hlo : 1 ≤ b)
    (hhi : b ≤ maxBucket) (hid : md.amd.self.dtShmid < dtrs.nshmsrc)
    (hcore : md.mycore + md.coreResid ≤ (dtrs.shmmap md.amd.self.dtShmid).size)
    (hseg : (dtrs.shmmap md.amd.self.dtShmid).size < 2 ^ 64) :
    bsdMorecore dtrs ⟨md, mem⟩ b =
      if md.coreResid < P.amount b then ⟨md, mem⟩
      else
        { md := { md with
            mycore := md.mycore + P.amount b
            coreResid := md.coreResid - P.amount b
            nextf := Function.update md.nextf b md.mycore }
          mem := linkBlocks dtrs md.amd.self.dtShmid (2 ^ (b + 4)) (P.count b - 1) mem md.mycore
            ((dtrs.shmmap md.amd.self.dtShmid).mapping + md.mycore) } := by
  have hhi' := hhi
  unfold maxBucket at hhi'
  have hle : 2 ^ (b + 4) ≤ 2 ^ 30 := Nat.pow_le_pow_right (by norm_num) (by omega)
  obtain ⟨hpage, hpage'⟩ := P.bytes_bounds
  have hamt : (if 2 ^ (b + 4) < P.bytes then P.bytes else wrap64 (2 ^ (b + 4) + P.bytes)) =
      P.amount b := by
    rw [P.amount_eq]
    simp only [P.bucket_lt_iff]
    split
    · rfl
    · generalize 2 ^ (b + 4) = m at hle ⊢
      exact wrap64_of_lt (by omega)
  have hnblks : (if 2 ^ (b + 4) < P.bytes then P.amount b / 2 ^ (b + 4) else 1) = P.count b := by
    unfold PageSize.amount PageSize.count PageSize.blockLen
    simp only [P.bucket_lt_iff]
    split
    · exact Nat.mul_div_cancel _ (by positivity)
    · rfl
  have hpos : 0 < P.amount b :=
    Nat.mul_pos (P.count_pos b) (by have := P.blockLen_ge hlo; omega)
  unfold bsdMorecore
  simp only [toU64_BUCKSIZE hhi, h.pagesz, hamt, hnblks, h.minbucket]
  rw [if_neg (by unfold NBUCKETS; omega)]
  by_cases hfull : md.coreResid < P.amount b
  · rw [if_pos hfull, if_pos hfull]
  · have hptr : _ → _ → _ → _ → shmref2ptr dtrs ⟨md.amd.self.dtShmid, md.mycore, P.amount b⟩
        (P.amount b) = _ := shmref2ptr_eq_some
    simp only at hptr
    rw [if_neg hfull, if_neg hfull, hptr hid (by omega) (by omega) le_rfl]
    simp only
    rw [wrap64_of_lt (by omega)]

end Classes

end Dthread.BsdBuckets
