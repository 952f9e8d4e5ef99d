import Dthread.FreeByRef

/-!
Pointers and references to shared memory (dthread_ptr2shmref and
dthread_shmref2ptr of dt_ops.c) convert into each other, and xthread_pointer_proc
of xthread.c carries a pointer from a rank to another in the union of an argret.
-/
namespace Dthread.PointerRefs

open ReqMsg ShmRefs Arenas FreeByRef

/-- The `k` low bytes of a number, little-endian. -/
def wordBytes : ℕ → ℕ → List ℕ
  | 0, _ => []
  | k + 1, n => n % 256 :: wordBytes k (n / 256)

/-- The union of an argret after u.dt_shm was written. -/
def storeShm (u : List ℕ) (ref : Shmref) : List ℕ :=
  wordBytes 8 ref.dtShmid ++ wordBytes 8 ref.dtOffset ++ wordBytes 8 ref.dtLength ++ u.drop 24

def loadShm (u : List ℕ) : Shmref where
  dtShmid := Nat.ofDigits 256 (u.take 8)
  dtOffset := Nat.ofDigits 256 ((u.drop 8).take 8)
  dtLength := Nat.ofDigits 256 ((u.drop 16).take 8)

/-- The DTHREAD_PROC operations. -/
inductive ProcOp
  | encode
  | decode
  | free
  | other (op : ℕ)
deriving DecidableEq, Repr

/-- The return value of a proc function, the argret and the pointer variable. -/
structure ProcResult where
  rv : ℕ
  argret : Option Argret
  pointer : Option ℕ
deriving DecidableEq, Repr

/-- The first branch of xthread_pointer_proc. The type is set before the pointer
is looked up. -/
def encodePointer (dtrs : Dtrs) (a : Argret) (p : ℕ) : ProcResult :=
  if p = 0 then ⟨0, some { a with dtArgretType := DTHREAD_NODATA }, some p⟩
  else
    match ptr2shmref dtrs p 0 with
    | none => ⟨EINVAL, some { a with dtArgretType := DTHREAD_SHMREF }, some p⟩
    | some ref =>
      ⟨0, some { a with dtArgretType := DTHREAD_SHMREF, u := storeShm a.u ref }, some p⟩

def decodePointer (dtrs : Dtrs) (a : Argret) (pointer : Option ℕ) : ProcResult :=
  if a.dtArgretType = DTHREAD_NODATA then ⟨0, some a, pointer.map fun _ => 0⟩
  else if a.dtArgretType ≠ DTHREAD_SHMREF then ⟨EINVAL, some a, pointer⟩
  else
    match pointer with
    | none => ⟨0, some a, none⟩
    | some _ =>
      let p := (shmref2ptr dtrs (loadShm a.u) 0).getD 0
      ⟨if p = 0 then EINVAL else 0, some a, some p⟩

/-- xthread_pointer_proc. A null argument is `none`, and a null pointer in the
variable is address 0. -/
def xthreadPointerProc (dtrs : Dtrs) (op : ProcOp) (argret : Option Argret)
    (pointer : Option ℕ) : ProcResult :=
  match argret with
  | none => ⟨EINVAL, none, pointer⟩
  | some a =>
    match op with
    | .encode =>
      match pointer with
      | none => ⟨EINVAL, some a, none⟩
      | some p => encodePointer dtrs a p
    | .decode => decodePointer dtrs a pointer
    | .free => ⟨0, some a, pointer⟩
    | .other _ => ⟨EINVAL, some a, pointer⟩

/-- The segments of a rank: their number is an int, and they lie apart in the
64-bit address space. -/
structure Mapped (dtrs : Dtrs) : Prop where
  count : dtrs.nshmsrc < 2 ^ 31
  apart : DisjointMaps dtrs
  nowrap : ∀ i < dtrs.nshmsrc, (dtrs.shmmap i).mapping + (dtrs.shmmap i).size ≤ 2 ^ 64

/-- Two ranks have the same segments, at whatever addresses. -/
structure SameSegments (dtrs dtrs' : Dtrs) : Prop where
  count : dtrs'.nshmsrc = dtrs.nshmsrc
  size : ∀ i < dtrs.nshmsrc, (dtrs'.shmmap i).size = (dtrs.shmmap i).size

/-- The pointer is that to offset `off` of segment `shmid`. -/
def PointsTo (dtrs : Dtrs) (p shmid off : ℕ) : Prop :=
  shmid < dtrs.nshmsrc ∧ off < (dtrs.shmmap shmid).size ∧ p = (dtrs.shmmap shmid).mapping + off

section Words

theorem length_wordBytes (k n : ℕ) : (wordBytes k n).length = k := by
  induction k generalizing n with
  | zero => rfl
  | succ k ih => rw [wordBytes, List.length_cons, ih]

theorem ofDigits_wordBytes (k : ℕ) {n : ℕ} (h : n < 256 ^ k) :
    Nat.ofDigits 256 (wordBytes k n) = n := by
  induction k generalizing n with
  | zero =>
    obtain rfl : n = 0 := by simpa using h
    rfl
  | succ k ih =>
    have hdiv : n / 256 < 256 ^ k := by
      apply Nat.div_lt_of_lt_mul
      rwa [pow_succ, Nat.mul_comm] at h
    rw [wordBytes, Nat.ofDigits_cons, ih hdiv]
    exact Nat.mod_add_div n 256

/-- A reference with 64-bit fields is read back from the union. -/
theorem loadShm_storeShm (u : List ℕ) {ref : Shmref} (hid : ref.dtShmid < 2 ^ 64)
    (hoff : ref.dtOffset < 2 ^ 64) (hlen : ref.dtLength < 2 ^ 64) :
    loadShm (storeShm u ref) = ref := by
  have hwidth : (2 : ℕ) ^ 64 = 256 ^ 8 := by norm_num
  rw [hwidth] at hid hoff hlen
  have hid8 := length_wordBytes 8 ref.dtShmid
  have hoff8 := length_wordBytes 8 ref.dtOffset
  have hlen8 := length_wordBytes 8 ref.dtLength
  have h1 : (storeShm u ref).take 8 = wordBytes 8 ref.dtShmid := by
    rw [storeShm, List.append_assoc, List.append_assoc, List.take_left' hid8]
  have h2 : ((storeShm u ref).drop 8).take 8 = wordBytes 8 ref.dtOffset := by
    rw [storeShm, List.append_assoc, List.append_assoc, List.drop_left' hid8,
      List.take_left' hoff8]
  have h3 : ((storeShm u ref).drop 16).take 8 = wordBytes 8 ref.dtLength := by
    rw [storeShm, List.append_assoc, List.drop_left' (by rw [List.length_append, hid8, hoff8]),
      List.take_left' hlen8]
  rw [loadShm, h1, h2, h3, ofDigits_wordBytes 8 hid, ofDigits_wordBytes 8 hoff,
    ofDigits_wordBytes 8 hlen]

end Words

section References

variable {dtrs dtrs' : Dtrs} {ref : Shmref} {p len : ℕ}

/-- What a successful dthread_ptr2shmref has found. -/
theorem ptr2shmref_spec (h : ptr2shmref dtrs p len = some ref) :
    PointsTo dtrs p ref.dtShmid ref.dtOffset ∧
      ref.dtOffset + len ≤ (dtrs.shmmap ref.dtShmid).size ∧ ref.dtLength = len := by
  unfold ptr2shmref at h
  split at h
  · simp at h
  · rename_i shmid hfind
    have hin := List.find?_some hfind
    have hid := List.mem_range.mp (List.mem_of_find?_eq_some hfind)
    simp only [decide_eq_true_eq] at hin
    by_cases hlong : (dtrs.shmmap shmid).size - (p - (dtrs.shmmap shmid).mapping) < len
    · simp [hlong] at h
    · simp only [hlong, if_false, Option.some.injEq] at h
      subst h
      refine ⟨⟨hid, hin.2, ?_⟩, ?_, rfl⟩
      · exact (Nat.add_sub_cancel' hin.1).symm
      · change p - (dtrs.shmmap shmid).mapping + len ≤ (dtrs.shmmap shmid).size
        omega

theorem PointsTo.ptr2shmref {shmid off : ℕ} (h : PointsTo dtrs p shmid off)
    (hmaps : DisjointMaps dtrs) : ptr2shmref dtrs p 0 = some ⟨shmid, off, 0⟩ := by
  obtain ⟨hid, hoff, rfl⟩ := h
  exact ptr2shmref_eq hmaps hid hoff (by omega)

/-- A reference made from a pointer leads back to it. -/
theorem shmref2ptr_of_ptr2shmref (h : Arenas.ptr2shmref dtrs p len = some ref) :
    shmref2ptr dtrs ref len = some p := by
  obtain ⟨⟨hid, hoff, hp⟩, hend, hlen⟩ := ptr2shmref_spec h
  rw [shmref2ptr_eq_some hid hoff (by omega) (by omega), hp]

/-- A pointer made from a reference gives the reference back, for its own length. -/
theorem ptr2shmref_of_shmref2ptr (hmaps : DisjointMaps dtrs)
    (h : shmref2ptr dtrs ref len = some p) :
    Arenas.ptr2shmref dtrs p ref.dtLength = some ref := by
  obtain ⟨hid, hoff, hend, -, rfl⟩ := shmref2ptr_spec h
  exact ptr2shmref_eq hmaps hid hoff hend

/-- The bytes that a checked reference gives access to lie in the mapping. -/
theorem shmref2ptr_inside (hmap : Mapped dtrs) (h : shmref2ptr dtrs ref len = some p) :
    (dtrs.shmmap ref.dtShmid).mapping ≤ p ∧
      p + max len ref.dtLength ≤
        (dtrs.shmmap ref.dtShmid).mapping + (dtrs.shmmap ref.dtShmid).size ∧
      p < 2 ^ 64 ∧ p + max len ref.dtLength ≤ 2 ^ 64 := by
  obtain ⟨hid, hoff, hend, hwant, rfl⟩ := shmref2ptr_spec h
  have hwrap := hmap.nowrap ref.dtShmid hid
  rw [max_eq_right hwant]
  omega

end References

section Pointers

variable {dtrs dtrs' : Dtrs} {p : ℕ}

theorem encode_pointsTo (hmap : Mapped dtrs) (a : Argret) (hp : p ≠ 0) {shmid off : ℕ}
    (h : PointsTo dtrs p shmid off) :
    xthreadPointerProc dtrs .encode (some a) (some p) =
      ⟨0, some ⟨DTHREAD_SHMREF, a.dtInlinelen, storeShm a.u ⟨shmid, off, 0⟩⟩, some p⟩ := by
  change encodePointer dtrs a p = _
  rw [encodePointer, if_neg hp, h.ptr2shmref hmap.apart]

/-- A pointer that is encoded points into a segment. -/
theorem pointsTo_of_encode (a : Argret) (hp : p ≠ 0)
    (h : (xthreadPointerProc dtrs .encode (some a) (some p)).rv = 0) :
    ∃ shmid off, PointsTo dtrs p shmid off := by
  change (encodePointer dtrs a p).rv = 0 at h
  rw [encodePointer, if_neg hp] at h
  cases href : Arenas.ptr2shmref dtrs p 0 with
  | none =>
    rw [href] at h
    change EINVAL = 0 at h
    exact absurd h (by decide)
  | some ref => exact ⟨_, _, (ptr2shmref_spec href).1⟩

theorem decode_stored (hmap : Mapped dtrs) (hsame : SameSegments dtrs dtrs') {a : Argret}
    {shmid off : ℕ} (u : List ℕ) (hid : shmid < dtrs.nshmsrc)
    (hoff : off < (dtrs.shmmap shmid).size) (htype : a.dtArgretType = DTHREAD_SHMREF)
    (hu : a.u = storeShm u ⟨shmid, off, 0⟩) (old : ℕ) :
    xthreadPointerProc dtrs' .decode (some a) (some old) =
      ⟨if (dtrs'.shmmap shmid).mapping + off = 0 then EINVAL else 0, some a,
        some ((dtrs'.shmmap shmid).mapping + off)⟩ := by
  have hwrap := hmap.nowrap shmid hid
  have hcount := hmap.count
  have hload : loadShm a.u = ⟨shmid, off, 0⟩ := by
    rw [hu]
    exact loadShm_storeShm u (by simp only; omega) (by simp only; omega) (by norm_num)
  have hoff' : off < (dtrs'.shmmap shmid).size := by rwa [hsame.size shmid hid]
  have hptr : shmref2ptr dtrs' ⟨shmid, off, 0⟩ 0 = some ((dtrs'.shmmap shmid).mapping + off) :=
    shmref2ptr_eq_some (hsame.count ▸ hid) hoff' hoff'.le (le_refl 0)
  change decodePointer dtrs' a (some old) = _
  rw [decodePointer, htype, hload, hptr]
  rfl

/-- Encode a pointer on a rank and decode it on another. -/
def carryPointer (dtrs dtrs' : Dtrs) (a : Argret) (p old : ℕ) : ProcResult :=
  xthreadPointerProc dtrs' .decode (xthreadPointerProc dtrs .encode (some a) (some p)).argret
    (some old)

theorem carryPointer_null (dtrs dtrs' : Dtrs) (a : Argret) (old : ℕ) :
    (carryPointer dtrs dtrs' a 0 old).rv = 0 ∧
      (carryPointer dtrs dtrs' a 0 old).pointer = some 0 := ⟨rfl, rfl⟩

theorem carryPointer_pointsTo (hmap : Mapped dtrs) (hsame : SameSegments dtrs dtrs') (a : Argret)
    (old : ℕ) (hp : p ≠ 0) {shmid off : ℕ} (h : PointsTo dtrs p shmid off) :
    (carryPointer dtrs dtrs' a p old).rv =
        (if (dtrs'.shmmap shmid).mapping + off = 0 then EINVAL else 0) ∧
      (carryPointer dtrs dtrs' a p old).pointer = some ((dtrs'.shmmap shmid).mapping + off) := by
  unfold carryPointer
  rw [encode_pointsTo hmap a hp h, decode_stored hmap hsame a.u h.1 h.2.1 rfl rfl old]
  exact ⟨rfl, rfl⟩

end Pointers

/-- Pointers into shared memory and references to it stand for the same places:
on one rank they convert back and forth, a checked reference stays in its
mapping, and between ranks xthread_pointer_proc keeps segment and offset. -/
theorem pointers_convert (dtrs : Dtrs) (hmap : Mapped dtrs) :
    (∀ p len ref, ptr2shmref dtrs p len = some ref → shmref2ptr dtrs ref len = some p) ∧
    (∀ ref l p, shmref2ptr dtrs ref l = some p →
      ((dtrs.shmmap ref.dtShmid).mapping ≤ p ∧
        p + max l ref.dtLength ≤
          (dtrs.shmmap ref.dtShmid).mapping + (dtrs.shmmap ref.dtShmid).size ∧
        p < 2 ^ 64 ∧ p + max l ref.dtLength ≤ 2 ^ 64) ∧
      ptr2shmref dtrs p ref.dtLength = some ref) ∧
    (∀ dtrs', Mapped dtrs' → SameSegments dtrs dtrs' → ∀ a old,
      ((carryPointer dtrs dtrs' a 0 old).rv = 0 ∧
        (carryPointer dtrs dtrs' a 0 old).pointer = some 0) ∧
      ∀ p ≠ 0,
        ((xthreadPointerProc dtrs .encode (some a) (some p)).rv = 0 ↔
          ∃ shmid off, PointsTo dtrs p shmid off) ∧
        ∀ shmid off, PointsTo dtrs p shmid off →
          (carryPointer dtrs dtrs' a p old).pointer = some ((dtrs'.shmmap shmid).mapping + off) ∧
          (carryPointer dtrs dtrs' a p old).rv =
            if (dtrs'.shmmap shmid).mapping + off = 0 then EINVAL else 0) := by
  refine ⟨fun p len ref h => shmref2ptr_of_ptr2shmref h, fun ref l p h =>
    ⟨shmref2ptr_inside hmap h, ptr2shmref_of_shmref2ptr hmap.apart h⟩, ?_⟩
  intro dtrs' _ hsame a old
  refine ⟨carryPointer_null dtrs dtrs' a old, fun p hp => ⟨⟨pointsTo_of_encode a hp, ?_⟩, ?_⟩⟩
  · rintro ⟨shmid, off, h⟩
    rw [encode_pointsTo hmap a hp h]
  · intro shmid off h
    exact (carryPointer_pointsTo hmap hsame a old hp h).symm

/-- Two ranks that map a segment of 4096 bytes at different addresses. -/
def lowMaps : Dtrs := ⟨1, fun _ => ⟨0x10000, 0, 4096⟩⟩

def highMaps : Dtrs := ⟨1, fun _ => ⟨0x70000, 0, 4096⟩⟩

theorem pointers_convert_lowMaps :
    shmref2ptr lowMaps ⟨0, 8, 16⟩ 16 = some 0x10008 ∧
      (carryPointer lowMaps highMaps .zero 0x10008 0).pointer = some 0x70008 := by
  have hmap (addr : ℕ) (haddr : addr ≤ 0x70000) : Mapped ⟨1, fun _ => ⟨addr, 0, 4096⟩⟩ := by
    refine ⟨by norm_num, fun i hi j hj hne => ?_, fun i _ => ?_⟩
    · simp only at hi hj
      omega
    · simp only
      omega
  obtain ⟨hback, -, hcarry⟩ := pointers_convert lowMaps (hmap _ (by decide))
  have hranks := hcarry highMaps (hmap _ (by decide)) ⟨rfl, fun _ _ => rfl⟩ .zero 0
  exact ⟨hback _ _ _ rfl, ((hranks.2 0x10008 (by decide)).2 0 8 ⟨by decide, by decide, rfl⟩).1⟩

end Dthread.PointerRefs
