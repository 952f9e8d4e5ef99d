import Dthread.Segments

/-!
Where establish puts the metadata of a new segment. It checks the sum of the two
reserves in 64 bits, so reserves that are each larger than the segment can pass
the check, and the metadata are then written outside of the mapping.
-/
namespace Dthread.SegmentLayout

open ReqMsg MachineInts ShmRefs Segments

/-- The address that establish writes the metadata to when it initializes a segment, and
the metadata; `none` if it returns before that. -/
def establishWrite (pagesize : ℕ) (src : Shmsrc) (idx hint : ℕ) (sys : EstablishSys) :
    Option (ℕ × SegMd) :=
  (establishEntry pagesize src hint true sys).toOption.map fun entry =>
    (wrap64 (entry.mapping + entry.mdOffset), initMd pagesize src idx entry.mdOffset)

/-- The layout of a segment respects its reserves. -/
structure Respects (pagesize : ℕ) (src : Shmsrc) (idx hint : ℕ) (sys : EstablishSys) : Prop where
  layout : ∀ entry md, establish pagesize src idx hint true sys = .ok (entry, md) →
    (src.dtReserveFront ≤ entry.mdOffset ∧ entry.mdOffset < src.dtReserveFront + pagesize) ∧
    (entry.mapping + entry.mdOffset) % pagesize = 0 ∧
    entry.mdOffset + pagesize = md.firstAvail ∧ md.firstAvail < md.endAvail ∧
    md.endAvail = src.dtMmsize - src.dtReserveBack ∧ src.dtReserveBack ≤ src.dtMmsize
  metadata : ∀ entry md, establish pagesize src idx hint true sys = .ok (entry, md) →
    establishWrite pagesize src idx hint sys = some (entry.mapping + entry.mdOffset, md)
  between : ∀ addr md, establishWrite pagesize src idx hint sys = some (addr, md) →
    ∃ newmapping, establishMapping src hint true sys = .ok newmapping ∧
      newmapping + src.dtReserveFront ≤ addr ∧
      addr + pagesize ≤ newmapping + (src.dtMmsize - src.dtReserveBack)
  refused : src.dtMmsize < src.dtReserveFront + src.dtReserveBack + 2 * pagesize →
    establish pagesize src idx hint true sys = .error EINVAL ∧
      establishWrite pagesize src idx hint sys = none

variable {pagesize idx hint : ℕ} {src : Shmsrc} {sys : EstablishSys}

theorem refused_of_entry {e : ℕ} (h : establishEntry pagesize src hint true sys = .error e) :
    establish pagesize src idx hint true sys = .error e ∧
      establishWrite pagesize src idx hint sys = none := by
  unfold establish establishWrite
  rw [h]
  exact ⟨rfl, rfl⟩

/-- The checks of the sizes. -/
theorem refused_of_lt
    (h : src.dtMmsize < wrap64 (src.dtReserveFront + src.dtReserveBack) + 2 * pagesize) :
    establish pagesize src idx hint true sys = .error EINVAL ∧
      establishWrite pagesize src idx hint sys = none := by
  apply refused_of_entry
  unfold establishEntry
  simp only
  by_cases hreserve : src.dtMmsize ≤ wrap64 (src.dtReserveFront + src.dtReserveBack)
  · rw [if_pos hreserve]
  · rw [if_neg hreserve, if_pos (by omega)]

/-- A segment that could not be mapped is not written to. -/
theorem unmapped {e : ℕ} (hmap : establishMapping src hint true sys = .error e)
    (hpass : wrap64 (src.dtReserveFront + src.dtReserveBack) + 2 * pagesize ≤ src.dtMmsize)
    (hpage : 0 < pagesize) :
    establish pagesize src idx hint true sys = .error e ∧
      establishWrite pagesize src idx hint sys = none := by
  apply refused_of_entry
  unfold establishEntry
  simp only [hmap]
  rw [if_neg (by omega), if_neg (by omega)]

theorem establishWrite_eq {newmapping : ℕ}
    (hmap : establishMapping src hint true sys = .ok newmapping)
    (hpass : wrap64 (src.dtReserveFront + src.dtReserveBack) + 2 * pagesize ≤ src.dtMmsize)
    (hpage : 0 < pagesize) :
    establishWrite pagesize src idx hint sys =
      some (wrap64 (newmapping + mdOffset pagesize src newmapping),
        initMd pagesize src idx (mdOffset pagesize src newmapping)) := by
  unfold establishWrite establishEntry
  simp only [hmap]
  rw [if_neg (by omega), if_neg (by omega)]
  rfl

theorem establishWrite_some {addr : ℕ} {md : SegMd}
    (h : establishWrite pagesize src idx hint sys = some (addr, md)) :
    wrap64 (src.dtReserveFront + src.dtReserveBack) + 2 * pagesize ≤ src.dtMmsize ∧
      ∃ newmapping, establishMapping src hint true sys = .ok newmapping ∧
        addr = wrap64 (newmapping + mdOffset pagesize src newmapping) := by
  unfold establishWrite at h
  cases hentry : establishEntry pagesize src hint true sys with
  | error e =>
    rw [hentry] at h
    simp [Except.toOption] at h
  | ok entry =>
    rw [hentry] at h
    obtain ⟨haddr, -⟩ := Prod.mk.inj (Option.some.inj h)
    obtain ⟨hroom, hmap, hoff, -⟩ := establishEntry_ok hentry
    refine ⟨by omega, entry.mapping, hmap, ?_⟩
    rw [← haddr, hoff]

/-- The padding that establish adds takes an address to the next page boundary. -/
theorem pad_spec (addr : ℕ) (hpage : 0 < pagesize) :
    ∃ pad, (if addr % pagesize = 0 then 0 else pagesize - addr % pagesize) = pad ∧
      pad < pagesize ∧ (addr + pad) % pagesize = 0 := by
  refine ⟨_, rfl, ?_⟩
  have hrem := Nat.mod_lt addr hpage
  by_cases hzero : addr % pagesize = 0
  · rw [if_pos hzero]
    exact ⟨hpage, hzero⟩
  · rw [if_neg hzero]
    refine ⟨by omega, ?_⟩
    have hsum : addr % pagesize + (pagesize - addr % pagesize) = pagesize := by omega
    rw [← Nat.mod_add_mod, hsum, Nat.mod_self]

/-- In a mapping that does not reach the end of the address space, the metadata are at
the first page boundary behind the front reserve. -/
theorem mdOffset_exact (src : Shmsrc) (newmapping : ℕ) (hpage : 0 < pagesize)
    (hfit : newmapping + src.dtReserveFront + pagesize ≤ 2 ^ 64) :
    src.dtReserveFront ≤ mdOffset pagesize src newmapping ∧
      mdOffset pagesize src newmapping < src.dtReserveFront + pagesize ∧
      (newmapping + mdOffset pagesize src newmapping) % pagesize = 0 := by
  obtain ⟨pad, hpad, hlt, hal⟩ := pad_spec (newmapping + src.dtReserveFront) hpage
  have hoff : mdOffset pagesize src newmapping = src.dtReserveFront + pad := by
    have hsum : wrap64 (newmapping + src.dtReserveFront) = newmapping + src.dtReserveFront :=
      wrap64_of_lt (by omega)
    unfold mdOffset
    simp only [hsum, hpad]
    rw [wrap64_of_lt (by omega), sub64_of_le (by omega) (by omega)]
    omega
  rw [hoff]
  refine ⟨by omega, by omega, ?_⟩
  rw [← Nat.add_assoc]
  exact hal

/-- Reserves whose sum does not wrap are respected. -/
theorem respects_of_lt (hpage : 0 < pagesize) (hsize : src.dtMmsize < 2 ^ 64)
    (haddr : ∀ newmapping, establishMapping src hint true sys = .ok newmapping →
      newmapping + src.dtMmsize ≤ 2 ^ 64)
    (hsum : src.dtReserveFront + src.dtReserveBack < 2 ^ 64) :
    Respects pagesize src idx hint sys := by
  have hwrap : wrap64 (src.dtReserveFront + src.dtReserveBack) =
      src.dtReserveFront + src.dtReserveBack := wrap64_of_lt hsum
  refine ⟨?_, ?_, ?_, ?_⟩
  · intro entry md hok
    obtain ⟨hroom, hmap, hoff, -, hinit⟩ := establish_ok hok
    obtain ⟨hmd, hlt⟩ := hinit rfl
    have hfit := haddr _ hmap
    obtain ⟨hlo, hhi, hal⟩ := mdOffset_exact src entry.mapping hpage (by omega)
    rw [← hoff] at hlo hhi hal
    have hend : md.endAvail = src.dtMmsize - src.dtReserveBack := by
      rw [hmd]
      exact sub64_of_le (by omega) hsize
    have hfirst : md.firstAvail = entry.mdOffset + pagesize := by
      rw [hmd]
      exact wrap64_of_lt (by omega)
    exact ⟨⟨hlo, hhi⟩, hal, hfirst.symm, hlt, hend, by omega⟩
  · intro entry md hok
    obtain ⟨hroom, hmap, hoff, -, hinit⟩ := establish_ok hok
    obtain ⟨hmd, -⟩ := hinit rfl
    have hfit := haddr _ hmap
    obtain ⟨-, hhi, -⟩ := mdOffset_exact src entry.mapping hpage (by omega)
    rw [establishWrite_eq hmap (by omega) hpage, hmd, hoff, wrap64_of_lt (by omega)]
  · intro addr md hwrite
    obtain ⟨hroom, newmapping, hmap, rfl⟩ := establishWrite_some hwrite
    have hfit := haddr newmapping hmap
    obtain ⟨hlo, hhi, -⟩ := mdOffset_exact src newmapping hpage (by omega)
    refine ⟨newmapping, hmap, ?_⟩
    rw [wrap64_of_lt (by omega)]
    omega
  · intro hlt
    exact refused_of_lt (by omega)

theorem respects_of_refused
    (h : establish pagesize src idx hint true sys = .error EINVAL ∧
      establishWrite pagesize src idx hint sys = none) : Respects pagesize src idx hint sys := by
  refine ⟨?_, ?_, ?_, fun _ => h⟩
  · intro entry md hok
    rw [h.1] at hok
    simp at hok
  · intro entry md hok
    rw [h.1] at hok
    simp at hok
  · intro addr md hwrite
    rw [h.2] at hwrite
    simp at hwrite

/-- A segment's layout respects the reserves exactly if their sum does not wrap, unless
the wrapped sum is refused or the source is. -/
theorem layout_respects_reserves_iff (hpage : 0 < pagesize) (hsize : src.dtMmsize < 2 ^ 64)
    (haddr : ∀ newmapping, establishMapping src hint true sys = .ok newmapping →
      newmapping + src.dtMmsize ≤ 2 ^ 64) :
    Respects pagesize src idx hint sys ↔
      src.dtReserveFront + src.dtReserveBack < 2 ^ 64 ∨
      src.dtMmsize < wrap64 (src.dtReserveFront + src.dtReserveBack) + 2 * pagesize ∨
      establishMapping src hint true sys = .error EINVAL := by
  constructor
  · intro hres
    by_contra hcond
    push Not at hcond
    obtain ⟨hwrap, hpass, hmapped⟩ := hcond
    obtain ⟨hinval, hnone⟩ := hres.refused (by omega)
    cases hmap : establishMapping src hint true sys with
    | error e =>
      rw [(unmapped hmap hpass hpage).1] at hinval
      rw [hmap, Except.error.inj hinval] at hmapped
      exact hmapped rfl
    | ok newmapping =>
      rw [establishWrite_eq hmap hpass hpage] at hnone
      simp at hnone
  · rintro (hsum | hcheck | hmap)
    · exact respects_of_lt hpage hsize haddr hsum
    · exact respects_of_refused (refused_of_lt hcheck)
    · by_cases hpass : wrap64 (src.dtReserveFront + src.dtReserveBack) + 2 * pagesize ≤ src.dtMmsize
      · exact respects_of_refused (unmapped hmap hpass hpage)
      · exact respects_of_refused (refused_of_lt (not_le.mp hpass))

/-- A file of eight pages behind a reserve of 100 bytes, mapped off a page boundary. -/
def smallSrc : Shmsrc := ⟨DTHREAD_SRC_FILE, 0, 32768, 0, 100, 200⟩

def smallSys : EstablishSys :=
  ⟨0, .ok 0, 0, fun _ => .ok 65552, 0, ⟨0, ⟨0, 0, 0⟩, 0, 0, 0, 0⟩⟩

theorem layout_respects_reserves_iff_small :
    establish 4096 smallSrc 0 0 true smallSys =
        .ok (⟨65552, 4080, 32768⟩, ⟨DTHREAD_SEG_MD_MAGIC, ⟨0, 0, 32768⟩, 2, 0, 8176, 32568⟩) ∧
      Respects 4096 smallSrc 0 0 smallSys := by
  refine ⟨by rfl, ?_⟩
  refine (layout_respects_reserves_iff (by norm_num) (by decide) ?_).mpr (.inl (by decide))
  intro newmapping hmap
  obtain rfl : newmapping = 65552 := (Except.ok.inj hmap).symm
  decide

/-- Reserves of nearly 2^64 and of two pages pass the checks of a segment of 64 KiB, and
its metadata are written to the page before the mapping. -/
theorem reserves_wrap :
    establish 4096 ⟨DTHREAD_SRC_FILE, 0, 65536, 0, 2 ^ 64 - 4096, 8192⟩ 0 0 true
        ⟨0, .ok 65536, 0, fun _ => .ok 131072, 0, ⟨0, ⟨0, 0, 0⟩, 0, 0, 0, 0⟩⟩ =
      .ok (⟨131072, 2 ^ 64 - 4096, 65536⟩,
        ⟨DTHREAD_SEG_MD_MAGIC, ⟨0, 0, 65536⟩, 2, 0, 0, 57344⟩) ∧
    (establishWrite 4096 ⟨DTHREAD_SRC_FILE, 0, 65536, 0, 2 ^ 64 - 4096, 8192⟩ 0 0
        ⟨0, .ok 65536, 0, fun _ => .ok 131072, 0, ⟨0, ⟨0, 0, 0⟩, 0, 0, 0, 0⟩⟩).map Prod.fst =
      some (131072 - 4096) := by
  refine ⟨by rfl, by rfl⟩

end Dthread.SegmentLayout
