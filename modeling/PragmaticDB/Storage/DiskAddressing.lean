import PragmaticDB.Storage.Disk

/-!
Where pages stand in a file. The offset is a product of two 32-bit `int`s, so it repeats every
`2 ^ 20` page ids, and the upper half of each period has negative offsets.
-/
namespace PragmaticDB
open ByteBlock DiskManager

theorem pageOffset_eq_emod (p : ℤ) : pageOffset p =
    if p % 1048576 < 524288 then 4096 * (p % 1048576) else 4096 * (p % 1048576) - 4294967296 := by
  unfold pageOffset
  rw [Int.bmod_def]
  split_ifs <;> omega

theorem pageOffset_nonneg {p : ℤ} : 0 ≤ pageOffset p ↔ p % 1048576 < 524288 := by
  rw [pageOffset_eq_emod]
  split_ifs <;> omega

/-- The file has all the bytes `ReadPage` asks for. -/
def DiskManager.Inside (dm : DiskManager) (q : ℤ) : Prop :=
  ∃ file, dm.file = some file ∧ 0 ≤ pageOffset q ∧ (pageOffset q).toNat + 4096 ≤ file.size

theorem DiskManager.Inside.onDisk {dm : DiskManager} {q : ℤ} (h : dm.Inside q) :
    dm.OnDisk q (dm.readPage q zeroPage) := by
  obtain ⟨file, hf, h0, hsize⟩ := h
  refine ⟨file, hf, h0, hsize, fun i hi => ?_⟩
  have hlt : (pageOffset q).toNat + i < file.size := by omega
  rw [Block.byte_of_lt _ hi]
  simp only [readPage, hf, if_neg (not_lt.mpr h0), hlt, if_true]

theorem DiskManager.OnDisk.inside {dm : DiskManager} {q : ℤ} {d : PageData}
    (h : dm.OnDisk q d) : dm.Inside q := by
  obtain ⟨file, hf, h0, hsize, -⟩ := h
  exact ⟨file, hf, h0, hsize⟩

theorem readPage_of_neg (dm : DiskManager) {p : ℤ} (h : pageOffset p < 0) (old : PageData) :
    dm.readPage p old = old := by
  unfold readPage
  cases dm.file with
  | none => rfl
  | some file => exact if_pos h

/-- `WritePage(p, d)` is read back from `p`, and a page `q` of the file reads as before. -/
def KeepsApart (p q : ℤ) : Prop :=
  ∀ dm : DiskManager, dm.plan = [] → ∀ d old : PageData,
    (dm.writePage p d).readPage p old = d ∧
    (dm.Inside q → (dm.writePage p d).readPage q old = dm.readPage q old)

/-- The two pages have ranges of the file of their own. -/
def OwnRanges (p q : ℤ) : Prop :=
  0 ≤ pageOffset p ∧ 0 ≤ pageOffset q ∧
    (pageOffset p + 4096 ≤ pageOffset q ∨ pageOffset q + 4096 ≤ pageOffset p)

/-- A page of ones. -/
def onesPage : PageData := Block.fill 4096 255

theorem onesPage_ne : onesPage ≠ zeroPage := by
  intro h
  have hcell := congrArg (fun d : PageData => d.cell 0) h
  exact absurd hcell (by decide)

theorem OwnRanges.keepsApart {p q : ℤ} (h : OwnRanges p q) : KeepsApart p q := by
  obtain ⟨hp, hq, hapart⟩ := h
  intro dm hdm d old
  refine ⟨readPage_of_onDisk (onDisk_writePage_of_nonneg hdm hp d) old, fun hin => ?_⟩
  have hbefore := hin.onDisk
  have hafter : (dm.writePage p d).OnDisk q (dm.readPage q zeroPage) :=
    hbefore.writePage_apart (.inr hapart)
  exact (readPage_of_onDisk hafter old).trans (readPage_of_onDisk hbefore old).symm

/-- A page with a negative offset is not read back. -/
theorem KeepsApart.nonneg {p q : ℤ} (h : KeepsApart p q) : 0 ≤ pageOffset p := by
  by_contra hneg
  have hread := (h ⟨[], none, []⟩ rfl onesPage zeroPage).1
  rw [readPage_of_neg _ (not_le.mp hneg)] at hread
  exact onesPage_ne hread.symm

/-- Two pages at one offset overwrite each other. -/
theorem KeepsApart.offset_ne {p q : ℤ} (h : KeepsApart p q) : pageOffset p ≠ pageOffset q := by
  intro heq
  have hq : 0 ≤ pageOffset q := heq ▸ h.nonneg
  have hbefore : (writePage ⟨[], none, []⟩ q zeroPage).OnDisk q zeroPage :=
    onDisk_writePage_of_nonneg rfl hq _
  have hplan : (writePage ⟨[], none, []⟩ q zeroPage).plan = [] := writePage_plan rfl q zeroPage
  have hafter := onDisk_writePage_of_nonneg hplan h.nonneg onesPage
  have hread := (h _ hplan onesPage zeroPage).2 hbefore.inside
  have hsame : ((writePage ⟨[], none, []⟩ q zeroPage).writePage p onesPage).readPage q zeroPage =
      onesPage := by
    unfold readPage
    rw [← heq]
    exact readPage_of_onDisk hafter zeroPage
  rw [hsame, readPage_of_onDisk hbefore] at hread
  exact onesPage_ne hread

theorem ownRanges_iff (p q : ℤ) : OwnRanges p q ↔
    p % 1048576 < 524288 ∧ q % 1048576 < 524288 ∧ p % 1048576 ≠ q % 1048576 := by
  unfold OwnRanges
  rw [pageOffset_nonneg, pageOffset_nonneg, pageOffset_eq_emod p, pageOffset_eq_emod q]
  constructor
  · rintro ⟨hp, hq, hapart⟩
    rw [if_pos hp, if_pos hq] at hapart
    exact ⟨hp, hq, by omega⟩
  · rintro ⟨hp, hq, hne⟩
    rw [if_pos hp, if_pos hq]
    exact ⟨hp, hq, by omega⟩

/-- Reads and writes of two pages keep apart, either way around, exactly if their ids modulo
`2 ^ 20` are different and below `2 ^ 19`, and then they have ranges of their own. -/
theorem keepsApart_iff (p q : ℤ) :
    (KeepsApart p q ∧ KeepsApart q p ↔
      p % 1048576 < 524288 ∧ q % 1048576 < 524288 ∧ p % 1048576 ≠ q % 1048576) ∧
    (OwnRanges p q ↔
      p % 1048576 < 524288 ∧ q % 1048576 < 524288 ∧ p % 1048576 ≠ q % 1048576) := by
  refine ⟨⟨?_, fun h => ?_⟩, ownRanges_iff p q⟩
  · rintro ⟨hpq, hqp⟩
    have hp := pageOffset_nonneg.mp hpq.nonneg
    have hq := pageOffset_nonneg.mp hqp.nonneg
    have hne := hpq.offset_ne
    rw [pageOffset_eq_emod p, pageOffset_eq_emod q, if_pos hp, if_pos hq] at hne
    exact ⟨hp, hq, fun heq => hne (by rw [heq])⟩
  · have hown : OwnRanges p q := (ownRanges_iff p q).mpr h
    have hswap : OwnRanges q p := ⟨hown.2.1, hown.1, hown.2.2.symm⟩
    exact ⟨hown.keepsApart, hswap.keepsApart⟩

/-- Page `2 ^ 19` is not read back, and page `2 ^ 20` is written over page 0. -/
theorem high_pages_lost : ¬ KeepsApart 524288 0 ∧ ¬ KeepsApart 1048576 0 := by
  constructor
  · intro h
    exact absurd (pageOffset_nonneg.mp h.nonneg) (by decide)
  · intro h
    exact h.offset_ne (by decide)

end PragmaticDB
