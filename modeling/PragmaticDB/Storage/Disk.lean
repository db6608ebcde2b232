import PragmaticDB.Lib.Block

/-!
Pages and the file they live in. A table file holds page `p` at byte `4096 * p`, an offset
the code computes in 32-bit `int`.
-/
namespace PragmaticDB
open ByteBlock

/-- `INVALID_PAGE_ID`. Page ids (`page_id_t`) are plain integers here; the 32 bits they have in
the code matter in `pageOffset` only. -/
def invalidPageId : ℤ := -1

theorem ne_invalid_of_nonneg {p : ℤ} (h : 0 ≤ p) : p ≠ invalidPageId := by
  unfold invalidPageId
  omega

/-- The `PAGE_SIZE` bytes of a page. -/
abbrev PageData := Block 4096

def zeroPage : PageData := Block.fill 4096 0

/-- The content of a file: its length and its bytes. -/
structure File where
  size : ℕ
  byte : ℕ → UInt8

def File.empty : File := ⟨0, fun _ => 0⟩

/-- The first `k` bytes of a page written at `off`; a gap behind the old end reads as zeros. -/
def File.write (file : File) (off k : ℕ) (data : PageData) : File where
  size := if k = 0 then file.size else max file.size (off + k)
  byte i := if off ≤ i ∧ i < off + k then data.byte (i - off)
    else if i < file.size then file.byte i else 0

/-- What happens to one `WritePage` below the code. -/
inductive WriteOutcome where
  | ok
  | openFails
  | stopsAfter (k : ℕ)
  deriving DecidableEq

/-- The manager of one file. `plan` lists what happens to its next writes; past its end all
of them succeed. -/
structure DiskManager where
  filename : List UInt8
  file : Option File
  plan : List WriteOutcome

/-- `PAGE_SIZE * page_id` in wrapping 32-bit arithmetic. -/
def pageOffset (p : ℤ) : ℤ := Int.bmod (4096 * p) 4294967296

/-- Seeking to a negative offset fails, and the write after it then does nothing. -/
def File.writeAt (file : File) (off : ℤ) (k : ℕ) (data : PageData) : File :=
  if off < 0 then file else file.write off.toNat k data

/-- Bytes behind or before the page that is written stay. -/
theorem File.writeAt_apart (file : File) {off : ℤ} {k a : ℕ} (data : PageData) (hk : k ≤ 4096)
    (h : off < 0 ∨ off + 4096 ≤ a ∨ (a : ℤ) + 4096 ≤ off) (hsize : a + 4096 ≤ file.size) :
    a + 4096 ≤ (file.writeAt off k data).size ∧
      ∀ i < 4096, (file.writeAt off k data).byte (a + i) = file.byte (a + i) := by
  unfold writeAt write
  split_ifs with hneg hzero
  · exact ⟨hsize, fun _ _ => rfl⟩
  · refine ⟨hsize, fun i hi => ?_⟩
    simp only [hzero]
    rw [if_neg (by omega), if_pos (by omega)]
  · refine ⟨hsize.trans (le_max_left _ _), fun i hi => ?_⟩
    simp only
    rw [if_neg (by omega), if_pos (by omega)]

namespace DiskManager

/-- A file that cannot be opened for update is created empty first. -/
def writePage (dm : DiskManager) (p : ℤ) (data : PageData) : DiskManager :=
  let file := dm.file.getD File.empty
  match dm.plan with
  | [] => { dm with file := some (file.writeAt (pageOffset p) 4096 data) }
  | .ok :: plan => { dm with file := some (file.writeAt (pageOffset p) 4096 data), plan }
  | .openFails :: plan => { dm with plan }
  | .stopsAfter k :: plan =>
    { dm with file := some (file.writeAt (pageOffset p) (min k 4096) data), plan }

/-- Bytes the file does not have leave the buffer as it was: all of it when there is no such
file or the seek fails, its tail when the read is short. -/
def readPage (dm : DiskManager) (p : ℤ) (old : PageData) : PageData :=
  match dm.file with
  | none => old
  | some file =>
    if pageOffset p < 0 then old
    else ⟨fun i => let at' := (pageOffset p).toNat + i.val
      if at' < file.size then file.byte at' else old.cell i⟩

/-- The file holds page `p` in full, with these bytes. -/
def OnDisk (dm : DiskManager) (p : ℤ) (data : PageData) : Prop :=
  ∃ file, dm.file = some file ∧ 0 ≤ pageOffset p ∧ (pageOffset p).toNat + 4096 ≤ file.size ∧
    ∀ i < 4096, file.byte ((pageOffset p).toNat + i) = data.byte i

/-- Ids whose offset the 32-bit product gets right. -/
def Addressable (p : ℤ) : Prop := 0 ≤ p ∧ p < 524288

theorem pageOffset_eq {p : ℤ} (h : Addressable p) : pageOffset p = 4096 * p := by
  obtain ⟨h0, h1⟩ := h
  unfold pageOffset
  rw [Int.bmod_def]
  omega

/-- Below `2 ^ 20` an offset is negative or right, so it is nobody else's. -/
theorem pageOffset_apart {p q : ℤ} (h0 : 0 ≤ p) (hlt : p < 1048576) (hq : Addressable q)
    (hne : p ≠ q) : pageOffset p < 0 ∨
      pageOffset p + 4096 ≤ pageOffset q ∨ pageOffset q + 4096 ≤ pageOffset p := by
  rw [pageOffset_eq hq]
  rcases lt_or_ge p 524288 with hp | hp
  · rw [pageOffset_eq ⟨h0, hp⟩]
    omega
  · unfold pageOffset
    rw [Int.bmod_def]
    omega

theorem readPage_of_onDisk {dm : DiskManager} {p : ℤ} {data : PageData}
    (h : dm.OnDisk p data) (old : PageData) : dm.readPage p old = data := by
  obtain ⟨file, hf, h0, hsize, hbytes⟩ := h
  refine Block.eq_of_byte fun i hi => ?_
  have hlt : (pageOffset p).toNat + i < file.size := by omega
  simp only [readPage, hf, if_neg (not_lt.mpr h0)]
  rw [Block.byte_of_lt _ hi]
  simp only [hlt, if_true]
  exact hbytes i hi

@[simp] theorem writePage_plan {dm : DiskManager} (hp : dm.plan = []) (p : ℤ)
    (data : PageData) : (dm.writePage p data).plan = [] := by
  simp [writePage, hp]

@[simp] theorem writePage_filename (dm : DiskManager) (p : ℤ) (data : PageData) :
    (dm.writePage p data).filename = dm.filename := by
  unfold writePage
  dsimp only
  split <;> rfl

/-- A successful write in file-level terms. -/
theorem writePage_file_of_nonneg {dm : DiskManager} (hp : dm.plan = []) {p : ℤ}
    (h : 0 ≤ pageOffset p) (data : PageData) :
    (dm.writePage p data).file =
      some ((dm.file.getD File.empty).write (pageOffset p).toNat 4096 data) := by
  simp only [writePage, hp, File.writeAt, if_neg (not_lt.mpr h)]

/-- A write at a negative offset changes nothing but that there is a file. -/
theorem writePage_file_of_neg {dm : DiskManager} (hp : dm.plan = []) {p : ℤ}
    (h : pageOffset p < 0) (data : PageData) :
    (dm.writePage p data).file = some (dm.file.getD File.empty) := by
  simp only [writePage, hp, File.writeAt, if_pos h]

theorem onDisk_writePage_of_nonneg {dm : DiskManager} (hp : dm.plan = []) {p : ℤ}
    (h : 0 ≤ pageOffset p) (data : PageData) : (dm.writePage p data).OnDisk p data := by
  refine ⟨_, writePage_file_of_nonneg hp h data, h, ?_, ?_⟩
  · simp [File.write]
  · intro i hi
    have hin : (pageOffset p).toNat ≤ (pageOffset p).toNat + i ∧
        (pageOffset p).toNat + i < (pageOffset p).toNat + 4096 := by omega
    simp only [File.write, if_pos hin, Nat.add_sub_cancel_left]

theorem onDisk_writePage {dm : DiskManager} (hp : dm.plan = []) {p : ℤ}
    (h : Addressable p) (data : PageData) : (dm.writePage p data).OnDisk p data := by
  apply onDisk_writePage_of_nonneg hp
  rw [pageOffset_eq h]
  have := h.1
  omega

/-- A write that misses the place of page `q` leaves its bytes there, even where it fails. -/
theorem OnDisk.writePage_apart {dm : DiskManager} {p q : ℤ} {data e : PageData}
    (hq : dm.OnDisk q e) (h : pageOffset p < 0 ∨
      pageOffset p + 4096 ≤ pageOffset q ∨ pageOffset q + 4096 ≤ pageOffset p) :
    (dm.writePage p data).OnDisk q e := by
  obtain ⟨file, hf, h0, hsize, hbytes⟩ := hq
  have hkeep : ∀ k ≤ 4096, ∀ plan, OnDisk { dm with
      file := some ((dm.file.getD File.empty).writeAt (pageOffset p) k data), plan } q e := by
    intro k hk plan
    obtain ⟨hsize', hbytes'⟩ := file.writeAt_apart data hk
      (show pageOffset p < 0 ∨ pageOffset p + 4096 ≤ (pageOffset q).toNat ∨
        ((pageOffset q).toNat : ℤ) + 4096 ≤ pageOffset p by omega) hsize
    refine ⟨_, by rw [hf]; rfl, h0, hsize', fun i hi => ?_⟩
    rw [hbytes' i hi, hbytes i hi]
  unfold writePage
  split
  · exact hkeep 4096 le_rfl dm.plan
  · exact hkeep 4096 le_rfl _
  · exact ⟨file, hf, h0, hsize, hbytes⟩
  · exact hkeep _ (min_le_right _ _) _

/-- Writing one page leaves the others where they are. -/
theorem OnDisk.writePage_other {dm : DiskManager} {p q : ℤ} {data e : PageData}
    (hq : dm.OnDisk q e) (h : Addressable p) (h' : Addressable q) (hne : p ≠ q) :
    (dm.writePage p data).OnDisk q e := by
  apply hq.writePage_apart
  rw [pageOffset_eq h, pageOffset_eq h']
  omega

end DiskManager

/-- Page `p` stands in a file. -/
def OnFile (file : Option File) (p : ℤ) (d : PageData) : Prop :=
  DiskManager.OnDisk ⟨[], file, []⟩ p d

end PragmaticDB
