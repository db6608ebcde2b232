import PragmaticDB.Storage.BufferPoolResidency
import PragmaticDB.Storage.DiskAddressing

/-!
What a fetch shows of a page that is not resident. `ReadPage` fills the frame as far as the file
goes, and the rest of it stays as the page before left it.
-/
namespace PragmaticDB
open ByteBlock DiskManager CallMachine
namespace BufferPoolManager
variable {n : ℕ} {b b' : BufferPoolManager n} {p : ℤ} {f : Fin n} {file : Option File}
  {d d' : PageData}

/-- The bytes of the page a successful `FetchPage` returns. -/
def fetched (b : BufferPoolManager n) (p : ℤ) : Option PageData :=
  (b.fetchPage p).1.map fun f => ((b.fetchPage p).2.pages f).data

/-- No dirty page is evicted to the place of page `p` in the file. -/
def Spares (b : BufferPoolManager n) (p : ℤ) : Prop :=
  ∀ f b', b.getFreeFrameOrVictim = some (f, b') → (b.pages f).pageId ≠ invalidPageId →
    (b.pages f).isDirty = true → pageOffset (b.pages f).pageId ≠ pageOffset p

theorem evict_disk (b : BufferPoolManager n) (f : Fin n) : (b.evict f).diskManager =
    if (b.pages f).pageId ≠ invalidPageId ∧ (b.pages f).isDirty = true then
      b.diskManager.writePage (b.pages f).pageId (b.pages f).data
    else b.diskManager := by
  by_cases hid : (b.pages f).pageId = invalidPageId
  · simp [evict, hid]
  · simp [evict, hid]

theorem getFreeFrameOrVictim_disk (h : b.getFreeFrameOrVictim = some (f, b')) :
    b'.diskManager = b.diskManager := by
  unfold getFreeFrameOrVictim at h
  split at h
  next =>
    split at h
    next => cases h
    next =>
      obtain ⟨-, rfl⟩ := Prod.mk.inj (Option.some.inj h)
      rfl
  next =>
    obtain ⟨-, rfl⟩ := Prod.mk.inj (Option.some.inj h)
    rfl

/-- A page that is not resident is read over the bytes of the frame it gets. -/
theorem fetched_absent (hl : b.pageTable.lookup p = none)
    (hv : b.getFreeFrameOrVictim = some (f, b')) :
    b.fetched p = some ((b.evict f).diskManager.readPage p (b.pages f).data) := by
  obtain ⟨hpages, -, -⟩ := getFreeFrameOrVictim_same hv
  have hdisk : (b'.takeOver f p).diskManager = (b.evict f).diskManager := by
    change (b'.evict f).diskManager = _
    rw [evict_disk, evict_disk, hpages, getFreeFrameOrVictim_disk hv]
  have hdata : ((b'.takeOver f p).pages f).data = (b.pages f).data := by
    simp [takeOver, pinFrame, setPage, (evict_same b' f).1, hpages]
  simp [fetched, fetchPage, hl, hv, setData, setPage, hdisk, hdata]

theorem fetched_victim (hl : b.pageTable.lookup p = none) (he : b.fetched p = some d) :
    ∃ f b', b.getFreeFrameOrVictim = some (f, b') := by
  cases hv : b.getFreeFrameOrVictim with
  | some x => exact ⟨x.1, x.2, rfl⟩
  | none => simp [fetched, fetchPage, hl, hv] at he

theorem pageOffset_apart_of_ne {p q : ℤ} (hne : pageOffset p ≠ pageOffset q) :
    pageOffset p + 4096 ≤ pageOffset q ∨ pageOffset q + 4096 ≤ pageOffset p := by
  have hp := pageOffset_eq_emod p
  have hq := pageOffset_eq_emod q
  split_ifs at hp hq <;> omega

/-- A page that stands in the file is shown as it stands there. -/
theorem fetched_onFile (hd : OnFile file p d) (hfile : b.diskManager.file = file)
    (hl : b.pageTable.lookup p = none) (hs : b.Spares p) (he : b.fetched p = some d') :
    d' = d := by
  obtain ⟨f, b', hv⟩ := fetched_victim hl he
  rw [fetched_absent hl hv, evict_disk, Option.some.injEq] at he
  have hdisk : b.diskManager.OnDisk p d := by
    obtain ⟨file', hf, hrest⟩ := hd
    exact ⟨file', hfile.trans hf, hrest⟩
  split_ifs at he with hw
  · have hkept : (b.diskManager.writePage (b.pages f).pageId (b.pages f).data).OnDisk p d :=
      hdisk.writePage_apart (.inr (pageOffset_apart_of_ne (hs f b' hv hw.1 hw.2)))
    rw [← he, readPage_of_onDisk hkept]
  · rw [← he, readPage_of_onDisk hdisk]

/-- A dirty victim at the place of page `p` is shown in its stead. -/
theorem fetched_overwritten (hd : OnFile file p d) (hplan : b.diskManager.plan = [])
    (hl : b.pageTable.lookup p = none) (hv : b.getFreeFrameOrVictim = some (f, b'))
    (hid : (b.pages f).pageId ≠ invalidPageId) (hdirty : (b.pages f).isDirty = true)
    (hplace : pageOffset (b.pages f).pageId = pageOffset p) :
    b.fetched p = some (b.pages f).data := by
  obtain ⟨-, -, h0, -⟩ := hd
  have hdisk : (b.diskManager.writePage (b.pages f).pageId (b.pages f).data).OnDisk
      (b.pages f).pageId (b.pages f).data := onDisk_writePage_of_nonneg hplan (hplace ▸ h0) _
  have hp : (b.diskManager.writePage (b.pages f).pageId (b.pages f).data).OnDisk p
      (b.pages f).data := by
    unfold OnDisk at hdisk ⊢
    rwa [hplace] at hdisk
  rw [fetched_absent hl hv, evict_disk, if_pos ⟨hid, hdirty⟩, readPage_of_onDisk hp]

/-- A page that is not in the file as a whole keeps the last byte of the frame. -/
theorem readPage_last {dm : DiskManager} (h : ¬ dm.Inside p) (old : PageData) :
    (dm.readPage p old).cell 4095 = old.cell 4095 := by
  unfold readPage
  cases hf : dm.file with
  | none => rfl
  | some file =>
    simp only
    split_ifs with hneg
    · rfl
    · have hshort : ¬ (pageOffset p).toNat + 4095 < file.size := fun hlt =>
        h ⟨file, hf, not_lt.mp hneg, by omega⟩
      simp only
      exact if_neg hshort

/-- A page other than `p`, before it in the file or not in it at all. -/
def otherPage (p : ℤ) : ℤ := if p % 1048576 = 0 then 524288 else 0

theorem otherPage_spec (p : ℤ) : otherPage p ≠ p ∧ pageOffset (otherPage p) ≠ pageOffset p ∧
    (pageOffset (otherPage p) < 0 ∨ pageOffset p < 0 ∨
      pageOffset (otherPage p) + 4096 ≤ pageOffset p) := by
  have hp := pageOffset_eq_emod p
  unfold otherPage
  split_ifs with h0
  · have hv : pageOffset 524288 = -2147483648 := by decide
    rw [hv]
    rw [h0, if_pos (by norm_num)] at hp
    refine ⟨?_, ?_, .inl (by norm_num)⟩
    · rintro rfl
      norm_num at h0
    · omega
  · have hv : pageOffset 0 = 0 := by decide
    rw [hv]
    refine ⟨?_, ?_, ?_⟩
    · rintro rfl
      norm_num at h0
    · split_ifs at hp <;> omega
    · split_ifs at hp <;> omega

/-- Writing that page does not bring page `p` into the file. -/
theorem not_inside_writePage {dm : DiskManager} (hplan : dm.plan = []) (h : ¬ dm.Inside p)
    (data : PageData) : ¬ (dm.writePage (otherPage p) data).Inside p := by
  rintro ⟨file', hf', h0, hsize⟩
  obtain ⟨-, -, hapart⟩ := otherPage_spec p
  have hold : ¬ (pageOffset p).toNat + 4096 ≤ (dm.file.getD File.empty).size := by
    cases hf : dm.file with
    | none =>
      simp only [Option.getD_none, File.empty]
      omega
    | some file =>
      exact fun hle => h ⟨file, hf, h0, hle⟩
  rcases lt_or_ge (pageOffset (otherPage p)) 0 with hneg | hpos
  · rw [writePage_file_of_neg hplan hneg] at hf'
    rw [← Option.some.inj hf'] at hsize
    exact hold hsize
  · rw [writePage_file_of_nonneg hplan hpos] at hf'
    rw [← Option.some.inj hf'] at hsize
    simp only [File.write] at hsize
    norm_num at hsize
    rcases hsize with hsize | hsize
    · exact hold hsize
    · omega

/-- A pool of one frame in which page `v` was fetched, filled with ones and released. -/
def usedPool (dm : DiskManager) (v : ℤ) : BufferPoolManager 1 :=
  ((((new 1 dm).fetchPage v).2.setData 0 onesPage).unpinPage v true).2

theorem usedPool_eq (dm : DiskManager) (v : ℤ) : usedPool dm v =
    { diskManager := dm, pages := fun _ => ⟨v, 0, true, onesPage⟩,
      pageTable := AList.singleton v 0, freeList := [],
      lru := (HandleList.empty.erase 0).pushBack 0, nextPageId := 0 } := by
  have hl : AList.lookup v (AList.singleton v 0 : AList fun _ : ℤ => Fin 1) = some 0 := by
    rw [← AList.insert_empty]
    exact AList.lookup_insert _
  have hone : ∀ (pages : Fin 1 → Page) (page : Page),
      Function.update pages 0 page = fun _ => page := fun pages page =>
    funext fun f => by rw [Subsingleton.elim f 0, Function.update_self]
  simp [usedPool, new, fetchPage, getFreeFrameOrVictim, List.finRange, takeOver, evict, setData,
    setPage, pinFrame, unpinPage, unpinFrame, hl, hone]

theorem new_victim (dm : DiskManager) :
    (new 1 dm).getFreeFrameOrVictim = some (0, { new 1 dm with freeList := [] }) := rfl

/-- Pools whose callers left `file` on disk and page `p` out of the frames, with a victim that
is not written to its place. -/
structure MayFetch (file : Option File) (p : ℤ) (b : BufferPoolManager n) : Prop where
  reached : ∃ dm h, (residencyMachine n).Run (new n dm) h b
  disk : b.diskManager.file = file
  absent : b.pageTable.lookup p = none
  spares : b.Spares p

theorem new_mayFetch (file : Option File) (p : ℤ) : MayFetch file p (new 1 ⟨[], file, []⟩) := by
  refine ⟨⟨_, _, .start⟩, rfl, by simp [new], fun f b' _ hid => ?_⟩
  exact absurd rfl hid

theorem usedPool_mayFetch (file : Option File) (p : ℤ) :
    MayFetch file p (usedPool ⟨[], file, []⟩ (otherPage p)) := by
  obtain ⟨hne, hplace, -⟩ := otherPage_spec p
  have h0 : 0 ≤ otherPage p := by
    unfold otherPage
    split_ifs <;> norm_num
  have h1 := residencyMachine_call
    (@Machine.Run.start _ _ _ (residencyMachine 1) (new 1 ⟨[], file, []⟩))
    (.fetchPage (otherPage p)) ⟨h0, rfl⟩
  have h2 := residencyMachine_call h1 (.write 0 onesPage) trivial
  have h3 := residencyMachine_call h2 (.unpinPage (otherPage p) true) h0
  refine ⟨⟨_, _, h3⟩, ?_, ?_, fun f b' _ _ _ => ?_⟩
  · rw [usedPool_eq]
  · rw [usedPool_eq, ← AList.insert_empty, AList.lookup_insert_ne hne.symm]
    rfl
  · rw [usedPool_eq]
    exact hplace

theorem usedPool_victim (dm : DiskManager) (v : ℤ) :
    ∃ b', (usedPool dm v).getFreeFrameOrVictim = some (0, b') := by
  rw [usedPool_eq]
  exact ⟨_, rfl⟩

/-- A page that is not in the file shows what was in the frame: nothing in a new pool, and the
page before in the other. -/
theorem fetched_outside (h : ¬ DiskManager.Inside ⟨[], file, []⟩ p) :
    ∃ d d', (new 1 ⟨[], file, []⟩).fetched p = some d ∧
      (usedPool ⟨[], file, []⟩ (otherPage p)).fetched p = some d' ∧
      d.cell 4095 = 0 ∧ d'.cell 4095 = 255 := by
  obtain ⟨b', hv⟩ := usedPool_victim ⟨[], file, []⟩ (otherPage p)
  have hvalid : otherPage p ≠ invalidPageId := by
    unfold otherPage
    split_ifs <;> decide
  have hdisk : (usedPool ⟨[], file, []⟩ (otherPage p)).diskManager = ⟨[], file, []⟩ := by
    rw [usedPool_eq]
  have hpage : (usedPool ⟨[], file, []⟩ (otherPage p)).pages 0 =
      ⟨otherPage p, 0, true, onesPage⟩ := by
    rw [usedPool_eq]
  have h₁ := fetched_absent (new_mayFetch file p).absent (new_victim ⟨[], file, []⟩)
  have h₂ := fetched_absent (usedPool_mayFetch file p).absent hv
  rw [evict_disk, if_neg fun h => h.1 rfl] at h₁
  rw [evict_disk, hdisk, hpage, if_pos ⟨hvalid, rfl⟩] at h₂
  exact ⟨_, _, h₁, h₂, readPage_last h _, readPage_last (not_inside_writePage rfl h _) _⟩

/-- `FetchPage` of page `p` shows the same bytes in all of these pools. -/
def ShowsOnePage (file : Option File) (p : ℤ) : Prop :=
  ∀ (n₁ n₂ : ℕ) (b₁ : BufferPoolManager n₁) (b₂ : BufferPoolManager n₂), MayFetch file p b₁ →
    MayFetch file p b₂ → ∀ d₁ d₂, b₁.fetched p = some d₁ → b₂.fetched p = some d₂ → d₁ = d₂

/-- What is fetched depends on the file alone exactly if the page stands in it as a whole and its
place is not written on the way; a page written there is shown instead. -/
theorem showsOnePage_iff (file : Option File) (p : ℤ) :
    (ShowsOnePage file p ↔ ∃ d, OnFile file p d) ∧
    ∀ (n : ℕ) (b : BufferPoolManager n) (d : PageData), OnFile file p d →
      b.diskManager.plan = [] → b.diskManager.file = file → b.pageTable.lookup p = none →
      ∀ d', b.fetched p = some d' → (b.Spares p → d' = d) ∧
        (¬ b.Spares p → ∃ f, pageOffset (b.pages f).pageId = pageOffset p ∧
          d' = (b.pages f).data) := by
  constructor
  · constructor
    · intro hshows
      by_contra hno
      have hout : ¬ DiskManager.Inside ⟨[], file, []⟩ p := fun hin => hno ⟨_, hin.onDisk⟩
      obtain ⟨d₁, d₂, he₁, he₂, hlast₁, hlast₂⟩ := fetched_outside hout
      have hsame := hshows 1 1 _ _ (new_mayFetch file p) (usedPool_mayFetch file p) _ _ he₁ he₂
      rw [hsame, hlast₂] at hlast₁
      exact absurd hlast₁ (by decide)
    · rintro ⟨d, hd⟩ n₁ n₂ b₁ b₂ hb₁ hb₂ d₁ d₂ he₁ he₂
      rw [fetched_onFile hd hb₁.disk hb₁.absent hb₁.spares he₁,
        fetched_onFile hd hb₂.disk hb₂.absent hb₂.spares he₂]
  · intro n b d hd hplan hfile hl d' he
    refine ⟨fun hs => fetched_onFile hd hfile hl hs he, fun hs => ?_⟩
    simp only [Spares, not_forall, not_not] at hs
    obtain ⟨f, b', hv, hid, hdirty, hplace⟩ := hs
    rw [fetched_overwritten hd hplan hl hv hid hdirty hplace] at he
    exact ⟨f, hplace, (Option.some.inj he).symm⟩

/-- A page of a file of one page. -/
theorem page_in_file_shown : ShowsOnePage (some ⟨4096, fun _ => 7⟩) 0 ∧
    ∀ d, (new 1 ⟨[], some ⟨4096, fun _ => 7⟩, []⟩).fetched 0 = some d → d = Block.fill 4096 7 := by
  have hfile : OnFile (some ⟨4096, fun _ => 7⟩) 0 (Block.fill 4096 7) := by
    refine ⟨_, rfl, by decide, by decide, fun i hi => ?_⟩
    rw [Block.byte_of_lt _ hi]
    rfl
  have hnew := new_mayFetch (some ⟨4096, fun _ => 7⟩) 0
  obtain ⟨hiff, hshown⟩ := showsOnePage_iff (some ⟨4096, fun _ => 7⟩) 0
  exact ⟨hiff.mpr ⟨_, hfile⟩, fun d he =>
    (hshown 1 _ _ hfile rfl hnew.disk hnew.absent d he).1 hnew.spares⟩

/-- There is no file; one pool is new, in the other page 0 was fetched, filled with ones and
released. Page 1 is fetched with zeros in the one and with ones in the other. -/
theorem page_before_shown : ∃ b₁ b₂ : BufferPoolManager 1, MayFetch none 1 b₁ ∧
    MayFetch none 1 b₂ ∧ ∃ d₁ d₂, b₁.fetched 1 = some d₁ ∧ b₂.fetched 1 = some d₂ ∧
      d₁.cell 4095 = 0 ∧ d₂.cell 4095 = 255 := by
  have hout : ¬ DiskManager.Inside ⟨[], none, []⟩ 1 := by
    rintro ⟨file, hfile, -⟩
    cases hfile
  obtain ⟨d₁, d₂, he₁, he₂, hlast₁, hlast₂⟩ := fetched_outside hout
  exact ⟨_, _, new_mayFetch none 1, usedPool_mayFetch none 1, d₁, d₂, he₁, he₂, hlast₁, hlast₂⟩

end BufferPoolManager
end PragmaticDB
