import PragmaticDB.Catalog.Catalog
import PragmaticDB.Storage.HeapDisk
import PragmaticDB.Table.ScanRuns

/-!
A table that a fresh process has opened and only reads. Its frames hold the pages of the file.
`FetchPage` does not clear a frame, so a page that the file does not have shows what the frame
held before: zeros, as long as no frame is used twice.
-/
namespace PragmaticDB
open ByteBlock DiskManager CallMachine

/-- What `Get` finds in slot `i` of a page, where it is defined. -/
def tupleAt (d : PageData) (i : ℕ) : Option (Option (List UInt8)) := (getVisit i d).map Visit.answer

/-- Page `p` of a file, read into a frame of zeros. -/
def filePage (file : Option File) (p : ℤ) : PageData := readPage ⟨[], file, []⟩ p zeroPage

theorem filePage_of_onFile {file : Option File} {p : ℤ} {d : PageData} (h : OnFile file p d) :
    filePage file p = d := readPage_of_onDisk h zeroPage

/-- Where `Get` is defined, it leaves the page alone and answers with the record. -/
theorem getVisit_eq {d : PageData} {i : ℕ} {v : Visit (Option (List UInt8))}
    (h : getVisit i d = some v) : v = ⟨record d i, d, false⟩ := by
  unfold getVisit at h
  split_ifs at h with hi
  · cases h
    rw [record_of_dead fun hl => absurd hl.1 (not_lt.mpr hi)]
  · obtain ⟨s, hs, h⟩ := Option.bind_eq_some_iff.mp h
    obtain rfl : slot d i = s := by
      unfold slot? at hs
      split_ifs at hs
      exact Option.some.inj hs
    split_ifs at h with h0
    · cases h
      rw [record_of_dead fun hl => absurd hl.2 (by omega)]
    · obtain ⟨bytes, hb, h⟩ := Option.bind_eq_some_iff.mp h
      cases h
      unfold PageDataManager.getTuple at hb
      rw [if_neg hi, hs, Option.bind_eq_bind, Option.bind_some] at hb
      obtain ⟨bs, hload, hb⟩ := Option.bind_eq_some_iff.mp hb
      cases hb
      rw [record_of_live ⟨by omega, by omega⟩, (Block.load?_eq_some.mp hload).2]
      rfl

theorem tupleAt_eq {d : PageData} {i : ℕ} {x : Option (List UInt8)} (h : tupleAt d i = some x) :
    x = record d i ∧ getVisit i d = some ⟨record d i, d, false⟩ := by
  obtain ⟨v, hv, rfl⟩ := Option.map_eq_some_iff.mp h
  obtain rfl := getVisit_eq hv
  exact ⟨rfl, hv⟩

theorem Formatted.tupleAt {p : ℤ} {d : PageData} (hf : Formatted p d) (i : ℕ) :
    tupleAt d i = some (record d i) := by
  unfold PragmaticDB.tupleAt
  rw [hf.getVisit]
  rfl

namespace BufferPoolManager
variable {n : ℕ} {b b' : BufferPoolManager n} {file : Option File} {ids : List ℤ} {p : ℤ}

/-- What a pool holds that has only read pages of `ids` from the file. -/
structure Reads (file : Option File) (ids : List ℤ) (b : BufferPoolManager n) : Prop where
  disk : b.diskManager.file = file
  clean : ∀ f, (b.pages f).isDirty = false
  held : ∀ p f, b.pageTable.lookup p = some f → p ∈ ids ∧ (b.pages f).data = filePage file p
  blank : ∀ f, (b.pages f).pageId = invalidPageId → (b.pages f).data = zeroPage

/-- Pins do not matter. -/
theorem Reads.congr (hr : Reads file ids b) (hd : b'.diskManager = b.diskManager)
    (ht : b'.pageTable = b.pageTable) (hp : ∀ f, (b'.pages f).pageId = (b.pages f).pageId ∧
      (b'.pages f).isDirty = (b.pages f).isDirty ∧ (b'.pages f).data = (b.pages f).data) :
    Reads file ids b' where
  disk := hd ▸ hr.disk
  clean f := (hp f).2.1.trans (hr.clean f)
  held q f hl := by
    rw [(hp f).2.2]
    exact hr.held q f (ht ▸ hl)
  blank f hf := (hp f).2.2.trans (hr.blank f ((hp f).1.symm.trans hf))

/-- As long as one of its pages is missing, a pool with room for all of them has a free frame. -/
theorem Reads.free (hr : Reads file ids b) (hs : b.Shape) (hp : p ∈ ids)
    (hl : b.pageTable.lookup p = none) (hlen : ids.length ≤ n) : b.freeList ≠ [] := by
  intro hfree
  have hlook : ∀ f, b.pageTable.lookup (b.pages f).pageId = some f := by
    intro f
    apply hs.lookup_frame
    rw [ne_eq, ← hs.free, hfree]
    exact List.not_mem_nil
  have hnodup : (p :: (List.finRange n).map fun f => (b.pages f).pageId).Nodup := by
    rw [List.nodup_cons]
    constructor
    · intro hmem
      obtain ⟨f, -, rfl⟩ := List.mem_map.mp hmem
      rw [hlook f] at hl
      cases hl
    · apply (List.nodup_finRange n).map
      intro f g hfg
      have hfg : (b.pages f).pageId = (b.pages g).pageId := hfg
      exact Option.some.inj ((hlook f).symm.trans (hfg ▸ hlook g))
  have hsub : p :: (List.finRange n).map (fun f => (b.pages f).pageId) ⊆ ids := by
    intro q hq
    rcases List.mem_cons.mp hq with rfl | hq
    · exact hp
    · obtain ⟨f, -, rfl⟩ := List.mem_map.mp hq
      exact (hr.held _ f (hlook f)).1
  have hle := (hnodup.subperm hsub).length_le
  rw [List.length_cons, List.length_map, List.length_finRange] at hle
  omega

/-- Free frames are taken first. -/
theorem fetchPage_free {f : Fin n} {fl : List (Fin n)} (hl : b.pageTable.lookup p = none)
    (hfree : b.freeList = f :: fl) : (b.fetchPage p).1 = some f := by
  unfold fetchPage getFreeFrameOrVictim
  rw [hl, hfree]

/-- Every page of `ids` is in the file, or all of them fit in the pool. -/
def Readable (file : Option File) (ids : List ℤ) (n : ℕ) : Prop :=
  (∀ p ∈ ids, ∃ d, OnFile file p d) ∨ ids.length ≤ n

/-- What a page that is not in the pool is read as. A page that the file does not have is read
into a free frame, which has zeros. -/
theorem Reads.readPage_eq (hr : Reads file ids b) (hs : b.Shape) (hp : p ∈ ids)
    (hl : b.pageTable.lookup p = none) {f : Fin n} (he : (b.fetchPage p).1 = some f)
    (hread : Readable file ids n) :
    readPage b.diskManager p (b.pages f).data = filePage file p := by
  rw [← hr.disk]
  rcases hread with hall | hlen
  · obtain ⟨d, hd⟩ := hall p hp
    rw [← hr.disk] at hd
    rw [filePage_of_onFile hd]
    exact readPage_of_onDisk hd _
  · obtain ⟨g, fl, hfl⟩ := List.exists_cons_of_ne_nil (hr.free hs hp hl hlen)
    have hfree := fetchPage_free hl hfl
    rw [he] at hfree
    obtain rfl := Option.some.inj hfree
    have hinv : (b.pages f).pageId = invalidPageId := by
      rw [← hs.free, hfl]
      exact List.mem_cons_self
    rw [hr.blank f hinv]
    rfl

/-- A frame that is taken for page `p` of the file. -/
theorem Reads.takesOver (hr : Reads file ids b) (hs : b.Shape) {f : Fin n}
    (ht : b.TakesOver f p b') (hdisk : b'.diskManager = b.diskManager) (hp : p ∈ ids)
    (h0 : 0 ≤ p) : Reads file ids (b'.setData f (filePage file p)) := by
  have hother : ∀ k, k ≠ f → (b'.setData f (filePage file p)).pages k = b.pages k := by
    intro k hk
    simp [setData, setPage, hk, ht.others k hk]
  constructor
  · change b'.diskManager.file = file
    rw [hdisk, hr.disk]
  · intro k
    by_cases hkf : k = f
    · subst hkf
      simp [setData, setPage, ht.isDirty]
    · rw [hother k hkf]
      exact hr.clean k
  · intro q k hk
    change b'.pageTable.lookup q = some k at hk
    rw [ht.table] at hk
    split_ifs at hk with hqp hqf
    · obtain rfl := Option.some.inj hk
      rw [hqp]
      exact ⟨hp, by simp [setData, setPage]⟩
    · have hkf : k ≠ f := by
        rintro rfl
        exact hqf ((hs.mapped q k).mp hk).2.symm
      rw [hother k hkf]
      exact hr.held q k hk
  · intro k hk
    by_cases hkf : k = f
    · subst hkf
      have hid : (b'.pages k).pageId = invalidPageId := by
        simpa [setData, setPage] using hk
      rw [ht.pageId] at hid
      exact absurd hid (ne_invalid_of_nonneg h0)
    · rw [hother k hkf] at hk ⊢
      exact hr.blank k hk

theorem Reads.fetchPage (hr : Reads file ids b) (hq : b.Quiet) (hn : 0 < n) (hp : p ∈ ids)
    (h0 : 0 ≤ p) (hlt : p < b.nextPageId) (hread : Readable file ids n) :
    ∃ f b', b.fetchPage p = (some f, b') ∧ b'.Visiting p f ∧ b'.nextPageId = b.nextPageId ∧
      (b'.pages f).data = filePage file p ∧ Reads file ids b' := by
  obtain ⟨f, b', he, hv, hnext, -⟩ := hq.fetchPage hn h0 hlt
  have hreads : Reads file ids b' := by
    rcases hq.fetch_cases p with ⟨g, hl, he'⟩ | ⟨-, hall, -⟩ | ⟨hl, g, b₁, ht, -, he'⟩
    · obtain ⟨-, rfl⟩ := Prod.mk.inj (he.symm.trans he')
      apply hr.congr
      · rfl
      · rfl
      · intro k
        by_cases hk : k = g
        · subst hk
          simp [setPage, pinFrame]
        · simp [setPage, pinFrame, hk]
    · exact absurd hall (hq.ready.frame hn)
    · obtain ⟨-, rfl⟩ := Prod.mk.inj (he.symm.trans he')
      have hdisk : b₁.diskManager = b.diskManager := by
        rw [ht.disk, hr.clean]
        simp
      rw [hdisk, hr.readPage_eq hq.toShape hp hl (congrArg Prod.fst he') hread]
      exact hr.takesOver hq.toShape ht hdisk hp h0
  exact ⟨f, b', he, hv, hnext, (hreads.held p f hv.held.look).2, hreads⟩

theorem setData_self (b : BufferPoolManager n) (f : Fin n) :
    b.setData f (b.pages f).data = b := by
  unfold setData setPage
  rw [Function.update_eq_self]

theorem Reads.unpinPage (hr : Reads file ids b) (p : ℤ) :
    Reads file ids (b.unpinPage p false).2 := by
  rcases unpinPage_cases b p false with ⟨he, -⟩ | ⟨f, -, -, he⟩
  · rw [he]
    exact hr
  · rw [he]
    apply hr.congr
    · rfl
    · rfl
    · intro k
      by_cases hk : k = f
      · subst hk
        simp [setPage, unpinFrame]
      · simp [setPage, unpinFrame, hk]

end BufferPoolManager

/-- The pages `ids` of a file, as a heap. -/
def fileHeap (file : Option File) (ids : List ℤ) (next : ℤ) : HeapFile := ⟨ids, filePage file, next⟩

/-- Every slot of the pages `ids` can be read off the file. -/
structure Legible (file : Option File) (ids : List ℤ) (next : ℤ) : Prop where
  range : ∀ p ∈ ids, 0 ≤ p ∧ p < next
  tuples : ∀ p ∈ ids, ∀ i, ∃ x, tupleAt (filePage file p) i = some x
  readable : BufferPoolManager.Readable file ids 10

/-- A table on `file` with the pages `ids` from which has only been read. -/
structure Serves (file : Option File) (ids : List ℤ) (next : ℤ) (rm : RecordManager) : Prop where
  quiet : rm.pool.Quiet
  reads : rm.pool.Reads file ids
  pageIds : rm.pageIds = ids
  nextPageId : rm.pool.nextPageId = next

variable {file : Option File} {ids : List ℤ} {next : ℤ} {rm : RecordManager}

theorem Serves.visit {α : Type} (hs : Serves file ids next rm) (hl : Legible file ids next) {p : ℤ}
    (hp : p ∈ ids) (absent : α) {act : PageData → Option (Visit α)} {x : α}
    (hact : act (filePage file p) = some ⟨x, filePage file p, false⟩) :
    ∃ rm', rm.visit p absent act = some (x, rm') ∧ Serves file ids next rm' := by
  obtain ⟨h0, hlt⟩ := hl.range p hp
  obtain ⟨f, b, he, hv, hnext, hd, hr⟩ := hs.reads.fetchPage hs.quiet (by norm_num) hp h0
    (hs.nextPageId ▸ hlt) hl.readable
  obtain ⟨hq, hn, -⟩ := hv.leave (b.pages f).data false
  rw [b.setData_self] at hq hn
  have hvisit : rm.visit p absent act = some (x, ⟨(b.unpinPage p false).2, rm.pageIds⟩) := by
    unfold RecordManager.visit
    rw [he]
    simp only [hd, hact, Option.bind_eq_bind, Option.bind_some]
    rw [← hd, b.setData_self]
  exact ⟨_, hvisit, hq, hr.unpinPage p, hs.pageIds, hn.trans (hnext.trans hs.nextPageId)⟩

/-- Reading goes on as on the heap that the file has. -/
theorem Legible.reading (hl : Legible file ids next) :
    Reading (fileHeap file ids next) (Serves file ids next) where
  ids rm hs := hs.pageIds
  get rm rid hs hp := by
    obtain ⟨x, hx⟩ := hl.tuples rid.pageId hp rid.slotId
    unfold RecordManager.get
    rw [if_neg (ne_invalid_of_nonneg (hl.range _ hp).1)]
    exact hs.visit hl hp none (tupleAt_eq hx).2
  getSlotCount rm p hs hp := hs.visit hl hp 0 rfl

/-! Tables as `LoadCatalog` opens them. -/

theorem restore_quiet (files : TableFiles) (oid : ℕ) (ids : List ℤ) {next : ℤ} (h0 : 0 ≤ next)
    (hle : next ≤ 524288) : ((openTable files oid).restore ids next).recordManager.pool.Quiet := by
  have hnew : (openTable files oid).recordManager.pool.Sound := BufferPoolManager.new_sound 10 rfl
  refine ⟨⟨⟨hnew.mapped, hnew.valid, fun f => ?_, h0, hnew.free_nodup, hnew.free, hnew.lru,
    hnew.free_unpinned⟩, hnew.plan, hle⟩, fun _ => rfl⟩
  change invalidPageId < next
  unfold invalidPageId
  omega

theorem restore_serves (files : TableFiles) (oid : ℕ) (ids : List ℤ) {next : ℤ} (h0 : 0 ≤ next)
    (hle : next ≤ 524288) :
    Serves (files oid) ids next ((openTable files oid).restore ids next).recordManager where
  quiet := restore_quiet files oid ids h0 hle
  reads := ⟨rfl, fun _ => rfl, fun _ _ hl => absurd hl (by simp [openTable, TableManager.restore,
    TableManager.new, RecordManager.new, BufferPoolManager.new]), fun _ _ => rfl⟩
  pageIds := rfl
  nextPageId := rfl

/-- A scan of such a table shows what the file has. -/
theorem Legible.scanAll (hl : Legible file ids next) {t : TableManager}
    (hs : Serves file ids next t.recordManager) :
    ∃ t', t.scanAll = some ((fileHeap file ids next).rows, t') := by
  obtain ⟨t', he, -⟩ := TableManager.scanAll_rows hl.reading (fun p hp => (hl.range p hp).1) hs
  exact ⟨t', he⟩

end PragmaticDB
