import PragmaticDB.Storage.BufferPoolShape

/-!
The pool as a store of pages: `b.Has p d` says that `d` are the current bytes of page `p`,
in its frame if it is resident and on disk otherwise, and that they cannot be lost.
-/
namespace PragmaticDB
open ByteBlock DiskManager
namespace BufferPoolManager
variable {n : ℕ}

/-- File operations succeed and every id handed out so far has its own place in the file. -/
structure Sound (b : BufferPoolManager n) : Prop extends Shape b where
  plan : b.diskManager.plan = []
  bound : b.nextPageId ≤ 524288

structure Has (b : BufferPoolManager n) (p : ℤ) (d : PageData) : Prop where
  addr : Addressable p
  frame : ∀ f, b.pageTable.lookup p = some f → (b.pages f).data = d
  saved : (∀ f, b.pageTable.lookup p = some f → (b.pages f).isDirty = false) →
    b.diskManager.OnDisk p d

/-- What page `p` holds: its frame if it is resident, else its copy on disk. -/
def current (b : BufferPoolManager n) (p : ℤ) : PageData :=
  match b.pageTable.lookup p with
  | some f => (b.pages f).data
  | none => b.diskManager.readPage p zeroPage

theorem Has.current {b : BufferPoolManager n} {p : ℤ} {d : PageData} (hp : b.Has p d) :
    b.current p = d := by
  unfold BufferPoolManager.current
  cases hl : b.pageTable.lookup p with
  | some f => exact hp.frame f hl
  | none => exact readPage_of_onDisk (hp.saved (by simp [hl])) _

theorem new_sound (n : ℕ) {dm : DiskManager} (h : dm.plan = []) : (new n dm).Sound :=
  ⟨new_shape n dm, h, by simp [new]⟩

theorem Sound.addressable {b : BufferPoolManager n} (hs : b.Sound) {f : Fin n}
    (hf : (b.pages f).pageId ≠ invalidPageId) : Addressable (b.pages f).pageId :=
  ⟨(hs.valid f).resolve_left hf, (hs.below f).trans_le hs.bound⟩

/-- The same with ids past the addressable ones, which reach no place in the file. -/
structure Seekable (b : BufferPoolManager n) : Prop extends Shape b where
  plan : b.diskManager.plan = []
  bound : b.nextPageId ≤ 1048576

theorem Sound.seekable {b : BufferPoolManager n} (hs : b.Sound) : b.Seekable :=
  ⟨hs.toShape, hs.plan, hs.bound.trans (by norm_num)⟩

/-- Bytes on disk stay there when another page, or a clean one, gives up its frame. -/
theorem TakesOver.onDisk {b b' : BufferPoolManager n} {f : Fin n} {p q : ℤ} {d : PageData}
    (hs : b.Seekable) (h : TakesOver b f p b') (hq : Addressable q)
    (hne : (b.pages f).isDirty = true → q ≠ (b.pages f).pageId)
    (hd : b.diskManager.OnDisk q d) : b'.diskManager.OnDisk q d := by
  rw [h.disk]
  split_ifs with hw
  · have h0 := (hs.valid f).resolve_left hw.1
    have hlt := (hs.below f).trans_le hs.bound
    exact hd.writePage_apart (pageOffset_apart h0 hlt hq (hne hw.2).symm)
  · exact hd

theorem TakesOver.plan {b b' : BufferPoolManager n} {f : Fin n} {p : ℤ} (hs : b.Seekable)
    (h : TakesOver b f p b') : b'.diskManager.plan = [] := by
  rw [h.disk]
  split_ifs
  · exact writePage_plan hs.plan _ _
  · exact hs.plan

/-- A page that is not the one moving in keeps its bytes, evicted or not. -/
theorem TakesOver.has {b b' : BufferPoolManager n} {f : Fin n} {p q : ℤ} {d e : PageData}
    (hs : b.Seekable) (h : TakesOver b f p b') (hq : b.Has q d) (hne : q ≠ p) :
    (b'.setData f e).Has q d := by
  have hlook : ∀ g, b'.pageTable.lookup q = some g →
      g ≠ f ∧ b.pageTable.lookup q = some g := by
    intro g hg
    rw [h.table, if_neg hne] at hg
    split_ifs at hg with he
    refine ⟨?_, hg⟩
    rintro rfl
    exact he ((hs.mapped q g).mp hg).2.symm
  refine ⟨hq.addr, ?_, ?_⟩
  · intro g hg
    obtain ⟨hgf, hg⟩ := hlook g hg
    simpa [setData, setPage, hgf, h.others g hgf] using hq.frame g hg
  · intro hclean
    change b'.diskManager.OnDisk q d
    by_cases he : q = (b.pages f).pageId
    · have hl : b.pageTable.lookup q = some f := (hs.mapped q f).mpr ⟨hq.addr.1, he.symm⟩
      have hid : (b.pages f).pageId ≠ invalidPageId := hs.mapped_valid hl
      by_cases hd : (b.pages f).isDirty = true
      · rw [h.disk, if_pos ⟨hid, hd⟩, ← he, hq.frame f hl]
        exact onDisk_writePage hs.plan hq.addr d
      · refine h.onDisk hs hq.addr (fun hd' => absurd hd' hd) (hq.saved fun g hg => ?_)
        rw [hl] at hg
        rw [← Option.some.inj hg]
        exact Bool.not_eq_true _ ▸ hd
    · refine h.onDisk hs hq.addr (fun _ => he) (hq.saved fun g hg => ?_)
      have hg' : b'.pageTable.lookup q = some g := by rw [h.table, if_neg hne, if_neg he, hg]
      have hc := hclean g hg'
      simpa [setData, setPage, (hlook g hg').1, h.others g (hlook g hg').1] using hc

/-- A write to one frame is seen by its own page only. -/
theorem Has.setData {b : BufferPoolManager n} (hs : b.Shape) {p q : ℤ} {f : Fin n}
    {d e : PageData} (hl : b.pageTable.lookup p = some f) (hq : b.Has q d) (hne : q ≠ p) :
    (b.setData f e).Has q d := by
  have hgf : ∀ g, b.pageTable.lookup q = some g → g ≠ f := by
    rintro g hg rfl
    exact hne (hs.frame_inj hg hl)
  refine ⟨hq.addr, fun g hg => ?_, fun hc => hq.saved fun g hg => ?_⟩
  · simpa [BufferPoolManager.setData, setPage, hgf g hg] using hq.frame g hg
  · simpa [BufferPoolManager.setData, setPage, hgf g hg] using hc g hg

theorem Shape.fetchPage_next {b : BufferPoolManager n} (hs : b.Shape) (p : ℤ) :
    (b.fetchPage p).2.nextPageId = b.nextPageId := by
  rcases hs.fetch_cases p with ⟨f, -, he⟩ | ⟨-, -, he⟩ | ⟨-, f, b', -, hnext, he⟩
  · rw [he]
    rfl
  · rw [he]
  · rw [he]
    exact hnext

theorem Seekable.fetchPage {b : BufferPoolManager n} (hs : b.Seekable) {p : ℤ} (h0 : 0 ≤ p)
    (hlt : p < b.nextPageId) : (b.fetchPage p).2.Seekable := by
  refine ⟨hs.toShape.fetchPage h0 hlt, ?_, (hs.fetchPage_next p).trans_le hs.bound⟩
  rcases hs.fetch_cases p with ⟨f, -, he⟩ | ⟨-, -, he⟩ | ⟨-, f, b', ht, -, he⟩
  · rw [he]
    exact hs.plan
  · rw [he]
    exact hs.plan
  · rw [he]
    exact (ht.plan hs : b'.diskManager.plan = [])

theorem Sound.fetchPage {b : BufferPoolManager n} (hs : b.Sound) {p : ℤ} (h0 : 0 ≤ p)
    (hlt : p < b.nextPageId) : (b.fetchPage p).2.Sound := by
  have hseek := hs.seekable.fetchPage h0 hlt
  exact ⟨hseek.toShape, hseek.plan, (hs.fetchPage_next p).trans_le hs.bound⟩

theorem Has.fetchPage {b : BufferPoolManager n} (hs : b.Seekable) {q : ℤ} {d : PageData}
    (hq : b.Has q d) (p : ℤ) : (b.fetchPage p).2.Has q d := by
  rcases hs.fetch_cases p with ⟨f, hl, he⟩ | ⟨-, -, he⟩ | ⟨hl, f, b', ht, -, he⟩
  · rw [he]
    refine ⟨hq.addr, fun g hg => ?_, fun hc => hq.saved fun g hg => ?_⟩
    · have hd := hq.frame g hg
      by_cases hgf : g = f
      · subst hgf
        simpa [setPage, pinFrame] using hd
      · simpa [setPage, pinFrame, hgf] using hd
    · have hd := hc g hg
      by_cases hgf : g = f
      · subst hgf
        simpa [setPage, pinFrame] using hd
      · simpa [setPage, pinFrame, hgf] using hd
  · rw [he]
    exact hq
  · rw [he]
    by_cases hqp : q = p
    · subst hqp
      have hid : q ≠ (b.pages f).pageId := by
        intro hqe
        rw [(hs.mapped q f).mpr ⟨hq.addr.1, hqe.symm⟩] at hl
        cases hl
      have hdisk := ht.onDisk hs hq.addr (fun _ => hid)
        (hq.saved fun g hg => by rw [hl] at hg; cases hg)
      refine ⟨hq.addr, fun g hg => ?_, fun _ => hdisk⟩
      change b'.pageTable.lookup q = some g at hg
      rw [ht.table, if_pos rfl] at hg
      cases hg
      simpa [BufferPoolManager.setData, setPage] using readPage_of_onDisk hdisk _
    · exact ht.has hs hq hqp

/-- The pointer `FetchPage` returns is to the frame the page table gives. -/
theorem Shape.fetchPage_lookup {b b' : BufferPoolManager n} (hs : b.Shape) {p : ℤ} {f : Fin n}
    (h : b.fetchPage p = (some f, b')) :
    b'.pageTable.lookup p = some f ∧ (b'.pages f).pinCount =
      (if b.pageTable.lookup p = some f then (b.pages f).pinCount + 1 else 1) := by
  rcases hs.fetch_cases p with ⟨g, hl, he⟩ | ⟨-, -, he⟩ | ⟨hl, g, b₁, ht, -, he⟩
  · rw [h] at he
    obtain ⟨hfg, rfl⟩ := Prod.mk.inj he
    cases hfg
    simp [hl, setPage, pinFrame]
  · rw [h] at he
    cases he
  · rw [h] at he
    obtain ⟨hfg, rfl⟩ := Prod.mk.inj he
    cases hfg
    refine ⟨?_, by simp [hl, BufferPoolManager.setData, setPage, ht.pinCount]⟩
    change b₁.pageTable.lookup p = some f
    rw [ht.table, if_pos rfl]

/-- A page that stays pinned keeps its frame while others are fetched. -/
theorem Shape.fetchPage_pinned {b : BufferPoolManager n} (hs : b.Shape) {q : ℤ} {g : Fin n}
    (hq : b.pageTable.lookup q = some g) (hpin : 0 < (b.pages g).pinCount) (p : ℤ) :
    (b.fetchPage p).2.pageTable.lookup q = some g ∧
      ((b.fetchPage p).2.pages g).data = (b.pages g).data ∧
      ((b.fetchPage p).2.pages g).pinCount =
        (b.pages g).pinCount + if q = p then 1 else 0 := by
  rcases hs.fetch_cases p with ⟨f, hl, he⟩ | ⟨hl, -, he⟩ | ⟨hl, f, b', ht, -, he⟩
  · rw [he]
    by_cases hqp : q = p
    · subst hqp
      rw [hl] at hq
      cases hq
      simp [setPage, pinFrame, hl]
    · have hgf : g ≠ f := by
        rintro rfl
        exact hqp (hs.frame_inj hq hl)
      simp [setPage, pinFrame, hq, hqp, hgf]
  · rw [he]
    have hqp : q ≠ p := by
      rintro rfl
      rw [hl] at hq
      cases hq
    simp [hq, hqp]
  · rw [he]
    have hqp : q ≠ p := by
      rintro rfl
      rw [hl] at hq
      cases hq
    have hgf : g ≠ f := by
      rintro rfl
      rw [ht.unpinned] at hpin
      exact lt_irrefl _ hpin
    have hqid : q ≠ (b.pages f).pageId := by
      intro hqe
      have h0 := ((hs.mapped q g).mp hq).1
      rw [(hs.mapped q f).mpr ⟨h0, hqe.symm⟩] at hq
      exact hgf (Option.some.inj hq).symm
    change b'.pageTable.lookup q = some g ∧ _
    rw [ht.table, if_neg hqp, if_neg hqid]
    simp [BufferPoolManager.setData, setPage, hgf, ht.others g hgf, hq, hqp]

theorem Shape.newPage_next_le {b : BufferPoolManager n} (hs : b.Shape) :
    b.newPage.2.nextPageId ≤ b.nextPageId + 1 := by
  rcases hs.newPage_cases with ⟨-, he⟩ | ⟨f, b', -, hnext, he⟩
  · rw [he]
    exact (lt_add_one _).le
  · rw [he]
    exact hnext.le

theorem Seekable.newPage {b : BufferPoolManager n} (hs : b.Seekable)
    (hlt : b.nextPageId < 1048576) : b.newPage.2.Seekable := by
  refine ⟨hs.toShape.newPage, ?_, hs.newPage_next_le.trans hlt⟩
  rcases hs.newPage_cases with ⟨-, he⟩ | ⟨f, b', ht, -, he⟩
  · rw [he]
    exact hs.plan
  · rw [he]
    exact (ht.plan hs : b'.diskManager.plan = [])

theorem Sound.newPage {b : BufferPoolManager n} (hs : b.Sound) (hlt : b.nextPageId < 524288) :
    b.newPage.2.Sound := by
  have hseek := hs.seekable.newPage (hlt.trans (by norm_num))
  exact ⟨hseek.toShape, hseek.plan, hs.newPage_next_le.trans hlt⟩

theorem Has.newPage {b : BufferPoolManager n} (hs : b.Seekable) {q : ℤ} {d : PageData}
    (hq : b.Has q d) (hne : q ≠ b.nextPageId) : b.newPage.2.Has q d := by
  rcases hs.newPage_cases with ⟨-, he⟩ | ⟨f, b', ht, -, he⟩
  · rw [he]
    exact hq
  · rw [he]
    exact ht.has hs hq hne

theorem Sound.unpinPage {b : BufferPoolManager n} (hs : b.Sound) {p : ℤ}
    (hpin : ∀ f, b.pageTable.lookup p = some f → (b.pages f).pinCount ≤ 1) (x : Bool) :
    (b.unpinPage p x).2.Sound := by
  have hshape := hs.toShape.unpinPage hpin x
  rcases unpinPage_cases b p x with ⟨he, -⟩ | ⟨f, -, -, he⟩
  · rw [he]
    exact hs
  · rw [he] at hshape ⊢
    exact ⟨hshape, hs.plan, hs.bound⟩

/-- `UnpinPage` gives no page other bytes and clears no dirty bit. -/
theorem Has.unpinPage {b : BufferPoolManager n} {q : ℤ} {d : PageData} (hq : b.Has q d)
    (p : ℤ) (x : Bool) : (b.unpinPage p x).2.Has q d := by
  rcases unpinPage_cases b p x with ⟨he, -⟩ | ⟨f, -, -, he⟩
  · rw [he]
    exact hq
  · rw [he]
    refine ⟨hq.addr, fun g hg => ?_, fun hc => hq.saved fun g hg => ?_⟩
    · have hd := hq.frame g hg
      by_cases hgf : g = f
      · subst hgf
        simpa [setPage, unpinFrame] using hd
      · simpa [setPage, unpinFrame, hgf] using hd
    · have hd := hc g hg
      by_cases hgf : g = f
      · subst hgf
        simp only [setPage, unpinFrame, Function.update_self, Bool.or_eq_false_iff] at hd
        exact hd.1
      · simpa [setPage, unpinFrame, hgf] using hd

theorem Sound.flushPage {b : BufferPoolManager n} (hs : b.Sound) (p : ℤ) :
    (b.flushPage p).2.Sound := by
  have hshape := hs.toShape.flushPage p
  rcases flushPage_cases b p with ⟨he, -⟩ | ⟨f, -, -, he⟩
  · rw [he]
    exact hs
  · rw [he] at hshape ⊢
    exact ⟨hshape, writePage_plan hs.plan _ _, hs.bound⟩

/-- What a write-back of page `p` from its frame leaves on disk. -/
theorem Has.writeBack {b : BufferPoolManager n} (hs : b.Sound) {p q : ℤ} {d : PageData}
    {f : Fin n} (hl : b.pageTable.lookup p = some f) (hq : b.Has q d)
    (hd : q = p ∨ b.diskManager.OnDisk q d) :
    (b.diskManager.writePage p (b.pages f).data).OnDisk q d := by
  have hp := (hs.mapped p f).mp hl
  have haddr : Addressable p := hp.2 ▸ hs.addressable (hs.mapped_valid hl)
  by_cases hqp : q = p
  · subst hqp
    rw [hq.frame f hl]
    exact onDisk_writePage hs.plan haddr d
  · exact (hd.resolve_left hqp).writePage_other haddr hq.addr (Ne.symm hqp)

theorem Has.flushPage {b : BufferPoolManager n} (hs : b.Sound) {q : ℤ} {d : PageData}
    (hq : b.Has q d) (p : ℤ) : (b.flushPage p).2.Has q d := by
  rcases flushPage_cases b p with ⟨he, -⟩ | ⟨f, hl, -, he⟩
  · rw [he]
    exact hq
  · rw [he]
    refine ⟨hq.addr, fun g hg => ?_, fun hc => ?_⟩
    · have hd := hq.frame g hg
      by_cases hgf : g = f
      · subst hgf
        simpa [setPage] using hd
      · simpa [setPage, hgf] using hd
    · refine hq.writeBack hs hl (or_iff_not_imp_left.mpr fun hqp => hq.saved fun g hg => ?_)
      have hgf : g ≠ f := by
        rintro rfl
        exact hqp (hs.frame_inj hg hl)
      simpa [setPage, hgf] using hc g hg

theorem Sound.deletePage {b : BufferPoolManager n} (hs : b.Sound) (p : ℤ) :
    (b.deletePage p).2.Sound := by
  have hshape := hs.toShape.deletePage p
  rcases deletePage_cases b p with ⟨he, -⟩ | ⟨f, dm, -, -, hdm, he⟩
  · rw [he]
    exact hs
  · rw [he] at hshape ⊢
    refine ⟨hshape, ?_, hs.bound⟩
    change dm.plan = []
    rw [hdm]
    split_ifs
    · exact writePage_plan hs.plan _ _
    · exact hs.plan

/-- A deleted page keeps its bytes on disk. -/
theorem Has.deletePage {b : BufferPoolManager n} (hs : b.Sound) {q : ℤ} {d : PageData}
    (hq : b.Has q d) (p : ℤ) : (b.deletePage p).2.Has q d := by
  rcases deletePage_cases b p with ⟨he, -⟩ | ⟨f, dm, hl, -, hdm, he⟩
  · rw [he]
    exact hq
  · rw [he]
    have hlook : ∀ g, (b.pageTable.erase p).lookup q = some g →
        q ≠ p ∧ g ≠ f ∧ b.pageTable.lookup q = some g := by
      intro g hg
      rw [AList.lookup_erase_ite] at hg
      split_ifs at hg with hqp
      refine ⟨hqp, ?_, hg⟩
      rintro rfl
      exact hqp (hs.frame_inj hg hl)
    refine ⟨hq.addr, fun g hg => ?_, fun hc => ?_⟩
    · obtain ⟨-, hgf, hg⟩ := hlook g hg
      simpa [hgf] using hq.frame g hg
    · have hsaved : q ≠ p → b.diskManager.OnDisk q d := by
        refine fun hqp => hq.saved fun g hg => ?_
        have hg' : (b.pageTable.erase p).lookup q = some g := by
          rw [AList.lookup_erase_ite, if_neg hqp, hg]
        simpa [(hlook g hg').2.1] using hc g hg'
      change dm.OnDisk q d
      rw [hdm]
      split_ifs with hd
      · exact hq.writeBack hs hl (or_iff_not_imp_left.mpr hsaved)
      · by_cases hqp : q = p
        · subst hqp
          refine hq.saved fun g hg => ?_
          rw [hl] at hg
          rw [← Option.some.inj hg]
          exact Bool.not_eq_true _ ▸ hd
        · exact hsaved hqp

/-! Flushing everything. -/

/-- One flush makes its page clean and no page dirty. -/
theorem flushPage_clean (b : BufferPoolManager n) (p : ℤ) :
    (b.flushPage p).2.pageTable = b.pageTable ∧
      (∀ f, b.pageTable.lookup p = some f →
        ((b.flushPage p).2.pages f).isDirty = false) ∧
      (∀ f, (b.pages f).isDirty = false → ((b.flushPage p).2.pages f).isDirty = false) ∧
      (∀ f, ((b.flushPage p).2.pages f).pinCount = (b.pages f).pinCount ∧
        ((b.flushPage p).2.pages f).data = (b.pages f).data) ∧
      (b.flushPage p).2.nextPageId = b.nextPageId := by
  rcases flushPage_cases b p with ⟨he, hc⟩ | ⟨f, hl, -, he⟩
  · rw [he]
    exact ⟨rfl, hc, fun _ => id, fun _ => ⟨rfl, rfl⟩, rfl⟩
  · rw [he]
    refine ⟨rfl, fun g hg => ?_, fun g hg => ?_, fun g => ?_, rfl⟩
    · rw [hl] at hg
      rw [← Option.some.inj hg]
      simp [setPage]
    all_goals
      by_cases hgf : g = f
      · subst hgf
        simp [setPage]
      · simp [setPage, hgf] <;> assumption

theorem flush_fold {b : BufferPoolManager n} (hs : b.Sound) (ks : List ℤ) :
    let b' := ks.foldl (fun b p => (b.flushPage p).2) b
    b'.Sound ∧ b'.pageTable = b.pageTable ∧ b'.nextPageId = b.nextPageId ∧
      (∀ f, (b'.pages f).pinCount = (b.pages f).pinCount ∧
        (b'.pages f).data = (b.pages f).data) ∧
      (∀ q d, b.Has q d → b'.Has q d) ∧
      (∀ f, (b.pages f).isDirty = false → (b'.pages f).isDirty = false) ∧
      ∀ p ∈ ks, ∀ f, b.pageTable.lookup p = some f → (b'.pages f).isDirty = false := by
  induction ks generalizing b with
  | nil => exact ⟨hs, rfl, rfl, fun _ => ⟨rfl, rfl⟩, fun _ _ => id, fun _ => id, by simp⟩
  | cons k ks ih =>
    obtain ⟨ht, hc, hk, hp, hn⟩ := b.flushPage_clean k
    obtain ⟨i1, i2, i3, i4, i5, i6, i7⟩ := ih (hs.flushPage k)
    refine ⟨i1, i2.trans ht, i3.trans hn,
      fun f => ⟨(i4 f).1.trans (hp f).1, (i4 f).2.trans (hp f).2⟩,
      fun q d hq => i5 q d (hq.flushPage hs k), fun f hf => i6 f (hk f hf), ?_⟩
    intro p hmem f hf
    rcases List.mem_cons.mp hmem with rfl | hmem
    · exact i6 f (hc f hf)
    · exact i7 p hmem f (ht ▸ hf)

theorem Sound.flushAllPages {b : BufferPoolManager n} (hs : b.Sound) :
    b.flushAllPages.Sound := (flush_fold hs _).1

theorem Has.flushAllPages {b : BufferPoolManager n} (hs : b.Sound) {q : ℤ} {d : PageData}
    (hq : b.Has q d) : b.flushAllPages.Has q d := (flush_fold hs _).2.2.2.2.1 q d hq

/-- After a flush of all pages the disk alone holds what the pool holds. -/
theorem Has.onDisk_flushAllPages {b : BufferPoolManager n} (hs : b.Sound) {q : ℤ}
    {d : PageData} (hq : b.Has q d) : b.flushAllPages.diskManager.OnDisk q d := by
  obtain ⟨-, ht, -, -, hh, -, hc⟩ := flush_fold hs b.pageTable.keys
  refine (hh q d hq).saved fun f hf => ?_
  rw [ht] at hf
  refine hc q ?_ f hf
  rw [← AList.mem_keys, ← AList.lookup_isSome, hf]
  rfl

/-! Between two calls of its owner the pool has no pins, and during a call one page has one. -/

structure Quiet (b : BufferPoolManager n) : Prop extends Sound b where
  idle : ∀ f, (b.pages f).pinCount = 0

structure Visiting (b : BufferPoolManager n) (p : ℤ) (f : Fin n) : Prop extends Sound b where
  look : b.pageTable.lookup p = some f
  once : (b.pages f).pinCount = 1
  rest : ∀ g, g ≠ f → (b.pages g).pinCount = 0

/-- The same with ids past the addressable ones. -/
structure Ready (b : BufferPoolManager n) : Prop extends Seekable b where
  idle : ∀ f, (b.pages f).pinCount = 0

structure Held (b : BufferPoolManager n) (p : ℤ) (f : Fin n) : Prop extends Seekable b where
  look : b.pageTable.lookup p = some f
  once : (b.pages f).pinCount = 1
  rest : ∀ g, g ≠ f → (b.pages g).pinCount = 0

theorem Quiet.ready {b : BufferPoolManager n} (hb : b.Quiet) : b.Ready :=
  ⟨hb.toSound.seekable, hb.idle⟩

theorem Visiting.held {b : BufferPoolManager n} {p : ℤ} {f : Fin n} (hv : b.Visiting p f) :
    b.Held p f := ⟨hv.toSound.seekable, hv.look, hv.once, hv.rest⟩

theorem Ready.frame {b : BufferPoolManager n} (hb : b.Ready) (hn : 0 < n) :
    ¬ ∀ f, 0 < (b.pages f).pinCount := by
  intro h
  have h0 := h ⟨0, hn⟩
  rw [hb.idle] at h0
  exact lt_irrefl _ h0

/-- In such a pool with a frame every allocated page can be fetched. -/
theorem Ready.fetchPage {b : BufferPoolManager n} (hb : b.Ready) (hn : 0 < n) {p : ℤ}
    (h0 : 0 ≤ p) (hlt : p < b.nextPageId) : ∃ f b', b.fetchPage p = (some f, b') ∧
      b'.Held p f ∧ ∀ q d, b.Has q d → b'.Has q d := by
  have hseek := hb.toSeekable.fetchPage h0 hlt
  have hhas : ∀ q d, b.Has q d → (b.fetchPage p).2.Has q d :=
    fun q d hq => hq.fetchPage hb.toSeekable p
  rcases hb.fetch_cases p with ⟨f, hl, he⟩ | ⟨-, hall, -⟩ | ⟨hl, f, b', ht, -, he⟩
  · rw [he] at hseek hhas
    refine ⟨f, _, he, ⟨hseek, hl, by simp [setPage, pinFrame, hb.idle], ?_⟩, hhas⟩
    intro g hg
    simp [setPage, pinFrame, hg, hb.idle]
  · exact absurd hall (hb.frame hn)
  · rw [he] at hseek hhas
    refine ⟨f, _, he, ⟨hseek, ?_, by simp [setData, setPage, ht.pinCount], ?_⟩, hhas⟩
    · change b'.pageTable.lookup p = some f
      rw [ht.table, if_pos rfl]
    · intro g hg
      simp [setData, setPage, hg, ht.others g hg, hb.idle]

theorem Quiet.fetchPage {b : BufferPoolManager n} (hb : b.Quiet) (hn : 0 < n) {p : ℤ}
    (h0 : 0 ≤ p) (hlt : p < b.nextPageId) : ∃ f b', b.fetchPage p = (some f, b') ∧
      b'.Visiting p f ∧ b'.nextPageId = b.nextPageId ∧ ∀ q d, b.Has q d → b'.Has q d := by
  have hsound := hb.toSound.fetchPage h0 hlt
  have hnext := hb.fetchPage_next p
  obtain ⟨f, b', he, hh, hhas⟩ := hb.ready.fetchPage hn h0 hlt
  rw [he] at hsound hnext
  exact ⟨f, b', he, ⟨hsound, hh.look, hh.once, hh.rest⟩, hnext, hhas⟩

theorem Ready.newPage {b : BufferPoolManager n} (hb : b.Ready) (hn : 0 < n)
    (hlt : b.nextPageId < 1048576) : ∃ f b', b.newPage = (some (b.nextPageId, f), b') ∧
      b'.Held b.nextPageId f ∧ b'.nextPageId = b.nextPageId + 1 ∧
      (b'.pages f).data = zeroPage ∧
      ∀ q d, q ≠ b.nextPageId → b.Has q d → b'.Has q d := by
  have hseek := hb.toSeekable.newPage hlt
  have hhas : ∀ q d, q ≠ b.nextPageId → b.Has q d → b.newPage.2.Has q d :=
    fun q d hne hq => hq.newPage hb.toSeekable hne
  rcases hb.newPage_cases with ⟨hall, -⟩ | ⟨f, b', ht, hnext, he⟩
  · exact absurd hall (hb.frame hn)
  · rw [he] at hseek hhas
    refine ⟨f, _, he, ⟨hseek, ?_, by simp [setData, setPage, ht.pinCount], ?_⟩, hnext,
      by simp [setData, setPage], hhas⟩
    · change b'.pageTable.lookup b.nextPageId = some f
      rw [ht.table, if_pos rfl]
    · intro g hg
      simp [setData, setPage, hg, ht.others g hg, hb.idle]

theorem Quiet.newPage {b : BufferPoolManager n} (hb : b.Quiet) (hn : 0 < n)
    (hlt : b.nextPageId < 524288) : ∃ f b', b.newPage = (some (b.nextPageId, f), b') ∧
      b'.Visiting b.nextPageId f ∧ b'.nextPageId = b.nextPageId + 1 ∧
      (b'.pages f).data = zeroPage ∧
      ∀ q d, q ≠ b.nextPageId → b.Has q d → b'.Has q d := by
  have hsound := hb.toSound.newPage hlt
  obtain ⟨f, b', he, hh, hnext, hzero, hhas⟩ :=
    hb.ready.newPage hn (hlt.trans (by norm_num))
  rw [he] at hsound
  exact ⟨f, b', he, ⟨hsound, hh.look, hh.once, hh.rest⟩, hnext, hzero, hhas⟩

/-- With or without an addressable id left, `NewPage` gives the next one on a zeroed page. -/
theorem Quiet.newPage_next {b : BufferPoolManager n} (hb : b.Quiet) (hn : 0 < n) :
    ∃ f b', b.newPage = (some (b.nextPageId, f), b') ∧ b'.nextPageId = b.nextPageId + 1 ∧
      (b'.pages f).data = zeroPage := by
  have hbound := hb.bound
  obtain ⟨f, b', he, -, hnext, hzero, -⟩ := hb.ready.newPage hn (by omega)
  exact ⟨f, b', he, hnext, hzero⟩

theorem unpinPage_next (b : BufferPoolManager n) (p : ℤ) (x : Bool) :
    (b.unpinPage p x).2.nextPageId = b.nextPageId := by
  rcases unpinPage_cases b p x with ⟨he, -⟩ | ⟨f, -, -, he⟩
  · rw [he]
  · rw [he]
    rfl

theorem Quiet.flushAllPages {b : BufferPoolManager n} (hb : b.Quiet) : b.flushAllPages.Quiet :=
  ⟨hb.toSound.flushAllPages, fun f =>
    ((flush_fold hb.toSound b.pageTable.keys).2.2.2.1 f).1.trans (hb.idle f)⟩

theorem Quiet.flushAllPages_next {b : BufferPoolManager n} (hb : b.Quiet) :
    b.flushAllPages.nextPageId = b.nextPageId := (flush_fold hb.toSound _).2.2.1

/-- Leaving the page, changed or not: the other pages are as they were, and the page has its
new bytes if it was released as dirty or not changed at all. -/
theorem Held.leave {b : BufferPoolManager n} {p : ℤ} {f : Fin n} (hv : b.Held p f)
    (d : PageData) (x : Bool) :
    let b' := ((b.setData f d).unpinPage p x).2
    b'.Ready ∧ b'.nextPageId = b.nextPageId ∧
      (Addressable p → x = true ∨ b.Has p d → b'.Has p d) ∧
      ∀ q e, q ≠ p → b.Has q e → b'.Has q e := by
  have hshape := hv.toShape.setData f d
  have hone : ((b.setData f d).pages f).pinCount = 1 := by
    simpa [setData, setPage] using hv.once
  have hpin : ∀ g, (b.setData f d).pageTable.lookup p = some g →
      ((b.setData f d).pages g).pinCount ≤ 1 := by
    intro g hg
    rw [← Option.some.inj (hv.look.symm.trans hg), hone]
  have hshape' := hshape.unpinPage hpin x
  have hothers : ∀ q e, q ≠ p → b.Has q e → ((b.setData f d).unpinPage p x).2.Has q e :=
    fun q e hne hq => (hq.setData hv.toShape hv.look hne).unpinPage p x
  rcases unpinPage_cases (b.setData f d) p x with ⟨-, hz⟩ | ⟨g, hl, -, he⟩
  · have h0 := hz f hv.look
    omega
  · obtain rfl : f = g := Option.some.inj (hv.look.symm.trans hl)
    rw [he] at hshape'
    refine ⟨?_, by rw [he]; rfl, fun haddr hx => ?_, hothers⟩
    · rw [he]
      refine ⟨⟨hshape', hv.plan, hv.bound⟩, fun g => ?_⟩
      by_cases hg : g = f
      · subst hg
        simp [setPage, unpinFrame, hone]
      · simpa [setData, setPage, unpinFrame, hg] using hv.rest g hg
    · rw [he]
      refine ⟨haddr, fun g hg => ?_, fun hc => ?_⟩
      · rw [← Option.some.inj (hv.look.symm.trans hg)]
        simp [setData, setPage, unpinFrame]
      · have hclean := hc f hv.look
        simp only [setData, setPage, unpinFrame, Function.update_self,
          Bool.or_eq_false_iff] at hclean
        refine (hx.resolve_left (by simp [hclean.2])).saved fun g hg => ?_
        rw [← Option.some.inj (hv.look.symm.trans hg)]
        exact hclean.1

theorem Visiting.leave {b : BufferPoolManager n} {p : ℤ} {f : Fin n} (hv : b.Visiting p f)
    (d : PageData) (x : Bool) :
    let b' := ((b.setData f d).unpinPage p x).2
    b'.Quiet ∧ b'.nextPageId = b.nextPageId ∧
      (x = true ∨ b.Has p d → b'.Has p d) ∧
      ∀ q e, q ≠ p → b.Has q e → b'.Has q e := by
  obtain ⟨hready, hnext, hown, hothers⟩ := hv.held.leave d x
  have hp := (hv.mapped p f).mp hv.look
  have haddr : Addressable p := hp.2 ▸ hv.addressable (hv.mapped_valid hv.look)
  exact ⟨⟨⟨hready.toShape, hready.plan, hnext.trans_le hv.bound⟩, hready.idle⟩, hnext,
    hown haddr, hothers⟩

end BufferPoolManager
end PragmaticDB
