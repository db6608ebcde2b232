import PragmaticDB.Storage.BufferPool

/-!
The bookkeeping of the pool: which frame holds which page, and which frames can be taken.
Each operation has one lemma that says what it can do to the pool; the invariant `Shape`
follows from these.
-/
namespace PragmaticDB
open ByteBlock
namespace BufferPoolManager
variable {n : ℕ}

/-- Frames and page ids correspond, and among the frames that hold a page exactly those
without pins are on the LRU list. A free frame may still be on that list. -/
structure Shape (b : BufferPoolManager n) : Prop where
  mapped : ∀ p f, b.pageTable.lookup p = some f ↔ 0 ≤ p ∧ (b.pages f).pageId = p
  valid : ∀ f, (b.pages f).pageId = invalidPageId ∨ 0 ≤ (b.pages f).pageId
  below : ∀ f, (b.pages f).pageId < b.nextPageId
  next_nonneg : 0 ≤ b.nextPageId
  free_nodup : b.freeList.Nodup
  free : ∀ f, f ∈ b.freeList ↔ (b.pages f).pageId = invalidPageId
  lru : ∀ f, (b.pages f).pageId ≠ invalidPageId →
    (f ∈ b.lru.toList ↔ (b.pages f).pinCount = 0)
  free_unpinned : ∀ f, (b.pages f).pageId = invalidPageId → (b.pages f).pinCount = 0

theorem new_shape (n : ℕ) (dm : DiskManager) : (new n dm).Shape where
  mapped p f := by
    simp only [new, AList.lookup_empty, reduceCtorEq, false_iff, not_and]
    exact fun hp he => ne_invalid_of_nonneg hp he.symm
  valid f := .inl rfl
  below f := by simp [new, invalidPageId]
  next_nonneg := le_rfl
  free_nodup := List.nodup_finRange n
  free f := by simp [new]
  lru f hf := absurd rfl hf
  free_unpinned _ _ := rfl

/-- Two pages are never in one frame. -/
theorem Shape.frame_inj {b : BufferPoolManager n} (hs : b.Shape) {p q : ℤ} {f : Fin n}
    (hp : b.pageTable.lookup p = some f) (hq : b.pageTable.lookup q = some f) : p = q :=
  ((hs.mapped p f).mp hp).2.symm.trans ((hs.mapped q f).mp hq).2

theorem Shape.lookup_frame {b : BufferPoolManager n} (hs : b.Shape) {f : Fin n}
    (hf : (b.pages f).pageId ≠ invalidPageId) :
    b.pageTable.lookup (b.pages f).pageId = some f :=
  (hs.mapped _ f).mpr ⟨(hs.valid f).resolve_left hf, rfl⟩

theorem Shape.mapped_valid {b : BufferPoolManager n} (hs : b.Shape) {p : ℤ} {f : Fin n}
    (hp : b.pageTable.lookup p = some f) : (b.pages f).pageId ≠ invalidPageId := by
  obtain ⟨h0, he⟩ := (hs.mapped p f).mp hp
  rw [he]
  exact ne_invalid_of_nonneg h0

theorem Shape.lookup_next {b : BufferPoolManager n} (hs : b.Shape) :
    b.pageTable.lookup b.nextPageId = none := by
  rw [Option.eq_none_iff_forall_ne_some]
  intro f hf
  have hlt := hs.below f
  rw [((hs.mapped _ f).mp hf).2] at hlt
  exact lt_irrefl _ hlt

/-- What `GetFreeFrameOrVictim` does to the two lists. -/
theorem victim_lists {b b' : BufferPoolManager n} {f : Fin n} (hnd : b.freeList.Nodup)
    (h : b.getFreeFrameOrVictim = some (f, b')) :
    (f ∈ b.freeList ∨ b.freeList = [] ∧ f ∈ b.lru.toList) ∧
      ∃ fl lru, b' = { b with freeList := fl, lru } ∧ fl.Nodup ∧
        (∀ g, g ∈ fl ↔ g ∈ b.freeList ∧ g ≠ f) ∧
        ∀ g, g ≠ f → (g ∈ lru.toList ↔ g ∈ b.lru.toList) := by
  unfold getFreeFrameOrVictim at h
  split at h
  next hfree =>
    split at h
    next => cases h
    next g lru hpop =>
      obtain ⟨rfl, rfl⟩ := Prod.mk.inj (Option.some.inj h)
      have hlist := HandleList.popFront_some hpop
      exact ⟨.inr ⟨hfree, by simp [hlist]⟩, [], lru, by rw [← hfree], List.nodup_nil,
        by simp [hfree], fun k hk => by simp [hlist, hk]⟩
  next g fl hfree =>
    obtain ⟨rfl, rfl⟩ := Prod.mk.inj (Option.some.inj h)
    rw [hfree, List.nodup_cons] at hnd
    refine ⟨.inl (by simp [hfree]), fl, b.lru, rfl, hnd.2, ?_, fun _ _ => Iff.rfl⟩
    intro k
    rw [hfree, List.mem_cons]
    refine ⟨fun hk => ⟨.inr hk, ?_⟩, fun hk => hk.1.resolve_left hk.2⟩
    rintro rfl
    exact hnd.1 hk

/-- What `GetFreeFrameOrVictim` can do: it takes an unpinned frame off one of its lists. -/
theorem Shape.victim {b b' : BufferPoolManager n} {f : Fin n} (hs : b.Shape)
    (h : b.getFreeFrameOrVictim = some (f, b')) :
    (b.pages f).pinCount = 0 ∧ ∃ fl lru, b' = { b with freeList := fl, lru } ∧ fl.Nodup ∧
      (∀ g, g ∈ fl ↔ g ∈ b.freeList ∧ g ≠ f) ∧
      ∀ g, g ≠ f → (g ∈ lru.toList ↔ g ∈ b.lru.toList) := by
  obtain ⟨hfrom, hlists⟩ := victim_lists hs.free_nodup h
  refine ⟨?_, hlists⟩
  rcases hfrom with hf | ⟨hnil, hf⟩
  · exact hs.free_unpinned f ((hs.free f).mp hf)
  · have hid : (b.pages f).pageId ≠ invalidPageId := by
      rw [ne_eq, ← hs.free, hnil]
      exact List.not_mem_nil
    exact (hs.lru f hid).mp hf

/-- An eviction leaves the frames and the lists as they are. -/
theorem evict_same (b : BufferPoolManager n) (f : Fin n) : (b.evict f).pages = b.pages ∧
    (b.evict f).freeList = b.freeList ∧ (b.evict f).lru = b.lru ∧
    (b.evict f).nextPageId = b.nextPageId := by
  by_cases hid : (b.pages f).pageId = invalidPageId <;> simp [evict, hid]

/-- No frame is found exactly when all of them are pinned. -/
theorem Shape.no_victim {b : BufferPoolManager n} (hs : b.Shape) :
    b.getFreeFrameOrVictim = none ↔ ∀ f, 0 < (b.pages f).pinCount := by
  constructor
  · intro h f
    unfold getFreeFrameOrVictim at h
    split at h
    next hfree =>
      split at h
      next hpop =>
        have hid : (b.pages f).pageId ≠ invalidPageId := by
          rw [ne_eq, ← hs.free, hfree]
          exact List.not_mem_nil
        have hl := hs.lru f hid
        rw [HandleList.popFront_none.mp hpop] at hl
        simp only [List.not_mem_nil, false_iff] at hl
        omega
      next => cases h
    next => cases h
  · intro h
    cases hv : b.getFreeFrameOrVictim with
    | none => rfl
    | some x =>
      have hp := (hs.victim hv).1
      have := h x.1
      omega

/-- What a frame handed to page `p` and everything around it look like afterwards. The disk
is told apart by whether the page that had the frame was dirty. -/
structure TakesOver (b : BufferPoolManager n) (f : Fin n) (p : ℤ) (b' : BufferPoolManager n) :
    Prop where
  unpinned : (b.pages f).pinCount = 0
  others : ∀ g, g ≠ f → b'.pages g = b.pages g
  pageId : (b'.pages f).pageId = p
  pinCount : (b'.pages f).pinCount = 1
  isDirty : (b'.pages f).isDirty = false
  data : (b'.pages f).data = (b.pages f).data
  table : ∀ q, b'.pageTable.lookup q =
    if q = p then some f else if q = (b.pages f).pageId then none else b.pageTable.lookup q
  free_nodup : b'.freeList.Nodup
  free : ∀ g, g ∈ b'.freeList ↔ g ∈ b.freeList ∧ g ≠ f
  lru : ∀ g, g ∈ b'.lru.toList ↔ g ∈ b.lru.toList ∧ g ≠ f
  disk : b'.diskManager =
    if (b.pages f).pageId ≠ invalidPageId ∧ (b.pages f).isDirty = true then
      b.diskManager.writePage (b.pages f).pageId (b.pages f).data
    else b.diskManager

theorem Shape.takeOver {b b₁ : BufferPoolManager n} {f : Fin n} (hs : b.Shape)
    (h : b.getFreeFrameOrVictim = some (f, b₁)) (p k : ℤ) :
    TakesOver b f p ({ b₁ with nextPageId := k }.takeOver f p) ∧
      ({ b₁ with nextPageId := k }.takeOver f p).nextPageId = k := by
  obtain ⟨hpin, fl, lru, rfl, hnd, hfl, hlru⟩ := hs.victim h
  have hlru' : ∀ g, g ∈ (lru.erase f).toList ↔ g ∈ b.lru.toList ∧ g ≠ f := by
    intro g
    rw [HandleList.mem_toList_erase]
    exact and_congr_left fun hg => hlru g hg
  by_cases hid : (b.pages f).pageId = invalidPageId
  · have htable : ∀ q, (b.pageTable.insert p f).lookup q =
        if q = p then some f else if q = (b.pages f).pageId then none
          else b.pageTable.lookup q := by
      intro q
      have hq : q = (b.pages f).pageId → b.pageTable.lookup q = none := by
        rintro rfl
        rw [hid, Option.eq_none_iff_forall_ne_some]
        exact fun g hg => ne_invalid_of_nonneg ((hs.mapped _ g).mp hg).1 rfl
      rw [AList.lookup_insert_ite]
      split_ifs with h1 h2
      · rfl
      · exact hq h2
      · rfl
    refine ⟨?_, by simp [BufferPoolManager.takeOver, evict, setPage, pinFrame, hid]⟩
    constructor <;> simp_all [BufferPoolManager.takeOver, evict, setPage, pinFrame]
  · have htable : ∀ q, ((b.pageTable.erase (b.pages f).pageId).insert p f).lookup q =
        if q = p then some f else if q = (b.pages f).pageId then none
          else b.pageTable.lookup q := by
      intro q
      rw [AList.lookup_insert_ite, AList.lookup_erase_ite]
    refine ⟨?_, by simp [BufferPoolManager.takeOver, evict, setPage, pinFrame, hid]⟩
    constructor <;> simp_all [BufferPoolManager.takeOver, evict, setPage, pinFrame]

/-- The invariant survives a take-over by a page that was not resident. -/
theorem TakesOver.shape {b b' : BufferPoolManager n} {f : Fin n} {p : ℤ} (hs : b.Shape)
    (h : TakesOver b f p b') (h0 : 0 ≤ p) (hp : b.pageTable.lookup p = none)
    (hnext : b.nextPageId ≤ b'.nextPageId) (hlt : p < b'.nextPageId) : b'.Shape := by
  have hother : ∀ g, g ≠ f → (b.pages g).pageId ≠ p := by
    rintro g - rfl
    rw [hs.lookup_frame (ne_invalid_of_nonneg h0)] at hp
    cases hp
  have hid : ∀ g, g ≠ f → (b'.pages g).pageId = (b.pages g).pageId := by
    intro g hg
    rw [h.others g hg]
  constructor
  · intro q g
    rw [h.table q]
    by_cases hg : g = f
    · subst hg
      rw [h.pageId]
      by_cases hq : q = p
      · simp [hq, h0]
      · rw [if_neg hq]
        split
        next => simp [Ne.symm hq]
        next he => simp [hs.mapped, Ne.symm he, Ne.symm hq]
    · rw [hid g hg, ← hs.mapped]
      by_cases hq : q = p
      · subst hq
        simp [hp, Ne.symm hg]
      · rw [if_neg hq]
        split
        next he =>
          rw [hs.mapped]
          simp only [reduceCtorEq, false_iff, not_and]
          intro hq0 hge
          refine hg (Option.some.inj ?_)
          rw [← (hs.mapped q g).mpr ⟨hq0, hge⟩, (hs.mapped q f).mpr ⟨hq0, he.symm⟩]
        next => rfl
  · intro g
    by_cases hg : g = f
    · subst hg
      exact .inr (h.pageId ▸ h0)
    · rw [hid g hg]
      exact hs.valid g
  · intro g
    by_cases hg : g = f
    · subst hg
      rw [h.pageId]
      exact hlt
    · rw [hid g hg]
      exact (hs.below g).trans_le hnext
  · exact hs.next_nonneg.trans hnext
  · exact h.free_nodup
  · intro g
    rw [h.free]
    by_cases hg : g = f
    · subst hg
      simp [h.pageId, ne_invalid_of_nonneg h0]
    · simp [hid g hg, hg, hs.free]
  · intro g
    rw [h.lru]
    by_cases hg : g = f
    · subst hg
      simp [h.pinCount]
    · rw [h.others g hg]
      simpa [hg] using hs.lru g
  · intro g
    by_cases hg : g = f
    · subst hg
      rw [h.pageId]
      exact fun he => absurd he (ne_invalid_of_nonneg h0)
    · rw [h.others g hg]
      exact hs.free_unpinned g

/-! What each operation can do. -/

theorem Shape.fetch_cases {b : BufferPoolManager n} (hs : b.Shape) (p : ℤ) :
    (∃ f, b.pageTable.lookup p = some f ∧ b.fetchPage p =
      (some f, (b.setPage f { b.pages f with
        pinCount := (b.pages f).pinCount + 1 }).pinFrame f)) ∨
    (b.pageTable.lookup p = none ∧ (∀ f, 0 < (b.pages f).pinCount) ∧
      b.fetchPage p = (none, b)) ∨
    (b.pageTable.lookup p = none ∧ ∃ f b', TakesOver b f p b' ∧
      b'.nextPageId = b.nextPageId ∧ b.fetchPage p =
        (some f, b'.setData f (b'.diskManager.readPage p (b.pages f).data))) := by
  cases hl : b.pageTable.lookup p with
  | some f => exact .inl ⟨f, rfl, by simp [fetchPage, hl]⟩
  | none =>
    cases hv : b.getFreeFrameOrVictim with
    | none => exact .inr (.inl ⟨rfl, hs.no_victim.mp hv, by simp [fetchPage, hl, hv]⟩)
    | some x =>
      obtain ⟨f, b₁⟩ := x
      have hnext : b₁.nextPageId = b.nextPageId := by
        obtain ⟨-, fl, lru, rfl, -⟩ := hs.victim hv
        rfl
      obtain ⟨ht, hk⟩ := hs.takeOver hv p b₁.nextPageId
      exact .inr (.inr ⟨rfl, f, b₁.takeOver f p, ht, hk.trans hnext,
        by simp [fetchPage, hl, hv, ← ht.data]⟩)

theorem Shape.newPage_cases {b : BufferPoolManager n} (hs : b.Shape) :
    ((∀ f, 0 < (b.pages f).pinCount) ∧ b.newPage = (none, b)) ∨
    (∃ f b', TakesOver b f b.nextPageId b' ∧ b'.nextPageId = b.nextPageId + 1 ∧
      b.newPage = (some (b.nextPageId, f), b'.setData f zeroPage)) := by
  cases hv : b.getFreeFrameOrVictim with
  | none => exact .inl ⟨hs.no_victim.mp hv, by simp [newPage, hv]⟩
  | some x =>
    obtain ⟨f, b₁⟩ := x
    have hnext : b₁.nextPageId = b.nextPageId := by
      obtain ⟨-, fl, lru, rfl, -⟩ := hs.victim hv
      rfl
    obtain ⟨ht, hk⟩ := hs.takeOver hv b.nextPageId (b.nextPageId + 1)
    exact .inr ⟨f, _, ht, hk, by simp [newPage, hv, hnext]⟩

theorem unpinPage_cases (b : BufferPoolManager n) (p : ℤ) (d : Bool) :
    (b.unpinPage p d = (false, b) ∧
      ∀ f, b.pageTable.lookup p = some f → (b.pages f).pinCount = 0) ∨
    ∃ f, b.pageTable.lookup p = some f ∧ 0 < (b.pages f).pinCount ∧
      b.unpinPage p d = (true, (b.setPage f { b.pages f with
        isDirty := (b.pages f).isDirty || d
        pinCount := (b.pages f).pinCount - 1 }).unpinFrame f) := by
  cases hl : b.pageTable.lookup p with
  | none => exact .inl ⟨by simp [unpinPage, hl], nofun⟩
  | some f =>
    by_cases hp : (b.pages f).pinCount = 0
    · refine .inl ⟨by simp [unpinPage, hl, hp], ?_⟩
      rintro g hg
      rwa [← Option.some.inj hg]
    · exact .inr ⟨f, rfl, by omega, by simp [unpinPage, hl, hp]⟩

theorem flushPage_cases (b : BufferPoolManager n) (p : ℤ) :
    (b.flushPage p).2 = b ∧
      (∀ f, b.pageTable.lookup p = some f → (b.pages f).isDirty = false) ∨
    ∃ f, b.pageTable.lookup p = some f ∧ (b.pages f).isDirty = true ∧
      b.flushPage p = (true, { b with
        diskManager := b.diskManager.writePage p (b.pages f).data }.setPage f
          { b.pages f with isDirty := false }) := by
  cases hl : b.pageTable.lookup p with
  | none => exact .inl ⟨by simp [flushPage, hl], nofun⟩
  | some f =>
    by_cases hd : (b.pages f).isDirty = true
    · exact .inr ⟨f, rfl, hd, by simp [flushPage, hl, hd]⟩
    · refine .inl ⟨by simp [flushPage, hl, hd], ?_⟩
      rintro g hg
      rw [← Option.some.inj hg]
      exact Bool.not_eq_true _ ▸ hd

theorem deletePage_cases (b : BufferPoolManager n) (p : ℤ) :
    (b.deletePage p = (false, b) ∧
      ∀ f, b.pageTable.lookup p = some f → 0 < (b.pages f).pinCount) ∨
    ∃ f dm, b.pageTable.lookup p = some f ∧ (b.pages f).pinCount = 0 ∧
      dm = (if (b.pages f).isDirty then b.diskManager.writePage p (b.pages f).data
        else b.diskManager) ∧
      b.deletePage p = (true, { b with
        diskManager := dm
        pages := Function.update b.pages f { b.pages f with
          pageId := invalidPageId, pinCount := 0, isDirty := false }
        pageTable := b.pageTable.erase p
        freeList := b.freeList ++ [f] }) := by
  cases hl : b.pageTable.lookup p with
  | none => exact .inl ⟨by simp [deletePage, hl], by simp⟩
  | some f =>
    by_cases hp : 0 < (b.pages f).pinCount
    · refine .inl ⟨by simp [deletePage, hl, hp], fun g hg => ?_⟩
      exact Option.some.inj hg ▸ hp
    · refine .inr ⟨f, _, rfl, by omega, rfl, ?_⟩
      simp [deletePage, hl, hp, setPage]

/-! The invariant under each operation. -/

/-- The bytes in the frames, the dirty flags and the disk apart, two pools are the same. -/
structure SamePlaces (b b' : BufferPoolManager n) : Prop where
  table : b'.pageTable = b.pageTable
  free : b'.freeList = b.freeList
  lru : b'.lru = b.lru
  next : b'.nextPageId = b.nextPageId
  pageId : ∀ f, (b'.pages f).pageId = (b.pages f).pageId
  pinCount : ∀ f, (b'.pages f).pinCount = (b.pages f).pinCount

theorem SamePlaces.refl (b : BufferPoolManager n) : SamePlaces b b :=
  ⟨rfl, rfl, rfl, rfl, fun _ => rfl, fun _ => rfl⟩

theorem SamePlaces.trans {b b₁ b₂ : BufferPoolManager n} (h : SamePlaces b b₁)
    (h' : SamePlaces b₁ b₂) : SamePlaces b b₂ where
  table := h'.table.trans h.table
  free := h'.free.trans h.free
  lru := h'.lru.trans h.lru
  next := h'.next.trans h.next
  pageId f := (h'.pageId f).trans (h.pageId f)
  pinCount f := (h'.pinCount f).trans (h.pinCount f)

theorem SamePlaces.shape {b b' : BufferPoolManager n} (h : SamePlaces b b') (hs : b.Shape) :
    b'.Shape := by
  constructor
  · intro p f
    rw [h.table, h.pageId]
    exact hs.mapped p f
  · intro f
    rw [h.pageId]
    exact hs.valid f
  · intro f
    rw [h.pageId, h.next]
    exact hs.below f
  · exact h.next ▸ hs.next_nonneg
  · exact h.free ▸ hs.free_nodup
  · intro f
    rw [h.free, h.pageId]
    exact hs.free f
  · intro f
    rw [h.pageId, h.pinCount, h.lru]
    exact hs.lru f
  · intro f
    rw [h.pageId, h.pinCount]
    exact hs.free_unpinned f

/-- A field that a new page in one frame has in common with the old one is the same in every
frame. -/
theorem setPage_field {α : Type*} (b : BufferPoolManager n) (f : Fin n) {page : Page}
    (field : Page → α) (hf : field page = field (b.pages f)) (g : Fin n) :
    field ((b.setPage f page).pages g) = field (b.pages g) := by
  by_cases hg : g = f
  · subst hg
    simpa [setPage] using hf
  · simp [setPage, hg]

theorem setData_same (b : BufferPoolManager n) (f : Fin n) (d : PageData) :
    SamePlaces b (b.setData f d) := by
  refine ⟨rfl, rfl, rfl, rfl, ?_, ?_⟩
  · exact setPage_field b f Page.pageId rfl
  · exact setPage_field b f Page.pinCount rfl

theorem flushPage_same (b : BufferPoolManager n) (p : ℤ) : SamePlaces b (b.flushPage p).2 := by
  rcases flushPage_cases b p with ⟨he, -⟩ | ⟨f, hl, -, he⟩
  · rw [he]
    exact SamePlaces.refl b
  · rw [he]
    refine ⟨rfl, rfl, rfl, rfl, ?_, ?_⟩
    · exact setPage_field { b with diskManager := _ } f Page.pageId rfl
    · exact setPage_field { b with diskManager := _ } f Page.pinCount rfl

theorem flushAllPages_same (b : BufferPoolManager n) : SamePlaces b b.flushAllPages := by
  unfold flushAllPages
  generalize b.pageTable.keys = ps
  induction ps generalizing b with
  | nil => exact SamePlaces.refl b
  | cons p ps ih => exact (b.flushPage_same p).trans (ih (b.flushPage p).2)

theorem Shape.setData {b : BufferPoolManager n} (hs : b.Shape) (f : Fin n) (d : PageData) :
    (b.setData f d).Shape := (b.setData_same f d).shape hs

/-- One frame is changed in place: it keeps its page, and the LRU list agrees with its pins. -/
theorem Shape.inPlace {b : BufferPoolManager n} (hs : b.Shape) {f : Fin n} {page : Page}
    {lru : HandleList (Fin n)} {dm : DiskManager} (hf : (b.pages f).pageId ≠ invalidPageId)
    (hid : page.pageId = (b.pages f).pageId)
    (hlru : ∀ g, g ≠ f → (g ∈ lru.toList ↔ g ∈ b.lru.toList))
    (hlruf : f ∈ lru.toList ↔ page.pinCount = 0) :
    { b with diskManager := dm, pages := Function.update b.pages f page, lru }.Shape := by
  have hid' : ∀ g, (Function.update b.pages f page g).pageId = (b.pages g).pageId :=
    setPage_field b f Page.pageId hid
  constructor
  · intro p g
    rw [hid']
    exact hs.mapped p g
  · intro g
    rw [hid']
    exact hs.valid g
  · intro g
    rw [hid']
    exact hs.below g
  · exact hs.next_nonneg
  · exact hs.free_nodup
  · intro g
    rw [hid']
    exact hs.free g
  · intro g hg
    rw [hid'] at hg
    by_cases he : g = f
    · subst he
      simpa using hlruf
    · simpa [he, hlru g he] using hs.lru g hg
  · intro g hg
    rw [hid'] at hg
    have he : g ≠ f := by
      rintro rfl
      exact hf hg
    simpa [he] using hs.free_unpinned g hg

theorem Shape.fetchPage {b : BufferPoolManager n} (hs : b.Shape) {p : ℤ} (h0 : 0 ≤ p)
    (hlt : p < b.nextPageId) : (b.fetchPage p).2.Shape := by
  rcases hs.fetch_cases p with ⟨f, hl, he⟩ | ⟨-, -, he⟩ | ⟨hl, f, b', ht, hnext, he⟩
  · rw [he]
    refine hs.inPlace (hs.mapped_valid hl) rfl (fun g hg => ?_) ?_
    · rw [setPage, HandleList.mem_toList_erase]
      exact and_iff_left hg
    · simp [setPage, HandleList.mem_toList_erase]
  · rw [he]
    exact hs
  · rw [he]
    exact (ht.shape hs h0 hl hnext.ge (hnext ▸ hlt)).setData f _

theorem Shape.newPage {b : BufferPoolManager n} (hs : b.Shape) : b.newPage.2.Shape := by
  rcases hs.newPage_cases with ⟨-, he⟩ | ⟨f, b', ht, hnext, he⟩
  · rw [he]
    exact hs
  · rw [he]
    refine (ht.shape hs hs.next_nonneg hs.lookup_next ?_ ?_).setData f _ <;>
      (rw [hnext]; omega)

/-- An unpin keeps the invariant when it is the last of its page. -/
theorem Shape.unpinPage {b : BufferPoolManager n} (hs : b.Shape) {p : ℤ}
    (hpin : ∀ f, b.pageTable.lookup p = some f → (b.pages f).pinCount ≤ 1) (d : Bool) :
    (b.unpinPage p d).2.Shape := by
  rcases unpinPage_cases b p d with ⟨he, -⟩ | ⟨f, hl, hpos, he⟩
  · rw [he]
    exact hs
  · rw [he]
    have hone := hpin f hl
    refine hs.inPlace (hs.mapped_valid hl) rfl (fun g hg => ?_) ?_
    · rw [setPage, HandleList.mem_toList_pushBack]
      exact or_iff_left hg
    · simp only [HandleList.mem_toList_pushBack, or_true, true_iff]
      omega

theorem Shape.flushPage {b : BufferPoolManager n} (hs : b.Shape) (p : ℤ) :
    (b.flushPage p).2.Shape := (b.flushPage_same p).shape hs

theorem Shape.deletePage {b : BufferPoolManager n} (hs : b.Shape) (p : ℤ) :
    (b.deletePage p).2.Shape := by
  rcases deletePage_cases b p with ⟨he, -⟩ | ⟨f, dm, hl, hpin, -, he⟩
  · rw [he]
    exact hs
  · rw [he]
    have hp := (hs.mapped p f).mp hl
    have hf := hs.mapped_valid hl
    constructor
    · intro q g
      dsimp only
      rw [AList.lookup_erase_ite]
      by_cases hg : g = f
      · subst hg
        simp only [Function.update_self, ← hp.2]
        split_ifs with hq
        · simp [hq, hs.valid g |>.resolve_left hf, hf.symm]
        · simp only [hs.mapped, Ne.symm hq, and_false, false_iff, not_and]
          exact fun h0 he => ne_invalid_of_nonneg h0 he.symm
      · rw [Function.update_of_ne hg, ← hs.mapped]
        split_ifs with hq
        · subst hq
          simp [hl, Ne.symm hg]
        · rfl
    · intro g
      by_cases hg : g = f
      · subst hg
        simp
      · simpa [hg] using hs.valid g
    · intro g
      have hn := hs.next_nonneg
      by_cases hg : g = f
      · subst hg
        simp only [Function.update_self, invalidPageId]
        omega
      · simpa [hg] using hs.below g
    · exact hs.next_nonneg
    · rw [← List.concat_eq_append, List.nodup_concat]
      exact ⟨fun hg => hf ((hs.free f).mp hg), hs.free_nodup⟩
    · intro g
      by_cases hg : g = f
      · subst hg
        simp
      · simp [hg, hs.free]
    · intro g
      by_cases hg : g = f
      · subst hg
        simp
      · simpa [hg] using hs.lru g
    · intro g
      by_cases hg : g = f
      · subst hg
        simp
      · simpa [hg] using hs.free_unpinned g

end BufferPoolManager
end PragmaticDB
