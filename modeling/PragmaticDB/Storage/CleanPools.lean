import PragmaticDB.Storage.HeapDisk

/-!
Pools without changes that their file lacks. Whichever pages give up their frames to others,
nothing is written, and a flush finds nothing to do.
-/
namespace PragmaticDB

namespace BufferPoolManager
variable {n : ℕ} {b : BufferPoolManager n}

/-- No page in a frame has changed since it was read. -/
def Clean (b : BufferPoolManager n) : Prop :=
  ∀ p f, b.pageTable.lookup p = some f → (b.pages f).isDirty = false

instance (b : BufferPoolManager n) : Decidable b.Clean :=
  decidable_of_iff (∀ e ∈ b.pageTable.entries, (b.pages e.2).isDirty = false)
    ⟨fun h p f hl => h ⟨p, f⟩ (AList.mem_lookup_iff.mp hl),
      fun h e he => h e.1 e.2 (AList.mem_lookup_iff.mpr he)⟩

theorem new_clean (n : ℕ) (dm : DiskManager) : (new n dm).Clean := nofun

/-- A frame changes, but whether it is dirty does not. -/
theorem Clean.setPage (hc : b.Clean) {f : Fin n} {page : Page}
    (h : page.isDirty = (b.pages f).isDirty) : (b.setPage f page).Clean := by
  intro q g hq
  have hg := hc q g hq
  by_cases hgf : g = f
  · subst hgf
    simpa [BufferPoolManager.setPage, h] using hg
  · simpa [BufferPoolManager.setPage, hgf] using hg

/-- The frame that `FetchPage` takes is dropped without a write. -/
theorem Clean.fetchPage (hc : b.Clean) (hs : b.Shape) (p : ℤ) :
    (b.fetchPage p).2.Clean ∧ (b.fetchPage p).2.diskManager = b.diskManager := by
  rcases hs.fetch_cases p with ⟨f, -, he⟩ | ⟨-, -, he⟩ | ⟨-, f, b', ht, -, he⟩
  · rw [he]
    exact ⟨hc.setPage rfl, rfl⟩
  · rw [he]
    exact ⟨hc, rfl⟩
  · have hclean : b'.Clean := by
      intro q g hq
      rw [ht.table] at hq
      split_ifs at hq with hp hold
      · cases hq
        exact ht.isDirty
      · have hgf : g ≠ f := by
          rintro rfl
          exact hold ((hs.mapped q g).mp hq).2.symm
        rw [ht.others g hgf]
        exact hc q g hq
    rw [he]
    refine ⟨hclean.setPage rfl, ?_⟩
    change b'.diskManager = _
    rw [ht.disk, if_neg]
    rintro ⟨hid, hdirty⟩
    rw [hc _ f (hs.lookup_frame hid)] at hdirty
    cases hdirty

theorem Clean.unpinPage (hc : b.Clean) (p : ℤ) : (b.unpinPage p false).2.Clean := by
  rcases unpinPage_cases b p false with ⟨he, -⟩ | ⟨f, -, -, he⟩
  · rw [he]
    exact hc
  · rw [he]
    exact hc.setPage (Bool.or_false _)

theorem Clean.flushAllPages (hc : b.Clean) : b.flushAllPages = b := by
  have hpage : ∀ p, (b.flushPage p).2 = b := by
    intro p
    rcases flushPage_cases b p with ⟨he, -⟩ | ⟨f, hl, hdirty, -⟩
    · rw [he]
    · rw [hc p f hl] at hdirty
      cases hdirty
  unfold BufferPoolManager.flushAllPages
  induction b.pageTable.keys with
  | nil => rfl
  | cons p ps ih =>
    rw [List.foldl_cons, hpage]
    exact ih

theorem Sound.flushAllPages_clean (hs : b.Sound) : b.flushAllPages.Clean := by
  obtain ⟨-, ht, -, -, -, -, hc⟩ := flush_fold hs b.pageTable.keys
  intro p f hl
  have hl' : b.pageTable.lookup p = some f := ht ▸ hl
  apply hc p _ f hl'
  rw [← AList.mem_keys, ← AList.lookup_isSome, hl']
  rfl

end BufferPoolManager

namespace RecordManager
variable {rm rm' : RecordManager}

/-- Work that leaves the page clean leaves the pool clean. -/
theorem visit_clean {α : Type} {p : ℤ} {absent x : α} {act : PageData → Option (Visit α)}
    (hc : rm.pool.Clean) (hs : rm.pool.Shape) (hact : ∀ d v, act d = some v → v.dirty = false)
    (he : rm.visit p absent act = some (x, rm')) :
    rm'.pool.Clean ∧ rm'.pool.diskManager = rm.pool.diskManager := by
  obtain ⟨hclean, hdisk⟩ := hc.fetchPage hs p
  refine ⟨?_, (visit_disk he).trans hdisk⟩
  unfold RecordManager.visit at he
  rcases hf : rm.pool.fetchPage p with ⟨_ | f, pool⟩
  · rw [hf] at he hclean
    cases he
    exact hclean
  · rw [hf] at he hclean
    obtain ⟨v, hv, he⟩ := Option.bind_eq_some_iff.mp he
    cases he
    have hdata : (pool.setData f v.data).Clean := hclean.setPage rfl
    change ((pool.setData f v.data).unpinPage p v.dirty).2.Clean
    rw [hact _ v hv]
    exact hdata.unpinPage p

end RecordManager

theorem getVisit_clean {i : ℕ} {d : PageData} {v : Visit (Option (List UInt8))}
    (hv : getVisit i d = some v) : v.dirty = false := by
  unfold getVisit at hv
  split_ifs at hv
  · cases hv
    rfl
  · obtain ⟨s, -, hv⟩ := Option.bind_eq_some_iff.mp hv
    split_ifs at hv
    · cases hv
      rfl
    · obtain ⟨bytes, -, hv⟩ := Option.bind_eq_some_iff.mp hv
      cases hv
      rfl

end PragmaticDB
