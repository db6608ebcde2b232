import PragmaticDB.Storage.HeapDisk
import PragmaticDB.Storage.LeastRecent

/-!
Tables that fit their pool. As long as there are no more pages than frames none loses its frame,
and between two flushes nothing is written to the file.
-/
namespace PragmaticDB
open ByteBlock CallMachine

namespace BufferPoolManager
variable {n : ℕ} {b b₁ : BufferPoolManager n} {p : ℤ} {f : Fin n}

/-- Without free frames there is a page in each of them. -/
theorem Shape.frames_le (hs : b.Shape) (hfree : b.freeList = []) {S : Finset ℤ}
    (hS : ∀ q g, b.pageTable.lookup q = some g → q ∈ S) : n ≤ S.card := by
  have hlook : ∀ g, b.pageTable.lookup (b.pages g).pageId = some g := by
    intro g
    apply hs.lookup_frame
    rw [ne_eq, ← hs.free, hfree]
    exact List.not_mem_nil
  have hinj : Set.InjOn (fun g => (b.pages g).pageId) ↑(Finset.univ : Finset (Fin n)) := by
    intro g _ k _ hgk
    have hg := hlook g
    simp only at hgk
    rw [hgk, hlook k] at hg
    exact (Option.some.inj hg).symm
  have hcard := Finset.card_le_card_of_injOn _ (fun g _ => hS _ g (hlook g)) hinj
  rwa [Finset.card_univ, Fintype.card_fin] at hcard

theorem Shape.lookup_range (hs : b.Shape) {q : ℤ} (hl : b.pageTable.lookup q = some f) :
    q ∈ Finset.Ico 0 b.nextPageId := by
  obtain ⟨h0, rfl⟩ := (hs.mapped q f).mp hl
  exact Finset.mem_Ico.mpr ⟨h0, hs.below f⟩

theorem newPage_given (hnew : b.newPage = (some (p, f), b₁)) :
    f ∈ b.freeList ∨ b.freeList = [] ∧ ∃ rest, b.lru.toList = f :: rest := by
  unfold BufferPoolManager.newPage at hnew
  split at hnew
  next => cases hnew
  next g b₂ hv =>
    obtain ⟨hg, -⟩ := Prod.mk.inj hnew
    obtain ⟨-, rfl⟩ := Prod.mk.inj (Option.some.inj hg)
    exact (victim_lru hv).2

/-- With no more pages than frames, a page without a frame leaves one free. -/
theorem Shape.free_of_absent (hs : b.Shape) (h0 : 0 ≤ p) (hlt : p < b.nextPageId)
    (hsmall : b.nextPageId ≤ n) (hl : b.pageTable.lookup p = none) : b.freeList ≠ [] := by
  intro hnil
  have hS : ∀ q g, b.pageTable.lookup q = some g →
      q ∈ (Finset.Ico 0 b.nextPageId).erase p := by
    intro q g hq
    refine Finset.mem_erase.mpr ⟨?_, hs.lookup_range hq⟩
    rintro rfl
    rw [hl] at hq
    cases hq
  have hle := hs.frames_le hnil hS
  rw [Finset.card_erase_of_mem (Finset.mem_Ico.mpr ⟨h0, hlt⟩), Int.card_Ico] at hle
  omega

theorem Shape.free_of_few (hs : b.Shape) (hsmall : b.nextPageId < n) : b.freeList ≠ [] := by
  intro hnil
  have hle := hs.frames_le hnil fun q g hq => hs.lookup_range hq
  have h0 := hs.next_nonneg
  rw [Int.card_Ico] at hle
  omega

/-- A frame from the free list has no page that could be written back. -/
theorem Shape.fetchPage_unwritten (hs : b.Shape) (h0 : 0 ≤ p) (hlt : p < b.nextPageId)
    (hsmall : b.nextPageId ≤ n) : (b.fetchPage p).2.diskManager = b.diskManager := by
  rcases hs.fetch_cases p with ⟨f, -, he⟩ | ⟨-, -, he⟩ | ⟨hl, f, b', ht, -, he⟩
  · rw [he]
    rfl
  · rw [he]
  · have hf : f ∈ b.freeList := by
      rcases (fetchPage_lru he).2 with hl' | hf | ⟨hnil, -⟩
      · rw [hl] at hl'
        cases hl'
      · exact hf
      · exact absurd hnil (hs.free_of_absent h0 hlt hsmall hl)
    rw [he]
    change b'.diskManager = _
    rw [ht.disk, if_neg fun hw => hw.1 ((hs.free f).mp hf)]

theorem Shape.newPage_unwritten (hs : b.Shape) (hsmall : b.nextPageId < n) :
    b.newPage.2.diskManager = b.diskManager := by
  rcases hs.newPage_cases with ⟨-, he⟩ | ⟨f, b', ht, -, he⟩
  · rw [he]
  · have hf := (newPage_given he).resolve_right fun h => hs.free_of_few hsmall h.1
    rw [he]
    change b'.diskManager = _
    rw [ht.disk, if_neg fun hw => hw.1 ((hs.free f).mp hf)]

end BufferPoolManager

theorem HeapFile.insertNew_next {h h' : HeapFile} {bytes : List UInt8} {rid : RecordId}
    (he : h.insertNew bytes = some (rid, h')) : h'.next = h.next + 1 := by
  obtain ⟨⟨slotId, d⟩, -, he⟩ := Option.bind_eq_some_iff.mp he
  cases slotId with
  | none =>
    cases he
    rfl
  | some i =>
    cases he
    rfl

namespace RecordManager

/-- The pages of `h`, over this file as long as they all have frames. -/
structure Spares (file : Option File) (rm : RecordManager) (h : HeapFile) : Prop where
  refines : rm.Refines h
  file : h.next ≤ 10 → rm.pool.diskManager.file = file

theorem spares_calls (file : Option File) : VisitCalls (Spares file) where
  refines hs := hs.refines
  visit {_ rm h p} absent act hs hp ha _ := by
    apply rel_imp_mem (hs.refines.visit hp absent ha)
    intro x y hx hy hxy
    refine ⟨hxy.1, hxy.2, fun hle => ?_⟩
    obtain ⟨h0, hlt⟩ := hs.refines.range p hp
    rw [(HeapFile.visit_ids hy).2] at hle
    rw [visit_disk hx, hs.refines.quiet.fetchPage_unwritten h0 (hs.refines.next ▸ hlt)
      (hs.refines.next ▸ hle)]
    exact hs.file hle
  insertNew {rm h bytes} hs hlt := by
    apply rel_imp_mem (hs.refines.insertNew bytes)
    intro x y hx hy hxy
    refine ⟨hxy.1, hxy.2.1, fun hle => ⟨hxy.2.2 hle, fun hsmall => ?_⟩⟩
    rw [HeapFile.insertNew_next hy] at hsmall
    rw [insertNew_disk hx, hs.refines.quiet.newPage_unwritten (by rw [hs.refines.next]; omega)]
    exact hs.file (by omega)

end RecordManager
end PragmaticDB
