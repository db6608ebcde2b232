import PragmaticDB.Storage.BufferPoolStore
import PragmaticDB.Lib.Machine

/-!
Runs of the buffer pool. What a caller knows is a function of the calls it made and the
answers it got: the pointers it holds, and the bytes it last left in each page.
-/
namespace PragmaticDB
open ByteBlock DiskManager CallMachine

/-- `write f data` is the caller changing a page through a pointer to frame `f`. -/
inductive PoolCall (n : ℕ) where
  | newPage
  | fetchPage (p : ℤ)
  | write (f : Fin n) (data : PageData)
  | unpinPage (p : ℤ) (isDirty : Bool)
  | flushPage (p : ℤ)
  | flushAllPages
  | deletePage (p : ℤ)

inductive PoolReply (n : ℕ) where
  | page (r : Option (ℤ × Fin n))
  | frame (r : Option (Fin n))
  | ok (r : Bool)
  | unit

abbrev PoolHistory (n : ℕ) := List (PoolCall n × PoolReply n)

namespace BufferPoolManager
variable {n : ℕ}

def answer (b : BufferPoolManager n) : PoolCall n → PoolReply n × BufferPoolManager n
  | .newPage => (.page b.newPage.1, b.newPage.2)
  | .fetchPage p => (.frame (b.fetchPage p).1, (b.fetchPage p).2)
  | .write f data => (.unit, b.setData f data)
  | .unpinPage p x => (.ok (b.unpinPage p x).1, (b.unpinPage p x).2)
  | .flushPage p => (.ok (b.flushPage p).1, (b.flushPage p).2)
  | .flushAllPages => (.unit, b.flushAllPages)
  | .deletePage p => (.ok (b.deletePage p).1, (b.deletePage p).2)

/-- The pointers to page `p` a caller has been given and has not released. -/
def holders : PoolHistory n → ℤ → List (Fin n)
  | [], _ => []
  | (.newPage, .page (some (q, f))) :: h, p =>
    if p = q then f :: holders h p else holders h p
  | (.fetchPage q, .frame (some f)) :: h, p =>
    if p = q then f :: holders h p else holders h p
  | (.unpinPage q _, .ok true) :: h, p =>
    if p = q then (holders h p).tail else holders h p
  | _ :: h, p => holders h p

/-- The bytes the caller last left in page `p`, if it ever created it. -/
def latest : PoolHistory n → ℤ → Option PageData
  | [], _ => none
  | (.newPage, .page (some (q, _))) :: h, p => if p = q then some zeroPage else latest h p
  | (.write f data, _) :: h, p => if f ∈ holders h p then some data else latest h p
  | _ :: h, p => latest h p

/-- Page `p` was created or changed since it was last released. -/
def touched : PoolHistory n → ℤ → Bool
  | [], _ => false
  | (.newPage, .page (some (q, _))) :: h, p => if p = q then true else touched h p
  | (.write f _, _) :: h, p => if f ∈ holders h p then true else touched h p
  | (.unpinPage q _, .ok true) :: h, p => if p = q then false else touched h p
  | _ :: h, p => touched h p

/-- The pins in the pool are the pointers its callers hold. -/
structure Agrees (h : PoolHistory n) (b : BufferPoolManager n) : Prop extends Shape b where
  held : ∀ p f, f ∈ holders h p → b.pageTable.lookup p = some f
  pins : ∀ p f, b.pageTable.lookup p = some f → (b.pages f).pinCount = (holders h p).length

theorem Agrees.unheld {h : PoolHistory n} {b : BufferPoolManager n} (ha : Agrees h b) {p : ℤ}
    (hp : b.pageTable.lookup p = none) : holders h p = [] := by
  refine List.eq_nil_iff_forall_not_mem.mpr fun f hf => ?_
  rw [ha.held p f hf] at hp
  cases hp

theorem Agrees.pinned {h : PoolHistory n} {b : BufferPoolManager n} (ha : Agrees h b) {p : ℤ}
    {f : Fin n} (hf : f ∈ holders h p) : 0 < (b.pages f).pinCount := by
  rw [ha.pins p f (ha.held p f hf)]
  exact List.length_pos_of_mem hf

theorem Agrees.not_mem_lru {h : PoolHistory n} {b : BufferPoolManager n} (ha : Agrees h b)
    {p : ℤ} {f : Fin n} (hf : f ∈ holders h p) : f ∉ b.lru.toList := by
  intro hl
  have h0 := (ha.lru f (ha.mapped_valid (ha.held p f hf))).mp hl
  have hp := ha.pinned hf
  omega

theorem Agrees.not_victim {h : PoolHistory n} {b b' : BufferPoolManager n} (ha : Agrees h b)
    {p : ℤ} {f : Fin n} (hf : f ∈ holders h p) :
    b.getFreeFrameOrVictim ≠ some (f, b') := by
  intro hv
  have h0 := (ha.victim hv).1
  have hp := ha.pinned hf
  omega

/-- A frame is handed to a page nobody holds, and its new user gets the only pointer. -/
theorem Agrees.takesOver {h h' : PoolHistory n} {b b' : BufferPoolManager n} {f : Fin n}
    {p : ℤ} {d : PageData} (ha : Agrees h b) (ht : TakesOver b f p b')
    (hp : b.pageTable.lookup p = none) (hs : (b'.setData f d).Shape)
    (hh : ∀ q, holders h' q = if q = p then f :: holders h q else holders h q) :
    Agrees h' (b'.setData f d) := by
  have hnil := ha.unheld hp
  refine ⟨hs, fun q g hg => ?_, fun q g hg => ?_⟩
  · change b'.pageTable.lookup q = some g
    rw [ht.table]
    rw [hh] at hg
    split_ifs at hg ⊢ with hq hid
    · rw [hq, hnil, List.mem_singleton] at hg
      rw [hg]
    · have hl := ha.held q g hg
      have hpos := ha.pinned hg
      obtain rfl : g = f := by
        rw [(ha.mapped q f).mpr ⟨((ha.mapped q g).mp hl).1, hid.symm⟩] at hl
        exact (Option.some.inj hl).symm
      rw [ht.unpinned] at hpos
      exact absurd hpos (lt_irrefl _)
    · exact ha.held q g hg
  · change b'.pageTable.lookup q = some g at hg
    rw [ht.table] at hg
    rw [hh]
    split_ifs at hg ⊢ with hq hid
    · cases hg
      simp [setData, setPage, ht.pinCount, hq, hnil]
    · have hgf : g ≠ f := by
        rintro rfl
        exact hid ((ha.mapped q g).mp hg).2.symm
      simpa [setData, setPage, hgf, ht.others g hgf] using ha.pins q g hg

theorem Agrees.newPage {h : PoolHistory n} {b : BufferPoolManager n} (ha : Agrees h b) :
    Agrees ((.newPage, .page b.newPage.1) :: h) b.newPage.2 := by
  have hs := ha.toShape.newPage
  rcases ha.newPage_cases with ⟨-, he⟩ | ⟨f, b', ht, hnext, he⟩
  · rw [he]
    exact ⟨ha.toShape, ha.held, ha.pins⟩
  · rw [he] at hs ⊢
    exact ha.takesOver ht ha.lookup_next hs fun q => rfl

theorem Agrees.fetchPage {h : PoolHistory n} {b : BufferPoolManager n} (ha : Agrees h b)
    {p : ℤ} (h0 : 0 ≤ p) (hlt : p < b.nextPageId) :
    Agrees ((.fetchPage p, .frame (b.fetchPage p).1) :: h) (b.fetchPage p).2 := by
  have hs := ha.toShape.fetchPage h0 hlt
  rcases ha.fetch_cases p with ⟨f, hl, he⟩ | ⟨-, -, he⟩ | ⟨hl, f, b', ht, hnext, he⟩
  · rw [he] at hs ⊢
    refine ⟨hs, fun q g hg => ?_, fun q g hg => ?_⟩
    · change b.pageTable.lookup q = some g
      simp only [holders] at hg
      split_ifs at hg with hq
      · rcases List.mem_cons.mp hg with rfl | hg
        · rw [hq, hl]
        · exact ha.held q g hg
      · exact ha.held q g hg
    · change b.pageTable.lookup q = some g at hg
      have hpin := ha.pins q g hg
      simp only [holders]
      split_ifs with hq
      · subst hq
        rw [hl] at hg
        cases hg
        simp [setPage, pinFrame, hpin]
      · have hgf : g ≠ f := by
          rintro rfl
          exact hq (ha.frame_inj hg hl)
        simpa [setPage, pinFrame, hgf] using hpin
  · rw [he]
    exact ⟨ha.toShape, ha.held, ha.pins⟩
  · rw [he] at hs ⊢
    exact ha.takesOver ht hl hs fun q => rfl

theorem Agrees.unpinPage {h : PoolHistory n} {b : BufferPoolManager n} (ha : Agrees h b)
    {p : ℤ} (hone : (holders h p).length ≤ 1) (x : Bool) :
    Agrees ((.unpinPage p x, .ok (b.unpinPage p x).1) :: h) (b.unpinPage p x).2 := by
  have hs := ha.toShape.unpinPage (fun f hf => (ha.pins p f hf).trans_le hone) x
  rcases unpinPage_cases b p x with ⟨he, -⟩ | ⟨f, hl, -, he⟩
  · rw [he]
    exact ⟨ha.toShape, ha.held, ha.pins⟩
  · rw [he] at hs ⊢
    refine ⟨hs, fun q g hg => ?_, fun q g hg => ?_⟩
    · change b.pageTable.lookup q = some g
      simp only [holders] at hg
      split_ifs at hg with hq
      · exact ha.held q g (List.mem_of_mem_tail hg)
      · exact ha.held q g hg
    · change b.pageTable.lookup q = some g at hg
      have hpin := ha.pins q g hg
      simp only [holders]
      split_ifs with hq
      · subst hq
        rw [hl] at hg
        cases hg
        simp [setPage, unpinFrame, hpin]
      · have hgf : g ≠ f := by
          rintro rfl
          exact hq (ha.frame_inj hg hl)
        simpa [setPage, unpinFrame, hgf] using hpin

theorem Agrees.same {h h' : PoolHistory n} {b b' : BufferPoolManager n} (ha : Agrees h b)
    (hs : SamePlaces b b') (hh : ∀ p, holders h' p = holders h p) : Agrees h' b' where
  toShape := hs.shape ha.toShape
  held p f hf := by
    rw [hs.table]
    exact ha.held p f (hh p ▸ hf)
  pins p f hf := by
    rw [hs.table] at hf
    rw [hs.pinCount, hh]
    exact ha.pins p f hf

/-- `DeletePage` touches no page that somebody holds. -/
theorem Agrees.deletePage {h : PoolHistory n} {b : BufferPoolManager n} (ha : Agrees h b)
    (p : ℤ) : Agrees ((.deletePage p, .ok (b.deletePage p).1) :: h) (b.deletePage p).2 := by
  have hs := ha.toShape.deletePage p
  rcases deletePage_cases b p with ⟨he, -⟩ | ⟨f, dm, hl, hpin, -, he⟩
  · rw [he]
    exact ⟨ha.toShape, ha.held, ha.pins⟩
  · rw [he] at hs ⊢
    refine ⟨hs, fun q g hg => ?_, fun q g hg => ?_⟩
    · have hq : q ≠ p := by
        rintro rfl
        have hpos := ha.pinned hg
        rw [Option.some.inj ((ha.held q g hg).symm.trans hl), hpin] at hpos
        exact lt_irrefl _ hpos
      rw [AList.lookup_erase_ite, if_neg hq]
      exact ha.held q g hg
    · rw [AList.lookup_erase_ite] at hg
      split_ifs at hg with hqp
      have hgf : g ≠ f := by
        rintro rfl
        exact hqp (ha.frame_inj hg hl)
      simpa [hgf, holders] using ha.pins q g hg

end BufferPoolManager
end PragmaticDB
