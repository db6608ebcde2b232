import PragmaticDB.Storage.BufferPoolPins
import PragmaticDB.Storage.LeastRecent

/-!
The order of eviction. Pages leave the pool in the order in which they were released: the LRU
list has the unpinned frames in that order in every run, stale entries of deleted pages apart,
and these are gone by the time the free list is empty.
-/
namespace PragmaticDB
open CallMachine
namespace BufferPoolManager
variable {n : ℕ} {b b' : BufferPoolManager n} {h h' : PoolHistory n} {p : ℤ} {f : Fin n}

/-- The number of the call that last released page `p`, counted from one; zero if none did. -/
def releasedAt : PoolHistory n → ℤ → ℕ
  | [], _ => 0
  | (.unpinPage q _, .ok true) :: h, p =>
    if p = q ∧ (holders h p).length = 1 then h.length + 1 else releasedAt h p
  | _ :: h, p => releasedAt h p

theorem releasedAt_le (h : PoolHistory n) (p : ℤ) : releasedAt h p ≤ h.length := by
  fun_induction releasedAt h p with
  | case1 => exact le_rfl
  | case2 => exact le_rfl
  | case3 _ _ _ _ _ ih => exact ih.trans (Nat.le_succ _)
  | case4 _ _ _ _ ih => exact ih.trans (Nat.le_succ _)

/-- Callers that fetch only pages `NewPage` gave them, each while nobody has it pinned. -/
def lruMachine (n : ℕ) : Machine (BufferPoolManager n) (PoolCall n) (PoolReply n) where
  step b c := some (b.answer c)
  Allowed h _ c :=
    match c with
    | .fetchPage p => Created h p ∧ holders h p = []
    | _ => True

theorem lruMachine_call {s₀ b : BufferPoolManager n} {h : PoolHistory n}
    (hr : (lruMachine n).Run s₀ h b) (c : PoolCall n) (ha : (lruMachine n).Allowed h b c) :
    (lruMachine n).Run s₀ ((c, (b.answer c).1) :: h) (b.answer c).2 := hr.call ha rfl

/-- The frames on the LRU list that hold a page, in its order. -/
def waiting (b : BufferPoolManager n) : List (Fin n) :=
  b.lru.toList.filter fun f => (b.pages f).pageId ≠ invalidPageId

/-- These were released one after the other. -/
structure Queued (h : PoolHistory n) (b : BufferPoolManager n) : Prop where
  released : ∀ f ∈ b.waiting, 0 < releasedAt h (b.pages f).pageId
  sorted : b.waiting.Pairwise fun f g =>
    releasedAt h (b.pages f).pageId < releasedAt h (b.pages g).pageId

/-- Frames may leave the queue. -/
theorem Queued.sublist (hq : Queued h b) (hsub : b'.waiting.Sublist b.waiting)
    (hid : ∀ f ∈ b'.waiting, (b'.pages f).pageId = (b.pages f).pageId)
    (hrel : ∀ p, releasedAt h' p = releasedAt h p) : Queued h' b' := by
  constructor
  · intro f hf
    rw [hid f hf, hrel]
    exact hq.released f (hsub.subset hf)
  · apply (hq.sorted.sublist hsub).imp_of_mem
    intro f g hf hg hlt
    rwa [hid f hf, hid g hg, hrel, hrel]

/-- One frame is taken off the LRU list, and the others keep their pages. -/
theorem Queued.taken (hq : Queued h b) (hlru : b'.lru.toList = b.lru.toList.erase f)
    (hid : ∀ g, g ≠ f → b'.pages g = b.pages g)
    (hrel : ∀ p, releasedAt h' p = releasedAt h p) : Queued h' b' := by
  have hmem : ∀ g, g ∈ b.lru.toList.erase f → g ≠ f := fun g hg =>
    (b.lru.toList_nodup.mem_erase_iff.mp hg).1
  have hsame : b'.waiting =
      (b.lru.toList.erase f).filter fun g => (b.pages g).pageId ≠ invalidPageId := by
    unfold waiting
    rw [hlru]
    apply List.filter_congr
    intro g hg
    rw [hid g (hmem g hg)]
  apply hq.sublist _ _ hrel
  · rw [hsame]
    exact List.erase_sublist.filter _
  · intro g hg
    rw [hsame] at hg
    rw [hid g (hmem g (List.mem_filter.mp hg).1)]

/-- A released frame goes to the end of the queue. -/
theorem Queued.released_last (hq : Queued h b) {x : Bool}
    (hlru : b'.lru.toList = b.lru.toList ++ [f]) (hf : f ∉ b.lru.toList)
    (hid : ∀ g, (b'.pages g).pageId = (b.pages g).pageId) (hp : (b.pages f).pageId = p)
    (hother : ∀ g, g ≠ f → (b.pages g).pageId ≠ p) (hone : (holders h p).length = 1) :
    Queued ((.unpinPage p x, .ok true) :: h) b' := by
  have hnow : releasedAt ((.unpinPage p x, .ok true) :: h) p = h.length + 1 := by
    simp [releasedAt, hone]
  have hold : ∀ g ∈ b.waiting, releasedAt ((.unpinPage p x, .ok true) :: h)
      (b.pages g).pageId = releasedAt h (b.pages g).pageId := by
    intro g hg
    have hgf : g ≠ f := ne_of_mem_of_not_mem (List.mem_filter.mp hg).1 hf
    simp [releasedAt, hother g hgf]
  have hwait : b'.waiting = b.waiting ++ [f].filter fun g =>
      (b.pages g).pageId ≠ invalidPageId := by
    unfold waiting
    rw [hlru, ← List.filter_append]
    simp only [hid]
  have hlast : ∀ g ∈ [f].filter fun g => (b.pages g).pageId ≠ invalidPageId, g = f := by
    intro g hg
    exact List.mem_singleton.mp (List.mem_filter.mp hg).1
  constructor
  · intro g hg
    rw [hwait] at hg
    rw [hid]
    rcases List.mem_append.mp hg with hg | hg
    · rw [hold g hg]
      exact hq.released g hg
    · rw [hlast g hg, hp, hnow]
      exact Nat.succ_pos _
  · rw [hwait, List.pairwise_append]
    refine ⟨?_, ?_, ?_⟩
    · apply hq.sorted.imp_of_mem
      intro g k hg hk hlt
      rwa [hid, hid, hold g hg, hold k hk]
    · exact (List.pairwise_singleton _ f).sublist List.filter_sublist
    · intro g hg k hk
      rw [hid, hid, hold g hg, hlast k hk, hp, hnow]
      exact Nat.lt_succ_of_le (releasedAt_le h _)

theorem newPage_lru (hnew : b.newPage = (some (p, f), b')) :
    b'.lru.toList = b.lru.toList.erase f := by
  unfold BufferPoolManager.newPage at hnew
  split at hnew
  next => cases hnew
  next g b₂ hv =>
    obtain ⟨hg, rfl⟩ := Prod.mk.inj hnew
    obtain ⟨-, rfl⟩ := Prod.mk.inj (Option.some.inj hg)
    rw [← (victim_lru hv).1]
    exact congrArg HandleList.toList (takeOver_lru _ _ _)

/-- What holds between the calls of a run. -/
structure Aged (h : PoolHistory n) (b : BufferPoolManager n) : Prop extends Agrees h b where
  single : ∀ p, (holders h p).length ≤ 1
  created : ∀ p, Created h p → 0 ≤ p ∧ p < b.nextPageId
  queued : Queued h b

theorem new_aged (n : ℕ) (dm : DiskManager) : Aged [] (new n dm) where
  toAgrees := ⟨new_shape n dm, nofun, by simp [new]⟩
  single p := by simp [holders]
  created p hp := by simp [Created] at hp
  queued := ⟨nofun, .nil⟩

theorem Aged.newPage (ha : Aged h b) :
    Aged ((.newPage, .page b.newPage.1) :: h) b.newPage.2 := by
  have hagrees := ha.toAgrees.newPage
  have hnil := ha.toAgrees.unheld ha.lookup_next
  rcases ha.newPage_cases with ⟨-, he⟩ | ⟨f, b₁, ht, hnext, he⟩
  · rw [he] at hagrees ⊢
    refine ⟨hagrees, ha.single, fun p hp => ha.created p ?_, ?_⟩
    · simpa [Created] using hp
    · exact ha.queued.sublist (List.Sublist.refl _) (fun _ _ => rfl) fun _ => rfl
  · have hlru := newPage_lru he
    rw [he] at hagrees ⊢
    refine ⟨hagrees, fun p => ?_, fun p hp => ?_, ?_⟩
    · simp only [holders]
      split_ifs with hp
      · simp [hp, hnil]
      · exact ha.single p
    · have h0 := ha.next_nonneg
      change 0 ≤ p ∧ p < b₁.nextPageId
      obtain ⟨g, hg⟩ := hp
      rcases List.mem_cons.mp hg with hg | hg
      · simp only [Prod.mk.injEq, PoolReply.page.injEq, Option.some.injEq, true_and] at hg
        omega
      · have hlt := ha.created p ⟨g, hg⟩
        omega
    · have hpages : ∀ g, g ≠ f → (b₁.setData f zeroPage).pages g = b.pages g := by
        intro g hg
        simpa [BufferPoolManager.setData, setPage, hg] using ht.others g hg
      exact ha.queued.taken hlru hpages fun _ => rfl

theorem Aged.fetchPage (ha : Aged h b) (hp : Created h p) (hnone : holders h p = []) :
    Aged ((.fetchPage p, .frame (b.fetchPage p).1) :: h) (b.fetchPage p).2 := by
  obtain ⟨h0, hlt⟩ := ha.created p hp
  have hagrees := ha.toAgrees.fetchPage h0 hlt
  have hnext := ha.fetchPage_next p
  have hcreated : ∀ r q, Created ((.fetchPage p, r) :: h) q → Created h q := by
    intro r q hq
    simpa [Created] using hq
  cases hf : b.fetchPage p with
  | mk r b₁ =>
    rw [hf] at hagrees hnext
    cases r with
    | none =>
      have hsame : b₁ = b := by
        rcases ha.fetch_cases p with ⟨f, -, he⟩ | ⟨-, -, he⟩ | ⟨-, f, b', -, -, he⟩ <;>
          rw [hf] at he <;> cases he
        rfl
      subst hsame
      exact ⟨hagrees, ha.single, fun q hq => ha.created q (hcreated _ q hq),
        ha.queued.sublist (List.Sublist.refl _) (fun _ _ => rfl) fun _ => rfl⟩
    | some f =>
      refine ⟨hagrees, fun q => ?_, fun q hq => ?_, ?_⟩
      · simp only [holders]
        split_ifs with hq
        · simp [hq, hnone]
        · exact ha.single q
      · rw [hnext]
        exact ha.created q (hcreated _ q hq)
      · exact ha.queued.taken (fetchPage_lru hf).1 (ha.fetchPage_pages hf).2 fun _ => rfl

theorem Aged.unpinPage (ha : Aged h b) (p : ℤ) (x : Bool) :
    Aged ((.unpinPage p x, .ok (b.unpinPage p x).1) :: h) (b.unpinPage p x).2 := by
  have hagrees := ha.toAgrees.unpinPage (ha.single p) x
  have hcreated : ∀ r q, Created ((.unpinPage p x, r) :: h) q → Created h q := by
    intro r q hq
    simpa [Created] using hq
  rcases unpinPage_cases b p x with ⟨he, -⟩ | ⟨f, hl, hpos, he⟩
  · rw [he] at hagrees ⊢
    exact ⟨hagrees, ha.single, fun q hq => ha.created q (hcreated _ q hq),
      ha.queued.sublist (List.Sublist.refl _) (fun _ _ => rfl) fun _ => rfl⟩
  · have hid := ((ha.mapped p f).mp hl).2
    have hpins := ha.pins p f hl
    have hone : (holders h p).length = 1 := le_antisymm (ha.single p) (hpins ▸ hpos)
    have hf : f ∉ b.lru.toList := by
      intro hmem
      have hzero := (ha.lru f (ha.mapped_valid hl)).mp hmem
      omega
    rw [he] at hagrees ⊢
    refine ⟨hagrees, fun q => ?_, fun q hq => ha.created q (hcreated _ q hq), ?_⟩
    · have hq := ha.single q
      simp only [holders]
      split_ifs
      · rw [List.length_tail]
        omega
      · exact hq
    · apply ha.queued.released_last _ hf _ hid _ hone
      · change (b.lru.pushBack f).toList = b.lru.toList ++ [f]
        rw [HandleList.toList_pushBack, if_neg hf]
      · exact setPage_field b f Page.pageId rfl
      · intro g hg hgp
        apply hg
        have hg' := (ha.mapped p g).mpr ⟨((ha.mapped p f).mp hl).1, hgp⟩
        exact Option.some.inj (hg'.symm.trans hl)

/-- A call that moves no page and no pin. -/
theorem Aged.same (ha : Aged h b) (hs : SamePlaces b b')
    (hh : ∀ p, holders h' p = holders h p) (hc : ∀ p, Created h' p → Created h p)
    (hrel : ∀ p, releasedAt h' p = releasedAt h p) : Aged h' b' where
  toAgrees := ha.toAgrees.same hs hh
  single p := hh p ▸ ha.single p
  created p hp := hs.next ▸ ha.created p (hc p hp)
  queued := by
    have hwait : b'.waiting = b.waiting := by
      unfold waiting
      rw [hs.lru]
      simp only [hs.pageId]
    exact ha.queued.sublist (hwait ▸ List.Sublist.refl _) (fun f _ => hs.pageId f) hrel

/-- The frame of a deleted page stays on the LRU list and is passed over as a free frame. -/
theorem Aged.deletePage (ha : Aged h b) (p : ℤ) :
    Aged ((.deletePage p, .ok (b.deletePage p).1) :: h) (b.deletePage p).2 := by
  have hagrees := ha.toAgrees.deletePage p
  have hcreated : ∀ r q, Created ((.deletePage p, r) :: h) q → Created h q := by
    intro r q hq
    simpa [Created] using hq
  rcases deletePage_cases b p with ⟨he, -⟩ | ⟨f, dm, hl, hpin, -, he⟩
  · rw [he] at hagrees ⊢
    exact ⟨hagrees, ha.single, fun q hq => ha.created q (hcreated _ q hq),
      ha.queued.sublist (List.Sublist.refl _) (fun _ _ => rfl) fun _ => rfl⟩
  · rw [he] at hagrees ⊢
    refine ⟨hagrees, ha.single, fun q hq => ha.created q (hcreated _ q hq), ?_⟩
    refine ha.queued.sublist ?_ ?_ fun _ => rfl
    · apply List.monotone_filter_right
      intro g hg
      by_cases hgf : g = f
      · simp [hgf] at hg
      · simpa [hgf] using hg
    · intro g hg
      have hgf : g ≠ f := by
        rintro rfl
        simp [waiting] at hg
      simp [hgf]

theorem lruMachine_keeps (n : ℕ) : (lruMachine n).Keeps Aged := by
  intro h b c ha hallow
  refine ⟨_, _, rfl, ?_⟩
  cases c with
  | newPage => exact ha.newPage
  | fetchPage p => exact ha.fetchPage hallow.1 hallow.2
  | write f d => exact ha.same (b.setData_same f d) (fun _ => rfl) (by simp [Created]) fun _ => rfl
  | unpinPage p x => exact ha.unpinPage p x
  | flushPage p =>
    exact ha.same (b.flushPage_same p) (fun _ => rfl) (by simp [Created]) fun _ => rfl
  | flushAllPages =>
    exact ha.same b.flushAllPages_same (fun _ => rfl) (by simp [Created]) fun _ => rfl
  | deletePage p => exact ha.deletePage p

/-- With an empty free list there is a frame to take unless all are pinned, and it is the one
whose page was released before those of all other unpinned frames. -/
theorem evicts_first_released {dm : DiskManager} (hr : (lruMachine n).Run (new n dm) h b)
    (hfree : b.freeList = []) :
    (b.getFreeFrameOrVictim = none ↔ ∀ f, 0 < (b.pages f).pinCount) ∧
    ∀ f b', b.getFreeFrameOrVictim = some (f, b') →
      (b.pages f).pinCount = 0 ∧ 0 < releasedAt h (b.pages f).pageId ∧
      ∀ g, g ≠ f → (b.pages g).pinCount = 0 →
        releasedAt h (b.pages f).pageId < releasedAt h (b.pages g).pageId := by
  have ha := hr.invariant (lruMachine_keeps n) (new_aged n dm)
  refine ⟨ha.no_victim, fun f b' hv => ?_⟩
  -- without free frames every frame has a page, so the whole LRU list is waiting
  have hid : ∀ g, (b.pages g).pageId ≠ invalidPageId := by
    intro g
    rw [ne_eq, ← ha.free, hfree]
    exact List.not_mem_nil
  have hwait : b.waiting = b.lru.toList := by
    apply List.filter_eq_self.mpr
    intro g _
    simp [hid g]
  obtain ⟨rest, hlru⟩ : ∃ rest, b.lru.toList = f :: rest := by
    rcases (victim_lru hv).2 with hf | ⟨-, hrest⟩
    · rw [hfree] at hf
      cases hf
    · exact hrest
  have hsorted := ha.queued.sorted
  rw [hwait, hlru, List.pairwise_cons] at hsorted
  refine ⟨(ha.victim hv).1, ha.queued.released f ?_, fun g hg hpin => hsorted.1 g ?_⟩
  · simp [hwait, hlru]
  · have hmem := (ha.lru g (hid g)).mpr hpin
    rw [hlru] at hmem
    exact (List.mem_cons.mp hmem).resolve_left hg

/-- Two pages are created, and the second is released first: its frame is taken. -/
theorem second_page_taken : ∃ (h : PoolHistory 2) (b : BufferPoolManager 2),
    h = [(.unpinPage 0 false, .ok true), (.unpinPage 1 false, .ok true),
      (.newPage, .page (some (1, 1))), (.newPage, .page (some (0, 0)))] ∧
    (b.pages 1).pinCount = 0 ∧
    releasedAt h (b.pages 1).pageId < releasedAt h (b.pages 0).pageId := by
  have h1 := lruMachine_call (@Machine.Run.start _ _ _ (lruMachine 2) (new 2 ⟨[], none, []⟩))
    .newPage trivial
  have h2 := lruMachine_call h1 .newPage trivial
  have h3 := lruMachine_call h2 (.unpinPage 1 false) trivial
  have h4 := lruMachine_call h3 (.unpinPage 0 false) trivial
  obtain ⟨hpin, -, hlt⟩ := (evicts_first_released h4 rfl).2 1 _ rfl
  exact ⟨_, _, rfl, hpin, hlt 0 (by decide) rfl⟩

end BufferPoolManager
end PragmaticDB
