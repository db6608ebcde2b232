import PragmaticDB.Storage.BufferPoolStore

/-!
Which page a visit evicts. Between visits of one page at a time the LRU list ends with the pages
visited last, and the victim is at its front.
-/
namespace PragmaticDB
open ByteBlock
namespace BufferPoolManager
variable {n : ℕ} {b b' b₁ : BufferPoolManager n} {p : ℤ} {f : Fin n} {vs : List ℤ}

/-- A frame is taken from the front of the free list, or else of the LRU list. -/
theorem victim_lru (h : b.getFreeFrameOrVictim = some (f, b₁)) :
    (b₁.lru.erase f).toList = b.lru.toList.erase f ∧
      (f ∈ b.freeList ∨ b.freeList = [] ∧ ∃ rest, b.lru.toList = f :: rest) := by
  unfold getFreeFrameOrVictim at h
  split at h
  next hfree =>
    split at h
    next => cases h
    next g lru hpop =>
      obtain ⟨rfl, rfl⟩ := Prod.mk.inj (Option.some.inj h)
      have hlist := HandleList.popFront_some hpop
      have hnd := b.lru.toList_nodup
      rw [hlist] at hnd
      refine ⟨?_, .inr ⟨hfree, lru.toList, hlist⟩⟩
      simp only
      rw [HandleList.toList_erase, hlist, List.erase_cons_head,
        List.erase_of_not_mem (List.nodup_cons.mp hnd).1]
  next g fl hfree =>
    obtain ⟨rfl, rfl⟩ := Prod.mk.inj (Option.some.inj h)
    exact ⟨HandleList.toList_erase _ _, .inl (by simp [hfree])⟩

theorem takeOver_lru (b : BufferPoolManager n) (f : Fin n) (p : ℤ) :
    (b.takeOver f p).lru = b.lru.erase f := congrArg (HandleList.erase · f) (evict_same b f).2.2.1

/-- The frame `FetchPage` works on leaves the LRU list. -/
theorem fetchPage_lru (h : b.fetchPage p = (some f, b₁)) :
    b₁.lru.toList = b.lru.toList.erase f ∧ (b.pageTable.lookup p = some f ∨
      f ∈ b.freeList ∨ b.freeList = [] ∧ ∃ rest, b.lru.toList = f :: rest) := by
  unfold BufferPoolManager.fetchPage at h
  split at h
  next g hl =>
    obtain ⟨hg, rfl⟩ := Prod.mk.inj h
    obtain rfl := Option.some.inj hg
    exact ⟨HandleList.toList_erase _ _, .inl hl⟩
  next hl =>
    split at h
    next => cases h
    next g b₂ hv =>
      obtain ⟨hg, rfl⟩ := Prod.mk.inj h
      obtain rfl := Option.some.inj hg
      obtain ⟨hlru, hfrom⟩ := victim_lru hv
      refine ⟨?_, .inr hfrom⟩
      rw [← hlru, ← takeOver_lru b₂ g p]
      rfl

/-- A visit of page `p`: it had or was given frame `f`, and it has the bytes `d` now. -/
structure Visited (b : BufferPoolManager n) (p : ℤ) (f : Fin n) (d : PageData)
    (b' : BufferPoolManager n) : Prop where
  given : b.pageTable.lookup p = some f ∨
    f ∈ b.freeList ∨ b.freeList = [] ∧ ∃ rest, b.lru.toList = f :: rest
  lru : b'.lru.toList = b.lru.toList.erase f ++ [f]
  pageId : (b'.pages f).pageId = p
  data : (b'.pages f).data = d
  others : ∀ g, g ≠ f → b'.pages g = b.pages g

theorem Shape.fetchPage_pages (hs : b.Shape) (h : b.fetchPage p = (some f, b₁)) :
    (b₁.pages f).pageId = p ∧ ∀ g, g ≠ f → b₁.pages g = b.pages g := by
  rcases hs.fetch_cases p with ⟨g, hl, he⟩ | ⟨-, -, he⟩ | ⟨-, g, b₂, ht, -, he⟩
  · rw [h] at he
    obtain ⟨hg, rfl⟩ := Prod.mk.inj he
    obtain rfl := Option.some.inj hg
    refine ⟨?_, fun k hk => ?_⟩
    · simpa [setPage, pinFrame] using ((hs.mapped p f).mp hl).2
    · simp [setPage, pinFrame, hk]
  · rw [h] at he
    cases he
  · rw [h] at he
    obtain ⟨hg, rfl⟩ := Prod.mk.inj he
    obtain rfl := Option.some.inj hg
    refine ⟨?_, fun k hk => ?_⟩
    · simpa [BufferPoolManager.setData, setPage] using ht.pageId
    · simpa [BufferPoolManager.setData, setPage, hk] using ht.others k hk

theorem Ready.visited (hb : b.Ready) (h : b.fetchPage p = (some f, b₁)) (hh : b₁.Held p f)
    (d : PageData) (x : Bool) : b.Visited p f d ((b₁.setData f d).unpinPage p x).2 := by
  obtain ⟨hid, hother⟩ := hb.fetchPage_pages h
  obtain ⟨hlru, hgiven⟩ := fetchPage_lru h
  rcases unpinPage_cases (b₁.setData f d) p x with ⟨-, hz⟩ | ⟨g, hl, -, he⟩
  · have h0 := hz f hh.look
    simp [BufferPoolManager.setData, setPage, hh.once] at h0
  · obtain rfl : f = g := Option.some.inj (hh.look.symm.trans hl)
    rw [he]
    refine ⟨hgiven, ?_, ?_, ?_, fun g hg => ?_⟩
    · change (b₁.lru.pushBack f).toList = _
      rw [HandleList.toList_pushBack, hlru, if_neg]
      rw [b.lru.toList_nodup.mem_erase_iff]
      exact fun hf => hf.1 rfl
    · simpa [BufferPoolManager.setData, setPage, unpinFrame] using hid
    · simp [BufferPoolManager.setData, setPage, unpinFrame]
    · simpa [BufferPoolManager.setData, setPage, unpinFrame, hg] using hother g hg

theorem Held.left (hv : b.Held p f) (d : PageData) (x : Bool) :
    let b' := ((b.setData f d).unpinPage p x).2
    b'.pageTable.lookup p = some f ∧ (b'.pages f).data = d := by
  rcases unpinPage_cases (b.setData f d) p x with ⟨he, -⟩ | ⟨g, -, -, he⟩
  · rw [he]
    exact ⟨hv.look, by simp [BufferPoolManager.setData, setPage]⟩
  · rw [he]
    refine ⟨hv.look, ?_⟩
    by_cases hg : f = g
    · subst hg
      simp [BufferPoolManager.setData, setPage, unpinFrame]
    · simp [BufferPoolManager.setData, setPage, unpinFrame, hg]

/-- The pages visited last, the latest at the end, are at the end of the LRU list. -/
def Recent (b : BufferPoolManager n) (vs : List ℤ) : Prop :=
  (∀ v ∈ vs, 0 ≤ v) ∧ ∃ pre post, b.lru.toList = pre ++ post ∧
    post.map (fun f => (b.pages f).pageId) = vs

theorem recent_nil (b : BufferPoolManager n) : b.Recent [] :=
  ⟨nofun, b.lru.toList, [], by simp, rfl⟩

/-- With fewer than `n` recent pages a visit of another page adds one. -/
theorem Recent.visited {d : PageData} (hr : b.Recent vs) (hb : b.Ready) (h0 : 0 ≤ p)
    (hv : b.Visited p f d b') (hp : p ∉ vs) (hlt : vs.length < n) : b'.Recent (vs ++ [p]) := by
  obtain ⟨hvs, pre, post, hlru, hmap⟩ := hr
  have hmem : ∀ g ∈ post, (b.pages g).pageId ∈ vs := by
    intro g hg
    rw [← hmap]
    exact List.mem_map_of_mem hg
  -- the frame is none of those of the recent pages
  have hfresh : f ∉ post := by
    intro hf
    rcases hv.given with hl | hfree | ⟨hfree, rest, hfront⟩
    · exact hp (((hb.mapped p f).mp hl).2 ▸ hmem f hf)
    · exact ne_invalid_of_nonneg (hvs _ (hmem f hf)) ((hb.free f).mp hfree)
    · have hnd := b.lru.toList_nodup
      rw [hlru] at hfront hnd
      cases pre with
      | cons g pre =>
        obtain ⟨rfl, -⟩ := List.cons.inj hfront
        exact (List.nodup_cons.mp hnd).1 (List.mem_append_right _ hf)
      | nil =>
        have hall : ∀ g, g ∈ post := by
          intro g
          have hid : (b.pages g).pageId ≠ invalidPageId := by
            rw [ne_eq, ← hb.free, hfree]
            exact List.not_mem_nil
          have hin := (hb.lru g hid).mpr (hb.idle g)
          rwa [hlru] at hin
        have hcard : n ≤ post.length := by
          have hsub : (Finset.univ : Finset (Fin n)) ⊆ post.toFinset :=
            fun g _ => List.mem_toFinset.mpr (hall g)
          have hle := (Finset.card_le_card hsub).trans (List.toFinset_card_le post)
          rwa [Finset.card_univ, Fintype.card_fin] at hle
        rw [← hmap, List.length_map] at hlt
        omega
  refine ⟨fun v hv => ?_, pre.erase f, post ++ [f], ?_, ?_⟩
  · rcases List.mem_append.mp hv with hv | hv
    · exact hvs v hv
    · rwa [List.mem_singleton.mp hv]
  · rw [hv.lru, hlru, List.erase_append, List.erase_of_not_mem hfresh]
    split_ifs with hpre
    · exact List.append_assoc _ _ _
    · rw [List.erase_of_not_mem hpre, List.append_assoc]
  · rw [List.map_append, List.map_singleton, hv.pageId, ← hmap]
    congr 1
    apply List.map_congr_left
    intro g hg
    rw [hv.others g (ne_of_mem_of_not_mem hg hfresh)]

/-- `n` recent pages are all the pages there are in frames. -/
theorem Recent.all (hr : b.Recent vs) (hlen : vs.length = n) (f : Fin n) :
    (b.pages f).pageId ∈ vs := by
  obtain ⟨-, pre, post, hlru, hmap⟩ := hr
  have hnd := b.lru.toList_nodup
  rw [hlru] at hnd
  have hpost : post.length = n := by
    have hsame := congrArg List.length hmap
    rw [List.length_map] at hsame
    exact hsame.trans hlen
  have hcard : post.toFinset.card = Fintype.card (Fin n) := by
    rw [List.toFinset_card_of_nodup (List.nodup_append.mp hnd).2.1, Fintype.card_fin, hpost]
  have hf : f ∈ post := by
    rw [← List.mem_toFinset, Finset.eq_univ_of_card _ hcard]
    exact Finset.mem_univ f
  rw [← hmap]
  exact List.mem_map_of_mem hf

end BufferPoolManager
end PragmaticDB
