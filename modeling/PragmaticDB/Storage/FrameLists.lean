import PragmaticDB.Storage.BufferPoolResidency
import PragmaticDB.Storage.BufferPoolPins
import PragmaticDB.Storage.LeastRecent

/-!
The lists of frames. `DeletePage` puts a frame on the free list and leaves it on the LRU list,
until it is taken again; no other call puts a frame on both.
-/
namespace PragmaticDB
open CallMachine
namespace BufferPoolManager
variable {n : ℕ} {b b' : BufferPoolManager n} {h : PoolHistory n} {f : Fin n} {p : ℤ}

/-- Callers that fetch only pages `NewPage` gave them. -/
def frameMachine (n : ℕ) : Machine (BufferPoolManager n) (PoolCall n) (PoolReply n) where
  step b c := some (b.answer c)
  Allowed h _ c :=
    match c with
    | .fetchPage p => Created h p
    | _ => True

/-- The two lists of frames and the index of the second. -/
structure Disciplined (b : BufferPoolManager n) : Prop where
  free_nodup : b.freeList.Nodup
  lru_nodup : b.lru.toList.Nodup
  apart : ∀ f ∈ b.freeList, f ∉ b.lru.toList
  indexed : ∀ f, f ∈ b.lru.pos ↔ f ∈ b.lru.toList
  node : ∀ f k, b.lru.pos.lookup f = some k ↔ (k, f) ∈ b.lru.nodes
  nodes_nodup : (b.lru.nodes.map Prod.fst).Nodup
  free : ∀ f, f ∈ b.freeList ↔ (b.pages f).pageId = invalidPageId

/-- Frames without a page are free, and frames whose page has no pins can be taken. A free frame
may be on the LRU list as well. -/
structure Listed (b : BufferPoolManager n) : Prop extends Resident b where
  below : ∀ p f, b.pageTable.lookup p = some f → p < b.nextPageId
  free_nodup : b.freeList.Nodup
  free : ∀ f, f ∈ b.freeList ↔ (b.pages f).pageId = invalidPageId
  unpinned : ∀ f, (b.pages f).pageId ≠ invalidPageId → (b.pages f).pinCount = 0 →
    f ∈ b.lru.toList

def ListsApart (b : BufferPoolManager n) : Prop := ∀ f ∈ b.freeList, f ∉ b.lru.toList

theorem Listed.disciplined_iff (hl : Listed b) : Disciplined b ↔ ListsApart b := by
  refine ⟨fun hd => hd.apart, fun ha => ?_⟩
  constructor
  · exact hl.free_nodup
  · exact b.lru.toList_nodup
  · exact ha
  · intro f
    rw [← b.lru.mem_iff]
    exact AList.lookup_isSome.symm
  · exact b.lru.pos_iff
  · exact b.lru.ids_nodup
  · exact hl.free

theorem new_listed (n : ℕ) (dm : DiskManager) : (new n dm).Listed where
  toResident := new_resident n dm
  below := by simp [new]
  free_nodup := List.nodup_finRange n
  free f := by simp [new]
  unpinned f hf := absurd rfl hf

theorem new_apart (n : ℕ) (dm : DiskManager) : (new n dm).ListsApart := by
  intro f _
  exact List.not_mem_nil

theorem Listed.held (hl : Listed b) {p : ℤ} {f : Fin n} (hp : b.pageTable.lookup p = some f) :
    (b.pages f).pageId ≠ invalidPageId := by
  rw [hl.mapped p f hp]
  exact ne_invalid_of_nonneg (hl.nonneg p f hp)

/-- Frames stay where they are, apart from what the LRU list has to have. -/
theorem Listed.inPlace (hl : Listed b)
    (hids : ∀ g, (b'.pages g).pageId = (b.pages g).pageId) (htable : b'.pageTable = b.pageTable)
    (hnext : b'.nextPageId = b.nextPageId) (hfree : b'.freeList = b.freeList)
    (hlru : ∀ g, (b.pages g).pageId ≠ invalidPageId → (b'.pages g).pinCount = 0 →
      g ∈ b'.lru.toList) : Listed b' := by
  constructor
  · exact hl.toResident.of_ids hids htable hnext
  · intro p g hp
    rw [hnext]
    exact hl.below p g (htable ▸ hp)
  · exact hfree ▸ hl.free_nodup
  · intro g
    rw [hfree, hids]
    exact hl.free g
  · intro g hg hpin
    exact hlru g (hids g ▸ hg) hpin

theorem Listed.same (hl : Listed b) (hs : SamePlaces b b') : Listed b' := by
  apply hl.inPlace hs.pageId hs.table hs.next hs.free
  intro g hg hpin
  rw [hs.lru]
  exact hl.unpinned g hg (hs.pinCount g ▸ hpin)

/-! A frame changes hands. -/

/-- A page that is not resident gets a frame, which leaves both lists. -/
theorem Listed.takeOver {k : ℤ} (hl : Listed b) (hv : b.getFreeFrameOrVictim = some (f, b'))
    (h0 : 0 ≤ p) (hp : b.pageTable.lookup p = none) (hk : b.nextPageId ≤ k) (hlt : p < k) :
    Listed ({ b' with nextPageId := k }.takeOver f p) ∧
      (∀ g ∈ ({ b' with nextPageId := k }.takeOver f p).freeList, g ∈ b.freeList) ∧
      ∀ g ∈ ({ b' with nextPageId := k }.takeOver f p).lru.toList, g ∈ b.lru.toList := by
  obtain ⟨-, fl, lru, rfl, hnd, hfl, hlru⟩ := victim_lists hl.free_nodup hv
  have hready : Resident { b with freeList := fl, lru, nextPageId := k } :=
    ⟨⟨hl.single, hl.injective, hl.mapped, hl.carried⟩, hl.nonneg, hl.next_nonneg.trans hk⟩
  have hfree' : ({ b with freeList := fl, lru, nextPageId := k }.takeOver f p).freeList = fl :=
    (evict_same _ f).2.1
  have hmem : ∀ g, g ∈ ({ b with freeList := fl, lru, nextPageId := k }.takeOver f p).lru.toList ↔
      g ∈ b.lru.toList ∧ g ≠ f := by
    intro g
    rw [takeOver_lru, HandleList.mem_toList_erase]
    exact and_congr_left fun hg => hlru g hg
  refine ⟨?_, fun g hg => ?_, fun g hg => ((hmem g).mp hg).1⟩
  · constructor
    · exact hready.takeOver h0 (by simp [hp])
    · intro q g hq
      rw [nextPageId_takeOver]
      rw [lookup_takeOver] at hq
      split_ifs at hq with hqp
      · rwa [hqp]
      · exact (hl.below q g hq).trans_le hk
    · rw [hfree']
      exact hnd
    · intro g
      rw [hfree', pageId_takeOver]
      split_ifs with hg
      · refine iff_of_false ?_ (ne_invalid_of_nonneg h0)
        rw [hfl, hg]
        exact fun hno => hno.2 rfl
      · rw [hfl, hl.free]
        exact and_iff_left hg
    · intro g hg hpin
      rw [pageId_takeOver] at hg
      rw [pinCount_takeOver] at hpin
      rw [hmem]
      split_ifs at hg hpin with hgf
      exact ⟨hl.unpinned g hg hpin, hgf⟩
  · rw [hfree', hfl] at hg
    exact hg.1

theorem Listed.fetchPage (hl : Listed b) (h0 : 0 ≤ p) (hlt : p < b.nextPageId) :
    Listed (b.fetchPage p).2 ∧ (b.fetchPage p).2.nextPageId = b.nextPageId ∧
      (∀ g ∈ (b.fetchPage p).2.freeList, g ∈ b.freeList) ∧
      ∀ g ∈ (b.fetchPage p).2.lru.toList, g ∈ b.lru.toList := by
  unfold BufferPoolManager.fetchPage
  cases hp : b.pageTable.lookup p with
  | some f =>
    refine ⟨?_, rfl, fun g hg => hg, fun g hg => ?_⟩
    · apply hl.inPlace
      · exact setPage_field b f Page.pageId rfl
      · rfl
      · rfl
      · rfl
      · intro g hg hpin
        change g ∈ (b.lru.erase f).toList
        rw [HandleList.mem_toList_erase]
        by_cases hgf : g = f
        · subst hgf
          simp [pinFrame, setPage] at hpin
        · simp only [pinFrame, setPage, Function.update_of_ne hgf] at hpin
          exact ⟨hl.unpinned g hg hpin, hgf⟩
    · change g ∈ (b.lru.erase f).toList at hg
      exact ((HandleList.mem_toList_erase _ _ _).mp hg).1
  | none =>
    cases hv : b.getFreeFrameOrVictim with
    | none => exact ⟨hl, rfl, fun g hg => hg, fun g hg => hg⟩
    | some x =>
      obtain ⟨f, b'⟩ := x
      have hnext := (getFreeFrameOrVictim_same hv).2.2
      obtain ⟨ht, hfree, hlru⟩ := hl.takeOver hv h0 hp le_rfl hlt
      rw [← hnext] at ht hfree hlru
      refine ⟨ht.same (setData_same _ f _), ?_, hfree, hlru⟩
      exact (nextPageId_takeOver b' f p).trans hnext

theorem Listed.newPage (hl : Listed b) :
    Listed b.newPage.2 ∧ b.nextPageId ≤ b.newPage.2.nextPageId ∧
      (∀ p f, b.newPage.1 = some (p, f) →
        p = b.nextPageId ∧ b.newPage.2.nextPageId = b.nextPageId + 1) ∧
      (∀ g ∈ b.newPage.2.freeList, g ∈ b.freeList) ∧
      ∀ g ∈ b.newPage.2.lru.toList, g ∈ b.lru.toList := by
  unfold BufferPoolManager.newPage
  cases hv : b.getFreeFrameOrVictim with
  | none => exact ⟨hl, le_rfl, nofun, fun g hg => hg, fun g hg => hg⟩
  | some x =>
    obtain ⟨f, b'⟩ := x
    have hnext := (getFreeFrameOrVictim_same hv).2.2
    have hnew : b.pageTable.lookup b.nextPageId = none := by
      rw [Option.eq_none_iff_forall_ne_some]
      exact fun g hg => lt_irrefl _ (hl.below _ g hg)
    obtain ⟨ht, hfree, hlru⟩ := hl.takeOver hv hl.next_nonneg hnew
      (Int.le_add_one le_rfl) (Int.lt_add_one_of_le le_rfl)
    rw [← hnext] at ht hfree hlru
    have hcount := nextPageId_takeOver { b' with nextPageId := b'.nextPageId + 1 } f b'.nextPageId
    simp only
    rw [← hnext]
    refine ⟨ht.same (setData_same _ f _), ?_, ?_, hfree, hlru⟩
    · exact (Int.le_add_one le_rfl).trans hcount.ge
    · intro p g he
      obtain ⟨rfl, -⟩ := Prod.mk.inj (Option.some.inj he)
      exact ⟨rfl, hcount⟩

/-- An unpinned frame is put on the LRU list, and it holds a page. -/
theorem Listed.unpinPage (hl : Listed b) (p : ℤ) (x : Bool) :
    Listed (b.unpinPage p x).2 ∧ (b.unpinPage p x).2.nextPageId = b.nextPageId ∧
      (b.unpinPage p x).2.freeList = b.freeList ∧
      ∀ g ∈ (b.unpinPage p x).2.lru.toList, g ∈ b.lru.toList ∨ g ∉ b.freeList := by
  rcases unpinPage_cases b p x with ⟨he, -⟩ | ⟨f, hp, -, he⟩
  · rw [he]
    exact ⟨hl, rfl, rfl, fun g hg => .inl hg⟩
  · rw [he]
    refine ⟨?_, rfl, rfl, fun g hg => ?_⟩
    · apply hl.inPlace
      · exact setPage_field b f Page.pageId rfl
      · rfl
      · rfl
      · rfl
      · intro g hg hpin
        change g ∈ (b.lru.pushBack f).toList
        rw [HandleList.mem_toList_pushBack]
        by_cases hgf : g = f
        · exact .inr hgf
        · simp only [unpinFrame, setPage, Function.update_of_ne hgf] at hpin
          exact .inl (hl.unpinned g hg hpin)
    · change g ∈ (b.lru.pushBack f).toList at hg
      refine ((HandleList.mem_toList_pushBack _ _ _).mp hg).imp_right ?_
      rintro rfl
      rw [hl.free]
      exact hl.held hp

/-- A page without pins is deleted: its frame is free from then on, and still on the LRU list. -/
theorem Listed.deletePage (hl : Listed b) (p : ℤ) :
    Listed (b.deletePage p).2 ∧ (b.deletePage p).2.nextPageId = b.nextPageId ∧
      (b.deletePage p).2.lru = b.lru ∧
      ∀ g, g ∈ (b.deletePage p).2.freeList ↔ g ∈ b.freeList ∨
        b.pageTable.lookup p = some g ∧ (b.pages g).pinCount = 0 := by
  have hres := hl.toResident.deletePage p
  rcases deletePage_cases b p with ⟨he, hpinned⟩ | ⟨f, dm, hp, hpin, -, he⟩
  · rw [he]
    refine ⟨hl, rfl, rfl, fun g => ?_⟩
    rw [or_iff_left]
    rintro ⟨hg, h0⟩
    exact absurd h0 (hpinned g hg).ne'
  · rw [he] at hres ⊢
    refine ⟨?_, rfl, rfl, fun g => ?_⟩
    · constructor
      · exact hres
      · intro q g hq
        simp only [AList.lookup_erase_ite] at hq
        split_ifs at hq
        exact hl.below q g hq
      · rw [← List.concat_eq_append, List.nodup_concat]
        exact ⟨fun hg => hl.held hp ((hl.free f).mp hg), hl.free_nodup⟩
      · intro g
        by_cases hg : g = f
        · subst hg
          simp
        · simp [hg, hl.free]
      · intro g hg hpin'
        have hgf : g ≠ f := by
          rintro rfl
          simp at hg
        simp only [Function.update_of_ne hgf] at hg hpin'
        exact hl.unpinned g hg hpin'
    · simp only [List.mem_append, List.mem_singleton, hp, Option.some.injEq]
      refine or_congr_right ⟨?_, fun hg => hg.1.symm⟩
      rintro rfl
      exact ⟨rfl, hpin⟩

/-! The calls. -/

/-- No resident page without pins is deleted. -/
def SparesUnpinned (b : BufferPoolManager n) : PoolCall n → Prop
  | .deletePage p => ∀ f, b.pageTable.lookup p = some f → 0 < (b.pages f).pinCount
  | _ => True

theorem Listed.answer (hl : Listed b) {c : PoolCall n}
    (hc : ∀ p, Created h p → 0 ≤ p ∧ p < b.nextPageId) (ha : (frameMachine n).Allowed h b c) :
    Listed (b.answer c).2 ∧ ∀ p, Created ((c, (b.answer c).1) :: h) p →
      0 ≤ p ∧ p < (b.answer c).2.nextPageId := by
  have hold : ∀ x, (∀ p f, x ≠ (PoolCall.newPage, PoolReply.page (some (p, f)))) →
      ∀ p, Created (x :: h) p → 0 ≤ p ∧ p < b.nextPageId := by
    rintro x hx p ⟨f, hf⟩
    rcases List.mem_cons.mp hf with he | hf
    · exact absurd he.symm (hx p f)
    · exact hc p ⟨f, hf⟩
  have hkeep : ∀ x (b' : BufferPoolManager n),
      (∀ p f, x ≠ (PoolCall.newPage, PoolReply.page (some (p, f)))) → Listed b' →
      b'.nextPageId = b.nextPageId →
      Listed b' ∧ ∀ p, Created (x :: h) p → 0 ≤ p ∧ p < b'.nextPageId := by
    intro x b' hx hl' hnext
    rw [hnext]
    exact ⟨hl', hold x hx⟩
  cases c with
  | newPage =>
    obtain ⟨hl', hle, hid, -, -⟩ := hl.newPage
    refine ⟨hl', ?_⟩
    rintro p ⟨f, hf⟩
    rcases List.mem_cons.mp hf with he | hf
    · have he : b.newPage.1 = some (p, f) := by
        simpa [BufferPoolManager.answer] using (Prod.mk.inj he).2.symm
      obtain ⟨rfl, hnext⟩ := hid p f he
      refine ⟨hl.next_nonneg, ?_⟩
      change b.nextPageId < b.newPage.2.nextPageId
      omega
    · have hp := hc p ⟨f, hf⟩
      exact ⟨hp.1, hp.2.trans_le hle⟩
  | fetchPage q =>
    obtain ⟨h0, hlt⟩ := hc q ha
    obtain ⟨hl', hnext, -, -⟩ := hl.fetchPage h0 hlt
    exact hkeep _ _ (by simp) hl' hnext
  | write f d =>
    have hs := setData_same b f d
    exact hkeep _ _ (by simp) (hl.same hs) hs.next
  | unpinPage q x =>
    obtain ⟨hl', hnext, -, -⟩ := hl.unpinPage q x
    exact hkeep _ _ (by simp) hl' hnext
  | flushPage q =>
    have hs := flushPage_same b q
    exact hkeep _ _ (by simp) (hl.same hs) hs.next
  | flushAllPages =>
    have hs := flushAllPages_same b
    exact hkeep _ _ (by simp) (hl.same hs) hs.next
  | deletePage q =>
    obtain ⟨hl', hnext, -, -⟩ := hl.deletePage q
    exact hkeep _ _ (by simp) hl' hnext

/-- Lists that are apart stay apart, unless a resident page without pins is deleted. -/
theorem Listed.apart_answer (hl : Listed b) (hapart : ListsApart b) {c : PoolCall n}
    (hc : ∀ p, Created h p → 0 ≤ p ∧ p < b.nextPageId) (ha : (frameMachine n).Allowed h b c) :
    ListsApart (b.answer c).2 ↔ SparesUnpinned b c := by
  have hsub : ∀ b' : BufferPoolManager n, (∀ g ∈ b'.freeList, g ∈ b.freeList) →
      (∀ g ∈ b'.lru.toList, g ∈ b.lru.toList) → ListsApart b' :=
    fun b' hfree hlru g hg hin => hapart g (hfree g hg) (hlru g hin)
  have hsame : ∀ b', SamePlaces b b' → ListsApart b' := by
    intro b' hs
    unfold ListsApart
    rw [hs.free, hs.lru]
    exact hapart
  cases c with
  | newPage =>
    obtain ⟨-, -, -, hfree, hlru⟩ := hl.newPage
    exact iff_of_true (hsub _ hfree hlru) trivial
  | fetchPage q =>
    obtain ⟨h0, hlt⟩ := hc q ha
    obtain ⟨-, -, hfree, hlru⟩ := hl.fetchPage h0 hlt
    exact iff_of_true (hsub _ hfree hlru) trivial
  | write f d => exact iff_of_true (hsame _ (setData_same b f d)) trivial
  | unpinPage q x =>
    obtain ⟨-, -, hfree, hlru⟩ := hl.unpinPage q x
    refine iff_of_true (fun g hg hin => ?_) trivial
    have hg : g ∈ b.freeList := hfree ▸ hg
    exact (hlru g hin).elim (hapart g hg) fun hno => hno hg
  | flushPage q => exact iff_of_true (hsame _ (flushPage_same b q)) trivial
  | flushAllPages => exact iff_of_true (hsame _ (flushAllPages_same b)) trivial
  | deletePage q =>
    obtain ⟨-, -, hlru, hfree⟩ := hl.deletePage q
    change (∀ g ∈ (b.deletePage q).2.freeList, g ∉ (b.deletePage q).2.lru.toList) ↔
      ∀ f, b.pageTable.lookup q = some f → 0 < (b.pages f).pinCount
    rw [hlru]
    constructor
    · intro happ f hp
      by_contra hpin
      have h0 : (b.pages f).pinCount = 0 := Nat.eq_zero_of_not_pos hpin
      exact happ f ((hfree f).mpr (.inr ⟨hp, h0⟩)) (hl.unpinned f (hl.held hp) h0)
    · intro hspare g hg
      rcases (hfree g).mp hg with hg | ⟨hp, h0⟩
      · exact hapart g hg
      · exact absurd h0 (hspare g hp).ne'

/-! Runs. -/

theorem frameMachine_keeps (n : ℕ) : (frameMachine n).Keeps fun h b =>
    Listed b ∧ ∀ p, Created h p → 0 ≤ p ∧ p < b.nextPageId := by
  rintro h b c ⟨hl, hc⟩ ha
  exact ⟨_, _, rfl, hl.answer hc ha⟩

theorem Listed.of_run {dm : DiskManager} (hr : (frameMachine n).Run (new n dm) h b) :
    Listed b ∧ ∀ p, Created h p → 0 ≤ p ∧ p < b.nextPageId :=
  hr.invariant (frameMachine_keeps n) ⟨new_listed n dm, by simp [Created]⟩

/-- Every state of a run is in order if and only if no call of it deletes a resident page without
pins. -/
theorem disciplined_iff_sparesUnpinned {dm : DiskManager}
    (hr : (frameMachine n).Run (new n dm) h b) :
    (∀ h' b', h' <:+ h → (frameMachine n).Run (new n dm) h' b' → Disciplined b') ↔
      ((frameMachine n).restrict SparesUnpinned).Run (new n dm) h b := by
  constructor
  · intro hd
    induction hr with
    | start => exact .start
    | @call h b b' c r hr ha hs ih =>
      have hspared := ih fun h' b'' hh => hd h' b'' (hh.trans (List.suffix_cons _ _))
      obtain ⟨hl, hc⟩ := Listed.of_run hr
      have hbefore := hd h b (List.suffix_cons _ _) hr
      have hafter := hd _ b' (List.suffix_refl _) (hr.call ha hs)
      obtain ⟨-, rfl⟩ := Prod.mk.inj (Option.some.inj hs)
      exact hspared.call ⟨ha, (hl.apart_answer hbefore.apart hc ha).mp hafter.apart⟩ hs
  · intro hspared h' b' hh hr'
    have hapart : ((frameMachine n).restrict SparesUnpinned).Preserves fun h b =>
        (Listed b ∧ ∀ p, Created h p → 0 ≤ p ∧ p < b.nextPageId) ∧ ListsApart b := by
      rintro h b c r b' ⟨⟨hl, hc⟩, hapart⟩ ha hs
      obtain ⟨rfl, rfl⟩ := Prod.mk.inj (Option.some.inj hs)
      exact ⟨hl.answer hc ha.1, (hl.apart_answer hapart hc ha.1).mpr ha.2⟩
    obtain ⟨s, hs⟩ := hspared.earlier hh
    obtain rfl := hr'.unique (hs.mono (frameMachine n) rfl fun _ _ _ ha => ha.1)
    obtain ⟨⟨hl, -⟩, hlists⟩ := hs.preserved hapart
      ⟨⟨new_listed n dm, by simp [Created]⟩, new_apart n dm⟩
    exact hl.disciplined_iff.mpr hlists

/-- One more call of a caller that spares the pages without pins. -/
theorem frameMachine_call {s : BufferPoolManager n}
    (hr : ((frameMachine n).restrict SparesUnpinned).Run s h b) (c : PoolCall n)
    (ha : (frameMachine n).Allowed h b c) (hspare : SparesUnpinned b c) :
    ((frameMachine n).restrict SparesUnpinned).Run s ((c, (b.answer c).1) :: h)
      (b.answer c).2 := hr.call ⟨ha, hspare⟩ rfl

/-- A page that is released and fetched again. -/
theorem released_page_listed_once : Disciplined
    (((new 1 ⟨[], none, []⟩).newPage.2.unpinPage 0 true).2.fetchPage 0).2 := by
  have h1 := frameMachine_call (@Machine.Run.start _ _ _
    ((frameMachine 1).restrict SparesUnpinned) (new 1 ⟨[], none, []⟩)) .newPage trivial trivial
  have h2 := frameMachine_call h1 (.unpinPage 0 true) trivial trivial
  have h3 := frameMachine_call h2 (.fetchPage 0) ⟨0, .tail _ (.head _)⟩ trivial
  have hr := h3.mono (frameMachine 1) rfl fun _ _ _ ha => ha.1
  exact (disciplined_iff_sparesUnpinned hr).mpr h3 _ _ (List.suffix_refl _) hr

/-- The frame of a deleted page can be taken from either list. -/
theorem deleted_page_listed_twice : ∃ (h : PoolHistory 1) (b : BufferPoolManager 1),
    (frameMachine 1).Run (new 1 ⟨[], none, []⟩) h b ∧
    h = [(.deletePage 0, .ok true), (.unpinPage 0 false, .ok true),
      (.newPage, .page (some (0, 0)))] ∧
    b.freeList = [0] ∧ b.lru.toList = [0] ∧ ¬ Disciplined b := by
  have h1 := frameMachine_call (@Machine.Run.start _ _ _
    ((frameMachine 1).restrict SparesUnpinned) (new 1 ⟨[], none, []⟩)) .newPage trivial trivial
  have h2 := frameMachine_call h1 (.unpinPage 0 false) trivial trivial
  have hr := h2.mono (frameMachine 1) rfl fun _ _ _ ha => ha.1
  have h3 := hr.call (m := frameMachine 1) (i := PoolCall.deletePage 0) trivial rfl
  refine ⟨_, _, h3, rfl, rfl, rfl, fun hd => ?_⟩
  exact hd.apart 0 (by decide) (by decide)

end BufferPoolManager
end PragmaticDB
