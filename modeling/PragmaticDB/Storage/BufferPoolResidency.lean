import PragmaticDB.Storage.BufferPoolRuns

/-!
Which frames carry which page. A page may be fetched before `NewPage` gives its id out, and
`NewPage` does not look the new id up; no other call can put one page into two frames.
-/
namespace PragmaticDB
open CallMachine
namespace BufferPoolManager
variable {n : ℕ} {b : BufferPoolManager n} {f : Fin n} {p : ℤ}

/-- Every page is resident once, and the page table says where. -/
structure OneCopy (b : BufferPoolManager n) : Prop where
  single : ∀ f g, (b.pages f).pageId = (b.pages g).pageId →
    (b.pages f).pageId ≠ invalidPageId → f = g
  injective : ∀ p q f, b.pageTable.lookup p = some f → b.pageTable.lookup q = some f → p = q
  mapped : ∀ p f, b.pageTable.lookup p = some f → (b.pages f).pageId = p
  carried : ∀ f, (b.pages f).pageId ≠ invalidPageId →
    b.pageTable.lookup (b.pages f).pageId = some f

/-- The page table sends an id to the frame that carries it; two frames with one id would both
have to be its value. -/
theorem OneCopy.of_mapped (hm : ∀ p f, b.pageTable.lookup p = some f → (b.pages f).pageId = p)
    (hc : ∀ f, (b.pages f).pageId ≠ invalidPageId →
      b.pageTable.lookup (b.pages f).pageId = some f) : OneCopy b := by
  constructor
  · intro f g he hf
    have hg := hc g (he ▸ hf)
    rw [← he, hc f hf] at hg
    exact Option.some.inj hg
  · intro p q f hp hq
    exact (hm p f hp).symm.trans (hm q f hq)
  · exact hm
  · exact hc

/-- What the calls keep: the ids in the table and the next one are page ids. -/
structure Resident (b : BufferPoolManager n) : Prop extends OneCopy b where
  nonneg : ∀ p f, b.pageTable.lookup p = some f → 0 ≤ p
  next_nonneg : 0 ≤ b.nextPageId

theorem new_resident (n : ℕ) (dm : DiskManager) : (new n dm).Resident where
  toOneCopy := OneCopy.of_mapped (by simp [new]) fun _ hf => absurd rfl hf
  nonneg := by simp [new]
  next_nonneg := le_rfl

/-- Nothing but the ids, the table and the counter matters. -/
theorem Resident.of_ids {b' : BufferPoolManager n} (hb : b.Resident)
    (hids : ∀ f, (b'.pages f).pageId = (b.pages f).pageId) (htable : b'.pageTable = b.pageTable)
    (hnext : b'.nextPageId = b.nextPageId) : b'.Resident := by
  constructor
  · apply OneCopy.of_mapped
    · intro p f hp
      rw [hids]
      exact hb.mapped p f (htable ▸ hp)
    · intro f hf
      rw [hids] at hf ⊢
      rw [htable]
      exact hb.carried f hf
  · intro p f hp
    exact hb.nonneg p f (htable ▸ hp)
  · exact hnext ▸ hb.next_nonneg

/-! One frame changes hands. -/

theorem pageId_takeOver (b : BufferPoolManager n) (f : Fin n) (p : ℤ) (g : Fin n) :
    ((b.takeOver f p).pages g).pageId = if g = f then p else (b.pages g).pageId := by
  unfold takeOver pinFrame setPage
  by_cases hg : g = f
  · subst hg
    simp
  · simp [(evict_same b f).1, hg]

theorem pinCount_takeOver (b : BufferPoolManager n) (f : Fin n) (p : ℤ) (g : Fin n) :
    ((b.takeOver f p).pages g).pinCount = if g = f then 1 else (b.pages g).pinCount := by
  unfold takeOver pinFrame setPage
  by_cases hg : g = f
  · subst hg
    simp
  · simp [(evict_same b f).1, hg]

theorem lookup_takeOver (b : BufferPoolManager n) (f : Fin n) (p q : ℤ) :
    (b.takeOver f p).pageTable.lookup q =
      if q = p then some f
      else if (b.pages f).pageId ≠ invalidPageId ∧ q = (b.pages f).pageId then none
      else b.pageTable.lookup q := by
  have hevict : (b.evict f).pageTable.lookup q =
      if (b.pages f).pageId ≠ invalidPageId ∧ q = (b.pages f).pageId then none
      else b.pageTable.lookup q := by
    by_cases hid : (b.pages f).pageId = invalidPageId
    · simp [evict, hid]
    · simp [evict, hid, AList.lookup_erase_ite]
  change ((b.evict f).pageTable.insert p f).lookup q = _
  rw [AList.lookup_insert_ite, hevict]

theorem nextPageId_takeOver (b : BufferPoolManager n) (f : Fin n) (p : ℤ) :
    (b.takeOver f p).nextPageId = b.nextPageId := (evict_same b f).2.2.2

/-- A frame can be given to a page that is in no other frame. -/
theorem Resident.takeOver (hb : b.Resident) (h0 : 0 ≤ p)
    (hp : ∀ g, b.pageTable.lookup p = some g → g = f) : (b.takeOver f p).Resident := by
  constructor
  · apply OneCopy.of_mapped
    · intro q g hq
      rw [lookup_takeOver] at hq
      rw [pageId_takeOver]
      split_ifs at hq with hqp hold
      · obtain rfl := Option.some.inj hq
        rw [if_pos rfl, hqp]
      · have hgq := hb.mapped q g hq
        have hgf : g ≠ f := by
          rintro rfl
          exact hold ⟨hgq ▸ ne_invalid_of_nonneg (hb.nonneg q g hq), hgq.symm⟩
        rw [if_neg hgf, hgq]
    · intro g hg
      rw [pageId_takeOver] at hg ⊢
      rw [lookup_takeOver]
      by_cases hgf : g = f
      · rw [if_pos hgf, if_pos rfl, hgf]
      · rw [if_neg hgf] at hg ⊢
        have hcarried := hb.carried g hg
        have hgp : (b.pages g).pageId ≠ p := fun he => hgf (hp g (he ▸ hcarried))
        have hold : (b.pages g).pageId ≠ (b.pages f).pageId := fun he =>
          hgf (hb.single g f he hg)
        rw [if_neg hgp, if_neg fun h => hold h.2, hcarried]
  · intro q g hq
    rw [lookup_takeOver] at hq
    split_ifs at hq with hqp
    · exact hqp ▸ h0
    · exact hb.nonneg q g hq
  · rw [nextPageId_takeOver]
    exact hb.next_nonneg

/-- Given to a page of another frame, it leaves two frames with one id. -/
theorem OneCopy.not_takeOver {g : Fin n} (hb : OneCopy b) (h0 : 0 ≤ p)
    (hg : b.pageTable.lookup p = some g) (hgf : g ≠ f) : ¬ OneCopy (b.takeOver f p) := by
  intro htwo
  have hgp : ((b.takeOver f p).pages g).pageId = p := by
    rw [pageId_takeOver, if_neg hgf, hb.mapped p g hg]
  have hfp : ((b.takeOver f p).pages f).pageId = p := by
    rw [pageId_takeOver, if_pos rfl]
  have hvalid := ne_invalid_of_nonneg h0
  rw [← hgp] at hvalid
  exact hgf (htwo.single g f (hgp.trans hfp.symm) hvalid)

theorem getFreeFrameOrVictim_same {b' : BufferPoolManager n}
    (h : b.getFreeFrameOrVictim = some (f, b')) :
    b'.pages = b.pages ∧ b'.pageTable = b.pageTable ∧ b'.nextPageId = b.nextPageId := by
  unfold getFreeFrameOrVictim at h
  split at h
  next =>
    split at h
    next => cases h
    next =>
      obtain ⟨-, rfl⟩ := Prod.mk.inj (Option.some.inj h)
      exact ⟨rfl, rfl, rfl⟩
  next =>
    obtain ⟨-, rfl⟩ := Prod.mk.inj (Option.some.inj h)
    exact ⟨rfl, rfl, rfl⟩

/-! The calls. -/

theorem Resident.same {b' : BufferPoolManager n} (hb : b.Resident) (hs : SamePlaces b b') :
    b'.Resident := hb.of_ids hs.pageId hs.table hs.next

theorem Resident.setData (hb : b.Resident) (f : Fin n) (d : PageData) :
    (b.setData f d).Resident := hb.same (setData_same b f d)

theorem Resident.fetchPage (hb : b.Resident) (h0 : 0 ≤ p) : (b.fetchPage p).2.Resident := by
  unfold BufferPoolManager.fetchPage
  cases hl : b.pageTable.lookup p with
  | some f =>
    apply hb.of_ids
    · exact setPage_field b f Page.pageId rfl
    · rfl
    · rfl
  | none =>
    cases hv : b.getFreeFrameOrVictim with
    | none => exact hb
    | some x =>
      obtain ⟨f, b'⟩ := x
      obtain ⟨hpages, htable, hnext⟩ := getFreeFrameOrVictim_same hv
      have hb' : b'.Resident := hb.of_ids (fun g => by rw [hpages]) htable hnext
      exact (hb'.takeOver h0 (by simp [htable, hl])).setData f _

/-- What `NewPage` does not check: the page with the next id is not in a frame other than the
one taken. -/
def NextApart (b : BufferPoolManager n) : Prop :=
  ∀ f b' g, b.getFreeFrameOrVictim = some (f, b') →
    b.pageTable.lookup b.nextPageId = some g → g = f

instance (b : BufferPoolManager n) : Decidable b.NextApart :=
  decidable_of_iff (∀ x ∈ b.getFreeFrameOrVictim, ∀ g ∈ b.pageTable.lookup b.nextPageId, g = x.1)
    ⟨fun h f b' g hv hg => h (f, b') hv g hg, fun h x hv g hg => h x.1 x.2 g hv hg⟩

theorem newPage_of_victim {b' : BufferPoolManager n}
    (hv : b.getFreeFrameOrVictim = some (f, b')) : ∃ d, b.newPage.2 =
      (({ b' with nextPageId := b.nextPageId + 1 }.takeOver f b.nextPageId).setData f d) := by
  obtain ⟨-, -, hnext⟩ := getFreeFrameOrVictim_same hv
  exact ⟨zeroPage, by simp [newPage, hv, hnext]⟩

theorem Resident.newPage (hb : b.Resident) (hnew : NextApart b) : b.newPage.2.Resident := by
  cases hv : b.getFreeFrameOrVictim with
  | none =>
    have he : b.newPage = (none, b) := by simp [BufferPoolManager.newPage, hv]
    rw [he]
    exact hb
  | some x =>
    obtain ⟨f, b'⟩ := x
    obtain ⟨hpages, htable, hnext⟩ := getFreeFrameOrVictim_same hv
    obtain ⟨d, he⟩ := newPage_of_victim hv
    have hb' : b'.Resident := hb.of_ids (fun g => by rw [hpages]) htable hnext
    have hnext' : 0 ≤ b.nextPageId + 1 := Int.add_nonneg hb.next_nonneg (by decide)
    have hready : Resident { b' with nextPageId := b.nextPageId + 1 } :=
      ⟨⟨hb'.single, hb'.injective, hb'.mapped, hb'.carried⟩, hb'.nonneg, hnext'⟩
    have hapart : ∀ g, b'.pageTable.lookup b.nextPageId = some g → g = f := by
      intro g hg
      exact hnew f b' g hv (htable ▸ hg)
    rw [he]
    exact (hready.takeOver hb.next_nonneg hapart).setData f d

theorem Resident.newPage_iff (hb : b.Resident) : OneCopy b.newPage.2 ↔ NextApart b := by
  constructor
  · intro hone f b' g hv hg
    by_contra hgf
    obtain ⟨hpages, htable, hnext⟩ := getFreeFrameOrVictim_same hv
    obtain ⟨d, he⟩ := newPage_of_victim hv
    have hb' : b'.Resident := hb.of_ids (fun g => by rw [hpages]) htable hnext
    have hready : OneCopy { b' with nextPageId := b.nextPageId + 1 } :=
      ⟨hb'.single, hb'.injective, hb'.mapped, hb'.carried⟩
    have htwo := hready.not_takeOver hb.next_nonneg (htable ▸ hg) hgf
    apply htwo
    rw [he] at hone
    have hids := (setData_same
      ({ b' with nextPageId := b.nextPageId + 1 }.takeOver f b.nextPageId) f d).pageId
    apply OneCopy.of_mapped
    · intro p k hk
      rw [← hids]
      exact hone.mapped p k hk
    · intro k hk
      rw [← hids] at hk ⊢
      exact hone.carried k hk
  · intro hnew
    exact (hb.newPage hnew).toOneCopy

theorem Resident.unpinPage (hb : b.Resident) (p : ℤ) (d : Bool) :
    (b.unpinPage p d).2.Resident := by
  rcases unpinPage_cases b p d with ⟨he, -⟩ | ⟨f, -, -, he⟩
  · rw [he]
    exact hb
  · rw [he]
    apply hb.of_ids
    · exact setPage_field b f Page.pageId rfl
    · rfl
    · rfl

theorem Resident.flushPage (hb : b.Resident) (p : ℤ) : (b.flushPage p).2.Resident :=
  hb.same (flushPage_same b p)

theorem Resident.flushAllPages (hb : b.Resident) : b.flushAllPages.Resident :=
  hb.same (flushAllPages_same b)

/-- A deleted page leaves the table with the id of its frame. -/
theorem Resident.deletePage (hb : b.Resident) (p : ℤ) : (b.deletePage p).2.Resident := by
  rcases deletePage_cases b p with ⟨he, -⟩ | ⟨f, dm, hl, -, -, he⟩
  · rw [he]
    exact hb
  · rw [he]
    have hfp := hb.mapped p f hl
    constructor
    · apply OneCopy.of_mapped
      · intro q g hq
        simp only [AList.lookup_erase_ite] at hq ⊢
        split_ifs at hq with hqp
        have hgf : g ≠ f := by
          rintro rfl
          exact hqp (hb.injective q p g hq hl)
        rw [Function.update_of_ne hgf]
        exact hb.mapped q g hq
      · intro g hg
        simp only [AList.lookup_erase_ite] at hg ⊢
        have hgf : g ≠ f := by
          rintro rfl
          simp at hg
        rw [Function.update_of_ne hgf] at hg ⊢
        have hgp : (b.pages g).pageId ≠ p := fun h => hgf (hb.single g f (h.trans hfp.symm) hg)
        rw [if_neg hgp]
        exact hb.carried g hg
    · intro q g hq
      simp only [AList.lookup_erase_ite] at hq
      split_ifs at hq
      exact hb.nonneg q g hq
    · exact hb.next_nonneg

/-! Runs. -/

/-- Callers that fetch page ids of their own making, each after they released it. -/
def residencyMachine (n : ℕ) : Machine (BufferPoolManager n) (PoolCall n) (PoolReply n) where
  step b c := some (b.answer c)
  Allowed h _ c :=
    match c with
    | .fetchPage p => 0 ≤ p ∧ holders h p = []
    | .unpinPage p _ | .flushPage p | .deletePage p => 0 ≤ p
    | .newPage | .write _ _ | .flushAllPages => True

instance (h : PoolHistory n) (b : BufferPoolManager n) (c : PoolCall n) :
    Decidable ((residencyMachine n).Allowed h b c) :=
  match c with
  | .fetchPage p => inferInstanceAs (Decidable (0 ≤ p ∧ holders h p = []))
  | .unpinPage p _ | .flushPage p | .deletePage p => inferInstanceAs (Decidable (0 ≤ p))
  | .newPage | .write _ _ | .flushAllPages => isTrue trivial

theorem residencyMachine_call {s₀ : BufferPoolManager n} {h : PoolHistory n}
    (hr : (residencyMachine n).Run s₀ h b) (c : PoolCall n)
    (ha : (residencyMachine n).Allowed h b c) :
    (residencyMachine n).Run s₀ ((c, (b.answer c).1) :: h) (b.answer c).2 := hr.call ha rfl

/-- The id `NewPage` would give out is not resident elsewhere. -/
def NewIdApart (b : BufferPoolManager n) : PoolCall n → Prop
  | .newPage => NextApart b
  | _ => True

instance (b : BufferPoolManager n) (c : PoolCall n) : Decidable (NewIdApart b c) :=
  match c with
  | .newPage => inferInstanceAs (Decidable b.NextApart)
  | .fetchPage _ | .write _ _ | .unpinPage _ _ | .flushPage _ | .flushAllPages | .deletePage _ =>
    isTrue trivial

instance (h : PoolHistory n) (b : BufferPoolManager n) (c : PoolCall n) :
    Decidable (((residencyMachine n).restrict NewIdApart).Allowed h b c) :=
  inferInstanceAs (Decidable ((residencyMachine n).Allowed h b c ∧ NewIdApart b c))

theorem Resident.answer {h : PoolHistory n} (hb : b.Resident) {c : PoolCall n}
    (ha : (residencyMachine n).Allowed h b c) (hc : NewIdApart b c) : (b.answer c).2.Resident := by
  cases c with
  | newPage => exact hb.newPage hc
  | fetchPage p => exact hb.fetchPage ha.1
  | write f d => exact hb.setData f d
  | unpinPage p d => exact hb.unpinPage p d
  | flushPage p => exact hb.flushPage p
  | flushAllPages => exact hb.flushAllPages
  | deletePage p => exact hb.deletePage p

theorem resident_preserved : ((residencyMachine n).restrict NewIdApart).Preserves
    fun _ b => b.Resident := by
  intro h b c o b' hb ha hs
  obtain ⟨-, rfl⟩ := Prod.mk.inj (Option.some.inj hs)
  exact hb.answer ha.1 ha.2

/-- Along a run in which `NewPage` never gives out an id that is resident in another frame, every
page is resident once; and the next call keeps it so exactly when it does not do that either. -/
theorem oneCopy_run {dm : DiskManager} {h : PoolHistory n}
    (hr : ((residencyMachine n).restrict NewIdApart).Run (new n dm) h b) :
    OneCopy b ∧ ∀ c, (residencyMachine n).Allowed h b c →
      (OneCopy (b.answer c).2 ↔ NewIdApart b c) := by
  have hb : b.Resident := hr.preserved resident_preserved (new_resident n dm)
  refine ⟨hb.toOneCopy, fun c ha => ⟨fun hone => ?_, fun hc => (hb.answer ha hc).toOneCopy⟩⟩
  cases c with
  | newPage => exact hb.newPage_iff.mp hone
  | _ => trivial

/-- Page 1 is fetched before it is created, in a pool of two frames: the second `NewPage` takes
over the very frame that carries it. -/
theorem fetched_frame_reused : ∃ (h : PoolHistory 2) (b : BufferPoolManager 2),
    ((residencyMachine 2).restrict NewIdApart).Run (new 2 ⟨[], none, []⟩) h b ∧
    h.map Prod.fst = [.newPage, .newPage, .unpinPage 1 false, .fetchPage 1] ∧
    (b.pages 0).pageId = 1 ∧ (b.pages 1).pageId = 0 ∧ OneCopy b := by
  have heval : (((residencyMachine 2).restrict NewIdApart).play
      [.fetchPage 1, .unpinPage 1 false, .newPage, .newPage] [] (new 2 ⟨[], none, []⟩)).map
        (fun x => ((x.2.pages 0).pageId, (x.2.pages 1).pageId)) = some (1, 0) := by
    decide +kernel
  obtain ⟨⟨h, b⟩, hplay, heq⟩ := Option.map_eq_some_iff.mp heval
  obtain ⟨hfirst, hsecond⟩ := Prod.mk.inj heq
  have hrun := Machine.Run.start.play hplay
  exact ⟨h, b, hrun, Machine.play_calls hplay, hfirst, hsecond, (oneCopy_run hrun).1⟩

/-- In a pool of two frames the new page lands next to the fetched one. -/
theorem new_page_beside_fetched : ∃ (h : PoolHistory 2) (b : BufferPoolManager 2),
    (residencyMachine 2).Run (new 2 ⟨[], none, []⟩) h b ∧
    h = [(.newPage, .page (some (0, 1))), (.unpinPage 0 false, .ok true),
      (.fetchPage 0, .frame (some 0))] ∧
    (b.pages 0).pageId = 0 ∧ (b.pages 1).pageId = 0 ∧ ¬ OneCopy b := by
  have h1 := residencyMachine_call
    (@Machine.Run.start _ _ _ (residencyMachine 2) (new 2 ⟨[], none, []⟩))
    (.fetchPage 0) ⟨le_rfl, rfl⟩
  have h2 := residencyMachine_call h1 (.unpinPage 0 false) (le_refl (0 : ℤ))
  have h3 := residencyMachine_call h2 .newPage trivial
  refine ⟨_, _, h3, rfl, rfl, rfl, fun hone => ?_⟩
  have hsame := hone.single 0 1 rfl (by decide)
  exact absurd hsame (by decide)

end BufferPoolManager
end PragmaticDB
