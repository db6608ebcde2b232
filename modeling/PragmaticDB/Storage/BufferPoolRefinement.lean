import PragmaticDB.Storage.BufferPoolRuns

/-!
The pool refines a plain store of pages, for callers that hold a page at most once and
release it as dirty after they created or changed it.
-/
namespace PragmaticDB
open ByteBlock DiskManager CallMachine
namespace BufferPoolManager
variable {n : ℕ}

/-- Callers of the pool as a store. They fetch only ids they were given and do not hold,
write only through pointers they hold, and release what they created or changed as dirty.
New ids stay below `2 ^ 19`. -/
def storeMachine (n : ℕ) : Machine (BufferPoolManager n) (PoolCall n) (PoolReply n) where
  step b c := some (b.answer c)
  Allowed h b c :=
    match c with
    | .newPage => b.nextPageId < 524288
    | .fetchPage p => latest h p ≠ none ∧ holders h p = []
    | .write f _ => ∃ p, f ∈ holders h p
    | .unpinPage p x => touched h p = true → x = true
    | _ => True

/-- The pool agrees with what its callers last saw. Bytes of a page they have touched are in
the frame they hold; all others cannot be lost any more. -/
structure Stores (h : PoolHistory n) (b : BufferPoolManager n) : Prop extends Agrees h b where
  plan : b.diskManager.plan = []
  bound : b.nextPageId ≤ 524288
  single : ∀ p, (holders h p).length ≤ 1
  created : ∀ p, latest h p ≠ none → 0 ≤ p ∧ p < b.nextPageId
  kept : ∀ p d, latest h p = some d → touched h p = false → b.Has p d
  fresh : ∀ p d, latest h p = some d → touched h p = true →
    ∃ f ∈ holders h p, (b.pages f).data = d

theorem Stores.sound {h : PoolHistory n} {b : BufferPoolManager n} (hs : Stores h b) :
    b.Sound := ⟨hs.toShape, hs.plan, hs.bound⟩

theorem new_stores {dm : DiskManager} (hdm : dm.plan = []) : Stores [] (new n dm) :=
  ⟨⟨new_shape n dm, nofun, by simp [new]⟩, hdm, by simp [new], by simp [holders],
    by simp [latest], by simp [latest], by simp [latest]⟩

/-- The pointer to a page held once is to the frame the page table gives. -/
theorem Stores.fresh_data {h : PoolHistory n} {b : BufferPoolManager n} (hs : Stores h b)
    {p : ℤ} {d : PageData} {f : Fin n} (hl : latest h p = some d) (ht : touched h p = true)
    (hf : b.pageTable.lookup p = some f) : (b.pages f).data = d := by
  obtain ⟨g, hg, hd⟩ := hs.fresh p d hl ht
  rw [hs.held p g hg] at hf
  rwa [← Option.some.inj hf]

/-- Whatever is last known of a resident page is what its frame shows. -/
theorem Stores.data {h : PoolHistory n} {b : BufferPoolManager n} (hs : Stores h b) {p : ℤ}
    {d : PageData} {f : Fin n} (hl : latest h p = some d)
    (hf : b.pageTable.lookup p = some f) : (b.pages f).data = d := by
  cases ht : touched h p with
  | false => exact (hs.kept p d hl ht).frame f hf
  | true => exact hs.fresh_data hl ht hf

theorem Stores.newPage {h : PoolHistory n} {b : BufferPoolManager n} (hs : Stores h b)
    (hlt : b.nextPageId < 524288) :
    Stores ((.newPage, .page b.newPage.1) :: h) b.newPage.2 := by
  have ha := hs.toAgrees.newPage
  have hsound := hs.sound.newPage hlt
  have hhas : ∀ q d, q ≠ b.nextPageId → b.Has q d → b.newPage.2.Has q d :=
    fun q d hne hq => hq.newPage hs.sound.seekable hne
  rcases hs.newPage_cases with ⟨-, he⟩ | ⟨f, b', ht, hnext, he⟩
  · rw [he]
    exact ⟨⟨hs.toShape, hs.held, hs.pins⟩, hs.plan, hs.bound, hs.single, hs.created, hs.kept,
      hs.fresh⟩
  · rw [he] at ha hsound hhas ⊢
    have hold : ∀ q, latest h q ≠ none → q ≠ b.nextPageId := by
      intro q hq
      have := hs.created q hq
      omega
    refine ⟨ha, hsound.plan, hsound.bound, fun q => ?_, fun q hq => ?_, fun q d hq htq => ?_,
      fun q d hq htq => ?_⟩
    · simp only [holders]
      split_ifs with hqn
      · simp [hqn, hs.toAgrees.unheld hs.lookup_next]
      · exact hs.single q
    · have hn := hs.next_nonneg
      change 0 ≤ q ∧ q < b'.nextPageId
      simp only [latest] at hq
      split_ifs at hq with hqn
      · omega
      · have := hs.created q hq
        omega
    · simp only [latest, touched] at hq htq
      split_ifs at hq htq with hqn
      exact hhas q d hqn (hs.kept q d hq htq)
    · simp only [latest, touched, holders] at hq htq ⊢
      split_ifs at hq htq ⊢ with hqn
      · exact ⟨f, by simp, by simpa [setData, setPage] using Option.some.inj hq⟩
      · obtain ⟨g, hg, hd⟩ := hs.fresh q d hq htq
        have hgf : g ≠ f := by
          rintro rfl
          have hpos := hs.toAgrees.pinned hg
          rw [ht.unpinned] at hpos
          exact lt_irrefl _ hpos
        exact ⟨g, hg, by simpa [setData, setPage, hgf, ht.others g hgf] using hd⟩

theorem Stores.fetchPage {h : PoolHistory n} {b : BufferPoolManager n} (hs : Stores h b)
    {p : ℤ} (hp : latest h p ≠ none) (hnil : holders h p = []) :
    Stores ((.fetchPage p, .frame (b.fetchPage p).1) :: h) (b.fetchPage p).2 := by
  obtain ⟨h0, hlt⟩ := hs.created p hp
  have ha := hs.toAgrees.fetchPage h0 hlt
  have hsound := hs.sound.fetchPage h0 hlt
  have hnext : (b.fetchPage p).2.nextPageId = b.nextPageId := by
    rcases hs.fetch_cases p with ⟨f, -, he⟩ | ⟨-, -, he⟩ | ⟨-, f, b', -, hnext, he⟩
    · rw [he]
      rfl
    · rw [he]
    · rw [he]
      exact hnext
  have hholders : ∀ q, q ≠ p →
      holders ((.fetchPage p, .frame (b.fetchPage p).1) :: h) q = holders h q := by
    intro q hq
    cases (b.fetchPage p).1 with
    | none => rfl
    | some f => exact if_neg hq
  refine ⟨ha, hsound.plan, hsound.bound, fun q => ?_, fun q hq => ?_, fun q d hq htq => ?_,
    fun q d hq htq => ?_⟩
  · by_cases hqp : q = p
    · subst hqp
      cases (b.fetchPage q).1 with
      | none => exact hs.single q
      | some f => simp [holders, hnil]
    · rw [hholders q hqp]
      exact hs.single q
  · rw [hnext]
    exact hs.created q hq
  · exact (hs.kept q d hq htq).fetchPage hs.sound.seekable p
  · obtain ⟨g, hg, hd⟩ := hs.fresh q d hq htq
    have hqp : q ≠ p := by
      rintro rfl
      rw [hnil] at hg
      cases hg
    refine ⟨g, by rw [hholders q hqp]; exact hg, ?_⟩
    rw [(hs.fetchPage_pinned (hs.held q g hg) (hs.toAgrees.pinned hg) p).2.1, hd]

theorem Stores.write {h : PoolHistory n} {b : BufferPoolManager n} (hs : Stores h b) {p : ℤ}
    {f : Fin n} (hf : f ∈ holders h p) (d : PageData) :
    Stores ((.write f d, .unit) :: h) (b.setData f d) := by
  have hl := hs.held p f hf
  have hother : ∀ q, q ≠ p → f ∉ holders h q :=
    fun q hq hfq => hq (hs.frame_inj (hs.held q f hfq) hl)
  refine ⟨⟨hs.toShape.setData f d, hs.held, fun q g hg => ?_⟩, hs.plan, hs.bound, hs.single,
    fun q hq => ?_, fun q e hq htq => ?_, fun q e hq htq => ?_⟩
  · have hpin := hs.pins q g hg
    by_cases hgf : g = f
    · subst hgf
      simpa [setData, setPage, holders] using hpin
    · simpa [setData, setPage, hgf, holders] using hpin
  · change 0 ≤ q ∧ q < b.nextPageId
    simp only [latest] at hq
    split_ifs at hq with hfq
    · exact ⟨((hs.mapped q f).mp (hs.held q f hfq)).1,
        ((hs.mapped q f).mp (hs.held q f hfq)).2 ▸ hs.below f⟩
    · exact hs.created q hq
  · simp only [latest, touched] at hq htq
    split_ifs at hq htq with hfq
    refine (hs.kept q e hq htq).setData hs.toShape hl ?_
    rintro rfl
    exact hfq hf
  · simp only [latest, touched] at hq htq
    split_ifs at hq htq with hfq
    · exact ⟨f, hfq, by simpa [setData, setPage] using Option.some.inj hq⟩
    · obtain ⟨g, hg, hd⟩ := hs.fresh q e hq htq
      have hgf : g ≠ f := by
        rintro rfl
        exact hfq hg
      exact ⟨g, hg, by simpa [setData, setPage, hgf] using hd⟩

theorem Stores.unpinPage {h : PoolHistory n} {b : BufferPoolManager n} (hs : Stores h b)
    {p : ℤ} {x : Bool} (hx : touched h p = true → x = true) :
    Stores ((.unpinPage p x, .ok (b.unpinPage p x).1) :: h) (b.unpinPage p x).2 := by
  have ha := hs.toAgrees.unpinPage (hs.single p) x
  have hsound := hs.sound.unpinPage
    (fun f hf => (hs.pins p f hf).trans_le (hs.single p)) x
  have hhas : ∀ q d, b.Has q d → (b.unpinPage p x).2.Has q d :=
    fun q d hq => hq.unpinPage p x
  rcases unpinPage_cases b p x with ⟨he, -⟩ | ⟨f, hl, -, he⟩
  · rw [he]
    exact ⟨⟨hs.toShape, hs.held, hs.pins⟩, hs.plan, hs.bound, hs.single, hs.created, hs.kept,
      hs.fresh⟩
  · rw [he] at ha hsound hhas ⊢
    have hdata : ∀ g, (((b.setPage f { b.pages f with
        isDirty := (b.pages f).isDirty || x
        pinCount := (b.pages f).pinCount - 1 }).unpinFrame f).pages g).data =
        (b.pages g).data :=
      setPage_field b f Page.data rfl
    refine ⟨ha, hsound.plan, hsound.bound, fun q => ?_, hs.created, fun q d hq htq => ?_,
      fun q d hq htq => ?_⟩
    · simp only [holders]
      have hone := hs.single q
      split_ifs
      · rw [List.length_tail]
        omega
      · exact hone
    · simp only [latest] at hq
      by_cases hqp : q = p
      · subst hqp
        cases htouch : touched h q with
        | false => exact hhas q d (hs.kept q d hq htouch)
        | true =>
          -- the caller changed the page, so it is released as dirty
          refine ⟨⟨(hs.created q (by simp [hq])).1, ?_⟩, fun g hg => ?_, fun hc => ?_⟩
          · exact (hs.created q (by simp [hq])).2.trans_le hs.bound
          · rw [hdata]
            exact hs.fresh_data hq htouch hg
          · have hcf := hc f hl
            simp [setPage, unpinFrame, hx htouch] at hcf
      · simp only [touched, if_neg hqp] at htq
        exact hhas q d (hs.kept q d hq htq)
    · simp only [latest, touched] at hq htq
      split_ifs at htq with hqp
      obtain ⟨g, hg, hd⟩ := hs.fresh q d hq htq
      exact ⟨g, by simpa [holders, hqp] using hg, (hdata g).trans hd⟩

/-- Calls that move no pointer and change no frame's page, pins or bytes. -/
theorem Stores.unmoved {h : PoolHistory n} {b b' : BufferPoolManager n} (hs : Stores h b)
    (hsound : b'.Sound) (htable : b'.pageTable = b.pageTable)
    (hnext : b'.nextPageId = b.nextPageId)
    (hpages : ∀ f, (b'.pages f).pinCount = (b.pages f).pinCount ∧
      (b'.pages f).data = (b.pages f).data)
    (hhas : ∀ q d, b.Has q d → b'.Has q d) : Stores h b' where
  toShape := hsound.toShape
  held p f hf := htable ▸ hs.held p f hf
  pins p f hf := (hpages f).1.trans (hs.pins p f (htable ▸ hf))
  plan := hsound.plan
  bound := hsound.bound
  single := hs.single
  created p hp := hnext ▸ hs.created p hp
  kept p d hp ht := hhas p d (hs.kept p d hp ht)
  fresh p d hp ht := by
    obtain ⟨f, hf, hd⟩ := hs.fresh p d hp ht
    exact ⟨f, hf, (hpages f).2.trans hd⟩

/-- `DeletePage` touches no page that somebody holds. -/
theorem Stores.deletePage {h : PoolHistory n} {b : BufferPoolManager n} (hs : Stores h b)
    (p : ℤ) : Stores h (b.deletePage p).2 := by
  have hsound := hs.sound.deletePage p
  have hhas : ∀ q d, b.Has q d → (b.deletePage p).2.Has q d :=
    fun q d hq => hq.deletePage hs.sound p
  rcases deletePage_cases b p with ⟨he, -⟩ | ⟨f, dm, hl, hpin, -, he⟩
  · rw [he]
    exact hs
  · rw [he] at hsound hhas ⊢
    have hagrees := hs.toAgrees.deletePage p
    rw [he] at hagrees
    refine ⟨⟨hsound.toShape, hagrees.held, hagrees.pins⟩, hsound.plan, hsound.bound,
      hs.single, hs.created, fun q d hq htq => hhas q d (hs.kept q d hq htq),
      fun q d hq htq => ?_⟩
    obtain ⟨g, hg, hd⟩ := hs.fresh q d hq htq
    have hgf : g ≠ f := by
      rintro rfl
      have hpos := hs.toAgrees.pinned hg
      omega
    exact ⟨g, hg, by simpa [hgf] using hd⟩

theorem storeMachine_call {s₀ b : BufferPoolManager n} {h : PoolHistory n}
    (hr : (storeMachine n).Run s₀ h b) (c : PoolCall n) (ha : (storeMachine n).Allowed h b c) :
    (storeMachine n).Run s₀ ((c, (b.answer c).1) :: h) (b.answer c).2 := hr.call ha rfl

theorem storeMachine_keeps (n : ℕ) : (storeMachine n).Keeps Stores := by
  intro h b c hs ha
  refine ⟨_, _, rfl, ?_⟩
  cases c with
  | newPage => exact hs.newPage ha
  | fetchPage p => exact hs.fetchPage ha.1 ha.2
  | write f d =>
    obtain ⟨p, hf⟩ := ha
    exact hs.write hf d
  | unpinPage p x => exact hs.unpinPage ha
  | flushPage p =>
    obtain ⟨ht, -, -, hpages, hnext⟩ := b.flushPage_clean p
    have hu := hs.unmoved (hs.sound.flushPage p) ht hnext hpages
      fun q d hq => hq.flushPage hs.sound p
    exact ⟨⟨hu.toShape, hu.held, hu.pins⟩, hu.plan, hu.bound, hu.single, hu.created, hu.kept,
      hu.fresh⟩
  | flushAllPages =>
    obtain ⟨hsound, ht, hnext, hpages, hhas, -⟩ := flush_fold hs.sound b.pageTable.keys
    have hu := hs.unmoved hsound ht hnext hpages hhas
    exact ⟨⟨hu.toShape, hu.held, hu.pins⟩, hu.plan, hu.bound, hu.single, hu.created, hu.kept,
      hu.fresh⟩
  | deletePage p =>
    have hu := hs.deletePage p
    exact ⟨⟨hu.toShape, hu.held, hu.pins⟩, hu.plan, hu.bound, hu.single, hu.created, hu.kept,
      hu.fresh⟩

/-- The pool is a store of pages: a fetch shows the bytes last left in the page, no frame
serves two pages, and a flush with nothing pinned leaves every page ever created on disk. -/
theorem pool_refines_store {dm : DiskManager} {h : PoolHistory n} {b : BufferPoolManager n}
    (hdm : dm.plan = []) (hr : (storeMachine n).Run (new n dm) h b) :
    (∀ p f b', (storeMachine n).Allowed h b (.fetchPage p) →
      b.fetchPage p = (some f, b') → some (b'.pages f).data = latest h p) ∧
    (∀ p q f, b.pageTable.lookup p = some f → b.pageTable.lookup q = some f → p = q) ∧
    (∀ p f, b.pageTable.lookup p = some f → (b.pages f).pageId = p) ∧
    ((∀ p, holders h p = []) → ∀ p d, latest h p = some d →
      b.flushAllPages.diskManager.OnDisk p d) := by
  have hs := hr.invariant (storeMachine_keeps n) (new_stores hdm)
  refine ⟨fun p f b' ha he => ?_, fun p q f => hs.frame_inj,
    fun p f hf => ((hs.mapped p f).mp hf).2, fun hnil p d hp => ?_⟩
  · have hs' := hs.fetchPage ha.1 ha.2
    obtain ⟨d, hd⟩ := Option.ne_none_iff_exists'.mp ha.1
    have hl := (hs.toShape.fetchPage_lookup he).1
    rw [he] at hs'
    rw [hd, hs'.data hd hl]
  · cases ht : touched h p with
    | false => exact (hs.kept p d hp ht).onDisk_flushAllPages hs.sound
    | true =>
      obtain ⟨f, hf, -⟩ := hs.fresh p d hp ht
      rw [hnil p] at hf
      cases hf

/-- A page created, released and evicted by the next one in a pool of one frame. -/
theorem evicted_page_on_disk :
    (((new 1 ⟨[], none, []⟩).newPage.2.unpinPage 0 true).2.newPage.2.unpinPage 1
      true).2.flushAllPages.diskManager.OnDisk 0 zeroPage := by
  have h1 := storeMachine_call (@Machine.Run.start _ _ _ (storeMachine 1)
    (new 1 ⟨[], none, []⟩)) .newPage (by simp [storeMachine, new])
  have h2 := storeMachine_call h1 (.unpinPage 0 true) fun _ => rfl
  have h3 := storeMachine_call h2 .newPage (show _ < _ by decide)
  have h4 : (storeMachine 1).Run _ [(.unpinPage 1 true, .ok true),
      (.newPage, .page (some (1, 0))), (.unpinPage 0 true, .ok true),
      (.newPage, .page (some (0, 0)))] _ := storeMachine_call h3 (.unpinPage 1 true) fun _ => rfl
  have hnil : ∀ p, holders [(.unpinPage 1 true, .ok true), (.newPage, .page (some (1, 0))),
      (.unpinPage 0 true, .ok true), (.newPage, .page (some ((0 : ℤ), (0 : Fin 1))))] p = [] := by
    intro p
    simp only [holders]
    split_ifs <;> simp
  exact (pool_refines_store rfl h4).2.2.2 hnil 0 zeroPage rfl

end BufferPoolManager
end PragmaticDB
