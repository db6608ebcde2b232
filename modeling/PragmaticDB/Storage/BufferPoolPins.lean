import PragmaticDB.Storage.BufferPoolRuns

/-!
Pinned pages under several holders. `UnpinPage` puts its frame on the LRU list whatever the
pin count is afterwards, so a page stays put exactly as long as it is never unpinned while
two pins are out.
-/
namespace PragmaticDB
open CallMachine
namespace BufferPoolManager
variable {n : ℕ}

def Created (h : PoolHistory n) (p : ℤ) : Prop := ∃ f, (.newPage, .page (some (p, f))) ∈ h

/-- Callers that only pin and unpin pages `NewPage` gave them. -/
def pinMachine (n : ℕ) : Machine (BufferPoolManager n) (PoolCall n) (PoolReply n) where
  step b c := some (b.answer c)
  Allowed h _ c :=
    match c with
    | .newPage => True
    | .fetchPage p => Created h p
    | .unpinPage p _ => Created h p
    | _ => False

theorem pinMachine_call {s₀ b : BufferPoolManager n} {h : PoolHistory n}
    (hr : (pinMachine n).Run s₀ h b) (c : PoolCall n) (ha : (pinMachine n).Allowed h b c) :
    (pinMachine n).Run s₀ ((c, (b.answer c).1) :: h) (b.answer c).2 := hr.call ha rfl

/-- Every pointer still held shows its page, in a frame that cannot be taken, and the pin
count of the page is the number of these pointers. -/
def StaysPut (h : PoolHistory n) (b : BufferPoolManager n) : Prop :=
  ∀ p f, f ∈ holders h p →
    b.pageTable.lookup p = some f ∧ (b.pages f).pageId = p ∧
      (b.pages f).pinCount = (holders h p).length ∧ f ∉ b.lru.toList ∧
      ∀ b', b.getFreeFrameOrVictim ≠ some (f, b')

/-- No page was unpinned while it had two pins or more. -/
def SoleUnpins : PoolHistory n → Prop
  | [] => True
  | (.unpinPage p _, _) :: h => (holders h p).length ≤ 1 ∧ SoleUnpins h
  | _ :: h => SoleUnpins h

theorem SoleUnpins.tail {x : PoolCall n × PoolReply n} {h : PoolHistory n}
    (hs : SoleUnpins (x :: h)) : SoleUnpins h := by
  obtain ⟨c, r⟩ := x
  cases c with
  | unpinPage p d => exact hs.2
  | _ => exact hs

theorem SoleUnpins.earlier {h h' : PoolHistory n} (hs : SoleUnpins h) (hh : h' <:+ h) :
    SoleUnpins h' := by
  induction h with
  | nil => rwa [List.suffix_nil.mp hh]
  | cons x h ih =>
    rcases List.suffix_cons_iff.mp hh with rfl | hh
    · exact hs
    · exact ih hs.tail hh

theorem Agrees.staysPut {h : PoolHistory n} {b : BufferPoolManager n} (ha : Agrees h b) :
    StaysPut h b := by
  intro p f hf
  have hl := ha.held p f hf
  exact ⟨hl, ((ha.mapped p f).mp hl).2, ha.pins p f hl, ha.not_mem_lru hf,
    fun _ => ha.not_victim hf⟩

/-- Ids that `NewPage` gave out are below the counter. -/
theorem created_below {dm : DiskManager} {h : PoolHistory n} {b : BufferPoolManager n}
    (hr : (pinMachine n).Run (new n dm) h b) (hs : SoleUnpins h) :
    Agrees h b ∧ ∀ p, Created h p → 0 ≤ p ∧ p < b.nextPageId := by
  induction hr with
  | start => exact ⟨⟨new_shape n dm, nofun, by simp [new]⟩, by simp [Created]⟩
  | @call h b b' c r hr hallow hstep ih =>
    obtain ⟨ha, hc⟩ := ih hs.tail
    obtain ⟨rfl, rfl⟩ := Prod.mk.inj (Option.some.inj hstep)
    cases c with
    | newPage =>
      refine ⟨ha.newPage, fun p hp => ?_⟩
      have hn := ha.next_nonneg
      obtain ⟨f, hf⟩ := hp
      rcases ha.newPage_cases with ⟨-, he⟩ | ⟨g, b', -, hnext, he⟩
      · have hf : (PoolCall.newPage, PoolReply.page (some (p, f))) ∈ h := by
          simpa [answer, he] using hf
        simpa [answer, he] using hc p ⟨f, hf⟩
      · simp only [he, List.mem_cons, Prod.mk.injEq, PoolReply.page.injEq,
          Option.some.injEq, true_and] at hf ⊢
        change 0 ≤ p ∧ p < b'.nextPageId
        rcases hf with ⟨rfl, -⟩ | hf
        · omega
        · have := hc p ⟨f, hf⟩
          omega
    | fetchPage q =>
      have hq := hc q hallow
      refine ⟨ha.fetchPage hq.1 hq.2, fun p hp => ?_⟩
      have hp' : Created h p := by simpa [Created, answer] using hp
      have hnext : (b.fetchPage q).2.nextPageId = b.nextPageId := by
        rcases ha.fetch_cases q with ⟨f, -, he⟩ | ⟨-, -, he⟩ | ⟨-, f, b', -, hnext, he⟩
        · rw [he]; rfl
        · rw [he]
        · rw [he]; exact hnext
      simpa [answer, hnext] using hc p hp'
    | unpinPage q x =>
      refine ⟨ha.unpinPage hs.1 x, fun p hp => ?_⟩
      have hp' : Created h p := by simpa [Created, answer] using hp
      have hnext : (b.unpinPage q x).2.nextPageId = b.nextPageId := by
        rcases unpinPage_cases b q x with ⟨he, -⟩ | ⟨f, -, -, he⟩ <;>
          simp [he, setPage, unpinFrame]
      simpa [answer, hnext] using hc p hp'
    | write f d => exact hallow.elim
    | flushPage p => exact hallow.elim
    | flushAllPages => exact hallow.elim
    | deletePage p => exact hallow.elim

/-- An unpin with two pins out leaves a held frame on the LRU list. -/
theorem Agrees.shared_unpin {h : PoolHistory n} {b : BufferPoolManager n} (ha : Agrees h b)
    {p : ℤ} (htwo : 1 < (holders h p).length) (x : Bool) :
    ¬ StaysPut ((.unpinPage p x, .ok (b.unpinPage p x).1) :: h) (b.unpinPage p x).2 := by
  intro hput
  obtain ⟨f, g, l, hfg⟩ : ∃ f g l, holders h p = f :: g :: l := by
    match hl : holders h p, htwo with
    | f :: g :: l, _ => exact ⟨f, g, l, rfl⟩
  have hg := ha.held p g (by simp [hfg])
  rcases unpinPage_cases b p x with ⟨-, hz⟩ | ⟨k, hl, -, he⟩
  · have h0 := hz g hg
    rw [ha.pins p g hg] at h0
    omega
  · obtain rfl : k = g := Option.some.inj (hl.symm.trans hg)
    rw [he] at hput
    have hk := hput p k (by simp [holders, hfg])
    exact hk.2.2.2.1 ((HandleList.mem_toList_pushBack _ _ _).mpr (.inr rfl))

/-- Along a run every held page stays put if and only if no page is ever unpinned while it
has two pins. -/
theorem staysPut_iff_soleUnpins {dm : DiskManager} {h : PoolHistory n}
    {b : BufferPoolManager n} (hr : (pinMachine n).Run (new n dm) h b) :
    (∀ h' b', h' <:+ h → (pinMachine n).Run (new n dm) h' b' → StaysPut h' b') ↔
      SoleUnpins h := by
  constructor
  · intro hput
    induction hr with
    | start => trivial
    | @call h b b' c r hr hallow hstep ih =>
      have hs := ih fun h' b'' hh => hput h' b'' (hh.trans (List.suffix_cons _ _))
      have ha := (created_below hr hs).1
      have hlast := hput _ b' (List.suffix_refl _) (hr.call hallow hstep)
      obtain ⟨rfl, rfl⟩ := Prod.mk.inj (Option.some.inj hstep)
      cases c with
      | unpinPage p x =>
        refine ⟨not_lt.mp fun htwo => ?_, hs⟩
        exact ha.shared_unpin htwo x hlast
      | _ => exact hs
  · intro hs h' b' hh hr'
    exact (created_below hr' (hs.earlier hh)).1.staysPut

/-- Two holders of one page, neither of which has released it. -/
theorem two_holders_stay_put :
    StaysPut [(.fetchPage 0, .frame (some 0)), (.newPage, .page (some (0, 0)))]
      ((new 1 ⟨[], none, []⟩).newPage.2.fetchPage 0).2 := by
  have h1 := pinMachine_call (@Machine.Run.start _ _ _ (pinMachine 1) (new 1 ⟨[], none, []⟩))
    .newPage trivial
  have h2 := pinMachine_call h1 (.fetchPage 0) ⟨0, .head _⟩
  exact (staysPut_iff_soleUnpins h2).mpr trivial _ _ (List.suffix_refl _) h2

/-- Two holders of one page in a pool of one frame: the first release lets `NewPage` take
the frame the second still points into. -/
theorem shared_page_evicted : ∃ (h : PoolHistory 1) (b : BufferPoolManager 1),
    (pinMachine 1).Run (new 1 ⟨[], none, []⟩) h b ∧
    h = [(.unpinPage 0 false, .ok true), (.fetchPage 0, .frame (some 0)),
      (.newPage, .page (some (0, 0)))] ∧
    ¬ StaysPut h b ∧ holders h 0 = [0] ∧ b.newPage.1 = some (1, 0) ∧
    b.newPage.2.pageTable.lookup 0 = none := by
  have h1 := pinMachine_call (@Machine.Run.start _ _ _ (pinMachine 1) (new 1 ⟨[], none, []⟩))
    .newPage trivial
  have h2 := pinMachine_call h1 (.fetchPage 0) ⟨0, .head _⟩
  have h3 := pinMachine_call h2 (.unpinPage 0 false) ⟨0, .tail _ (.head _)⟩
  refine ⟨_, _, h3, rfl, fun hput => ?_, rfl, by decide, by decide⟩
  have h0 := (hput 0 0 (by decide)).2.2.2.1
  exact h0 (by decide)

end BufferPoolManager
end PragmaticDB
