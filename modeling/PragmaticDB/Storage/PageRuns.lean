import PragmaticDB.Storage.PageRecords
import PragmaticDB.Lib.Machine

/-!
Runs of the operations on one page. Tuples that are only inserted, deleted and compacted stand in
the order of their slots, so a compaction loses none of them.
-/
namespace PragmaticDB
open ByteBlock PageDataManager CallMachine

inductive PageCall where
  | insertTuple (tuple : List UInt8)
  | deleteTuple (slotId : ℕ)
  | compactOnePage

inductive PageReply where
  | slot (r : Option ℕ)
  | ok (r : Bool)
  | unit

namespace PageDataManager

def answer (d : PageData) : PageCall → Option (PageReply × PageData)
  | .insertTuple tuple => (insertTuple d tuple).map fun x => (.slot x.1, x.2)
  | .deleteTuple i => (deleteTuple d i).map fun x => (.ok x.1, x.2)
  | .compactOnePage => (compactOnePage d).map fun d => (.unit, d)

/-- Callers that insert tuples of at most a page. -/
def pageMachine : Machine PageData PageCall PageReply where
  step := answer
  Allowed _ _ c :=
    match c with
    | .insertTuple tuple => 1 ≤ tuple.length ∧ tuple.length ≤ 4096
    | _ => True

instance : ∀ h s c, Decidable (pageMachine.Allowed h s c)
  | _, _, .insertTuple tuple =>
    inferInstanceAs (Decidable (1 ≤ tuple.length ∧ tuple.length ≤ 4096))
  | _, _, .deleteTuple _ => inferInstanceAs (Decidable True)
  | _, _, .compactOnePage => inferInstanceAs (Decidable True)

/-- A page filled in slot order. -/
structure Ordered (d : PageData) : Prop where
  formatted : Formatted (pageId d) d
  descending : Descending d

theorem initialized_ordered (d : PageData) (p : ℤ) : Ordered (initializePage d p) where
  formatted := .initialized d p rfl
  descending i _ _ hi _ := absurd hi (not_live_initializePage d p i)

/-- Every call is answered. -/
theorem pageMachine_keeps : pageMachine.Keeps fun _ d => Ordered d := by
  intro h d c ho ha
  have hf := ho.formatted
  cases c with
  | insertTuple tuple =>
    have hlt : tuple.length < 65532 := Nat.lt_of_le_of_lt ha.2 (by norm_num)
    cases hr : hasEnoughSpace d tuple.length with
    | false =>
      refine ⟨.slot none, d, ?_, ho⟩
      change (insertTuple d tuple).map _ = _
      rw [insertTuple_full hr]
      rfl
    | true =>
      have hroom := (hf.hasEnoughSpace_iff hlt).mp hr
      obtain ⟨d', he, hd'⟩ := hf.insertTuple hroom
      refine ⟨.slot (some (slotCount d)), d', ?_, ?_, hd'.descending hf ho.descending⟩
      · change (insertTuple d tuple).map _ = _
        rw [he]
        rfl
      · rw [hd'.id]
        exact hd'.formatted hf hroom
  | deleteTuple i =>
    obtain ⟨d', he, hf', hcount, hslots, -⟩ := hf.deleteTuple i
    refine ⟨.ok (decide (i < slotCount d)), d', ?_, ?_, ho.descending.shorten hcount hslots⟩
    · change (deleteTuple d i).map _ = _
      rw [he]
      rfl
    · rw [hf'.id]
      exact hf'
  | compactOnePage =>
    obtain ⟨d', he, hd'⟩ := hf.compactOnePage
    refine ⟨.unit, d', ?_, ?_, hd'.descending⟩
    · change (compactOnePage d).map _ = _
      rw [he]
      rfl
    · rw [hd'.id]
      exact hd'.formatted hf

/-- The dead slots count for nothing. -/
theorem sum_live (d : PageData) :
    ∑ i ∈ (Finset.range (slotCount d)).filter (Live d), (slot d i).length =
      lengthBefore d (slotCount d) := by
  apply Finset.sum_filter_of_ne
  intro i hi hne
  exact ⟨Finset.mem_range.mp hi, Nat.pos_of_ne_zero hne⟩

/-- The tuples of a page stand in slot order from its end downwards. A compaction keeps them
all, leaves no gaps, and done twice changes no byte the second time. -/
theorem compaction_of_ordered {d₀ d : PageData} {p : ℤ} {h : List (PageCall × PageReply)}
    (hr : pageMachine.Run (initializePage d₀ p) h d) :
    (∀ i j, i < j → Live d i → Live d j →
      (slot d i).Apart (slot d j) ∧ (slot d j).offset < (slot d i).offset) ∧
    ∃ d', compactOnePage d = some d' ∧ slotCount d' = slotCount d ∧
      (∀ i, Live d' i ↔ Live d i) ∧
      (∀ i, Live d i → (slot d' i).length = (slot d i).length ∧ tuple d' i = tuple d i) ∧
      freeSpaceOffset d' +
        ∑ i ∈ (Finset.range (slotCount d)).filter (Live d), (slot d i).length = 4095 ∧
      compactOnePage d' = some d' := by
  have ho := hr.invariant pageMachine_keeps (initialized_ordered d₀ p)
  have hf := ho.formatted
  obtain ⟨d', he, hd'⟩ := hf.compactOnePage
  constructor
  · intro i j hij hi hj
    have hbelow := ho.descending i j hij hi hj
    have hpos := hj.2
    exact ⟨.inr hbelow, by omega⟩
  · refine ⟨d', he, hd'.count, hd'.live_iff, fun i hi => ⟨hd'.length i hi.1, ?_⟩, ?_,
      hd'.idempotent hf⟩
    · exact hd'.whole i hi (ho.descending.movesUp hf hi)
    · have hfree := hd'.free
      rw [sum_live]
      omega

/-- Of two tuples the first is deleted; the second moves to the end of the page. -/
theorem gap_closed : ∃ h d d', pageMachine.Run (initializePage zeroPage 0) h d ∧
    compactOnePage d = some d' ∧ tuple d' 1 = [8] ∧ freeSpaceOffset d' = 4094 ∧
    compactOnePage d' = some d' := by
  have heval : (pageMachine.play [.insertTuple [7], .insertTuple [8], .deleteTuple 0] []
      (initializePage zeroPage 0)).map (fun x => (decide (Live x.2 1), tuple x.2 1,
        ∑ i ∈ (Finset.range (slotCount x.2)).filter (Live x.2), (slot x.2 i).length)) =
      some (true, [8], 1) := by
    decide +kernel
  obtain ⟨⟨h, d⟩, hplay, heval⟩ := Option.map_eq_some_iff.mp heval
  have hr := Machine.Run.start.play hplay
  obtain ⟨-, d', he, -, -, htuples, hfree, hagain⟩ := compaction_of_ordered hr
  simp only [Prod.mk.injEq, decide_eq_true_eq] at heval
  obtain ⟨hlive, htuple, hsum⟩ := heval
  refine ⟨h, d, d', hr, he, ?_, ?_, hagain⟩
  · rw [(htuples 1 hlive).2, htuple]
  · rw [hsum] at hfree
    exact Nat.succ.inj hfree

end PageDataManager
end PragmaticDB
