import PragmaticDB.Storage.PageCompaction
import PragmaticDB.Storage.RecordManager

/-!
A page as the records in its slots, and what each call of the record manager does to them.
-/
namespace PragmaticDB
open ByteBlock PageDataManager

variable {p : ℤ} {d d' : PageData}

/-- What `Get` finds in slot `i`. -/
def record (d : PageData) (i : ℕ) : Option (List UInt8) :=
  if Live d i then some (tuple d i) else none

/-- Tuples stand in the order of their slots, the first one last in the page. -/
def Descending (d : PageData) : Prop :=
  ∀ i j, i < j → Live d i → Live d j → (slot d j).offset + (slot d j).length ≤ (slot d i).offset

theorem record_of_live {i : ℕ} (h : Live d i) : record d i = some (tuple d i) := if_pos h

theorem record_of_dead {i : ℕ} (h : ¬ Live d i) : record d i = none := if_neg h

theorem record_isSome {i : ℕ} : (record d i).isSome = true ↔ Live d i := by
  unfold record
  split_ifs with h <;> simp [h]

theorem record_eq_some {i : ℕ} {bytes : List UInt8} (h : record d i = some bytes) :
    Live d i ∧ tuple d i = bytes := by
  unfold record at h
  split_ifs at h with hl
  exact ⟨hl, Option.some.inj h⟩

/-- In a page filled in slot order every tuple survives a compaction. -/
theorem Descending.movesUp (hf : Formatted p d) (h : Descending d) {i : ℕ} (hi : Live d i) :
    MovesUp d i := by
  have hin := hf.inside i hi
  have hsum : lengthBefore d i ≤ 4096 - ((slot d i).offset + (slot d i).length) := by
    apply Ranges.sum_length_le _ fun k => (slot d k).offset
    · intro k hk h0
      have hk := Finset.mem_range.mp hk
      have hlk : Live d k := ⟨hk.trans hi.1, h0⟩
      exact ⟨h k i hk hlk hi, (hf.inside k hlk).2⟩
    · intro k hk l hl hkl h0 h0'
      have hk := Finset.mem_range.mp hk
      have hl := Finset.mem_range.mp hl
      exact hf.apart k l ⟨hk.trans hi.1, h0⟩ ⟨hl.trans hi.1, h0'⟩ hkl
  unfold MovesUp
  omega

/-- Tuples that get shorter where they are stay in order. -/
theorem Descending.shorten (hd : Descending d) (hcount : slotCount d' = slotCount d)
    (hslots : ∀ i, (slot d' i).length ≤ (slot d i).length ∧
      (i < slotCount d → (slot d' i).offset = (slot d i).offset)) : Descending d' := by
  have hlive : ∀ i, Live d' i → Live d i :=
    fun i hi => ⟨hcount ▸ hi.1, hi.2.trans_le (hslots i).1⟩
  intro i j hij hi hj
  have hdij := hd i j hij (hlive i hi) (hlive j hj)
  have hoi := (hslots i).2 (hlive i hi).1
  have hoj := (hslots j).2 (hlive j hj).1
  have hlj := (hslots j).1
  omega

theorem Formatted.getVisit (hf : Formatted p d) (i : ℕ) :
    getVisit i d = some ⟨record d i, d, false⟩ := by
  unfold PragmaticDB.getVisit
  rcases Nat.lt_or_ge i (slotCount d) with hi | hi
  · rw [if_neg (not_le.mpr hi)]
    simp only [hf.slot?_eq hi, Option.bind_eq_bind, Option.bind_some]
    rcases Nat.eq_zero_or_pos (slot d i).length with h0 | hpos
    · have hdead : ¬ Live d i := fun hl => absurd hl.2 (by omega)
      rw [if_pos h0, record_of_dead hdead]
    · have hl : Live d i := ⟨hi, hpos⟩
      have hload : d.load? (slot d i).offset (slot d i).length = some (tuple d i) :=
        Block.load?_eq_some.mpr ⟨(hf.inside i hl).2, rfl⟩
      rw [if_neg hpos.ne', record_of_live hl]
      simp [PageDataManager.getTuple, not_le.mpr hi, hf.slot?_eq hi, hload]
  · have hdead : ¬ Live d i := fun hl => absurd hl.1 (not_lt.mpr hi)
    rw [if_pos hi, record_of_dead hdead]

/-- One slot rewritten, the free space at most taken from. -/
theorem Formatted.edit (hf : Formatted p d) {i : ℕ} (hid : pageId d' = pageId d)
    (hcount : slotCount d' = slotCount d)
    (hroom : 8 + 4 * slotCount d ≤ freeSpaceOffset d' + 1)
    (hfree : freeSpaceOffset d' ≤ freeSpaceOffset d)
    (hother : ∀ j < slotCount d, j ≠ i → slot d' j = slot d j)
    (hself : 0 < (slot d' i).length → freeSpaceOffset d' + 1 ≤ (slot d' i).offset ∧
      (slot d' i).offset + (slot d' i).length ≤ 4096 ∧
      ∀ j, Live d j → j ≠ i → (slot d' i).Apart (slot d j)) : Formatted p d' := by
  have htop := hf.top
  have hlive : ∀ j, Live d' j → j ≠ i → Live d j := fun j hj hji => by
    have hlt := hcount ▸ hj.1
    exact ⟨hlt, hother j hlt hji ▸ hj.2⟩
  constructor
  · rw [hid, hf.id]
  · rw [hcount]
    exact hroom
  · omega
  · intro j hj
    rcases eq_or_ne j i with rfl | hji
    · exact ⟨(hself hj.2).1, (hself hj.2).2.1⟩
    · have hl := hlive j hj hji
      have hin := hf.inside j hl
      rw [hother j hl.1 hji]
      omega
  · intro j k hj hk hjk
    rcases eq_or_ne j i with rfl | hji
    · have hlk := hlive k hk hjk.symm
      rw [hother k hlk.1 hjk.symm]
      exact (hself hj.2).2.2 k hlk hjk.symm
    · have hlj := hlive j hj hji
      rw [hother j hlj.1 hji]
      rcases eq_or_ne k i with rfl | hki
      · exact ((hself hk.2).2.2 j hlj hji).symm
      · have hlk := hlive k hk hki
        rw [hother k hlk.1 hki]
        exact hf.apart j k hlj hlk hjk

/-- The record of a slot that was not touched and whose bytes were not written. -/
theorem record_congr {j : ℕ} (hcount : j < slotCount d' ↔ j < slotCount d)
    (hslot : j < slotCount d → slot d' j = slot d j)
    (hload : Live d j → d'.load (slot d j).offset (slot d j).length = tuple d j) :
    record d' j = record d j := by
  have hlive : Live d' j ↔ Live d j := by
    unfold Live
    rw [hcount]
    constructor
    · rintro ⟨hj, hl⟩
      exact ⟨hj, hslot hj ▸ hl⟩
    · rintro ⟨hj, hl⟩
      exact ⟨hj, (hslot hj).symm ▸ hl⟩
  unfold record
  split_ifs with h h' h'
  · rw [← hload h']
    unfold tuple
    rw [hslot h'.1]
  · exact absurd (hlive.mp h) h'
  · exact absurd (hlive.mpr h') h
  · rfl

/-- `DeleteTuple` empties its slot and nothing else. -/
theorem Formatted.deleteTuple (hf : Formatted p d) (i : ℕ) :
    ∃ d', PageDataManager.deleteTuple d i = some (decide (i < slotCount d), d') ∧
      Formatted p d' ∧ slotCount d' = slotCount d ∧
      (∀ j, (slot d' j).length ≤ (slot d j).length ∧
        (j < slotCount d → (slot d' j).offset = (slot d j).offset)) ∧
      ∀ j, record d' j = if j = i then none else record d j := by
  have hroom := hf.room
  have hbase : 8 ≤ slotAddr i := by unfold slotAddr; omega
  rcases Nat.lt_or_ge i (slotCount d) with hi | hi
  · have haddr := hf.slotAddr_le hi
    have hcount : slotCount (d.set16 (slotAddr i + 2) 0) = slotCount d :=
      slotCount_set16 _ (by omega)
    have hself : slot (d.set16 (slotAddr i + 2) 0) i = ⟨(slot d i).offset, 0⟩ :=
      slot_set_length d haddr (by norm_num)
    have hother : ∀ j, j ≠ i → slot (d.set16 (slotAddr i + 2) 0) j = slot d j := by
      intro j hji
      have hsep : slotAddr j + 4 ≤ slotAddr i ∨ slotAddr i + 4 ≤ slotAddr j := by
        unfold slotAddr
        omega
      exact slot_set16 _ (by omega)
    have hfree : freeSpaceOffset (d.set16 (slotAddr i + 2) 0) = freeSpaceOffset d :=
      freeSpaceOffset_set16 _ (by omega)
    refine ⟨d.set16 (slotAddr i + 2) 0, ?_, ?_, hcount, fun j => ?_, fun j => ?_⟩
    · simp [PageDataManager.deleteTuple, not_le.mpr hi, hi, hf.slot?_eq hi]
    · apply hf.edit (i := i) (pageId_set16 _ (by omega)) hcount
      · rw [hfree]
        exact hroom
      · exact hfree.le
      · exact fun j _ hji => hother j hji
      · rw [hself]
        exact fun h0 => absurd h0 (lt_irrefl 0)
    · rcases eq_or_ne j i with rfl | hji
      · rw [hself]
        exact ⟨Nat.zero_le _, fun _ => rfl⟩
      · rw [hother j hji]
        exact ⟨le_rfl, fun _ => rfl⟩
    · rcases eq_or_ne j i with rfl | hji
      · rw [if_pos rfl]
        apply record_of_dead
        rintro ⟨-, hl⟩
        rw [hself] at hl
        exact lt_irrefl 0 hl
      · rw [if_neg hji]
        apply record_congr (by rw [hcount]) fun _ => hother j hji
        intro hl
        have hin := hf.inside j hl
        have hdir : slotAddr i + 4 ≤ slotAddr (slotCount d) := by unfold slotAddr; omega
        have heq : slotAddr (slotCount d) = 8 + 4 * slotCount d := by unfold slotAddr; omega
        exact Block.load_set16_of_disjoint _ (by omega)
  · have hdead : record d i = none := record_of_dead fun hl => absurd hl.1 (not_lt.mpr hi)
    refine ⟨d, ?_, hf, rfl, fun j => ⟨le_rfl, fun _ => rfl⟩, fun j => ?_⟩
    · simp [PageDataManager.deleteTuple, hi]
    · split_ifs with hji
      · rw [hji, hdead]
      · rfl

theorem Formatted.deleteVisit (hf : Formatted p d) (i : ℕ) :
    ∃ d', deleteVisit i d = some ⟨decide (i < slotCount d), d', decide (i < slotCount d)⟩ ∧
      Formatted p d' ∧ slotCount d' = slotCount d ∧
      (∀ j, (slot d' j).length ≤ (slot d j).length ∧
        (j < slotCount d → (slot d' j).offset = (slot d j).offset)) ∧
      ∀ j, record d' j = if j = i then none else record d j := by
  obtain ⟨d', he, hd'⟩ := hf.deleteTuple i
  refine ⟨d', ?_, hd'⟩
  unfold PragmaticDB.deleteVisit
  rw [he]
  rfl

/-- `Update` in place: the rewritten tuple is at most as long as the old one. -/
theorem Formatted.shrink (hf : Formatted p d) {i : ℕ} (hl : Live d i) {bytes : List UInt8}
    (h0 : 0 < bytes.length) (hle : bytes.length ≤ (slot d i).length) :
    let d' := (d.store (slot d i).offset bytes).set16 (slotAddr i + 2) bytes.length
    Formatted p d' ∧ slotCount d' = slotCount d ∧
      ∀ j, record d' j = if j = i then some bytes else record d j := by
  intro d'
  have hin := hf.inside i hl
  have hroom := hf.room
  have hbase : 8 ≤ slotAddr i := by unfold slotAddr; omega
  have haddr := hf.slotAddr_le hl.1
  have hdir : ∀ j, j < slotCount d → slotAddr j + 4 ≤ (slot d i).offset := by
    intro j hj
    unfold slotAddr
    omega
  have hcount : slotCount d' = slotCount d :=
    (slotCount_set16 _ (by omega)).trans (slotCount_store _ (by omega))
  have hfree : freeSpaceOffset d' = freeSpaceOffset d :=
    (freeSpaceOffset_set16 _ (by omega)).trans (freeSpaceOffset_store _ (by omega))
  have hself : slot d' i = ⟨(slot d i).offset, bytes.length⟩ := by
    rw [slot_set_length _ haddr (by omega), slot_store _ (.inl (hdir i hl.1))]
  have hother : ∀ j < slotCount d, j ≠ i → slot d' j = slot d j := by
    intro j hj hji
    have hsep : slotAddr j + 4 ≤ slotAddr i ∨ slotAddr i + 4 ≤ slotAddr j := by
      unfold slotAddr
      omega
    rw [slot_set16 _ (by omega), slot_store _ (.inl (hdir j hj))]
  have hload : ∀ a k, slotAddr (slotCount d) ≤ a →
      a + k ≤ (slot d i).offset ∨ (slot d i).offset + bytes.length ≤ a →
      d'.load a k = d.load a k := by
    intro a k ha hk
    have hlast : slotAddr i + 4 ≤ slotAddr (slotCount d) := by
      have := hl.1
      unfold slotAddr
      omega
    rw [Block.load_set16_of_disjoint _ (by omega), Block.load_store_of_disjoint _ hk]
  have heq : slotAddr (slotCount d) = 8 + 4 * slotCount d := by unfold slotAddr; omega
  have hlive : Live d' i := ⟨hcount.symm ▸ hl.1, hself.symm ▸ h0⟩
  refine ⟨?_, hcount, fun j => ?_⟩
  · apply hf.edit (i := i) ((pageId_set16 _ (by omega)).trans (pageId_store _ (by omega))) hcount
    · rw [hfree]
      exact hroom
    · exact hfree.le
    · exact hother
    · intro _
      rw [hself, hfree]
      refine ⟨hin.1, by simp only; omega, fun j hj hji => ?_⟩
      have hapart := hf.apart i j hl hj hji.symm
      unfold Slot.Apart at hapart ⊢
      simp only
      omega
  · rcases eq_or_ne j i with rfl | hji
    · rw [if_pos rfl, record_of_live hlive]
      unfold tuple
      rw [hself, Block.load_set16_of_disjoint _ (by have := hdir j hl.1; simp only; omega)]
      exact congrArg some (Block.load_store d (by omega))
    · rw [if_neg hji]
      apply record_congr (by rw [hcount]) fun hj => hother j hj hji
      intro hj
      have hinj := hf.inside j hj
      have hapart := hf.apart i j hl hj hji.symm
      unfold Slot.Apart at hapart
      exact hload _ _ (by omega) (by omega)

/-- `Update` to the free space: the tuple of slot `i` now lies below all others. -/
theorem Formatted.relocate (hf : Formatted p d) {i off : ℕ} (hl : Live d i)
    {bytes : List UInt8} (h0 : 0 < bytes.length)
    (hoff : off + bytes.length = freeSpaceOffset d + 1) (hroom : 8 + 4 * slotCount d ≤ off) :
    let d' := (((d.store off bytes).set16 (slotAddr i) off).set16 (slotAddr i + 2)
      bytes.length).set16 4 (off - 1)
    Formatted p d' ∧ slotCount d' = slotCount d ∧
      ∀ j, record d' j = if j = i then some bytes else record d j := by
  intro d'
  have htop := hf.top
  have hbase : 8 ≤ slotAddr i := by unfold slotAddr; omega
  have haddr := hf.slotAddr_le hl.1
  have hdir : ∀ j, j < slotCount d → slotAddr j + 4 ≤ off := by
    intro j hj
    unfold slotAddr
    omega
  have hlast := hdir i hl.1
  have hcount : slotCount d' = slotCount d := by
    rw [slotCount_set16 _ (by omega), slotCount_set16 _ (by omega), slotCount_set16 _ (by omega),
      slotCount_store _ (by omega)]
  have hfree : freeSpaceOffset d' = off - 1 := freeSpaceOffset_set _ (by omega)
  have hself : slot d' i = ⟨off, bytes.length⟩ := by
    rw [slot_set16 _ (by omega), slot_set_length _ haddr (by omega),
      slot_set_offset _ haddr (by omega)]
  have hother : ∀ j < slotCount d, j ≠ i → slot d' j = slot d j := by
    intro j hj hji
    have hsep : slotAddr j + 4 ≤ slotAddr i ∨ slotAddr i + 4 ≤ slotAddr j := by
      unfold slotAddr
      omega
    have hj4 : 8 ≤ slotAddr j := by unfold slotAddr; omega
    rw [slot_set16 _ (by omega), slot_set16 _ (by omega), slot_set16 _ (by omega),
      slot_store _ (.inl (hdir j hj))]
  have hload : ∀ a k, off ≤ a → d'.load a k = (d.store off bytes).load a k := by
    intro a k ha
    rw [Block.load_set16_of_disjoint _ (by omega), Block.load_set16_of_disjoint _ (by omega),
      Block.load_set16_of_disjoint _ (by omega)]
  have hlive : Live d' i := ⟨hcount.symm ▸ hl.1, hself.symm ▸ h0⟩
  refine ⟨?_, hcount, fun j => ?_⟩
  · apply hf.edit (i := i) _ hcount
    · omega
    · omega
    · exact hother
    · intro _
      rw [hself, hfree]
      refine ⟨by simp only; omega, by simp only; omega, fun j hj _ => .inl ?_⟩
      have hin := hf.inside j hj
      simp only
      omega
    · rw [pageId_set16 _ (le_refl 4), pageId_set16 _ (by omega), pageId_set16 _ (by omega),
        pageId_store _ (by omega)]
  · rcases eq_or_ne j i with rfl | hji
    · rw [if_pos rfl, record_of_live hlive]
      unfold tuple
      rw [hself]
      simp only
      rw [hload off _ le_rfl, Block.load_store d (by omega)]
    · rw [if_neg hji]
      apply record_congr (by rw [hcount]) fun hj => hother j hj hji
      intro hj
      have hin := hf.inside j hj
      rw [hload _ _ (by omega), Block.load_store_of_disjoint _ (by omega)]
      rfl

/-- `Update` succeeds on a live slot with room for the new bytes, and then changes the record
of that slot only. -/
theorem Formatted.updateVisit (hf : Formatted p d) (i : ℕ) {bytes : List UInt8}
    (h0 : 0 < bytes.length) : ∃ v, updateVisit i bytes d = some v ∧ Formatted p v.data ∧
      slotCount v.data = slotCount d ∧ (v.answer = true → Live d i) ∧
      (v.answer = false → v.data = d) ∧
      (v.answer = true → ∀ j, record v.data j = if j = i then some bytes else record d j) := by
  have hroom := hf.room
  unfold PragmaticDB.updateVisit
  rcases Nat.lt_or_ge i (slotCount d) with hi | hi
  · rw [if_neg (not_le.mpr hi)]
    simp only [hf.slot?_eq hi, Option.bind_eq_bind, Option.bind_some]
    rcases Nat.eq_zero_or_pos (slot d i).length with hz | hpos
    · rw [if_pos hz]
      exact ⟨_, rfl, hf, rfl, nofun, fun _ => rfl, nofun⟩
    · have hl : Live d i := ⟨hi, hpos⟩
      have hin := hf.inside i hl
      rw [if_neg hpos.ne']
      rcases Nat.lt_or_ge (slot d i).length bytes.length with hgrow | hle
      · rw [if_neg (not_le.mpr hgrow)]
        rcases Nat.lt_or_ge (availableSpace d) bytes.length with hfull | hfit
        · rw [if_pos hfull]
          exact ⟨_, rfl, hf, rfl, nofun, fun _ => rfl, nofun⟩
        · rw [if_neg (not_lt.mpr hfit)]
          rw [hf.availableSpace_eq] at hfit
          have htop := hf.top
          obtain ⟨off, hoff⟩ : ∃ off, off + bytes.length = freeSpaceOffset d + 1 :=
            ⟨freeSpaceOffset d + 1 - bytes.length, by omega⟩
          have hu : u16 (freeSpaceOffset d - bytes.length + 1) = off :=
            u16_of_nat (by omega) (by omega)
          have hu' : u16 ((off : ℤ) - 1) = off - 1 := u16_of_nat (by omega) (by omega)
          have hstore : d.store? off bytes = some (d.store off bytes) :=
            Block.store?_eq_some.mpr ⟨by omega, rfl⟩
          obtain ⟨hf', hcount, hrec⟩ := hf.relocate hl h0 hoff (by omega)
          simp only [hu, hu', hstore, Option.bind_some]
          exact ⟨_, rfl, hf', hcount, fun _ => hl, nofun, fun _ => hrec⟩
      · have hstore : d.store? (slot d i).offset bytes = some (d.store (slot d i).offset bytes) :=
          Block.store?_eq_some.mpr ⟨by omega, rfl⟩
        obtain ⟨hf', hcount, hrec⟩ := hf.shrink hl h0 hle
        rw [if_pos hle]
        simp only [hstore, Option.bind_some]
        exact ⟨_, rfl, hf', hcount, fun _ => hl, nofun, fun _ => hrec⟩
  · rw [if_pos hi]
    exact ⟨_, rfl, hf, rfl, nofun, fun _ => rfl, nofun⟩

/-- The records of a page with one more. -/
theorem Appends.records {bytes : List UInt8} (hf : Formatted p d) (h0 : 0 < bytes.length)
    (h : Appends d bytes d') (j : ℕ) :
    record d' j = if j = slotCount d then some bytes else record d j := by
  rcases eq_or_ne j (slotCount d) with rfl | hj
  · have hl : Live d' (slotCount d) := by
      refine ⟨?_, ?_⟩
      · rw [h.count]
        exact Nat.lt_succ_self _
      · rw [h.new]
        exact h0
    rw [if_pos rfl, record_of_live hl, h.stored]
  · rw [if_neg hj]
    apply record_congr
    · rw [h.count]
      omega
    · exact h.old j
    · intro hl
      exact h.kept _ _ (by have := (hf.inside j hl).1; omega)

theorem Appends.descending {bytes : List UInt8} (hf : Formatted p d) (h : Appends d bytes d')
    (hd : Descending d) : Descending d' := by
  have hfree := h.free
  intro i j hij hi hj
  rcases h.live_cases hj with hj | rfl
  · have hi' : Live d i := (h.live_old (hij.trans hj.1)).mp hi
    rw [h.old i hi'.1, h.old j hj.1]
    exact hd i j hij hi' hj
  · have hi' : Live d i := (h.live_old hij).mp hi
    have hin := (hf.inside i hi').1
    rw [h.old i hij, h.new]
    simp only
    omega

/-- A visit of `Insert` that looks for room: the tuple is appended, or the page stays. -/
theorem Formatted.insertVisit (hf : Formatted p d) {bytes : List UInt8}
    (hlt : bytes.length < 65532) : ∃ v, insertVisit bytes d = some v ∧
      ((v.answer = none ∧ v.data = d ∧ hasEnoughSpace d bytes.length = false) ∨
        (v.answer = some (slotCount d) ∧ Appends d bytes v.data ∧
          hasEnoughSpace d bytes.length = true ∧ Formatted p v.data)) := by
  unfold PragmaticDB.insertVisit
  cases hr : hasEnoughSpace d bytes.length with
  | false => exact ⟨_, rfl, .inl ⟨rfl, rfl, rfl⟩⟩
  | true =>
    have hroom := (hf.hasEnoughSpace_iff hlt).mp hr
    obtain ⟨d', he, ha⟩ := hf.insertTuple hroom
    simp only [he, if_true]
    exact ⟨_, rfl, .inr ⟨rfl, ha, trivial, ha.formatted hf hroom⟩⟩

/-- A visit of `Insert` that compacts: the tuple is appended to the compacted page, or the
page stays compacted. -/
theorem Formatted.compactVisit (hf : Formatted p d) {bytes : List UInt8}
    (hlt : bytes.length < 65532) : ∃ d₁ v, Compacted d d₁ ∧ compactVisit bytes d = some v ∧
      ((v.answer = none ∧ v.data = d₁ ∧ hasEnoughSpace d₁ bytes.length = false) ∨
        (v.answer = some (slotCount d) ∧ Appends d₁ bytes v.data ∧
          hasEnoughSpace d₁ bytes.length = true ∧ Formatted p v.data)) := by
  obtain ⟨d₁, hc, hcd⟩ := hf.compactOnePage
  have hf₁ := hcd.formatted hf
  refine ⟨d₁, ?_⟩
  unfold PragmaticDB.compactVisit
  rw [hc]
  simp only [Option.bind_eq_bind, Option.bind_some]
  cases hr : hasEnoughSpace d₁ bytes.length with
  | false => exact ⟨_, hcd, rfl, .inl ⟨rfl, rfl, rfl⟩⟩
  | true =>
    have hroom := (hf₁.hasEnoughSpace_iff hlt).mp hr
    obtain ⟨d', he, ha⟩ := hf₁.insertTuple hroom
    simp only [he, if_true, Option.bind_some]
    exact ⟨_, hcd, rfl, .inr ⟨by rw [hcd.count], ha, trivial, ha.formatted hf₁ hroom⟩⟩

theorem Compacted.record_eq (h : Compacted d d') {i : ℕ} (hup : Live d i → MovesUp d i) :
    record d' i = record d i := by
  unfold record
  rw [if_congr (h.live_iff i) rfl rfl]
  split_ifs with hl
  · rw [h.whole i hl (hup hl)]
  · rfl

theorem Compacted.descending (h : Compacted d d') : Descending d' := by
  intro i j hij hi hj
  have hi := (h.live_iff i).mp hi
  have hj := (h.live_iff j).mp hj
  have hmi := h.moved i hi
  have hmj := h.moved j hj
  have hle := lengthBefore_mono d (show i + 1 ≤ j from hij)
  have hsum := lengthBefore_succ d j
  rw [h.length j hj.1]
  omega

end PragmaticDB
