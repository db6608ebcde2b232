import PragmaticDB.Storage.PageLayout
import PragmaticDB.Lib.Ranges

/-!
Compaction of a page. Tuples move to the end of the page in the order of their slots, so a
tuple arrives whole when none of the earlier ones was written over it.
-/
namespace PragmaticDB
open ByteBlock PageDataManager

variable {p : ℤ} {d d' : PageData}

/-- The bytes of the tuples before slot `i`. -/
def lengthBefore (d : PageData) (i : ℕ) : ℕ := ∑ k ∈ Finset.range i, (slot d k).length

/-- The tuple of slot `i` ends below everything the earlier slots are compacted into. -/
def MovesUp (d : PageData) (i : ℕ) : Prop :=
  (slot d i).offset + (slot d i).length + lengthBefore d i ≤ 4096

instance (d : PageData) (i : ℕ) : Decidable (MovesUp d i) :=
  inferInstanceAs (Decidable ((slot d i).offset + (slot d i).length + lengthBefore d i ≤ 4096))

theorem lengthBefore_succ (d : PageData) (i : ℕ) :
    lengthBefore d (i + 1) = lengthBefore d i + (slot d i).length :=
  Finset.sum_range_succ _ _

theorem lengthBefore_mono (d : PageData) {i j : ℕ} (h : i ≤ j) :
    lengthBefore d i ≤ lengthBefore d j :=
  Finset.sum_le_sum_of_subset (Finset.range_subset_range.mpr h)

/-- The live tuples fit behind the free space they are above of. -/
theorem Formatted.lengthBefore_le (hf : Formatted p d) :
    lengthBefore d (slotCount d) + freeSpaceOffset d + 1 ≤ 4096 := by
  have htop := hf.top
  have hsum : lengthBefore d (slotCount d) ≤ 4096 - (freeSpaceOffset d + 1) := by
    apply Ranges.sum_length_le _ fun k => (slot d k).offset
    · intro i hi h0
      exact hf.inside i ⟨Finset.mem_range.mp hi, h0⟩
    · intro i hi j hj hij h0 h0'
      exact hf.apart i j ⟨Finset.mem_range.mp hi, h0⟩ ⟨Finset.mem_range.mp hj, h0'⟩ hij
  omega

/-- What a compaction of `d` has done when it comes to slot `i`: `writePtr` is the place of
the next byte, and nothing below it has changed except for the offsets of earlier slots. -/
structure Compacting (d : PageData) (i : ℕ) (writePtr : ℤ) (m : PageData) : Prop where
  ptr : writePtr + lengthBefore d i = 4095
  id : pageId m = pageId d
  count : slotCount m = slotCount d
  later : ∀ k, i ≤ k → k < slotCount d → slot m k = slot d k
  length : ∀ k < slotCount d, (slot m k).length = (slot d k).length
  moved : ∀ k < i, Live d k → (slot m k).offset + lengthBefore d (k + 1) = 4096
  below : ∀ a k, slotAddr (slotCount d) ≤ a → a + k + lengthBefore d i ≤ 4096 →
    m.load a k = d.load a k
  whole : ∀ k < i, Live d k → MovesUp d k → tuple m k = tuple d k

theorem Compacting.start (d : PageData) : Compacting d 0 4095 d where
  ptr := by simp [lengthBefore]
  id := rfl
  count := rfl
  later _ _ _ := rfl
  length _ _ := rfl
  moved _ hk := absurd hk (Nat.not_lt_zero _)
  below _ _ _ _ := rfl
  whole _ hk := absurd hk (Nat.not_lt_zero _)

/-- A deleted slot is passed over. -/
theorem Compacting.skip {i : ℕ} {w : ℤ} {m : PageData} (h : Compacting d i w m)
    (h0 : (slot d i).length = 0) : Compacting d (i + 1) w m := by
  have hsum : lengthBefore d (i + 1) = lengthBefore d i := by
    rw [lengthBefore_succ, h0, Nat.add_zero]
  have hdead : ∀ k, k < i + 1 → Live d k → k < i := by
    intro k hk hl
    have hki : k ≠ i := by
      rintro rfl
      exact absurd hl.2 (by omega)
    omega
  constructor
  · rw [hsum]
    exact h.ptr
  · exact h.id
  · exact h.count
  · exact fun k hk => h.later k (by omega)
  · exact h.length
  · exact fun k hk hl => h.moved k (hdead k hk hl) hl
  · intro a k ha hk
    exact h.below a k ha (by omega)
  · exact fun k hk hl => h.whole k (hdead k hk hl) hl

/-! One tuple that moves. -/

theorem slotAddr_lt {i c : ℕ} (h : i < c) : slotAddr i + 4 ≤ slotAddr c := by
  unfold slotAddr
  omega

/-- The tuple of slot `i` with its bytes at `o`. -/
def moveSlot (m : PageData) (i o : ℕ) (bytes : List UInt8) : PageData :=
  (m.store o bytes).set16 (slotAddr i) o

section MoveSlot
variable {c i o : ℕ} {bytes : List UInt8} (m : PageData)

theorem slot_moveSlot_of_ne {k : ℕ} (hk : k < c) (hne : k ≠ i)
    (ho : slotAddr c ≤ o) : slot (moveSlot m i o bytes) k = slot m k := by
  have hk' := slotAddr_lt hk
  have hsep : slotAddr k + 4 ≤ slotAddr i ∨ slotAddr i + 4 ≤ slotAddr k := by
    unfold slotAddr
    omega
  unfold moveSlot
  rw [slot_set16 _ (by omega), slot_store _ (by omega)]

theorem slot_moveSlot (hi : i < c) (ho : slotAddr c ≤ o) (hin : o + bytes.length ≤ 4096) :
    slot (moveSlot m i o bytes) i = ⟨o, (slot m i).length⟩ := by
  have hi' := slotAddr_lt hi
  unfold moveSlot
  rw [slot_set_offset _ (by omega) (by omega), slot_store _ (by omega)]

theorem load_moveSlot_of_disjoint (hi : i < c) {a k : ℕ} (ha : slotAddr c ≤ a)
    (hk : a + k ≤ o ∨ o + bytes.length ≤ a) :
    (moveSlot m i o bytes).load a k = m.load a k := by
  have hi' := slotAddr_lt hi
  unfold moveSlot
  rw [Block.load_set16_of_disjoint _ (by omega), Block.load_store_of_disjoint _ hk]

theorem load_moveSlot (hi : i < c) (ho : slotAddr c ≤ o) (hin : o + bytes.length ≤ 4096) :
    (moveSlot m i o bytes).load o bytes.length = bytes := by
  have hi' := slotAddr_lt hi
  unfold moveSlot
  rw [Block.load_set16_of_disjoint _ (by omega), Block.load_store m hin]

theorem header_moveSlot (hi : i < c) (ho : slotAddr c ≤ o) :
    pageId (moveSlot m i o bytes) = pageId m ∧ slotCount (moveSlot m i o bytes) = slotCount m := by
  have hbase : 8 ≤ slotAddr i := by
    unfold slotAddr
    omega
  have hi' := slotAddr_lt hi
  unfold moveSlot
  constructor
  · rw [pageId_set16 _ (by omega), pageId_store _ (by omega)]
  · rw [slotCount_set16 _ (by omega), slotCount_store _ (by omega)]

end MoveSlot

/-- An earlier tuple lies above the one that moves now. -/
theorem Compacting.whole_moveSlot {i o : ℕ} {w : ℤ} {m : PageData} {bytes : List UInt8}
    (h : Compacting d i w m) (hi : i < slotCount d) (ho : slotAddr (slotCount d) ≤ o)
    (hend : o + bytes.length + lengthBefore d i = 4096) {k : ℕ} (hk : k < i) (hl : Live d k)
    (hup : MovesUp d k) : tuple (moveSlot m i o bytes) k = tuple d k := by
  have hmoved := h.moved k hk hl
  have hmono := lengthBefore_mono d (show k + 1 ≤ i from hk)
  have hlow : slotAddr (slotCount d) ≤ (slot m k).offset := by omega
  rw [← h.whole k hk hl hup]
  unfold tuple
  rw [slot_moveSlot_of_ne m hl.1 hk.ne ho,
    load_moveSlot_of_disjoint m hi hlow (by omega)]

/-- A tuple that is put right below the ones before it. -/
theorem Compacting.place {i o : ℕ} {w : ℤ} {m : PageData} (h : Compacting d i w m)
    (hl : Live d i) (hin : slotAddr (slotCount d) ≤ (slot d i).offset)
    (ho : slotAddr (slotCount d) ≤ o) (hend : o + lengthBefore d (i + 1) = 4096) :
    Compacting d (i + 1) (o - 1)
      (moveSlot m i o (m.load (slot d i).offset (slot d i).length)) := by
  have hsum := lengthBefore_succ d i
  have hlen := Block.load_length m (slot d i).offset (slot d i).length
  -- no earlier tuple was written over the bytes that move
  have hload : MovesUp d i → m.load (slot d i).offset (slot d i).length = tuple d i :=
    fun hup => h.below _ _ hin hup
  generalize m.load (slot d i).offset (slot d i).length = bytes at hlen hload ⊢
  have hother : ∀ k < slotCount d, k ≠ i → slot (moveSlot m i o bytes) k = slot m k :=
    fun k hk hne => slot_moveSlot_of_ne m hk hne ho
  have hself : slot (moveSlot m i o bytes) i = ⟨o, (slot d i).length⟩ := by
    rw [slot_moveSlot m hl.1 ho (by omega), h.later i le_rfl hl.1]
  have hhead : pageId (moveSlot m i o bytes) = pageId m ∧
      slotCount (moveSlot m i o bytes) = slotCount m := header_moveSlot m hl.1 ho
  constructor
  · omega
  · rw [hhead.1, h.id]
  · rw [hhead.2, h.count]
  · intro k hk hkc
    rw [hother k hkc (by omega), h.later k (by omega) hkc]
  · intro k hk
    rcases eq_or_ne k i with rfl | hki
    · rw [hself]
    · rw [hother k hk hki, h.length k hk]
  · intro k hk hlk
    rcases Nat.lt_succ_iff_lt_or_eq.mp hk with hk | rfl
    · rw [hother k hlk.1 (by omega)]
      exact h.moved k hk hlk
    · rw [hself]
      exact hend
  · intro a k ha hk
    rw [load_moveSlot_of_disjoint m hl.1 ha (by omega)]
    exact h.below a k ha (by omega)
  · intro k hk hlk hup
    rcases Nat.lt_succ_iff_lt_or_eq.mp hk with hk | rfl
    · exact h.whole_moveSlot hl.1 ho (by omega) hk hlk hup
    · rw [← hload hup]
      unfold tuple
      rw [hself, ← hlen]
      exact load_moveSlot m hl.1 ho (by omega)

/-- A live slot moves right below the ones before it. -/
theorem Compacting.move (hf : Formatted p d) {i : ℕ} {w : ℤ} {m : PageData}
    (h : Compacting d i w m) (hl : Live d i) : ∃ m', memmove m (w - (slot d i).length + 1)
      (slot d i).offset (slot d i).length = some m' ∧
      Compacting d (i + 1) (w - (slot d i).length + 1 - 1)
        (m'.set16 (slotAddr i) (u16 (w - (slot d i).length + 1))) := by
  obtain ⟨hoff, hin⟩ := hf.inside i hl
  have hall := hf.lengthBefore_le
  have hroom := hf.room
  have hptr := h.ptr
  have hsum := lengthBefore_succ d i
  have hle := lengthBefore_mono d (show i + 1 ≤ slotCount d from hl.1)
  have haddr : slotAddr (slotCount d) = 8 + 4 * slotCount d := by unfold slotAddr; omega
  obtain ⟨o, ho⟩ : ∃ o : ℕ, o + lengthBefore d (i + 1) = 4096 :=
    ⟨4096 - lengthBefore d (i + 1), by omega⟩
  have hnew : w - (slot d i).length + 1 = (o : ℤ) := by omega
  have hlow : slotAddr (slotCount d) ≤ (slot d i).offset := by omega
  have hlen := Block.load_length m (slot d i).offset (slot d i).length
  have hstore : m.store? o (m.load (slot d i).offset (slot d i).length) =
      some (m.store o (m.load (slot d i).offset (slot d i).length)) :=
    Block.store?_eq_some.mpr ⟨by omega, rfl⟩
  refine ⟨m.store o (m.load (slot d i).offset (slot d i).length), ?_, ?_⟩
  · rw [hnew]
    simp only [memmove, Block.load?_eq_some.mpr ⟨hin, rfl⟩, Option.bind_eq_bind,
      Option.bind_some, Int.toNat_natCast, hstore, if_neg (not_lt.mpr (Int.natCast_nonneg o))]
  · rw [hnew, u16_of_nat rfl (by omega)]
    exact h.place hl hlow (by omega) ho

/-- The loop comes to the end of the directory. -/
theorem Formatted.compactFrom (hf : Formatted p d) {fuel i : ℕ} {w : ℤ} {m : PageData}
    (hi : i ≤ slotCount d) (hfuel : slotCount d - i < fuel) (h : Compacting d i w m) :
    ∃ w' m', compactFrom fuel i w m = some (w', m') ∧ Compacting d (slotCount d) w' m' := by
  induction fuel generalizing i w m with
  | zero => exact absurd hfuel (Nat.not_lt_zero _)
  | succ fuel ih =>
    rcases hi.lt_or_eq with hlt | rfl
    · have hs : slot? m i = some (slot d i) := by
        unfold slot?
        rw [if_pos (hf.slotAddr_le hlt), h.later i le_rfl hlt]
      rcases Nat.eq_zero_or_pos (slot d i).length with h0 | hpos
      · obtain ⟨w', m', he, hc⟩ := ih hlt (by omega) (h.skip h0)
        refine ⟨w', m', ?_, hc⟩
        simp [PageDataManager.compactFrom, h.count, hlt, hs, h0, he]
      · obtain ⟨m₁, hm, hc₁⟩ := h.move hf ⟨hlt, hpos⟩
        obtain ⟨w', m', he, hc⟩ := ih hlt (by omega) hc₁
        refine ⟨w', m', ?_, hc⟩
        simp only [PageDataManager.compactFrom, h.count, hlt, if_true, hs, Option.bind_eq_bind,
          Option.bind_some, if_neg hpos.ne', hm]
        exact he
    · exact ⟨w, m, by simp [PageDataManager.compactFrom, h.count], h⟩

/-- A page after compaction. -/
structure Compacted (d d' : PageData) : Prop where
  id : pageId d' = pageId d
  count : slotCount d' = slotCount d
  free : freeSpaceOffset d' + 1 + lengthBefore d (slotCount d) = 4096
  length : ∀ i < slotCount d, (slot d' i).length = (slot d i).length
  moved : ∀ i, Live d i → (slot d' i).offset + lengthBefore d (i + 1) = 4096
  whole : ∀ i, Live d i → MovesUp d i → tuple d' i = tuple d i

theorem Formatted.compactOnePage (hf : Formatted p d) :
    ∃ d', compactOnePage d = some d' ∧ Compacted d d' := by
  have hc := Block.get16_lt d 6
  have hall := hf.lengthBefore_le
  have hroom := hf.room
  obtain ⟨w, m, he, hm⟩ : ∃ w m, PageDataManager.compactFrom 65536 0 4095 d = some (w, m) ∧
      Compacting d (slotCount d) w m := hf.compactFrom (Nat.zero_le _)
    (show slotCount d - 0 < 65536 by unfold slotCount; omega) (Compacting.start d)
  have hptr := hm.ptr
  obtain ⟨o, ho⟩ : ∃ o : ℕ, w = o := ⟨w.toNat, by omega⟩
  have hbase : ∀ i, 8 ≤ slotAddr i := fun i => by unfold slotAddr; omega
  refine ⟨m.set16 4 o, ?_, ?_⟩
  · simp [PageDataManager.compactOnePage, he, ho, u16_of_nat rfl (show o < 65536 by omega)]
  · have hslot : ∀ i, slot (m.set16 4 o) i = slot m i :=
      fun i => slot_set16 _ (.inr (by have := hbase i; omega))
    constructor
    · rw [pageId_set16 _ (le_refl 4), hm.id]
    · rw [slotCount_set16 _ (by omega), hm.count]
    · rw [freeSpaceOffset_set _ (by omega)]
      omega
    · intro i hi
      rw [hslot, hm.length i hi]
    · intro i hl
      rw [hslot]
      exact hm.moved i hl.1 hl
    · intro i hl hup
      have hmoved := hm.moved i hl.1 hl
      have hle := lengthBefore_mono d (show i + 1 ≤ slotCount d from hl.1)
      unfold tuple
      rw [hslot, Block.load_set16_of_disjoint _ (by omega)]
      exact hm.whole i hl.1 hl hup

theorem Compacted.live_iff (h : Compacted d d') (i : ℕ) : Live d' i ↔ Live d i := by
  unfold Live
  rw [h.count]
  constructor
  · rintro ⟨hi, hl⟩
    exact ⟨hi, h.length i hi ▸ hl⟩
  · rintro ⟨hi, hl⟩
    exact ⟨hi, (h.length i hi).symm ▸ hl⟩

theorem Compacted.lengthBefore_eq (h : Compacted d d') {i : ℕ} (hi : i ≤ slotCount d) :
    lengthBefore d' i = lengthBefore d i := by
  apply Finset.sum_congr rfl
  intro k hk
  exact h.length k ((Finset.mem_range.mp hk).trans_le hi)

theorem Compacted.formatted (hf : Formatted p d) (h : Compacted d d') : Formatted p d' := by
  have hall := hf.lengthBefore_le
  have hroom := hf.room
  have hfree := h.free
  have hsucc := lengthBefore_succ d
  have hmono := fun {i j : ℕ} (hij : i ≤ j) => lengthBefore_mono d hij
  constructor
  · rw [h.id, hf.id]
  · rw [h.count]
    omega
  · omega
  · intro i hi
    have hi := (h.live_iff i).mp hi
    have hmoved := h.moved i hi
    have hlen := h.length i hi.1
    have hsum := hsucc i
    have hle := hmono (show i + 1 ≤ slotCount d from hi.1)
    omega
  · intro i j hi hj hij
    have hi := (h.live_iff i).mp hi
    have hj := (h.live_iff j).mp hj
    have hmi := h.moved i hi
    have hmj := h.moved j hj
    have hli := h.length i hi.1
    have hlj := h.length j hj.1
    have hsi := hsucc i
    have hsj := hsucc j
    unfold Slot.Apart
    rcases Nat.lt_or_gt_of_ne hij with hlt | hlt
    · have hle := hmono (show i + 1 ≤ j from hlt)
      omega
    · have hle := hmono (show j + 1 ≤ i from hlt)
      omega

/-- The loop over tuples that are where it would move them. -/
theorem Formatted.compactFrom_moved (hf : Formatted p d)
    (hm : ∀ i, Live d i → (slot d i).offset + lengthBefore d (i + 1) = 4096) {fuel i : ℕ} {w : ℤ}
    (hi : i ≤ slotCount d) (hfuel : slotCount d - i < fuel) (hw : w + lengthBefore d i = 4095) :
    PageDataManager.compactFrom fuel i w d =
      some (4095 - (lengthBefore d (slotCount d) : ℤ), d) := by
  induction fuel generalizing i w with
  | zero => exact absurd hfuel (Nat.not_lt_zero _)
  | succ fuel ih =>
    rcases hi.lt_or_eq with hlt | rfl
    · have hsum := lengthBefore_succ d i
      rcases Nat.eq_zero_or_pos (slot d i).length with h0 | hpos
      · have hrest := ih (show i + 1 ≤ slotCount d from hlt) (by omega) (w := w) (by omega)
        simp only [PageDataManager.compactFrom, hlt, if_true, hf.slot?_eq hlt,
          Option.bind_eq_bind, Option.bind_some, h0, hrest]
      · have hl : Live d i := ⟨hlt, hpos⟩
        have hin := (hf.inside i hl).2
        have hmoved := hm i hl
        have hnew : w - (slot d i).length + 1 = ((slot d i).offset : ℤ) := by omega
        have hload : d.load? (slot d i).offset (slot d i).length = some (tuple d i) :=
          Block.load?_eq_some.mpr ⟨hin, rfl⟩
        have hstore : d.store? (slot d i).offset (tuple d i) = some d := by
          refine Block.store?_eq_some.mpr ⟨?_, ?_⟩
          · rwa [tuple, Block.load_length]
          · exact (Block.store_load d _ _).symm
        have hsame : memmove d (slot d i).offset (slot d i).offset (slot d i).length = some d := by
          simp only [memmove, hload, Option.bind_eq_bind, Option.bind_some,
            if_neg (not_lt.mpr (Int.natCast_nonneg _)), Int.toNat_natCast, hstore]
        have hslot : d.set16 (slotAddr i) (slot d i).offset = d := Block.set16_get16 d _
        have hrest := ih (show i + 1 ≤ slotCount d from hlt) (by omega)
          (w := (slot d i).offset - 1) (by omega)
        simp only [PageDataManager.compactFrom, hlt, if_true, hf.slot?_eq hlt,
          Option.bind_eq_bind, Option.bind_some, if_neg hpos.ne', hnew, hsame,
          u16_of_nat rfl (show (slot d i).offset < 65536 by omega), hslot, hrest]
    · have hw' : w = 4095 - lengthBefore d (slotCount d) := by omega
      rw [hw']
      simp [PageDataManager.compactFrom]

/-- A second compaction finds everything in place. -/
theorem Compacted.idempotent (hf : Formatted p d) (h : Compacted d d') :
    PageDataManager.compactOnePage d' = some d' := by
  have hf' := h.formatted hf
  have hcount := Block.get16_lt d' 6
  have hmoved : ∀ i, Live d' i → (slot d' i).offset + lengthBefore d' (i + 1) = 4096 := by
    intro i hi
    have hi := (h.live_iff i).mp hi
    rw [h.lengthBefore_eq hi.1]
    exact h.moved i hi
  have hloop : PageDataManager.compactFrom 65536 0 4095 d' =
      some (4095 - (lengthBefore d' (slotCount d') : ℤ), d') :=
    hf'.compactFrom_moved hmoved (Nat.zero_le _)
      (show slotCount d' - 0 < 65536 by unfold slotCount; omega) (by simp [lengthBefore])
  have hfree : u16 (4095 - (lengthBefore d' (slotCount d') : ℤ)) = freeSpaceOffset d' := by
    have hlt := Block.get16_lt d' 4
    have htop := h.free
    rw [h.count, h.lengthBefore_eq le_rfl]
    exact u16_of_nat (by omega) hlt
  simp only [PageDataManager.compactOnePage, hloop, Option.bind_eq_bind, Option.bind_some, hfree]
  exact congrArg some (Block.set16_get16 d' 4)

end PragmaticDB
