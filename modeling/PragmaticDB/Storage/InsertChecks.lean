import PragmaticDB.Storage.HeapInvariants

/-!
The room test of `InsertTuple` on pages of which only the header is known. Both sides of the
test are 16 bits wide, so the sizes whose slot no longer fits 16 bits have to be looked at.
-/
namespace PragmaticDB
open ByteBlock PageDataManager

namespace PageDataManager

/-- `insertTuple` together with the ranges it writes, in their order. -/
def insertTupleLogged (d : PageData) (tuple : List UInt8) :
    Option (Option ℕ × PageData × List Slot) :=
  if hasEnoughSpace d tuple.length then do
    let newFreeSpaceOffset := u16 (freeSpaceOffset d - tuple.length + 1)
    let d ← d.store? newFreeSpaceOffset tuple
    let entry := slotAddr (slotCount d)
    let d ← d.store? entry (leBytes 2 newFreeSpaceOffset ++ leBytes 2 tuple.length)
    let slotId := slotCount d
    let d := d.set16 6 (u16 (slotId + 1))
    let d := d.set16 4 (u16 (newFreeSpaceOffset - 1))
    return (some slotId, d, [⟨newFreeSpaceOffset, tuple.length⟩, ⟨entry, 4⟩, ⟨6, 2⟩, ⟨4, 2⟩])
  else return (none, d, [])

end PageDataManager

variable {d : PageData} {bytes : List UInt8}

theorem insertTupleLogged_fst (d : PageData) (bytes : List UInt8) :
    (insertTupleLogged d bytes).map (fun x => (x.1, x.2.1)) = insertTuple d bytes := by
  unfold insertTupleLogged insertTuple
  split_ifs
  · cases h₁ : d.store? (u16 (freeSpaceOffset d - bytes.length + 1)) bytes with
    | none => simp
    | some d₁ =>
      cases h₂ : d₁.store? (slotAddr (slotCount d₁)) (leBytes 2
          (u16 (freeSpaceOffset d - bytes.length + 1)) ++ leBytes 2 bytes.length) <;> simp
  · rfl

/-- A byte that is in none of the ranges is as it was. -/
theorem insertTupleLogged_frame {r : Option ℕ} {d' : PageData} {ws : List Slot}
    (h : insertTupleLogged d bytes = some (r, d', ws)) {a : ℕ}
    (ha : ∀ w ∈ ws, a < w.offset ∨ w.offset + w.length ≤ a) : d'.byte a = d.byte a := by
  unfold insertTupleLogged at h
  split_ifs at h
  · obtain ⟨d₁, h₁, h⟩ := Option.bind_eq_some_iff.mp h
    obtain ⟨d₂, h₂, h⟩ := Option.bind_eq_some_iff.mp h
    obtain ⟨-, rfl⟩ := Block.store?_eq_some.mp h₁
    obtain ⟨-, rfl⟩ := Block.store?_eq_some.mp h₂
    cases h
    simp only [List.forall_mem_cons, List.not_mem_nil, false_implies, implies_true,
      and_true] at ha
    obtain ⟨htuple, hentry, hcount, hfree⟩ := ha
    unfold Block.set16
    rw [Block.byte_store_of_outside _ (by simpa using hfree),
      Block.byte_store_of_outside _ (by simpa using hcount),
      Block.byte_store_of_outside _ (by simpa using hentry), Block.byte_store_of_outside _ htuple]
  · cases h
    rfl

/-- `(free_space_offset + 1) - (8 + 4 * slot_count)` in unbounded integers. -/
def freeBytes (d : PageData) : ℕ := freeSpaceOffset d + 1 - (8 + 4 * slotCount d)

/-- The tuple is stored exactly if it fits with its slot, inside the page and without touching
slots or live tuples; otherwise the page stays. -/
structure InsertChecked (d : PageData) (bytes : List UInt8) : Prop where
  fits : bytes.length + 4 ≤ freeBytes d → ∃ d' ws,
    insertTupleLogged d bytes = some (some (slotCount d), d', ws) ∧
    ∀ w ∈ ws, w.offset + w.length ≤ 4096 ∧
      (∀ i < slotCount d, w.Apart ⟨slotAddr i, 4⟩) ∧ ∀ i, Live d i → w.Apart (slot d i)
  full : freeBytes d < bytes.length + 4 → insertTuple d bytes = some (none, d)

/-- No live tuple reaches into the last four bytes of the header, the place of the next slot or
the `k` bytes at the end of the free space. -/
def ClearAbove (d : PageData) (k : ℕ) : Prop :=
  ∀ i, Live d i → (slot d i).Apart ⟨4, 4⟩ ∧ (slot d i).Apart ⟨slotAddr (slotCount d), 4⟩ ∧
    (slot d i).Apart ⟨freeSpaceOffset d + 1 - k, k⟩

theorem availableSpace_eq_freeBytes (hroom : 8 + 4 * slotCount d ≤ freeSpaceOffset d + 1)
    (htop : freeSpaceOffset d + 1 ≤ 4096) : availableSpace d = freeBytes d := by
  unfold availableSpace freeBytes
  exact u16_of_nat (by unfold slotAddr; omega) (by omega)

/-- Below the wrap the test is the one in unbounded integers. -/
theorem hasEnoughSpace_narrow (hroom : 8 + 4 * slotCount d ≤ freeSpaceOffset d + 1)
    (htop : freeSpaceOffset d + 1 ≤ 4096) {k : ℕ} (hk : k ≤ 65531) :
    hasEnoughSpace d k = decide (k + 4 ≤ freeBytes d) := by
  have hu : u16 (k + 4) = k + 4 := u16_of_nat (by push_cast; rfl) (by omega)
  rw [hasEnoughSpace, hu, availableSpace_eq_freeBytes hroom htop]

/-- From 65532 on the required space starts again at 0. -/
theorem hasEnoughSpace_wrapped (hroom : 8 + 4 * slotCount d ≤ freeSpaceOffset d + 1)
    (htop : freeSpaceOffset d + 1 ≤ 4096) {k : ℕ} (hlo : 65532 ≤ k) (hhi : k ≤ 65535) :
    hasEnoughSpace d k = decide (k - 65532 ≤ freeBytes d) := by
  have hu : u16 (k + 4) = k - 65532 := by
    unfold u16
    omega
  rw [hasEnoughSpace, hu, availableSpace_eq_freeBytes hroom htop]

/-- What `InsertTuple` writes where the tuple fits. -/
theorem insertTupleLogged_of_fits (hroom : 8 + 4 * slotCount d ≤ freeSpaceOffset d + 1)
    (htop : freeSpaceOffset d + 1 ≤ 4096) (hfit : bytes.length + 4 ≤ freeBytes d) :
    ∃ d', insertTupleLogged d bytes = some (some (slotCount d), d',
      [⟨freeSpaceOffset d + 1 - bytes.length, bytes.length⟩, ⟨slotAddr (slotCount d), 4⟩,
        ⟨6, 2⟩, ⟨4, 2⟩]) := by
  unfold freeBytes at hfit
  obtain ⟨off, hoff⟩ : ∃ off, off + bytes.length = freeSpaceOffset d + 1 :=
    ⟨freeSpaceOffset d + 1 - bytes.length, by omega⟩
  have hsub : freeSpaceOffset d + 1 - bytes.length = off := by omega
  have hu : u16 (freeSpaceOffset d - bytes.length + 1) = off := u16_of_nat (by omega) (by omega)
  have henough : hasEnoughSpace d bytes.length = true := by
    rw [hasEnoughSpace_narrow hroom htop (by omega), decide_eq_true_iff]
    unfold freeBytes
    omega
  have haddr : slotAddr (slotCount d) = 8 + 4 * slotCount d := by unfold slotAddr; omega
  have hlen : (leBytes 2 off ++ leBytes 2 bytes.length).length = 4 := by simp
  have hc₁ : slotCount (d.store off bytes) = slotCount d := slotCount_store d (by omega)
  have h₁ : d.store? off bytes = some (d.store off bytes) :=
    Block.store?_eq_some.mpr ⟨by omega, rfl⟩
  have h₂ : (d.store off bytes).store? (slotAddr (slotCount d))
      (leBytes 2 off ++ leBytes 2 bytes.length) = some ((d.store off bytes).store
        (slotAddr (slotCount d)) (leBytes 2 off ++ leBytes 2 bytes.length)) :=
    Block.store?_eq_some.mpr ⟨by omega, rfl⟩
  have hc₂ : slotCount ((d.store off bytes).store (slotAddr (slotCount d))
      (leBytes 2 off ++ leBytes 2 bytes.length)) = slotCount d := by
    rw [slotCount_store _ (by omega), hc₁]
  unfold insertTupleLogged
  simp only [henough, if_true, hu, h₁, hc₁, h₂, hc₂, hsub, Option.bind_eq_bind, Option.bind_some,
    Option.pure_def]
  exact ⟨_, rfl⟩

/-- The ranges are apart from all live tuples exactly if these keep clear of them. -/
theorem clearAbove_iff {k : ℕ} : ClearAbove d k ↔
    ∀ w ∈ [⟨freeSpaceOffset d + 1 - k, k⟩, ⟨slotAddr (slotCount d), 4⟩, ⟨6, 2⟩, (⟨4, 2⟩ : Slot)],
      ∀ i, Live d i → w.Apart (slot d i) := by
  simp only [List.forall_mem_cons, List.not_mem_nil, false_implies, implies_true, and_true]
  constructor
  · intro h
    refine ⟨fun i hi => (h i hi).2.2.symm, fun i hi => (h i hi).2.1.symm, fun i hi => ?_,
      fun i hi => ?_⟩
    · have hheader := (h i hi).1
      unfold Slot.Apart at hheader ⊢
      simp only at hheader ⊢
      omega
    · have hheader := (h i hi).1
      unfold Slot.Apart at hheader ⊢
      simp only at hheader ⊢
      omega
  · rintro ⟨htuple, hentry, hcount, hfree⟩ i hi
    refine ⟨?_, (hentry i hi).symm, (htuple i hi).symm⟩
    have hpos := hi.2
    have hc := hcount i hi
    have hf := hfree i hi
    unfold Slot.Apart at hc hf ⊢
    simp only at hc hf ⊢
    omega

/-- On a page in use the live tuples keep clear of the free space. -/
theorem Formatted.clearAbove {p : ℤ} (hf : Formatted p d) {k : ℕ} (hk : k + 4 ≤ freeBytes d) :
    ClearAbove d k := by
  intro i hi
  have hin := (hf.inside i hi).1
  have hroom := hf.room
  unfold freeBytes at hk
  refine ⟨.inr ?_, .inr ?_, .inr ?_⟩
  · simp only
    omega
  · simp only [slotAddr]
    omega
  · simp only
    omega

/-- Where the test wraps and passes, the copy leaves the page. -/
theorem InsertChecked.not_wrapped (hroom : 8 + 4 * slotCount d ≤ freeSpaceOffset d + 1)
    (htop : freeSpaceOffset d + 1 ≤ 4096) (hle : bytes.length ≤ 65535)
    (h : InsertChecked d bytes) :
    bytes.length ≤ 65531 ∨ freeBytes d < bytes.length - 65532 := by
  by_contra hwrap
  have hfree : freeBytes d < bytes.length + 4 := by
    unfold freeBytes
    omega
  have henough : hasEnoughSpace d bytes.length = true := by
    rw [hasEnoughSpace_wrapped hroom htop (by omega) hle, decide_eq_true_iff]
    omega
  have hnone := insertTuple_wide (by omega) henough
  rw [h.full hfree] at hnone
  cases hnone

/-- `InsertTuple` checks the size as it should exactly if the size plus that of a slot fits 16
bits, or wraps to more than there is; and what fits is stored harmlessly exactly if the live
tuples leave the free space to it. -/
theorem insertChecked_iff (hroom : 8 + 4 * slotCount d ≤ freeSpaceOffset d + 1)
    (htop : freeSpaceOffset d + 1 ≤ 4096) (h0 : 0 < bytes.length) (hle : bytes.length ≤ 65535) :
    InsertChecked d bytes ↔
      (bytes.length ≤ 65531 ∨ freeBytes d < bytes.length - 65532) ∧
      (bytes.length + 4 ≤ freeBytes d → ClearAbove d bytes.length) := by
  constructor
  · intro h
    refine ⟨h.not_wrapped hroom htop hle, fun hfit => ?_⟩
    obtain ⟨d', ws, he, hws⟩ := h.fits hfit
    obtain ⟨d₁, he₁⟩ := insertTupleLogged_of_fits hroom htop hfit
    rw [he] at he₁
    cases he₁
    rw [clearAbove_iff]
    exact fun w hw => (hws w hw).2.2
  · rintro ⟨hwrap, hclear⟩
    constructor
    · intro hfit
      obtain ⟨d', he⟩ := insertTupleLogged_of_fits hroom htop hfit
      refine ⟨d', _, he, fun w hw => ⟨?_, fun i hi => ?_, clearAbove_iff.mp (hclear hfit) w hw⟩⟩
      · unfold freeBytes at hfit
        simp only [List.mem_cons, List.not_mem_nil, or_false] at hw
        rcases hw with rfl | rfl | rfl | rfl <;> simp only [slotAddr] <;> omega
      · unfold freeBytes at hfit
        simp only [List.mem_cons, List.not_mem_nil, or_false] at hw
        unfold Slot.Apart
        rcases hw with rfl | rfl | rfl | rfl <;> simp only [slotAddr] <;> omega
    · intro hfull
      apply insertTuple_full
      rcases Nat.lt_or_ge 65531 bytes.length with hwide | hnarrow
      · rw [hasEnoughSpace_wrapped hroom htop hwide hle, decide_eq_false_iff_not]
        omega
      · rw [hasEnoughSpace_narrow hroom htop hnarrow, decide_eq_false_iff_not]
        omega

/-- A page that has taken a tuple takes one more. -/
theorem second_tuple_checked : ∃ d,
    insertTuple (initializePage zeroPage 0) [1, 2] = some (some 0, d) ∧ Live d 0 ∧
    InsertChecked d [7] := by
  have hf := initializePage_formatted (p := 0) le_rfl (by decide) zeroPage
  have hc := slotCount_initializePage zeroPage 0
  have hfree := freeSpaceOffset_initializePage zeroPage 0
  have hroom : 8 + 4 * slotCount (initializePage zeroPage 0) + 4 + [1, 2].length ≤
      freeSpaceOffset (initializePage zeroPage 0) + 1 := by
    rw [hc, hfree]
    decide
  have hinsert : ∃ d, insertTuple (initializePage zeroPage 0) [1, 2] =
      some (some (slotCount (initializePage zeroPage 0)), d) ∧
      Appends (initializePage zeroPage 0) [1, 2] d := hf.insertTuple hroom
  obtain ⟨d, he, ha⟩ := hinsert
  have hd := ha.formatted hf hroom
  have hcount := ha.count
  have hnew := ha.new
  rw [hc] at he hcount hnew
  refine ⟨d, he, ⟨by omega, by rw [hnew]; exact Nat.two_pos⟩, ?_⟩
  apply (insertChecked_iff hd.room hd.top (by decide) (by decide)).mpr
  exact ⟨.inl (by decide), hd.clearAbove⟩

/-- The size test lets 65532 bytes into an empty page, and the copy leaves the page. -/
theorem wide_tuple_let_in :
    ¬ InsertChecked (initializePage zeroPage 0) (List.replicate 65532 7) := by
  have hc := slotCount_initializePage zeroPage 0
  have hf := freeSpaceOffset_initializePage zeroPage 0
  have hlen := List.length_replicate (n := 65532) (a := (7 : UInt8))
  generalize List.replicate 65532 (7 : UInt8) = bytes at hlen
  intro h
  have hwrap := h.not_wrapped (by omega) (by omega) (by omega)
  unfold freeBytes at hwrap
  omega

end PragmaticDB
