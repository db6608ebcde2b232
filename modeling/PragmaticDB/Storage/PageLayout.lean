import PragmaticDB.Storage.Page

/-!
The layout of a page in use: directory, free space and live tuples in this order, with no
two live tuples overlapping. What the operations on one page do to it.
-/
namespace PragmaticDB
open ByteBlock PageDataManager

/-! Writes seen field by field. -/

theorem pageId_store (d : PageData) {a : ℕ} {bs : List UInt8} (h : 4 ≤ a) :
    pageId (d.store a bs) = pageId d := by
  unfold pageId
  rw [Block.load_store_of_disjoint d (by omega)]

theorem pageId_set16 (d : PageData) {a v : ℕ} (h : 4 ≤ a) :
    pageId (d.set16 a v) = pageId d := pageId_store d h

theorem freeSpaceOffset_store (d : PageData) {a : ℕ} {bs : List UInt8} (h : 6 ≤ a) :
    freeSpaceOffset (d.store a bs) = freeSpaceOffset d :=
  Block.get16_store_of_disjoint d (by omega)

theorem freeSpaceOffset_set16 (d : PageData) {a v : ℕ} (h : 6 ≤ a) :
    freeSpaceOffset (d.set16 a v) = freeSpaceOffset d := freeSpaceOffset_store d h

@[simp] theorem freeSpaceOffset_set (d : PageData) {v : ℕ} (h : v < 65536) :
    freeSpaceOffset (d.set16 4 v) = v := Block.get16_set16 d (by norm_num) h

theorem slotCount_store (d : PageData) {a : ℕ} {bs : List UInt8} (h : 8 ≤ a) :
    slotCount (d.store a bs) = slotCount d := Block.get16_store_of_disjoint d (by omega)

theorem slotCount_set16 (d : PageData) {a v : ℕ} (h : a + 2 ≤ 6 ∨ 8 ≤ a) :
    slotCount (d.set16 a v) = slotCount d := Block.get16_set16_of_disjoint d (by omega)

@[simp] theorem slotCount_set (d : PageData) {v : ℕ} (h : v < 65536) :
    slotCount (d.set16 6 v) = v := Block.get16_set16 d (by norm_num) h

theorem slot_store (d : PageData) {a i : ℕ} {bs : List UInt8}
    (h : slotAddr i + 4 ≤ a ∨ a + bs.length ≤ slotAddr i) : slot (d.store a bs) i = slot d i := by
  unfold slot
  rw [Block.get16_store_of_disjoint d (by omega), Block.get16_store_of_disjoint d (by omega)]

theorem slot_set16 (d : PageData) {a v i : ℕ} (h : slotAddr i + 4 ≤ a ∨ a + 2 ≤ slotAddr i) :
    slot (d.set16 a v) i = slot d i := slot_store d (by simpa using h)

theorem slot_set_length (d : PageData) {i v : ℕ} (hi : slotAddr i + 4 ≤ 4096)
    (hv : v < 65536) : slot (d.set16 (slotAddr i + 2) v) i = ⟨(slot d i).offset, v⟩ := by
  unfold slot
  rw [Block.get16_set16_of_disjoint d (by omega), Block.get16_set16 d (by omega) hv]

theorem slot_set_offset (d : PageData) {i v : ℕ} (hi : slotAddr i + 4 ≤ 4096)
    (hv : v < 65536) : slot (d.set16 (slotAddr i) v) i = ⟨v, (slot d i).length⟩ := by
  unfold slot
  rw [Block.get16_set16 d (by omega) hv, Block.get16_set16_of_disjoint d (by omega)]

/-- The slot written as a whole at the end of the directory. -/
theorem slot_store_self (d : PageData) {i o l : ℕ} (hi : slotAddr i + 4 ≤ 4096)
    (ho : o < 65536) (hl : l < 65536) :
    slot (d.store (slotAddr i) (leBytes 2 o ++ leBytes 2 l)) i = ⟨o, l⟩ := by
  have hlen : (leBytes 2 o ++ leBytes 2 l).length = 4 := by simp
  have hin : slotAddr i + (leBytes 2 o ++ leBytes 2 l).length ≤ 4096 := by omega
  have h0 : 0 + 2 ≤ (leBytes 2 o ++ leBytes 2 l).length := by omega
  have h2 : 2 + 2 ≤ (leBytes 2 o ++ leBytes 2 l).length := by omega
  have hlow := Block.load_store_part d h0 hin
  have hhigh := Block.load_store_part d h2 hin
  rw [List.drop_zero, List.take_left' (leBytes_length 2 o), Nat.add_zero] at hlow
  rw [List.drop_left' (leBytes_length 2 o), List.take_of_length_le (by simp)] at hhigh
  unfold slot Block.get16
  rw [hlow, hhigh, leNat_leBytes, leNat_leBytes]
  congr 1 <;> omega

/-! The layout. -/

/-- A slot that holds a tuple. -/
def Live (d : PageData) (i : ℕ) : Prop := i < slotCount d ∧ 0 < (slot d i).length

instance (d : PageData) (i : ℕ) : Decidable (Live d i) :=
  inferInstanceAs (Decidable (i < slotCount d ∧ 0 < (slot d i).length))

def tuple (d : PageData) (i : ℕ) : List UInt8 := d.load (slot d i).offset (slot d i).length

/-- The two ranges have no byte in common. -/
def Slot.Apart (s t : Slot) : Prop :=
  s.offset + s.length ≤ t.offset ∨ t.offset + t.length ≤ s.offset

theorem Slot.Apart.symm {s t : Slot} (h : s.Apart t) : t.Apart s := Or.symm h

/-- Page `p` in use. -/
structure Formatted (p : ℤ) (d : PageData) : Prop where
  id : pageId d = p
  room : 8 + 4 * slotCount d ≤ freeSpaceOffset d + 1
  top : freeSpaceOffset d + 1 ≤ 4096
  inside : ∀ i, Live d i → freeSpaceOffset d + 1 ≤ (slot d i).offset ∧
    (slot d i).offset + (slot d i).length ≤ 4096
  apart : ∀ i j, Live d i → Live d j → i ≠ j → (slot d i).Apart (slot d j)

variable {p : ℤ} {d d' : PageData}

theorem Formatted.slotAddr_le (hf : Formatted p d) {i : ℕ} (hi : i < slotCount d) :
    slotAddr i + 4 ≤ 4096 := by
  have h1 := hf.room
  have h2 := hf.top
  unfold slotAddr
  omega

theorem Formatted.slot?_eq (hf : Formatted p d) {i : ℕ} (hi : i < slotCount d) :
    slot? d i = some (slot d i) := by
  unfold slot?
  rw [if_pos (hf.slotAddr_le hi)]

theorem Formatted.availableSpace_eq (hf : Formatted p d) :
    availableSpace d = freeSpaceOffset d + 1 - (8 + 4 * slotCount d) := by
  have h1 := hf.room
  have h2 := hf.top
  exact u16_of_nat (by unfold slotAddr; omega) (by omega)

theorem Formatted.hasEnoughSpace_iff (hf : Formatted p d) {k : ℕ} (hk : k < 65532) :
    hasEnoughSpace d k = true ↔ 8 + 4 * slotCount d + 4 + k ≤ freeSpaceOffset d + 1 := by
  have h1 := hf.room
  have hu : u16 (k + 4) = k + 4 := u16_of_nat (by push_cast; rfl) (by omega)
  rw [hasEnoughSpace, decide_eq_true_iff, hu, hf.availableSpace_eq]
  omega

theorem pageId_initializePage (h0 : 0 ≤ p) (h1 : p < 2147483648) (d : PageData) :
    pageId (initializePage d p) = p := by
  have hin : 0 + (leBytes 4 (p % 4294967296).toNat).length ≤ 4096 := by
    rw [leBytes_length]
    norm_num
  have hl := Block.load_store d hin
  rw [leBytes_length] at hl
  unfold initializePage
  rw [pageId_set16 _ (by norm_num), pageId_set16 _ (by norm_num)]
  unfold pageId
  rw [hl, leNat_leBytes, Int.bmod_def]
  omega

theorem slotCount_initializePage (d : PageData) (p : ℤ) :
    slotCount (initializePage d p) = 0 := slotCount_set _ (by norm_num)

theorem freeSpaceOffset_initializePage (d : PageData) (p : ℤ) :
    freeSpaceOffset (initializePage d p) = 4095 := by
  unfold initializePage
  rw [freeSpaceOffset_set16 _ (le_refl 6), freeSpaceOffset_set _ (by norm_num)]

theorem not_live_initializePage (d : PageData) (p : ℤ) (i : ℕ) :
    ¬ Live (initializePage d p) i := by
  intro hi
  have hlt := hi.1
  rw [slotCount_initializePage] at hlt
  exact Nat.not_lt_zero i hlt

theorem Formatted.initialized (d : PageData) (p : ℤ) {q : ℤ}
    (hq : pageId (initializePage d p) = q) : Formatted q (initializePage d p) := by
  constructor
  · exact hq
  · rw [slotCount_initializePage, freeSpaceOffset_initializePage]
    norm_num
  · rw [freeSpaceOffset_initializePage]
  · exact fun i hi => absurd hi (not_live_initializePage d p i)
  · exact fun i j hi => absurd hi (not_live_initializePage d p i)

theorem initializePage_formatted (h0 : 0 ≤ p) (h1 : p < 2147483648) (d : PageData) :
    Formatted p (initializePage d p) := .initialized d p (pageId_initializePage h0 h1 d)

/-- `InsertTuple` where it succeeds: one more slot, and its tuple right below the others. -/
structure Appends (d : PageData) (bytes : List UInt8) (d' : PageData) : Prop where
  id : pageId d' = pageId d
  count : slotCount d' = slotCount d + 1
  free : freeSpaceOffset d' + bytes.length = freeSpaceOffset d
  old : ∀ i < slotCount d, slot d' i = slot d i
  new : slot d' (slotCount d) = ⟨freeSpaceOffset d' + 1, bytes.length⟩
  kept : ∀ a k, freeSpaceOffset d < a → d'.load a k = d.load a k
  stored : tuple d' (slotCount d) = bytes

theorem Formatted.insertTuple (hf : Formatted p d) {bytes : List UInt8}
    (hroom : 8 + 4 * slotCount d + 4 + bytes.length ≤ freeSpaceOffset d + 1) :
    ∃ d', insertTuple d bytes = some (some (slotCount d), d') ∧ Appends d bytes d' := by
  have htop := hf.top
  obtain ⟨off, hoff⟩ : ∃ off, off + bytes.length = freeSpaceOffset d + 1 :=
    ⟨freeSpaceOffset d + 1 - bytes.length, by omega⟩
  have hu : u16 (freeSpaceOffset d - bytes.length + 1) = off :=
    u16_of_nat (by omega) (by omega)
  have hlen : (leBytes 2 off ++ leBytes 2 bytes.length).length = 4 := by simp
  have henough : hasEnoughSpace d bytes.length = true :=
    (hf.hasEnoughSpace_iff (by omega)).mpr hroom
  have haddr : slotAddr (slotCount d) = 8 + 4 * slotCount d := by unfold slotAddr; omega
  -- the tuple, then the slot, then the two header fields
  set d₁ := d.store off bytes with hd₁
  have hc₁ : slotCount d₁ = slotCount d := slotCount_store d (by omega)
  set d₂ := d₁.store (slotAddr (slotCount d)) (leBytes 2 off ++ leBytes 2 bytes.length) with hd₂
  have hc₂ : slotCount d₂ = slotCount d := by
    rw [hd₂, slotCount_store _ (by omega), hc₁]
  refine ⟨(d₂.set16 6 (slotCount d + 1)).set16 4 (off - 1), ?_, ?_⟩
  · have h₁ : d.store? off bytes = some d₁ := Block.store?_eq_some.mpr ⟨by omega, rfl⟩
    have h₂ : d₁.store? (slotAddr (slotCount d)) (leBytes 2 off ++ leBytes 2 bytes.length) =
        some d₂ := Block.store?_eq_some.mpr ⟨by omega, rfl⟩
    have hu₁ : u16 ((slotCount d : ℤ) + 1) = slotCount d + 1 :=
      u16_of_nat (by push_cast; rfl) (by omega)
    have hu₂ : u16 ((off : ℤ) - 1) = off - 1 := u16_of_nat (by omega) (by omega)
    simp only [PageDataManager.insertTuple, henough, if_true, hu, h₁, hc₁, h₂, hc₂, hu₁, hu₂,
      Option.bind_eq_bind, Option.bind_some, Option.pure_def]
  · have hfree : freeSpaceOffset ((d₂.set16 6 (slotCount d + 1)).set16 4 (off - 1)) = off - 1 :=
      freeSpaceOffset_set _ (by omega)
    have hslot : slot ((d₂.set16 6 (slotCount d + 1)).set16 4 (off - 1)) (slotCount d) =
        ⟨off, bytes.length⟩ := by
      rw [slot_set16 _ (by omega), slot_set16 _ (by omega), hd₂,
        slot_store_self _ (by omega) (by omega) (by omega)]
    constructor
    · rw [pageId_set16 _ (le_refl 4), pageId_set16 _ (by norm_num), hd₂,
        pageId_store _ (by omega), hd₁, pageId_store _ (by omega)]
    · rw [slotCount_set16 _ (by omega), slotCount_set _ (by omega)]
    · rw [hfree]
      omega
    · intro i hi
      have hi' : slotAddr i + 4 ≤ slotAddr (slotCount d) := by unfold slotAddr; omega
      rw [slot_set16 _ (by unfold slotAddr; omega), slot_set16 _ (by unfold slotAddr; omega), hd₂,
        slot_store _ (.inl hi'), hd₁, slot_store _ (by omega)]
    · rw [hslot, hfree]
      congr 1
      omega
    · intro a k ha
      rw [Block.load_set16_of_disjoint _ (by omega), Block.load_set16_of_disjoint _ (by omega),
        hd₂, Block.load_store_of_disjoint _ (by omega), hd₁,
        Block.load_store_of_disjoint _ (by omega)]
    · rw [tuple, hslot, Block.load_set16_of_disjoint _ (by simp only; omega),
        Block.load_set16_of_disjoint _ (by simp only; omega), hd₂,
        Block.load_store_of_disjoint _ (by simp only; omega)]
      exact Block.load_store d (by omega)

theorem insertTuple_full {bytes : List UInt8} (h : hasEnoughSpace d bytes.length = false) :
    insertTuple d bytes = some (none, d) := by
  simp [PageDataManager.insertTuple, h]

theorem Appends.live_old {bytes : List UInt8} (h : Appends d bytes d') {i : ℕ}
    (hi : i < slotCount d) : Live d' i ↔ Live d i := by
  unfold Live
  rw [h.count, h.old i hi]
  omega

/-- A live slot of the new page is an old one or the last. -/
theorem Appends.live_cases {bytes : List UInt8} (h : Appends d bytes d') {i : ℕ}
    (hi : Live d' i) : Live d i ∨ i = slotCount d := by
  have hlt := hi.1
  rw [h.count] at hlt
  rcases Nat.lt_succ_iff_lt_or_eq.mp hlt with hlt | heq
  · exact .inl ((h.live_old hlt).mp hi)
  · exact .inr heq

theorem Appends.formatted {bytes : List UInt8} (hf : Formatted p d)
    (hroom : 8 + 4 * slotCount d + 4 + bytes.length ≤ freeSpaceOffset d + 1)
    (h : Appends d bytes d') : Formatted p d' := by
  have hfree := h.free
  have htop := hf.top
  have hnew : ∀ i, Live d i → (slot d' i).Apart (slot d' (slotCount d)) := fun i hi => by
    have hin := (hf.inside i hi).1
    rw [h.old i hi.1, h.new]
    exact .inr (by simp only; omega)
  constructor
  · rw [h.id, hf.id]
  · rw [h.count]
    omega
  · omega
  · intro i hi
    rcases h.live_cases hi with hi | rfl
    · have hin := hf.inside i hi
      rw [h.old i hi.1]
      omega
    · rw [h.new]
      simp only
      omega
  · intro i j hi hj hij
    rcases h.live_cases hi with hi | rfl
    · rcases h.live_cases hj with hj | rfl
      · rw [h.old i hi.1, h.old j hj.1]
        exact hf.apart i j hi hj hij
      · exact hnew i hi
    · rcases h.live_cases hj with hj | rfl
      · exact (hnew j hj).symm
      · exact absurd rfl hij

end PragmaticDB
