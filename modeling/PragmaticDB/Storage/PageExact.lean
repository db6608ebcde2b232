import PragmaticDB.Storage.PageRecords

/-!
The work on a page once more, with every conversion to `uint16_t` checked instead of wrapped.
On a formatted page it is the work the code does: no conversion loses anything.
-/
namespace PragmaticDB
open ByteBlock PageDataManager

/-- A conversion to `uint16_t`, undefined where the value does not fit. -/
def u16? (x : ℤ) : Option ℕ := if 0 ≤ x ∧ x < 65536 then some x.toNat else none

theorem u16?_of_nat {x : ℤ} {k : ℕ} (h : x = k) (hk : k < 65536) : u16? x = some (u16 x) := by
  unfold u16? u16
  rw [if_pos (by omega)]
  congr 1
  omega

namespace PageDataManager

def availableSpace? (d : PageData) : Option ℕ :=
  u16? ((freeSpaceOffset d + 1 : ℤ) - slotAddr (slotCount d))

def hasEnoughSpace? (d : PageData) (tupleSize : ℕ) : Option Bool := do
  let required ← u16? (tupleSize + 4)
  let available ← availableSpace? d
  return required ≤ available

def insertTuple? (d : PageData) (tuple : List UInt8) : Option (Option ℕ × PageData) := do
  let ok ← hasEnoughSpace? d tuple.length
  if ok then do
    let newFreeSpaceOffset ← u16? (freeSpaceOffset d - tuple.length + 1)
    let d ← d.store? newFreeSpaceOffset tuple
    let d ← d.store? (slotAddr (slotCount d))
      (leBytes 2 newFreeSpaceOffset ++ leBytes 2 tuple.length)
    let slotId := slotCount d
    let d := d.set16 6 (← u16? (slotId + 1))
    let d := d.set16 4 (← u16? (newFreeSpaceOffset - 1))
    return (some slotId, d)
  else return (none, d)

def compactFrom? : ℕ → ℕ → ℤ → PageData → Option (ℤ × PageData)
  | 0, _, _, _ => none
  | fuel + 1, i, writePtr, d =>
    if i < slotCount d then do
      let s ← slot? d i
      if s.length = 0 then compactFrom? fuel (i + 1) writePtr d
      else
        let newOffset := writePtr - s.length + 1
        let d ← memmove d newOffset s.offset s.length
        let offset ← u16? newOffset
        compactFrom? fuel (i + 1) (newOffset - 1) (d.set16 (slotAddr i) offset)
    else some (writePtr, d)

def compactOnePage? (d : PageData) : Option PageData := do
  let (writePtr, d) ← compactFrom? 65536 0 4095 d
  return d.set16 4 (← u16? writePtr)

end PageDataManager

def insertVisit? (bytes : List UInt8) (d : PageData) : Option (Visit (Option ℕ)) := do
  let ok ← hasEnoughSpace? d bytes.length
  if ok then do
    let (slotId, d) ← insertTuple? d bytes
    some ⟨slotId, d, slotId.isSome⟩
  else some ⟨none, d, false⟩

def compactVisit? (bytes : List UInt8) (d : PageData) : Option (Visit (Option ℕ)) := do
  let d ← compactOnePage? d
  let ok ← hasEnoughSpace? d bytes.length
  if ok then do
    let (slotId, d) ← insertTuple? d bytes
    some ⟨slotId, d, slotId.isSome⟩
  else some ⟨none, d, true⟩

def updateVisit? (slotId : ℕ) (bytes : List UInt8) (d : PageData) : Option (Visit Bool) :=
  if slotCount d ≤ slotId then some ⟨false, d, false⟩
  else do
    let s ← slot? d slotId
    if s.length = 0 then some ⟨false, d, false⟩
    else if bytes.length ≤ s.length then do
      let d ← d.store? s.offset bytes
      some ⟨true, d.set16 (slotAddr slotId + 2) bytes.length, true⟩
    else do
      let available ← availableSpace? d
      if available < bytes.length then some ⟨false, d, false⟩
      else do
        let newOffset ← u16? (freeSpaceOffset d - bytes.length + 1)
        let d ← d.store? newOffset bytes
        let d := d.set16 (slotAddr slotId) newOffset
        let d := d.set16 (slotAddr slotId + 2) bytes.length
        some ⟨true, d.set16 4 (← u16? (newOffset - 1)), true⟩

variable {p : ℤ} {d : PageData} {bytes : List UInt8}

theorem Formatted.availableSpace?_eq (hf : Formatted p d) :
    availableSpace? d = some (availableSpace d) := by
  have h1 := hf.room
  have h2 := hf.top
  exact u16?_of_nat (show _ = ((freeSpaceOffset d + 1 - (8 + 4 * slotCount d) : ℕ) : ℤ) by
    unfold slotAddr; omega) (by omega)

theorem Formatted.hasEnoughSpace?_eq (hf : Formatted p d) {k : ℕ} (hk : k < 65532) :
    hasEnoughSpace? d k = some (hasEnoughSpace d k) := by
  have hu : u16? (k + 4) = some (u16 (k + 4)) :=
    u16?_of_nat (show _ = ((k + 4 : ℕ) : ℤ) by push_cast; rfl) (by omega)
  simp [hasEnoughSpace?, hu, hf.availableSpace?_eq, hasEnoughSpace]

theorem Formatted.insertTuple?_eq (hf : Formatted p d) (hlt : bytes.length < 65532) :
    insertTuple? d bytes = PageDataManager.insertTuple d bytes := by
  unfold insertTuple? PageDataManager.insertTuple
  simp only [hf.hasEnoughSpace?_eq hlt, Option.bind_eq_bind, Option.bind_some]
  split_ifs with hr
  · have htop := hf.top
    have hroom := (hf.hasEnoughSpace_iff hlt).mp hr
    obtain ⟨off, hoff⟩ : ∃ off, off + bytes.length = freeSpaceOffset d + 1 :=
      ⟨freeSpaceOffset d + 1 - bytes.length, by omega⟩
    have hu : u16 (freeSpaceOffset d - bytes.length + 1) = off :=
      u16_of_nat (by omega) (by omega)
    have hu? : u16? (freeSpaceOffset d - bytes.length + 1) = some off := by
      rw [u16?_of_nat (show _ = (off : ℤ) by omega) (by omega), hu]
    have hlast : u16? ((off : ℤ) - 1) = some (u16 ((off : ℤ) - 1)) :=
      u16?_of_nat (show _ = ((off - 1 : ℕ) : ℤ) by omega) (by omega)
    have hcount : ∀ d₁ : PageData, slotCount d₁ < 65535 →
        u16? ((slotCount d₁ : ℤ) + 1) = some (u16 ((slotCount d₁ : ℤ) + 1)) :=
      fun d₁ hd => u16?_of_nat (show _ = ((slotCount d₁ + 1 : ℕ) : ℤ) by push_cast; rfl) (by omega)
    simp only [hu, hu?, Option.bind_some]
    apply Option.bind_congr
    intro d₁ hd₁
    obtain ⟨-, rfl⟩ := Block.store?_eq_some.mp hd₁
    apply Option.bind_congr
    intro d₂ hd₂
    obtain ⟨-, rfl⟩ := Block.store?_eq_some.mp hd₂
    have hsame : slotCount ((d.store off bytes).store (slotAddr (slotCount (d.store off bytes)))
        (leBytes 2 off ++ leBytes 2 bytes.length)) = slotCount d := by
      rw [slotCount_store _ (by unfold slotAddr; omega), slotCount_store _ (by omega)]
    rw [hcount _ (by omega), hlast]
    rfl
  · rfl

/-- The loop of `CompactOnePage` sets each offset and the write pointer without loss. -/
theorem Formatted.compactFrom?_eq (hf : Formatted p d) {fuel i : ℕ} {w : ℤ} {m : PageData}
    (hi : i ≤ slotCount d) (h : Compacting d i w m) :
    compactFrom? fuel i w m = PageDataManager.compactFrom fuel i w m := by
  have hall := hf.lengthBefore_le
  have hroom := hf.room
  induction fuel generalizing i w m with
  | zero => rfl
  | succ fuel ih =>
    rcases hi.lt_or_eq with hlt | rfl
    · have hs : slot? m i = some (slot d i) := by
        unfold slot?
        rw [if_pos (hf.slotAddr_le hlt), h.later i le_rfl hlt]
      rcases Nat.eq_zero_or_pos (slot d i).length with h0 | hpos
      · simp [compactFrom?, PageDataManager.compactFrom, h.count, hlt, hs, h0, ih hlt (h.skip h0)]
      · obtain ⟨m₁, hm, hc₁⟩ := h.move hf ⟨hlt, hpos⟩
        have hptr := h.ptr
        have hsum := lengthBefore_succ d i
        have hle := lengthBefore_mono d (show i + 1 ≤ slotCount d from hlt)
        have hu : u16? (w - (slot d i).length + 1) = some (u16 (w - (slot d i).length + 1)) :=
          u16?_of_nat (show _ = ((4096 - lengthBefore d (i + 1) : ℕ) : ℤ) by omega) (by omega)
        simp only [compactFrom?, PageDataManager.compactFrom, h.count, hlt, if_true, hs,
          Option.bind_eq_bind, Option.bind_some, if_neg hpos.ne', hm, hu]
        exact ih hlt hc₁
    · simp [compactFrom?, PageDataManager.compactFrom, h.count]

theorem Formatted.compactOnePage?_eq (hf : Formatted p d) :
    compactOnePage? d = PageDataManager.compactOnePage d := by
  have hall := hf.lengthBefore_le
  have hroom := hf.room
  have hc := Block.get16_lt d 6
  obtain ⟨w, m, he, hm⟩ := hf.compactFrom (Nat.zero_le _)
    (show slotCount d - 0 < 65536 by unfold slotCount; omega) (Compacting.start d)
  have hptr := hm.ptr
  have hu : u16? w = some (u16 w) :=
    u16?_of_nat (show _ = ((4095 - lengthBefore d (slotCount d) : ℕ) : ℤ) by omega) (by omega)
  unfold compactOnePage? PageDataManager.compactOnePage
  rw [hf.compactFrom?_eq (Nat.zero_le _) (Compacting.start d), he]
  simp [hu]

theorem Formatted.insertVisit?_eq (hf : Formatted p d) (hlt : bytes.length < 65532) :
    insertVisit? bytes d = PragmaticDB.insertVisit bytes d := by
  simp only [insertVisit?, PragmaticDB.insertVisit, hf.hasEnoughSpace?_eq hlt,
    hf.insertTuple?_eq hlt, Option.bind_eq_bind, Option.bind_some]

theorem Formatted.compactVisit?_eq (hf : Formatted p d) (hlt : bytes.length < 65532) :
    compactVisit? bytes d = PragmaticDB.compactVisit bytes d := by
  obtain ⟨d₁, hc, hcd⟩ := hf.compactOnePage
  have hf₁ := hcd.formatted hf
  have hc? : compactOnePage? d = some d₁ := hf.compactOnePage?_eq.trans hc
  unfold compactVisit? PragmaticDB.compactVisit
  rw [hc?, hc, Option.bind_eq_bind, Option.bind_some, Option.bind_eq_bind, Option.bind_some,
    hf₁.hasEnoughSpace?_eq hlt, hf₁.insertTuple?_eq hlt, Option.bind_eq_bind, Option.bind_some]

theorem Formatted.updateVisit?_eq (hf : Formatted p d) (i : ℕ) :
    updateVisit? i bytes d = PragmaticDB.updateVisit i bytes d := by
  unfold updateVisit? PragmaticDB.updateVisit
  rcases Nat.lt_or_ge i (slotCount d) with hi | hi
  · rw [if_neg (not_le.mpr hi), if_neg (not_le.mpr hi)]
    apply Option.bind_congr
    intro s hs
    simp only [hf.availableSpace?_eq, Option.bind_eq_bind, Option.bind_some]
    split_ifs with h0 hle hfull
    · rfl
    · rfl
    · rfl
    · have htop := hf.top
      have hroom := hf.room
      rw [hf.availableSpace_eq] at hfull
      obtain ⟨off, hoff⟩ : ∃ off, off + bytes.length = freeSpaceOffset d + 1 :=
        ⟨freeSpaceOffset d + 1 - bytes.length, by omega⟩
      have hu : u16 (freeSpaceOffset d - bytes.length + 1) = off :=
        u16_of_nat (by omega) (by omega)
      have hu? : u16? (freeSpaceOffset d - bytes.length + 1) = some off := by
        rw [u16?_of_nat (show _ = (off : ℤ) by omega) (by omega), hu]
      have hlast : u16? ((off : ℤ) - 1) = some (u16 ((off : ℤ) - 1)) :=
        u16?_of_nat (show _ = ((off - 1 : ℕ) : ℤ) by omega) (by omega)
      simp only [hu, hu?, hlast, Option.bind_some]
  · rw [if_pos hi, if_pos hi]

end PragmaticDB
