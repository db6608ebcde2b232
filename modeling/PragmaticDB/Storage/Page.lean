import PragmaticDB.Storage.Disk

/-!
Slotted pages: the header, the slot directory that grows from the front and the tuples that
grow from the back. Operations work on the bytes of the page, header and slots included, and
read them again after every write. `none` stands for a copy that leaves the page.
-/
namespace PragmaticDB
open ByteBlock

/-- Conversion to `uint16_t`. -/
def u16 (x : ℤ) : ℕ := (x % 65536).toNat

theorem u16_of_nat {x : ℤ} {k : ℕ} (h : x = k) (hk : k < 65536) : u16 x = k := by
  unfold u16
  omega

structure Slot where
  offset : ℕ
  length : ℕ
  deriving DecidableEq

/-! The fields of `PageHeader` and of the slot directory behind it. -/

def pageId (d : PageData) : ℤ := Int.bmod (leNat (d.load 0 4)) 4294967296

def freeSpaceOffset (d : PageData) : ℕ := d.get16 4

def slotCount (d : PageData) : ℕ := d.get16 6

/-- `sizeof(PageHeader) + i * sizeof(Slot)`. -/
def slotAddr (i : ℕ) : ℕ := 8 + i * 4

def slot (d : PageData) (i : ℕ) : Slot := ⟨d.get16 (slotAddr i), d.get16 (slotAddr i + 2)⟩

/-- The slot behind a `Slot*`. -/
def slot? (d : PageData) (i : ℕ) : Option Slot :=
  if slotAddr i + 4 ≤ 4096 then some (slot d i) else none

/-- `(free_space_offset + 1) - (sizeof(PageHeader) + slot_count * sizeof(Slot))`. -/
def availableSpace (d : PageData) : ℕ := u16 ((freeSpaceOffset d + 1 : ℤ) - slotAddr (slotCount d))

namespace PageDataManager

def initializePage (d : PageData) (p : ℤ) : PageData :=
  ((d.store 0 (leBytes 4 (p % 4294967296).toNat)).set16 4 4095).set16 6 0

def hasEnoughSpace (d : PageData) (tupleSize : ℕ) : Bool :=
  u16 (tupleSize + 4) ≤ availableSpace d

/-- Returns the slot of the new tuple, if there was room for it. -/
def insertTuple (d : PageData) (tuple : List UInt8) : Option (Option ℕ × PageData) :=
  if hasEnoughSpace d tuple.length then do
    let newFreeSpaceOffset := u16 (freeSpaceOffset d - tuple.length + 1)
    let d ← d.store? newFreeSpaceOffset tuple
    let d ← d.store? (slotAddr (slotCount d))
      (leBytes 2 newFreeSpaceOffset ++ leBytes 2 tuple.length)
    let slotId := slotCount d
    let d := d.set16 6 (u16 (slotId + 1))
    let d := d.set16 4 (u16 (newFreeSpaceOffset - 1))
    return (some slotId, d)
  else return (none, d)

def getTuple (d : PageData) (slotId : ℕ) : Option (Option (List UInt8)) :=
  if slotCount d ≤ slotId then some none
  else do
    let s ← slot? d slotId
    let bytes ← d.load? s.offset s.length
    return some bytes

def deleteTuple (d : PageData) (slotId : ℕ) : Option (Bool × PageData) :=
  if slotCount d ≤ slotId then some (false, d)
  else do
    let _ ← slot? d slotId
    return (true, d.set16 (slotAddr slotId + 2) 0)

/-- `std::memmove` to an address that may have become negative. -/
def memmove (d : PageData) (dst : ℤ) (src k : ℕ) : Option PageData := do
  let bytes ← d.load? src k
  if dst < 0 then none else d.store? dst.toNat bytes

/-- The loop of `CompactOnePage` from slot `i` on, with the place it writes to next. A slot
id has 16 bits, so there are at most `65536` turns. -/
def compactFrom : ℕ → ℕ → ℤ → PageData → Option (ℤ × PageData)
  | 0, _, _, _ => none
  | fuel + 1, i, writePtr, d =>
    if i < slotCount d then do
      let s ← slot? d i
      if s.length = 0 then compactFrom fuel (i + 1) writePtr d
      else
        let newOffset := writePtr - s.length + 1
        let d ← memmove d newOffset s.offset s.length
        compactFrom fuel (i + 1) (newOffset - 1) (d.set16 (slotAddr i) (u16 newOffset))
    else some (writePtr, d)

def compactOnePage (d : PageData) : Option PageData := do
  let (writePtr, d) ← compactFrom 65536 0 4095 d
  return d.set16 4 (u16 writePtr)

end PageDataManager
end PragmaticDB
