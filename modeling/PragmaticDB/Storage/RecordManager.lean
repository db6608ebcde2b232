import PragmaticDB.Storage.BufferPool
import PragmaticDB.Storage.Page

/-!
Records of one table in the pages of its file. Every call fetches a page, works on its bytes
and unpins it on each way out, so a call is described by what it does on the page and with
which `is_dirty` it leaves.
-/
namespace PragmaticDB
open ByteBlock PageDataManager

structure RecordId where
  pageId : ℤ
  slotId : ℕ
  deriving DecidableEq

/-- `RecordId{INVALID_PAGE_ID, 0}`. -/
def invalidRecordId : RecordId := ⟨invalidPageId, 0⟩

/-- `kDefaultPoolSize` is 10. -/
structure RecordManager where
  pool : BufferPoolManager 10
  pageIds : List ℤ

/-- The end of work on a fetched page: the answer, the bytes and the `is_dirty` of the unpin. -/
structure Visit (α : Type) where
  answer : α
  data : PageData
  dirty : Bool

/-! The work on a page, call by call. -/

/-- A slot that is out of range or of length 0 has no tuple. -/
def getVisit (slotId : ℕ) (d : PageData) : Option (Visit (Option (List UInt8))) :=
  if slotCount d ≤ slotId then some ⟨none, d, false⟩
  else do
    let s ← slot? d slotId
    if s.length = 0 then some ⟨none, d, false⟩
    else do
      let bytes ← getTuple d slotId
      some ⟨bytes, d, false⟩

def deleteVisit (slotId : ℕ) (d : PageData) : Option (Visit Bool) := do
  let (ok, d) ← deleteTuple d slotId
  some ⟨ok, d, ok⟩

def slotCountVisit (d : PageData) : Option (Visit ℕ) := some ⟨slotCount d, d, false⟩

/-- A tuple that got no longer is rewritten in place, a longer one moves to the free space. -/
def updateVisit (slotId : ℕ) (bytes : List UInt8) (d : PageData) : Option (Visit Bool) :=
  if slotCount d ≤ slotId then some ⟨false, d, false⟩
  else do
    let s ← slot? d slotId
    if s.length = 0 then some ⟨false, d, false⟩
    else if bytes.length ≤ s.length then do
      let d ← d.store? s.offset bytes
      some ⟨true, d.set16 (slotAddr slotId + 2) bytes.length, true⟩
    else if availableSpace d < bytes.length then some ⟨false, d, false⟩
    else do
      let newOffset := u16 (freeSpaceOffset d - bytes.length + 1)
      let d ← d.store? newOffset bytes
      let d := d.set16 (slotAddr slotId) newOffset
      let d := d.set16 (slotAddr slotId + 2) bytes.length
      some ⟨true, d.set16 4 (u16 (newOffset - 1)), true⟩

/-- The body of the first loop of `Insert`. -/
def insertVisit (bytes : List UInt8) (d : PageData) : Option (Visit (Option ℕ)) :=
  if hasEnoughSpace d bytes.length then do
    let (slotId, d) ← insertTuple d bytes
    some ⟨slotId, d, slotId.isSome⟩
  else some ⟨none, d, false⟩

/-- The body of the second loop of `Insert`. -/
def compactVisit (bytes : List UInt8) (d : PageData) : Option (Visit (Option ℕ)) := do
  let d ← compactOnePage d
  if hasEnoughSpace d bytes.length then do
    let (slotId, d) ← insertTuple d bytes
    some ⟨slotId, d, slotId.isSome⟩
  else some ⟨none, d, true⟩

namespace RecordManager

def new (dm : DiskManager) : RecordManager := ⟨BufferPoolManager.new 10 dm, []⟩

/-- `FetchPage`, work on the page, `UnpinPage`; `absent` where the fetch gives no page. -/
def visit {α : Type} (rm : RecordManager) (p : ℤ) (absent : α)
    (act : PageData → Option (Visit α)) : Option (α × RecordManager) :=
  match rm.pool.fetchPage p with
  | (none, pool) => some (absent, { rm with pool })
  | (some f, pool) => do
    let v ← act (pool.pages f).data
    some (v.answer, { rm with pool := ((pool.setData f v.data).unpinPage p v.dirty).2 })

def get (rm : RecordManager) (rid : RecordId) : Option (Option (List UInt8) × RecordManager) :=
  if rid.pageId = invalidPageId then some (none, rm)
  else rm.visit rid.pageId none (getVisit rid.slotId)

def delete (rm : RecordManager) (rid : RecordId) : Option (Bool × RecordManager) :=
  if rid.pageId = invalidPageId then some (false, rm)
  else rm.visit rid.pageId false (deleteVisit rid.slotId)

/-- An empty list of bytes is the call with size 0 or a null pointer. -/
def update (rm : RecordManager) (rid : RecordId) (bytes : List UInt8) :
    Option (Bool × RecordManager) :=
  if rid.pageId = invalidPageId ∨ bytes.length = 0 ∨ 65535 < bytes.length then some (false, rm)
  else rm.visit rid.pageId false (updateVisit rid.slotId bytes)

def getSlotCount (rm : RecordManager) (p : ℤ) : Option (ℕ × RecordManager) :=
  rm.visit p 0 slotCountVisit

/-- One loop of `Insert` over the pages of the table, up to the first page that took the tuple. -/
def tryPages (act : PageData → Option (Visit (Option ℕ))) :
    List ℤ → RecordManager → Option (Option RecordId × RecordManager)
  | [], rm => some (none, rm)
  | p :: ps, rm => do
    let (slotId, rm) ← rm.visit p none act
    match slotId with
    | some i => some (some ⟨p, i⟩, rm)
    | none => tryPages act ps rm

/-- The end of `Insert`: a page more. -/
def insertNew (rm : RecordManager) (bytes : List UInt8) : Option (RecordId × RecordManager) :=
  match rm.pool.newPage with
  | (none, pool) => some (invalidRecordId, { rm with pool })
  | (some (p, f), pool) => do
    let (slotId, d) ← insertTuple (initializePage (pool.pages f).data p) bytes
    let pool := ((pool.setData f d).unpinPage p slotId.isSome).2
    match slotId with
    | some i => some (⟨p, i⟩, ⟨pool, rm.pageIds ++ [p]⟩)
    | none => some (invalidRecordId, { rm with pool })

def insert (rm : RecordManager) (bytes : List UInt8) : Option (RecordId × RecordManager) :=
  if bytes.length = 0 ∨ 65535 < bytes.length then some (invalidRecordId, rm)
  else do
    let (rid, rm) ← tryPages (insertVisit bytes) rm.pageIds rm
    match rid with
    | some rid => some (rid, rm)
    | none => do
      let (rid, rm) ← tryPages (compactVisit bytes) rm.pageIds rm
      match rid with
      | some rid => some (rid, rm)
      | none => rm.insertNew bytes

def flush (rm : RecordManager) : RecordManager := { rm with pool := rm.pool.flushAllPages }

end RecordManager
end PragmaticDB
