import PragmaticDB.Storage.RecordManager

/-!
A table and the iterator that scans it. The iterator holds a pointer to the table's record
manager, whose state is passed along here. Loops of the source carry fuel and are undefined
where it runs out.
-/
namespace PragmaticDB

structure TableManager where
  recordManager : RecordManager

/-- A position in the scan: the slot, and the index of its page in `page_ids_`. -/
structure TableIterator where
  rid : RecordId
  pageIdx : ℕ

namespace TableIterator

/-- The bytes under the iterator; a failed `Get` gives an empty tuple. -/
def deref (it : TableIterator) (rm : RecordManager) : Option (List UInt8 × RecordManager) := do
  let (bytes, rm) ← rm.get it.rid
  some (bytes.getD [], rm)

/-- The inner loop of `operator++`, with `k` slots of the page left. -/
def findSlot : ℕ → RecordId → RecordManager → Option (Option RecordId × RecordManager)
  | 0, _, rm => some (none, rm)
  | k + 1, rid, rm => do
    let (bytes, rm) ← rm.get rid
    match bytes with
    | some _ => some (some rid, rm)
    | none => findSlot k ⟨rid.pageId, rid.slotId + 1⟩ rm

/-- The outer loop of `operator++`. -/
def advance : ℕ → TableIterator → RecordManager → Option (TableIterator × RecordManager)
  | 0, _, _ => none
  | fuel + 1, it, rm => do
    let (slotCount, rm) ← rm.getSlotCount it.rid.pageId
    let (found, rm) ← findSlot (slotCount - it.rid.slotId) it.rid rm
    match found with
    | some rid => some (⟨rid, it.pageIdx⟩, rm)
    | none =>
      match rm.pageIds[it.pageIdx + 1]? with
      | none => some (⟨invalidRecordId, it.pageIdx + 1⟩, rm)
      | some p => advance fuel ⟨⟨p, 0⟩, it.pageIdx + 1⟩ rm

/-- `operator++`; `slot_id` is a `uint16_t`. -/
def next (it : TableIterator) (rm : RecordManager) : Option (TableIterator × RecordManager) :=
  advance (rm.pageIds.length + 1)
    ⟨⟨it.rid.pageId, (it.rid.slotId + 1) % 65536⟩, it.pageIdx⟩ rm

end TableIterator

namespace TableManager

def new (dm : DiskManager) : TableManager := ⟨RecordManager.new dm⟩

def getPageIds (t : TableManager) : List ℤ := t.recordManager.pageIds

def getNextPageId (t : TableManager) : ℤ := t.recordManager.pool.nextPageId

def insertTuple (t : TableManager) (tuple : List UInt8) : Option (RecordId × TableManager) := do
  let (rid, rm) ← t.recordManager.insert tuple
  some (rid, ⟨rm⟩)

def deleteTuple (t : TableManager) (rid : RecordId) : Option (Bool × TableManager) := do
  let (ok, rm) ← t.recordManager.delete rid
  some (ok, ⟨rm⟩)

/-- A row that is not there is an empty tuple. -/
def getTuple (t : TableManager) (rid : RecordId) : Option (List UInt8 × TableManager) := do
  let (bytes, rm) ← t.recordManager.get rid
  some (bytes.getD [], ⟨rm⟩)

def flush (t : TableManager) : TableManager := ⟨t.recordManager.flush⟩

/-- `Begin`, as a step of the record manager. `End` is the iterator at the invalid id. -/
def begin (rm : RecordManager) : Option (TableIterator × RecordManager) :=
  match rm.pageIds with
  | [] => some (⟨invalidRecordId, 0⟩, rm)
  | p :: _ => do
    let it : TableIterator := ⟨⟨p, 0⟩, 0⟩
    let (bytes, rm) ← rm.get it.rid
    match bytes with
    | some _ => some (it, rm)
    | none => it.next rm

/-- The rest of `for (it = Begin(); it != End(); ++it)`. The body gives a row or throws. -/
def scanFrom {ε β : Type} (body : TableIterator → RecordManager →
      Option (Except ε β × RecordManager)) :
    ℕ → TableIterator → RecordManager → Option (Except ε (List β) × RecordManager)
  | 0, _, _ => none
  | fuel + 1, it, rm =>
    if it.rid = invalidRecordId then some (.ok [], rm)
    else do
      let (row, rm) ← body it rm
      match row with
      | .error e => some (.error e, rm)
      | .ok row => do
        let (it, rm) ← it.next rm
        let (rows, rm) ← scanFrom body fuel it rm
        some (rows.map (row :: ·), rm)

/-- A page has less than `65536` slots. -/
def scan {ε β : Type} (body : TableIterator → RecordManager →
    Option (Except ε β × RecordManager)) (t : TableManager) :
    Option (Except ε (List β) × TableManager) := do
  let (it, rm) ← begin t.recordManager
  let (rows, rm) ← scanFrom body (t.getPageIds.length * 65536 + 1) it rm
  some (rows, ⟨rm⟩)

end TableManager
end PragmaticDB
