import PragmaticDB.Storage.Disk
import PragmaticDB.Lib.HandleList

/-!
The buffer pool manager, operation by operation. A `Page*` is the frame it points into; a
null pointer is `none`. `lru` is `lru_list_` together with its index `lru_pos_`.
-/
namespace PragmaticDB
open ByteBlock

structure Page where
  pageId : ℤ := invalidPageId
  pinCount : ℕ := 0
  isDirty : Bool := false
  data : PageData := zeroPage

/-- A pool of `n` frames. -/
structure BufferPoolManager (n : ℕ) where
  diskManager : DiskManager
  pages : Fin n → Page
  pageTable : AList (fun _ : ℤ => Fin n)
  freeList : List (Fin n)
  lru : HandleList (Fin n)
  nextPageId : ℤ

namespace BufferPoolManager
variable {n : ℕ}

def new (n : ℕ) (dm : DiskManager) : BufferPoolManager n where
  diskManager := dm
  pages _ := {}
  pageTable := ∅
  freeList := List.finRange n
  lru := HandleList.empty
  nextPageId := 0

def setPage (b : BufferPoolManager n) (f : Fin n) (page : Page) : BufferPoolManager n :=
  { b with pages := Function.update b.pages f page }

/-- A write through the pointer to frame `f`. -/
def setData (b : BufferPoolManager n) (f : Fin n) (data : PageData) : BufferPoolManager n :=
  b.setPage f { b.pages f with data }

def getFreeFrameOrVictim (b : BufferPoolManager n) : Option (Fin n × BufferPoolManager n) :=
  match b.freeList with
  | [] =>
    match b.lru.popFront with
    | none => none
    | some (f, lru) => some (f, { b with lru })
  | f :: freeList => some (f, { b with freeList })

def pinFrame (b : BufferPoolManager n) (f : Fin n) : BufferPoolManager n :=
  { b with lru := b.lru.erase f }

def unpinFrame (b : BufferPoolManager n) (f : Fin n) : BufferPoolManager n :=
  { b with lru := b.lru.pushBack f }

/-- The write-back of a dirty victim and the end of its mapping. -/
def evict (b : BufferPoolManager n) (f : Fin n) : BufferPoolManager n :=
  let old := b.pages f
  if old.pageId = invalidPageId then b
  else
    { b with
      diskManager :=
        if old.isDirty then b.diskManager.writePage old.pageId old.data else b.diskManager
      pageTable := b.pageTable.erase old.pageId }

/-- What `FetchPage` and `NewPage` both do to the frame they obtained. -/
def takeOver (b : BufferPoolManager n) (f : Fin n) (p : ℤ) : BufferPoolManager n :=
  let b := b.evict f
  let b := { b with pageTable := b.pageTable.insert p f }
  (b.setPage f { b.pages f with pageId := p, pinCount := 1, isDirty := false }).pinFrame f

def fetchPage (b : BufferPoolManager n) (p : ℤ) : Option (Fin n) × BufferPoolManager n :=
  match b.pageTable.lookup p with
  | some f =>
    (some f, (b.setPage f { b.pages f with pinCount := (b.pages f).pinCount + 1 }).pinFrame f)
  | none =>
    match b.getFreeFrameOrVictim with
    | none => (none, b)
    | some (f, b) =>
      let b := b.takeOver f p
      (some f, b.setData f (b.diskManager.readPage p (b.pages f).data))

/-- Returns the new id with the frame. -/
def newPage (b : BufferPoolManager n) : Option (ℤ × Fin n) × BufferPoolManager n :=
  match b.getFreeFrameOrVictim with
  | none => (none, b)
  | some (f, b) =>
    let p := b.nextPageId
    let b := { b with nextPageId := p + 1 }.takeOver f p
    (some (p, f), b.setData f zeroPage)

def unpinPage (b : BufferPoolManager n) (p : ℤ) (isDirty : Bool) :
    Bool × BufferPoolManager n :=
  match b.pageTable.lookup p with
  | none => (false, b)
  | some f =>
    let page := b.pages f
    if page.pinCount = 0 then (false, b)
    else
      (true, (b.setPage f { page with
        isDirty := page.isDirty || isDirty
        pinCount := page.pinCount - 1 }).unpinFrame f)

def flushPage (b : BufferPoolManager n) (p : ℤ) : Bool × BufferPoolManager n :=
  match b.pageTable.lookup p with
  | none => (false, b)
  | some f =>
    let page := b.pages f
    if page.isDirty then
      (true, { b with diskManager := b.diskManager.writePage p page.data }.setPage f
        { page with isDirty := false })
    else (true, b)

/-- The page table is walked in its own order. -/
def flushAllPages (b : BufferPoolManager n) : BufferPoolManager n :=
  b.pageTable.keys.foldl (fun b p => (b.flushPage p).2) b

/-- The frame goes on the free list; it is not taken off the LRU list. -/
def deletePage (b : BufferPoolManager n) (p : ℤ) : Bool × BufferPoolManager n :=
  match b.pageTable.lookup p with
  | none => (false, b)
  | some f =>
    let page := b.pages f
    if 0 < page.pinCount then (false, b)
    else
      let dm := if page.isDirty then b.diskManager.writePage p page.data else b.diskManager
      let b := { b with diskManager := dm, pageTable := b.pageTable.erase p }
      let b := b.setPage f { page with
        pageId := invalidPageId, pinCount := 0, isDirty := false }
      (true, { b with freeList := b.freeList ++ [f] })

end BufferPoolManager
end PragmaticDB
