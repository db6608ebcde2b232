import PragmaticDB.Catalog.Schema
import PragmaticDB.Lib.ByteStream
import PragmaticDB.Table.TableManager
import Mathlib.Data.List.AList

/-!
The catalog and its file. Both maps of the source are unordered; the lists here keep one
order of many, and it is the order in which the tables are written and flushed.
-/
namespace PragmaticDB
open ByteBlock ByteStream

/-- `std::to_string` of an unsigned number. -/
def decimal (n : ℕ) : List UInt8 := (Nat.toDigits 10 n).map fun c => c.toNat.toUInt8

structure TableInfo where
  schema : Schema
  name : List UInt8
  table : TableManager
  oid : ℕ

/-- Object ids are `uint32_t`. -/
structure Catalog where
  tables : AList fun _ : ℕ => TableInfo
  tableNames : AList fun _ : List UInt8 => ℕ
  nextTableOid : ℕ

/-- The files of the tables that are not open, by object id. -/
abbrev TableFiles := ℕ → Option File

/-- A new table manager on the file of table `oid`. -/
def openTable (files : TableFiles) (oid : ℕ) : TableManager :=
  TableManager.new ⟨str "data/table_" ++ decimal oid ++ str ".db", files oid, []⟩

/-- `SetPageIds` and `SetNextPageId`. -/
def TableManager.restore (t : TableManager) (ids : List ℤ) (next : ℤ) : TableManager :=
  ⟨{ pool := { t.recordManager.pool with nextPageId := next }, pageIds := ids }⟩

namespace Catalog

def empty : Catalog := ⟨∅, ∅, 0⟩

/-! `SaveCatalog`, field by field. Counts and lengths are stored in 32 bits. -/

def writeString (s : List UInt8) : List UInt8 :=
  leBytes 4 s.length ++ s.take (s.length % 4294967296)

def writeInt32 (p : ℤ) : List UInt8 := leBytes 4 (p % 4294967296).toNat

def writeColumn (c : Column) : List UInt8 := writeString c.name ++ leBytes 4 c.typeId.toRaw

def writeTable (x : Sigma fun _ : ℕ => TableInfo) : List UInt8 :=
  leBytes 4 x.1 ++ (writeString x.2.name ++
    (leBytes 4 x.2.schema.columns.length ++ (x.2.schema.columns.flatMap writeColumn ++
      (leBytes 4 x.2.table.getPageIds.length ++ (x.2.table.getPageIds.flatMap writeInt32 ++
        writeInt32 x.2.table.getNextPageId)))))

/-- The bytes of `catalog.db`. -/
def saveCatalog (c : Catalog) : List UInt8 :=
  leBytes 4 c.nextTableOid ++ (leBytes 4 c.tables.entries.length ++
    c.tables.entries.flatMap writeTable)

/-! `LoadCatalog`. -/

def readString : Reader (List UInt8) := do
  let len ← readNat 4 0
  readBytes (List.replicate len 0)

def readInt32 : Reader ℤ := do
  let raw ← readNat 4 0
  return Int.bmod raw 4294967296

def readColumn : Reader Column := do
  let name ← readString
  let raw ← readNat 4 0
  return ⟨name, TypeId.ofRaw raw⟩

def readTable (files : TableFiles) : Reader TableInfo := do
  let oid ← readNat 4 0
  let name ← readString
  let numCols ← readNat 4 0
  let columns ← readMany readColumn numCols
  let numPages ← readNat 4 0
  let pageIds ← readMany readInt32 numPages
  let next ← readInt32
  return ⟨Schema.new columns, name, (openTable files oid).restore pageIds next, oid⟩

/-- `tables_[oid] = info` and `table_names_[name] = oid`. -/
def register (c : Catalog) (info : TableInfo) : Catalog :=
  { c with tables := c.tables.insert info.oid info
           tableNames := c.tableNames.insert info.name info.oid }

def loadTables (files : TableFiles) : ℕ → Catalog → Reader Catalog
  | 0, c => return c
  | n + 1, c => do
    let info ← readTable files
    loadTables files n (c.register info)

/-- `c` is the catalog the load starts from. -/
def loadCatalog (files : TableFiles) (c : Catalog) : Reader Catalog := do
  let next ← readNat 4 c.nextTableOid
  let numTables ← readNat 4 0
  loadTables files numTables { c with nextTableOid := next }

end Catalog
end PragmaticDB
