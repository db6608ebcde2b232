import PragmaticDB.Query.Parser
import PragmaticDB.Lib.AssocList

/-!
The executor on a database: the catalog in memory with its open tables, and the files behind
it. An exception no handler takes leaves `Execute`; `none` is undefined behaviour.
-/
namespace PragmaticDB
open ByteStream

structure QueryResult where
  success : Bool
  message : List UInt8
  rows : List (List (List UInt8))
  deriving DecidableEq

/-- What happens to one `SaveCatalog` below the code. -/
inductive SaveOutcome where
  | ok
  | dirThrows (what : List UInt8)
  | openFails
  | stopsAfter (k : ℕ)
  deriving DecidableEq

/-- `saves` lists what happens to the next saves; past its end all of them succeed. -/
structure Database where
  catalog : Catalog
  catalogDb : Option (List UInt8)
  tableFiles : TableFiles
  saves : List SaveOutcome

namespace Catalog

/-- The entry `GetTable(table_oid)` points to. -/
def getTableByOid (c : Catalog) (oid : ℕ) : Except Exn (ℕ × TableInfo) :=
  match c.tables.lookup oid with
  | some info => .ok (oid, info)
  | none => .error (.runtimeError
      (str "Error: Table with OID " ++ decimal oid ++ str " not found in catalog."))

def getTable (c : Catalog) (name : List UInt8) : Except Exn (ℕ × TableInfo) :=
  match c.tableNames.lookup name with
  | some oid => c.getTableByOid oid
  | none => .error (.runtimeError
      (str "Error: Table '" ++ name ++ str "' not found in catalog."))

/-- The table manager of one entry in a new state. -/
def setTable (c : Catalog) (oid : ℕ) (t : TableManager) : Catalog :=
  let change k (info : TableInfo) := if k = oid then { info with table := t } else info
  { c with tables := AssocList.mapVal change c.tables }

/-- `Flush` of every table. -/
def flushTables (c : Catalog) : Catalog :=
  let change _ (info : TableInfo) := { info with table := info.table.flush }
  { c with tables := AssocList.mapVal change c.tables }

end Catalog

namespace Database

def empty : Database := ⟨Catalog.empty, none, fun _ => none, []⟩

/-- The file of table `oid` as it is now. -/
def fileOf (db : Database) (oid : ℕ) : Option File :=
  match db.catalog.tables.lookup oid with
  | some info => info.table.recordManager.pool.diskManager.file
  | none => db.tableFiles oid

def setTable (db : Database) (oid : ℕ) (t : TableManager) : Database :=
  { db with catalog := db.catalog.setTable oid t }

/-- `SaveCatalog`: the old content is gone once the file is open. -/
def saveCatalog (db : Database) : Except Exn Unit × Database :=
  let bytes := db.catalog.saveCatalog
  match db.saves with
  | [] => (.ok (), { db with catalogDb := some bytes })
  | .ok :: saves => (.ok (), { db with catalogDb := some bytes, saves })
  | .dirThrows what :: saves => (.error (.filesystemError what), { db with saves })
  | .openFails :: saves => (.ok (), { db with saves })
  | .stopsAfter k :: saves => (.ok (), { db with catalogDb := some (bytes.take k), saves })

theorem saveCatalog_catalog (db : Database) : db.saveCatalog.2.catalog = db.catalog := by
  unfold saveCatalog
  split <;> rfl

def createTable (db : Database) (name : List UInt8) (schema : Schema) :
    Except Exn Unit × Database :=
  match db.catalog.tableNames.lookup name with
  | some _ => (.error (.runtimeError
      (str "Error: Table '" ++ name ++ str "' already exists in catalog.")), db)
  | none =>
    let oid := db.catalog.nextTableOid
    let info : TableInfo := ⟨schema, name, openTable db.fileOf oid, oid⟩
    let catalog := { db.catalog with nextTableOid := (oid + 1) % 4294967296 }
    saveCatalog { db with catalog := catalog.register info }

/-- The end of the process and the start of the next one: `LoadCatalog` on a fresh catalog. -/
def restart (db : Database) : Database where
  catalog :=
    match db.catalogDb with
    | none => Catalog.empty
    | some bytes => ((Catalog.loadCatalog db.fileOf Catalog.empty).run (.ofBytes bytes)).1
  catalogDb := db.catalogDb
  tableFiles := db.fileOf
  saves := db.saves

end Database

namespace Executor

/-- What a statement comes to, with the state after it. -/
abbrev Answer (σ : Type) := Option (Except Exn QueryResult × σ)

/-- `catch (const std::runtime_error& e)`. -/
def handleError : Except Exn QueryResult → Except Exn QueryResult
  | .ok r => .ok r
  | .error e =>
    match e.caught with
    | some what => .ok ⟨false, what, []⟩
    | none => .error e

def handle {σ : Type} (x : Option (Except Exn QueryResult × σ)) : Answer σ :=
  x.map fun y => (handleError y.1, y.2)

def executeCommit (db : Database) : Answer Database :=
  let count := db.catalog.tables.entries.length
  let (r, db) := { db with catalog := db.catalog.flushTables }.saveCatalog
  some (r.map fun _ =>
    ⟨true, str "COMMIT: " ++ decimal count ++ str " table(s) flushed to disk.", []⟩, db)

def executeCreate (db : Database) (name : List UInt8) (columns : List Column) : Answer Database :=
  let (r, db) := db.createTable name (Schema.new columns)
  handle (some (r.map fun _ => ⟨true, str "Table '" ++ name ++ str "' created.", []⟩, db))

/-- Conversion of a `size_t` to `int`, as the bound of a loop from 0 on. -/
def loopBound (size : ℕ) : ℕ := (Int.bmod size 4294967296).toNat

/-- The loop over the raw values from column `i` on. -/
def fromStrings (s : Schema) : ℕ → List (List UInt8) → Outcome (List Value)
  | _, [] => return []
  | i, raw :: raws => do
    let col ← defined s.columns[i]?
    let v ← raised (ValueFactory.fromString raw col.typeId)
    let vs ← fromStrings s (i + 1) raws
    return v :: vs

/-- The tuple an `INSERT` makes of its raw values. -/
def rowTuple (s : Schema) (rawValues : List (List UInt8)) : Outcome (List UInt8) := do
  let values ← fromStrings s 0 (rawValues.take (loopBound rawValues.length))
  Tuple.new values s

def executeInsert (db : Database) (name : List UInt8) (rawValues : List (List UInt8)) :
    Answer Database :=
  handle <|
    match db.catalog.getTable name with
    | .error e => some (.error e, db)
    | .ok (oid, info) => do
      let tuple ← (rowTuple info.schema rawValues).run
      match tuple with
      | .error e => some (.error e, db)
      | .ok tuple => do
        let (_, t) ← info.table.insertTuple tuple
        some (.ok ⟨true, str "1 row inserted.", []⟩, db.setTable oid t)

/-- The text of column `i` in a row. -/
def cellText (s : Schema) (bytes : List UInt8) (i : ℕ) : Outcome (List UInt8) := do
  let val ← defined (Tuple.getValue bytes s i)
  let col ← defined s.columns[i]?
  raised (ValueFactory.toString val col.typeId)

/-- The texts of `k` columns from `i` on; the row is read again for each of them. -/
def readCells (s : Schema) (it : TableIterator) :
    ℕ → ℕ → RecordManager → Option (Except Exn (List (List UInt8)) × RecordManager)
  | 0, _, rm => some (.ok [], rm)
  | k + 1, i, rm => do
    let (bytes, rm) ← it.deref rm
    let text ← (cellText s bytes i).run
    match text with
    | .error e => some (.error e, rm)
    | .ok text => do
      let (texts, rm) ← readCells s it k (i + 1) rm
      some (texts.map (text :: ·), rm)

/-- `GetColumnCount`. -/
def columnCount (s : Schema) : ℕ := s.columns.length % 4294967296

def executeSelect (db : Database) (name : List UInt8) : Answer Database :=
  handle <|
    match db.catalog.getTable name with
    | .error e => some (.error e, db)
    | .ok (oid, info) => do
      let (rows, t) ← TableManager.scan
        (fun it rm => readCells info.schema it (columnCount info.schema) 0 rm) info.table
      some (rows.map fun rows => ⟨true, decimal rows.length ++ str " rows returned.", rows⟩,
        db.setTable oid t)

/-- The index of the first column of that name. -/
def findColumn (s : Schema) (name : List UInt8) : Option ℕ :=
  (s.columns.take (columnCount s)).findIdx? fun col => col.name = name

/-- The body of the loop that collects the rows to delete; `col` is the column of the `WHERE`. -/
def matchRow (s : Schema) (col : Option ℕ) (value : List UInt8) (it : TableIterator)
    (rm : RecordManager) : Option (Except Exn (Option RecordId) × RecordManager) :=
  match col with
  | none => some (.ok (some it.rid), rm)
  | some i => do
    let (bytes, rm) ← it.deref rm
    let text ← (cellText s bytes i).run
    some (text.map fun text => if text = value then some it.rid else none, rm)

/-- The loop over the collected rows. What `DeleteTuple` returns is not looked at. -/
def deleteTuples : List RecordId → TableManager → Option TableManager
  | [], t => some t
  | rid :: rids, t => do
    let (_, t) ← t.deleteTuple rid
    deleteTuples rids t

def executeDelete (db : Database) (name whereColumn whereValue : List UInt8) : Answer Database :=
  handle <|
    match db.catalog.getTable name with
    | .error e => some (.error e, db)
    | .ok (oid, info) =>
      let col := findColumn info.schema whereColumn
      if whereColumn ≠ [] ∧ col = none then
        some (.ok ⟨false, str "Error: Column '" ++ whereColumn ++ str "' not found.", []⟩, db)
      else do
        let (found, t) ← TableManager.scan
          (matchRow info.schema (if whereColumn = [] then none else col) whereValue) info.table
        match found with
        | .error e => some (.error e, db.setTable oid t)
        | .ok found => do
          let toDelete := found.filterMap id
          let t ← deleteTuples toDelete t
          some (.ok ⟨true, decimal toDelete.length ++ str " row(s) deleted.", []⟩,
            db.setTable oid t)

def execute (db : Database) : Statement → Answer Database
  | .createTable name columns => executeCreate db name columns
  | .insert name rawValues => executeInsert db name rawValues
  | .select name => executeSelect db name
  | .commit => executeCommit db
  | .delete name whereColumn whereValue => executeDelete db name whereColumn whereValue

end Executor
end PragmaticDB
