import PragmaticDB.Query.Executor
import PragmaticDB.Table.Scan

/-!
The database as the pages of its tables, without pools, files and page faults. The executor
refines it statement by statement, undefined behaviour and exceptions included.
-/
namespace PragmaticDB
open CallMachine Executor

structure HeapTable where
  schema : Schema
  name : List UInt8
  heap : HeapFile

structure HeapDatabase where
  tables : ℕ → Option HeapTable
  names : List UInt8 → Option ℕ
  nextOid : ℕ
  count : ℕ

namespace HeapDatabase

def empty : HeapDatabase := ⟨fun _ => none, fun _ => none, 0, 0⟩

def getTableByOid (a : HeapDatabase) (oid : ℕ) : Except Exn (ℕ × HeapTable) :=
  match a.tables oid with
  | some t => .ok (oid, t)
  | none => .error (.runtimeError
      (str "Error: Table with OID " ++ decimal oid ++ str " not found in catalog."))

def getTable (a : HeapDatabase) (name : List UInt8) : Except Exn (ℕ × HeapTable) :=
  match a.names name with
  | some oid => a.getTableByOid oid
  | none => .error (.runtimeError
      (str "Error: Table '" ++ name ++ str "' not found in catalog."))

def setHeap (a : HeapDatabase) (oid : ℕ) (h : HeapFile) : HeapDatabase :=
  { a with tables := fun k =>
      (a.tables k).map fun t => if k = oid then { t with heap := h } else t }

def createTable (a : HeapDatabase) (name : List UInt8) (schema : Schema) :
    Except Exn Unit × HeapDatabase :=
  match a.names name with
  | some _ => (.error (.runtimeError
      (str "Error: Table '" ++ name ++ str "' already exists in catalog.")), a)
  | none => (.ok (), {
      tables k := if k = a.nextOid then some ⟨schema, name, HeapFile.empty⟩ else a.tables k
      names n := if n = name then some a.nextOid else a.names n
      nextOid := (a.nextOid + 1) % 4294967296
      count := if (a.tables a.nextOid).isSome then a.count else a.count + 1 })

def executeCreate (a : HeapDatabase) (name : List UInt8) (columns : List Column) :
    Answer HeapDatabase :=
  let (r, a) := a.createTable name (Schema.new columns)
  handle (some (r.map fun _ => ⟨true, str "Table '" ++ name ++ str "' created.", []⟩, a))

def executeCommit (a : HeapDatabase) : Answer HeapDatabase :=
  some (.ok ⟨true, str "COMMIT: " ++ decimal a.count ++ str " table(s) flushed to disk.", []⟩, a)

def executeInsert (a : HeapDatabase) (name : List UInt8) (rawValues : List (List UInt8)) :
    Answer HeapDatabase :=
  handle <|
    match a.getTable name with
    | .error e => some (.error e, a)
    | .ok (oid, t) => do
      let tuple ← (rowTuple t.schema rawValues).run
      match tuple with
      | .error e => some (.error e, a)
      | .ok tuple => do
        let (_, h) ← t.heap.insert tuple
        some (.ok ⟨true, str "1 row inserted.", []⟩, a.setHeap oid h)

/-- The texts of a row. -/
def rowTexts (s : Schema) (bytes : List UInt8) : Outcome (List (List UInt8)) :=
  (List.range (columnCount s)).mapM (cellText s bytes)

def executeSelect (a : HeapDatabase) (name : List UInt8) : Answer HeapDatabase :=
  handle <|
    match a.getTable name with
    | .error e => some (.error e, a)
    | .ok (_, t) => do
      let rows ← (t.heap.rows.mapM fun r => rowTexts t.schema r.2).run
      some (rows.map fun rows => ⟨true, decimal rows.length ++ str " rows returned.", rows⟩, a)

/-- The id of a row that is to be deleted. -/
def matchText (s : Schema) (col : Option ℕ) (value : List UInt8) (r : RecordId × List UInt8) :
    Outcome (Option RecordId) :=
  match col with
  | none => return some r.1
  | some i => do
    let text ← cellText s r.2 i
    return if text = value then some r.1 else none

def deleteRows : List RecordId → HeapFile → Option HeapFile
  | [], h => some h
  | rid :: rids, h => do
    let (_, h) ← h.delete rid
    deleteRows rids h

def executeDelete (a : HeapDatabase) (name whereColumn whereValue : List UInt8) :
    Answer HeapDatabase :=
  handle <|
    match a.getTable name with
    | .error e => some (.error e, a)
    | .ok (oid, t) =>
      let col := findColumn t.schema whereColumn
      if whereColumn ≠ [] ∧ col = none then
        some (.ok ⟨false, str "Error: Column '" ++ whereColumn ++ str "' not found.", []⟩, a)
      else do
        let found ← (t.heap.rows.mapM (matchText t.schema
          (if whereColumn = [] then none else col) whereValue)).run
        match found with
        | .error e => some (.error e, a)
        | .ok found => do
          let toDelete := found.filterMap id
          let h ← deleteRows toDelete t.heap
          some (.ok ⟨true, decimal toDelete.length ++ str " row(s) deleted.", []⟩, a.setHeap oid h)

def execute (a : HeapDatabase) : Statement → Answer HeapDatabase
  | .createTable name columns => a.executeCreate name columns
  | .insert name rawValues => a.executeInsert name rawValues
  | .select name => a.executeSelect name
  | .commit => a.executeCommit
  | .delete name whereColumn whereValue => a.executeDelete name whereColumn whereValue

end HeapDatabase
end PragmaticDB
