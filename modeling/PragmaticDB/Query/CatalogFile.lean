import PragmaticDB.Query.CatalogHistory
import PragmaticDB.Query.Restart

/-!
The catalog file between two statements: what it lists, and which statements write it.
-/
namespace PragmaticDB
open Executor

namespace Catalog

/-- The pages of table `oid`. -/
def pagesOf (c : Catalog) (oid : ℕ) : List ℤ :=
  match c.tables.lookup oid with
  | some info => info.table.getPageIds
  | none => []

theorem pagesOf_some {c : Catalog} {oid : ℕ} {info : TableInfo}
    (hl : c.tables.lookup oid = some info) : c.pagesOf oid = info.table.getPageIds := by
  unfold pagesOf
  rw [hl]

theorem pagesOf_none {c : Catalog} {oid : ℕ} (hl : c.tables.lookup oid = none) :
    c.pagesOf oid = [] := by
  unfold pagesOf
  rw [hl]

theorem getTable_lookup {c : Catalog} {name : List UInt8} {oid : ℕ} {info : TableInfo}
    (h : c.getTable name = .ok (oid, info)) :
    c.tableNames.lookup name = some oid ∧ c.tables.lookup oid = some info := by
  unfold getTable at h
  cases hn : c.tableNames.lookup name with
  | none =>
    rw [hn] at h
    cases h
  | some k =>
    rw [hn] at h
    simp only [getTableByOid] at h
    cases hl : c.tables.lookup k with
    | none =>
      rw [hl] at h
      cases h
    | some info' =>
      rw [hl] at h
      cases h
      exact ⟨rfl, hl⟩

end Catalog

namespace Database
variable {db db' : Database} {a : HeapDatabase} {c : Catalog} {stmt : Statement}

/-- The pages that `catalog.db` lists for table `oid`. -/
def listedPages (db : Database) (oid : ℕ) : List ℤ := db.restart.catalog.pagesOf oid

/-- `catalog.db` has the catalog `c`, or there is no such file yet. -/
structure Records (db : Database) (c : Catalog) : Prop where
  consistent : c.Consistent
  fits : c.Fits
  bytes : db.catalogDb = some c.saveCatalog ∨ db.catalogDb = none ∧ c = Catalog.empty

theorem Records.lookup (hc : db.Records c) (oid : ℕ) : db.restart.catalog.tables.lookup oid =
    (c.tables.lookup oid).map fun info => Catalog.reopen db.fileOf (Catalog.listing info) := by
  rcases hc.bytes with hdb | ⟨hdb, rfl⟩
  · rw [restart_catalog hdb hc.consistent hc.fits, hc.consistent.lookup_reloaded]
  · have hcat : db.restart.catalog = Catalog.empty := by
      unfold Database.restart
      simp only [hdb]
    rw [hcat]
    rfl

theorem Records.names (hc : db.Records c) (name : List UInt8) :
    db.restart.catalog.tableNames.lookup name = c.tableNames.lookup name := by
  rcases hc.bytes with hdb | ⟨hdb, rfl⟩
  · rw [restart_catalog hdb hc.consistent hc.fits, hc.consistent.names_reloaded]
  · have hcat : db.restart.catalog = Catalog.empty := by
      unfold Database.restart
      simp only [hdb]
    rw [hcat]

theorem Records.listed (hc : db.Records c) (oid : ℕ) : db.listedPages oid = c.pagesOf oid := by
  unfold listedPages Catalog.pagesOf
  rw [hc.lookup]
  cases c.tables.lookup oid <;> rfl

theorem Records.congr (hc : db.Records c) (hdb : db'.catalogDb = db.catalogDb) :
    db'.Records c := ⟨hc.consistent, hc.fits, hdb ▸ hc.bytes⟩

theorem Kept.records (hk : Kept db a) (hdb : db.catalogDb = some db.catalog.saveCatalog) :
    db.Records db.catalog := ⟨hk.consistent, hk.fits, .inl hdb⟩

theorem empty_records : Database.empty.Records Catalog.empty :=
  ⟨Catalog.empty_historic.consistent, Catalog.empty_historic.fits, .inr ⟨rfl, rfl⟩⟩

theorem Kept.pagesOf (hk : Kept db a) {oid : ℕ} {t : HeapTable} (ht : a.tables oid = some t) :
    db.catalog.pagesOf oid = t.heap.ids := by
  obtain ⟨info, hl, hi⟩ := hk.refines.info ht
  exact (Catalog.pagesOf_some hl).trans hi.heap.ids

theorem Kept.pagesOf_none (hk : Kept db a) {oid : ℕ} (ht : a.tables oid = none) :
    db.catalog.pagesOf oid = [] := by
  apply Catalog.pagesOf_none
  cases hl : db.catalog.tables.lookup oid with
  | none => rfl
  | some info =>
    obtain ⟨t, ht', -⟩ := hk.refines.table hl
    rw [ht] at ht'
    cases ht'

/-- All pages flushed, and the catalog saved. -/
def committed (db : Database) : Database :=
  { db with
    catalog := db.catalog.flushTables
    catalogDb := some db.catalog.flushTables.saveCatalog }

/-- A `CREATE TABLE` with a name that is free. -/
def CreatesTable (db : Database) : Statement → Prop
  | .createTable name _ => db.catalog.tableNames.lookup name = none
  | _ => False

instance (db : Database) (stmt : Statement) : Decidable (db.CreatesTable stmt) :=
  match stmt with
  | .createTable name _ => inferInstanceAs (Decidable (db.catalog.tableNames.lookup name = none))
  | .insert _ _ => isFalse id
  | .select _ => isFalse id
  | .commit => isFalse id
  | .delete _ _ _ => isFalse id

/-- The statements that write the catalog file. -/
def SavesCatalog (db : Database) (stmt : Statement) : Prop := stmt = .commit ∨ db.CreatesTable stmt

/-- What a statement leaves behind when saves succeed: only a new table and a `COMMIT` write
the catalog file. -/
inductive Leaves (db : Database) : Statement → Database → Prop where
  | same {stmt : Statement} (hno : ¬ db.SavesCatalog stmt) : Leaves db stmt db
  | table {stmt : Statement} (hno : ¬ db.SavesCatalog stmt) (oid : ℕ) (t : TableManager) :
      Leaves db stmt (db.setTable oid t)
  | create {name : List UInt8} {columns : List Column}
      (hn : db.catalog.tableNames.lookup name = none) :
      Leaves db (.createTable name columns) (db.createTable name (Schema.new columns)).2
  | commit : Leaves db .commit db.committed

theorem executeInsert_leaves {name : List UInt8} {raws : List (List UInt8)}
    {r : Except Exn QueryResult} (he : executeInsert db name raws = some (r, db')) :
    db.Leaves (.insert name raws) db' := by
  have hno : ¬ db.SavesCatalog (.insert name raws) := by simp [SavesCatalog, CreatesTable]
  obtain ⟨⟨x, db₁⟩, hx, heq⟩ := Option.map_eq_some_iff.mp he
  obtain ⟨-, rfl⟩ := Prod.mk.inj heq
  cases hg : db.catalog.getTable name with
  | error e =>
    rw [hg] at hx
    cases hx
    exact .same hno
  | ok entry =>
    obtain ⟨oid, info⟩ := entry
    rw [hg] at hx
    obtain ⟨tuple, -, hx⟩ := Option.bind_eq_some_iff.mp hx
    cases tuple with
    | error e =>
      cases hx
      exact .same hno
    | ok tuple =>
      obtain ⟨⟨rid, t⟩, -, hx⟩ := Option.bind_eq_some_iff.mp hx
      cases hx
      exact .table hno oid t

theorem executeSelect_leaves {name : List UInt8} {r : Except Exn QueryResult}
    (he : executeSelect db name = some (r, db')) : db.Leaves (.select name) db' := by
  have hno : ¬ db.SavesCatalog (.select name) := by simp [SavesCatalog, CreatesTable]
  obtain ⟨⟨x, db₁⟩, hx, heq⟩ := Option.map_eq_some_iff.mp he
  obtain ⟨-, rfl⟩ := Prod.mk.inj heq
  cases hg : db.catalog.getTable name with
  | error e =>
    rw [hg] at hx
    cases hx
    exact .same hno
  | ok entry =>
    obtain ⟨oid, info⟩ := entry
    rw [hg] at hx
    obtain ⟨⟨rows, t⟩, -, hx⟩ := Option.bind_eq_some_iff.mp hx
    cases hx
    exact .table hno oid t

theorem executeDelete_leaves {name column value : List UInt8} {r : Except Exn QueryResult}
    (he : executeDelete db name column value = some (r, db')) :
    db.Leaves (.delete name column value) db' := by
  have hno : ¬ db.SavesCatalog (.delete name column value) := by simp [SavesCatalog, CreatesTable]
  obtain ⟨⟨x, db₁⟩, hx, heq⟩ := Option.map_eq_some_iff.mp he
  obtain ⟨-, rfl⟩ := Prod.mk.inj heq
  cases hg : db.catalog.getTable name with
  | error e =>
    rw [hg] at hx
    cases hx
    exact .same hno
  | ok entry =>
    obtain ⟨oid, info⟩ := entry
    rw [hg] at hx
    simp only at hx
    split_ifs at hx with hcol
    · cases hx
      exact .same hno
    all_goals
      obtain ⟨⟨found, t⟩, -, hx⟩ := Option.bind_eq_some_iff.mp hx
      cases found with
      | error e =>
        cases hx
        exact .table hno oid t
      | ok found =>
        obtain ⟨t', -, hx⟩ := Option.bind_eq_some_iff.mp hx
        cases hx
        exact .table hno oid t'

theorem executeCreate_leaves {name : List UInt8} {columns : List Column}
    {r : Except Exn QueryResult} (he : executeCreate db name columns = some (r, db')) :
    db.Leaves (.createTable name columns) db' := by
  have hx : some (handleError ((db.createTable name (Schema.new columns)).1.map fun _ =>
      ⟨true, str "Table '" ++ name ++ str "' created.", []⟩),
      (db.createTable name (Schema.new columns)).2) = some (r, db') := he
  cases hx
  cases hn : db.catalog.tableNames.lookup name with
  | none => exact .create hn
  | some oid =>
    have hpair : db.createTable name (Schema.new columns) =
        ((db.createTable name (Schema.new columns)).1,
          (db.createTable name (Schema.new columns)).2) := rfl
    have hno : ¬ db.SavesCatalog (.createTable name columns) := by
      simp [SavesCatalog, CreatesTable, hn]
    rw [Catalog.createTable_duplicate hn hpair]
    exact .same hno

theorem execute_leaves (hs : db.saves = []) {r : Except Exn QueryResult}
    (he : execute db stmt = some (r, db')) : db.Leaves stmt db' := by
  cases stmt with
  | createTable name columns => exact executeCreate_leaves he
  | insert name raws => exact executeInsert_leaves he
  | select name => exact executeSelect_leaves he
  | delete name column value => exact executeDelete_leaves he
  | commit =>
    change executeCommit db = _ at he
    unfold executeCommit saveCatalog at he
    simp only [hs] at he
    cases he
    have hdb : db.committed = { db with
        catalog := db.catalog.flushTables
        catalogDb := some db.catalog.flushTables.saveCatalog
        saves := [] } := by
      rw [← hs]
      rfl
    rw [← hdb]
    exact .commit

/-! A new table and the files. -/

theorem createTable_saved (hs : db.saves = []) {name : List UInt8}
    (hn : db.catalog.tableNames.lookup name = none) (schema : Schema) :
    (db.createTable name schema).1 = .ok () ∧
      (db.createTable name schema).2.catalogDb =
        some (db.createTable name schema).2.catalog.saveCatalog := by
  unfold createTable saveCatalog
  rw [hn]
  simp only [hs]
  trivial

theorem createTable_lookup (hs : db.saves = []) {name : List UInt8}
    (hn : db.catalog.tableNames.lookup name = none) (schema : Schema) (oid : ℕ) :
    (db.createTable name schema).2.catalog.tables.lookup oid =
      if oid = db.catalog.nextTableOid then
        some ⟨schema, name, openTable db.fileOf db.catalog.nextTableOid, db.catalog.nextTableOid⟩
      else db.catalog.tables.lookup oid := by
  have hok : db.createTable name schema = (.ok (), (db.createTable name schema).2) :=
    Prod.ext (createTable_saved hs hn schema).1 rfl
  rw [(Catalog.createTable_ok hok).2, Catalog.lookup_register_tables]

/-- The file of a new table is the one that lies there. -/
theorem createTable_fileOf (hs : db.saves = []) {name : List UInt8}
    (hn : db.catalog.tableNames.lookup name = none) (schema : Schema)
    (hfree : db.catalog.tables.lookup db.catalog.nextTableOid = none) (oid : ℕ) :
    (db.createTable name schema).2.fileOf oid = db.fileOf oid := by
  have hfiles : (db.createTable name schema).2.tableFiles = db.tableFiles := by
    unfold createTable saveCatalog
    rw [hn]
    simp only [hs]
  unfold fileOf
  rw [createTable_lookup hs hn schema, hfiles]
  split_ifs with ho
  · rw [ho, hfree]
    change db.fileOf db.catalog.nextTableOid = _
    unfold fileOf
    rw [hfree]
  · rfl

/-- It has no pages, and the others keep theirs. -/
theorem createTable_pagesOf (hs : db.saves = []) {name : List UInt8}
    (hn : db.catalog.tableNames.lookup name = none) (schema : Schema)
    (hfree : db.catalog.tables.lookup db.catalog.nextTableOid = none) (oid : ℕ) :
    (db.createTable name schema).2.catalog.pagesOf oid = db.catalog.pagesOf oid := by
  unfold Catalog.pagesOf
  rw [createTable_lookup hs hn schema]
  split_ifs with ho
  · rw [ho, hfree]
    rfl
  · rfl

theorem Kept.free (hk : Kept db a) :
    db.catalog.tables.lookup db.catalog.nextTableOid = none := by
  cases hl : db.catalog.tables.lookup db.catalog.nextTableOid with
  | none => rfl
  | some info =>
    obtain ⟨t, ht, -⟩ := hk.refines.table hl
    rw [hk.sized.fresh _ hk.refines.next.ge] at ht
    cases ht

/-- A new table is created, and everything is listed. -/
theorem Kept.create (hk : Kept db a) {name : List UInt8} {columns : List Column}
    (hn : db.catalog.tableNames.lookup name = none)
    (ha : db.Admits (.createTable name columns)) :
    ∃ a', Kept (db.createTable name (Schema.new columns)).2 a' := by
  have he : execute db (.createTable name columns) =
      some (.ok ⟨true, str "Table '" ++ name ++ str "' created.", []⟩,
        (db.createTable name (Schema.new columns)).2) := by
    change handle (some (((db.createTable name (Schema.new columns)).1).map _, _)) = _
    rw [(createTable_saved hk.refines.saves hn _).1]
    rfl
  obtain ⟨a', -, hk'⟩ := hk.executed ha he
  exact ⟨a', hk'⟩

theorem setTable_lookup (db : Database) (oid : ℕ) (t : TableManager) (k : ℕ) :
    (db.setTable oid t).catalog.tables.lookup k = (db.catalog.tables.lookup k).map fun info =>
      if k = oid then { info with table := t } else info :=
  AssocList.lookup_mapVal ..

theorem Kept.tables_none (hk : Kept db a) (oid : ℕ) :
    a.tables oid = none ↔ db.catalog.tables.lookup oid = none := by
  have ht := hk.refines.tables oid
  generalize a.tables oid = y at ht ⊢
  generalize db.catalog.tables.lookup oid = x at ht ⊢
  cases ht <;> simp

/-- A statement that leaves the catalog file alone has the tables there were. -/
theorem Kept.tables_eq_none {a' : HeapDatabase} (hk : Kept db a) (hk' : Kept db' a')
    (hsame : db' = db ∨ ∃ oid t, db' = db.setTable oid t) (oid : ℕ) :
    a'.tables oid = none ↔ a.tables oid = none := by
  rw [hk'.tables_none, hk.tables_none]
  rcases hsame with rfl | ⟨k, t, rfl⟩
  · rfl
  · rw [setTable_lookup, Option.map_eq_none_iff]

end Database
end PragmaticDB
