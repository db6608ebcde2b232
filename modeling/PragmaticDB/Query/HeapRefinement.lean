import PragmaticDB.Query.HeapDatabase
import PragmaticDB.Catalog.CatalogCodec

/-!
The executor against the heap database. What ties a record manager to its heap is a parameter:
any relation will do that the calls of the executor keep.
-/
namespace PragmaticDB
open CallMachine Executor Throwing

/-- A relation of record managers and heaps that reads of the pages keep. -/
structure ReadCalls (J : RecordManager → HeapFile → Prop) : Prop where
  reading : ∀ {h : HeapFile}, h.Good → Reading h (J · h)
  next : ∀ {rm h}, J rm h → rm.pool.nextPageId = h.next

/-- A relation that the calls of all statements but `COMMIT` keep. -/
structure Calls (J : RecordManager → HeapFile → Prop) : Prop extends ReadCalls J where
  delete : ∀ {rm h} {rid : RecordId}, J rm h → h.Good → rid.pageId ∈ h.ids →
    Option.Rel (fun x y => x.1 = y.1 ∧ J x.2 y.2) (rm.delete rid) (h.delete rid)
  insert : ∀ {rm h} (bytes : List UInt8), J rm h → h.Good →
    Option.Rel (fun x y => x.1 = y.1 ∧ x.2.pool.nextPageId = y.2.next ∧
      (y.2.next ≤ 524288 → J x.2 y.2)) (rm.insert bytes) (h.insert bytes)

/-- A relation that every call of the executor keeps. -/
structure Layer (J : RecordManager → HeapFile → Prop) : Prop extends Calls J where
  flush : ∀ {rm h}, J rm h → J rm.flush h

theorem refines_layer : Layer RecordManager.Refines where
  reading hg := refines_reading hg
  delete hr _ hp := hr.delete hp
  insert bytes hr _ := hr.insert bytes
  flush hr := hr.flush
  next hr := hr.next

structure TableInfo.Refines (J : RecordManager → HeapFile → Prop) (info : TableInfo)
    (t : HeapTable) : Prop where
  schema : info.schema = t.schema
  name : info.name = t.name
  heap : J info.table.recordManager t.heap

namespace Database

/-- The same tables under the same ids and names, each with the pages of its heap. -/
structure Refines (J : ℕ → RecordManager → HeapFile → Prop) (db : Database)
    (a : HeapDatabase) : Prop where
  tables : ∀ oid, Option.Rel (TableInfo.Refines (J oid)) (db.catalog.tables.lookup oid)
    (a.tables oid)
  own : ∀ oid info, db.catalog.tables.lookup oid = some info → info.oid = oid
  names : ∀ name, db.catalog.tableNames.lookup name = a.names name
  next : db.catalog.nextTableOid = a.nextOid
  count : db.catalog.tables.entries.length = a.count
  saves : db.saves = []

/-- Page ids stay below `2 ^ 19`. -/
def InRange (db : Database) : Prop :=
  ∀ oid info, db.catalog.tables.lookup oid = some info → info.table.getNextPageId ≤ 524288

end Database

namespace HeapDatabase

def InRange (a : HeapDatabase) : Prop :=
  ∀ oid t, a.tables oid = some t → t.heap.next ≤ 524288

/-- The heaps of all tables are well formed. -/
def Sound (a : HeapDatabase) : Prop := ∀ oid t, a.tables oid = some t → t.heap.Good

end HeapDatabase

/-- Equal answers, the same next page ids, and the same tables unless some id beyond the
addressable ones was given out. -/
def Agree (J : ℕ → RecordManager → HeapFile → Prop) (x : Except Exn QueryResult × Database)
    (y : Except Exn QueryResult × HeapDatabase) : Prop :=
  x.1 = y.1 ∧ (∀ oid, (x.2.catalog.tables.lookup oid).map (fun info => info.table.getNextPageId) =
      (y.2.tables oid).map fun t => t.heap.next) ∧
    (y.2.InRange → x.2.Refines J y.2)

variable {J : ℕ → RecordManager → HeapFile → Prop} {db : Database} {a : HeapDatabase}

/-- Page ids are in range on both sides or on none. -/
theorem Agree.inRange {x : Except Exn QueryResult × Database}
    {y : Except Exn QueryResult × HeapDatabase} (h : Agree J x y) :
    x.2.InRange ↔ y.2.InRange := by
  constructor
  · intro hx oid t ht
    have heq := h.2.1 oid
    rw [ht, Option.map_some] at heq
    obtain ⟨info, hl, hnext⟩ := Option.map_eq_some_iff.mp heq
    exact hnext ▸ hx oid info hl
  · intro hy oid info hl
    have heq := h.2.1 oid
    rw [hl, Option.map_some] at heq
    obtain ⟨t, ht, hnext⟩ := Option.map_eq_some_iff.mp heq.symm
    exact hnext ▸ hy oid t ht

namespace Database

theorem Refines.table (hr : db.Refines J a) {oid : ℕ} {info : TableInfo}
    (hl : db.catalog.tables.lookup oid = some info) :
    ∃ t, a.tables oid = some t ∧ info.Refines (J oid) t := by
  have ht := hr.tables oid
  rw [hl] at ht
  exact rel_some_left ht

theorem Refines.info (hr : db.Refines J a) {oid : ℕ} {t : HeapTable}
    (ht : a.tables oid = some t) :
    ∃ info, db.catalog.tables.lookup oid = some info ∧ info.Refines (J oid) t := by
  have hl := hr.tables oid
  rw [ht] at hl
  exact rel_some_right hl

theorem Refines.agree (hJ : ∀ oid, ReadCalls (J oid)) (hr : db.Refines J a)
    (r : Except Exn QueryResult) : Agree J (r, db) (r, a) := by
  refine ⟨rfl, fun oid => ?_, fun _ => hr⟩
  have ht := hr.tables oid
  simp only
  generalize db.catalog.tables.lookup oid = x at ht ⊢
  generalize a.tables oid = y at ht ⊢
  cases ht with
  | none => rfl
  | some hi => exact congrArg some ((hJ oid).next hi.heap)

/-- A table that is found on one side is found on the other. -/
inductive Found (J : ℕ → RecordManager → HeapFile → Prop) (db : Database) (a : HeapDatabase) :
    Except Exn (ℕ × TableInfo) → Except Exn (ℕ × HeapTable) → Prop where
  | missing (what : List UInt8) : Found J db a (.error (.runtimeError what))
      (.error (.runtimeError what))
  | found {oid : ℕ} {info : TableInfo} {t : HeapTable}
      (hl : db.catalog.tables.lookup oid = some info) (ht : a.tables oid = some t)
      (hi : info.Refines (J oid) t) : Found J db a (.ok (oid, info)) (.ok (oid, t))

theorem Refines.getTableByOid (hr : db.Refines J a) (oid : ℕ) :
    Found J db a (db.catalog.getTableByOid oid) (a.getTableByOid oid) := by
  unfold Catalog.getTableByOid HeapDatabase.getTableByOid
  cases hl : db.catalog.tables.lookup oid with
  | none =>
    cases ha : a.tables oid with
    | none => exact .missing _
    | some t =>
      obtain ⟨info, hl', -⟩ := hr.info ha
      rw [hl] at hl'
      cases hl'
  | some info =>
    obtain ⟨t, ha, hi⟩ := hr.table hl
    rw [ha]
    exact .found hl ha hi

theorem Refines.getTable (hr : db.Refines J a) (name : List UInt8) :
    Found J db a (db.catalog.getTable name) (a.getTable name) := by
  unfold Catalog.getTable HeapDatabase.getTable
  rw [hr.names]
  cases a.names name with
  | none => exact .missing _
  | some oid => exact hr.getTableByOid oid

/-- One table in a new state on both sides. -/
theorem Refines.setTable (hr : db.Refines J a) {oid : ℕ} {t : TableManager} {h : HeapFile}
    (hJ : J oid t.recordManager h) : (db.setTable oid t).Refines J (a.setHeap oid h) where
  tables k := by
    simp only [Database.setTable, Catalog.setTable, HeapDatabase.setHeap,
      AssocList.lookup_mapVal]
    refine rel_map (hr.tables k) fun info t' hi => ?_
    split_ifs with hk
    · subst hk
      exact ⟨hi.schema, hi.name, hJ⟩
    · exact hi
  own k info hl := by
    simp only [Database.setTable, Catalog.setTable, AssocList.lookup_mapVal] at hl
    obtain ⟨info', hl', rfl⟩ := Option.map_eq_some_iff.mp hl
    have hown := hr.own k info' hl'
    split_ifs <;> exact hown
  names := hr.names
  next := hr.next
  count := (AssocList.length_mapVal ..).trans hr.count
  saves := hr.saves

end Database

theorem rel_handle {x : Answer Database} {y : Answer HeapDatabase}
    (h : Option.Rel (Agree J) x y) : Option.Rel (Agree J) (handle x) (handle y) :=
  rel_map h fun _ _ hxy => ⟨congrArg handleError hxy.1, hxy.2⟩

/-! Statement by statement. -/

theorem readCells_rel {h : HeapFile} {I : RecordManager → Prop} (hI : Reading h I)
    (s : Schema) {it : TableIterator} {bytes : List UInt8} (hp : it.rid.pageId ∈ h.ids)
    (hrec : h.record it.rid = some bytes) (k i : ℕ) {rm : RecordManager} (hr : I rm) :
    Option.Rel (fun x y => x.1 = y ∧ I x.2) (readCells s it k i rm)
      ((List.range' i k).mapM (cellText s bytes)).run := by
  induction k generalizing i rm with
  | zero => exact .some ⟨rfl, hr⟩
  | succ k ih =>
    obtain ⟨rm₁, he, hr₁⟩ := hI.get rm it.rid hr hp
    have hd : it.deref rm = some (bytes, rm₁) := by
      simp only [TableIterator.deref, he, hrec, Option.bind_eq_bind, Option.bind_some,
        Option.getD_some]
    unfold readCells
    rw [List.range'_succ, run_mapM_cons]
    simp only [hd, Option.bind_eq_bind, Option.bind_some]
    rcases (cellText s bytes i).run with _ | e | text
    · exact .none
    · exact .some ⟨rfl, hr₁⟩
    · simp only [Option.bind_some, Option.map_eq_bind]
      refine rel_bind (ih (i + 1) hr₁) fun x y hxy => ?_
      obtain ⟨x, rm₂⟩ := x
      obtain ⟨rfl, hr₂⟩ := hxy
      exact .some ⟨rfl, hr₂⟩

theorem matchRow_rel {h : HeapFile} {I : RecordManager → Prop} (hI : Reading h I)
    (s : Schema) (col : Option ℕ) (value : List UInt8) {it : TableIterator} {bytes : List UInt8}
    (hp : it.rid.pageId ∈ h.ids) (hrec : h.record it.rid = some bytes) {rm : RecordManager}
    (hr : I rm) : Option.Rel (fun x y => x.1 = y ∧ I x.2) (matchRow s col value it rm)
      (HeapDatabase.matchText s col value (it.rid, bytes)).run := by
  cases col with
  | none => exact .some ⟨rfl, hr⟩
  | some i =>
    obtain ⟨rm₁, he, hr₁⟩ := hI.get rm it.rid hr hp
    have hd : it.deref rm = some (bytes, rm₁) := by
      simp only [TableIterator.deref, he, hrec, Option.bind_eq_bind, Option.bind_some,
        Option.getD_some]
    unfold matchRow HeapDatabase.matchText
    simp only [hd, Option.bind_eq_bind, Option.bind_some, ExceptT.run_bind]
    rcases (cellText s bytes i).run with _ | e | text
    · exact .none
    · exact .some ⟨rfl, hr₁⟩
    · exact .some ⟨rfl, hr₁⟩

namespace HeapDatabase

theorem matchText_ok {s : Schema} {col : Option ℕ} {value : List UInt8}
    {r : RecordId × List UInt8} {rid : RecordId}
    (h : (matchText s col value r).run = some (.ok (some rid))) : rid = r.1 := by
  cases col with
  | none =>
    cases h
    rfl
  | some i =>
    unfold matchText at h
    rw [ExceptT.run_bind] at h
    obtain ⟨x, -, hx⟩ := Option.bind_eq_some_iff.mp h
    cases x with
    | error e => cases hx
    | ok text =>
      change some (Except.ok (if text = value then some r.1 else none)) = _ at hx
      split_ifs at hx with heq
      · cases hx
        rfl
      · cases hx

/-- Only rows of the table are found. -/
theorem found_rows {h : HeapFile} {s : Schema} {col : Option ℕ} {value : List UInt8}
    {found : List (Option RecordId)}
    (hf : (h.rows.mapM (matchText s col value)).run = some (.ok found)) :
    ∀ rid ∈ found.filterMap id, rid.pageId ∈ h.ids := by
  intro rid hrid
  obtain ⟨x, hx, hxr⟩ := List.mem_filterMap.mp hrid
  obtain rfl : x = some rid := hxr
  obtain ⟨r, hr, he⟩ := mem_of_mapM hf hx
  rw [matchText_ok he]
  exact mem_ids_of_mem_rows hr

end HeapDatabase

theorem setHeap_self {a : HeapDatabase} {oid : ℕ} {t : HeapTable} (ht : a.tables oid = some t) :
    a.setHeap oid t.heap = a := by
  obtain ⟨tables, names, nextOid, count⟩ := a
  simp only at ht
  simp only [HeapDatabase.setHeap, HeapDatabase.mk.injEq, and_true]
  funext k
  cases hk : tables k with
  | none => rfl
  | some t' =>
    by_cases hko : k = oid
    · subst hko
      obtain rfl := Option.some.inj (hk.symm.trans ht)
      simp
    · simp [hko]

namespace Database

theorem Refines.setTable_agree (hJ : ∀ oid, ReadCalls (J oid)) (hr : db.Refines J a) {oid : ℕ}
    {info : TableInfo} {t : HeapTable} (hl : db.catalog.tables.lookup oid = some info)
    (ht : a.tables oid = some t) {tm : TableManager} {h : HeapFile}
    (hnext : tm.getNextPageId = h.next) (hk : h.next ≤ 524288 → J oid tm.recordManager h)
    (r : Except Exn QueryResult) : Agree J (r, db.setTable oid tm) (r, a.setHeap oid h) := by
  refine ⟨rfl, fun k => ?_, fun hin => hr.setTable (hk ?_)⟩
  · have hold := (hr.agree hJ r).2.1 k
    simp only [Database.setTable, Catalog.setTable, HeapDatabase.setHeap, AssocList.lookup_mapVal,
      Option.map_map, Function.comp_def]
    by_cases hko : k = oid
    · subst hko
      simp [hl, ht, hnext]
    · simpa [hko] using hold
  · refine hin oid { t with heap := h } ?_
    simp [HeapDatabase.setHeap, ht]

theorem Refines.executeSelect (hJ : ∀ oid, ReadCalls (J oid)) (hr : db.Refines J a) (hs : a.Sound)
    (name : List UInt8) :
    Option.Rel (Agree J) (Executor.executeSelect db name) (a.executeSelect name) := by
  unfold Executor.executeSelect HeapDatabase.executeSelect
  apply rel_handle
  have hf := hr.getTable name
  generalize db.catalog.getTable name = x at hf ⊢
  generalize a.getTable name = y at hf ⊢
  cases hf with
  | missing what => exact .some (hr.agree hJ _)
  | @found oid info t hl ht hi =>
    have hI := (hJ oid).reading (hs oid t ht)
    have hbody : ∀ it rm bytes, J oid rm t.heap → it.rid.pageId ∈ t.heap.ids →
        t.heap.record it.rid = some bytes → Option.Rel (fun x y => x.1 = y ∧ J oid x.2 t.heap)
          (readCells info.schema it (columnCount info.schema) 0 rm)
          (HeapDatabase.rowTexts t.schema bytes).run := by
      intro it rm bytes hk hp hrec
      unfold HeapDatabase.rowTexts
      rw [hi.schema, List.range_eq_range']
      exact readCells_rel hI t.schema hp hrec _ 0 hk
    refine rel_bind (scan_rows hI (hs oid t ht).nonneg
      (f := fun r => HeapDatabase.rowTexts t.schema r.2)
      hbody hi.heap) fun x y hxy => ?_
    obtain ⟨x, tm⟩ := x
    obtain ⟨rfl, hk⟩ := hxy
    have hagree := hr.setTable_agree hJ hl ht ((hJ oid).next hk) (fun _ => hk)
    rw [setHeap_self ht] at hagree
    exact .some (hagree _)

theorem Refines.executeInsert (hJ : ∀ oid, Calls (J oid)) (hr : db.Refines J a) (hs : a.Sound)
    (name : List UInt8) (rawValues : List (List UInt8)) :
    Option.Rel (Agree J) (Executor.executeInsert db name rawValues)
      (a.executeInsert name rawValues) := by
  have hR : ∀ oid, ReadCalls (J oid) := fun oid => (hJ oid).toReadCalls
  unfold Executor.executeInsert HeapDatabase.executeInsert
  apply rel_handle
  have hf := hr.getTable name
  generalize db.catalog.getTable name = x at hf ⊢
  generalize a.getTable name = y at hf ⊢
  cases hf with
  | missing what => exact .some (hr.agree hR _)
  | @found oid info t hl ht hi =>
    simp only [hi.schema]
    rcases (rowTuple t.schema rawValues).run with _ | e | tuple
    · exact .none
    · exact .some (hr.agree hR _)
    · simp only [Option.bind_eq_bind, Option.bind_some, TableManager.insertTuple,
        Option.bind_assoc]
      refine rel_bind ((hJ oid).insert tuple hi.heap (hs oid t ht)) fun x y hxy => ?_
      obtain ⟨rid, rm⟩ := x
      have hnext : TableManager.getNextPageId ⟨rm⟩ = y.2.next := hxy.2.1
      exact .some (hr.setTable_agree hR hl ht hnext hxy.2.2 _)

theorem deleteTuples_rel {K : RecordManager → HeapFile → Prop} (hK : Calls K)
    (rids : List RecordId) {tm : TableManager} {h : HeapFile} (hk : K tm.recordManager h)
    (hg : h.Good) (hrids : ∀ rid ∈ rids, rid.pageId ∈ h.ids) :
    Option.Rel (fun x y => K x.recordManager y) (deleteTuples rids tm)
      (HeapDatabase.deleteRows rids h) := by
  induction rids generalizing tm h with
  | nil => exact .some hk
  | cons rid rids ih =>
    have hp := hrids rid (by simp)
    obtain ⟨h₁, he, hg₁, hids, -⟩ := hg.delete hp
    have hrel := hK.delete hk hg hp
    unfold deleteTuples HeapDatabase.deleteRows
    simp only [TableManager.deleteTuple, Option.bind_eq_bind, Option.bind_assoc]
    refine rel_bind_mem hrel fun x y hy hxy => ?_
    obtain rfl : y = _ := Option.some.inj (hy.symm.trans he)
    exact ih hxy.2 hg₁ fun r hr => hids ▸ hrids r (by simp [hr])

theorem Refines.executeDelete (hJ : ∀ oid, Calls (J oid)) (hr : db.Refines J a) (hs : a.Sound)
    (name whereColumn whereValue : List UInt8) :
    Option.Rel (Agree J) (Executor.executeDelete db name whereColumn whereValue)
      (a.executeDelete name whereColumn whereValue) := by
  have hR : ∀ oid, ReadCalls (J oid) := fun oid => (hJ oid).toReadCalls
  unfold Executor.executeDelete HeapDatabase.executeDelete
  apply rel_handle
  have hf := hr.getTable name
  generalize db.catalog.getTable name = x at hf ⊢
  generalize a.getTable name = y at hf ⊢
  cases hf with
  | missing what => exact .some (hr.agree hR _)
  | @found oid info t hl ht hi =>
    have hg := hs oid t ht
    have hI := (hJ oid).reading hg
    simp only [hi.schema]
    split_ifs
    · exact .some (hr.agree hR _)
    all_goals
      refine rel_bind_mem (scan_rows hI hg.nonneg (fun it rm bytes hk hp hrec =>
        matchRow_rel hI t.schema _ whereValue hp hrec hk) hi.heap) fun x y hy hxy => ?_
      obtain ⟨x, tm⟩ := x
      obtain ⟨rfl, hk⟩ := hxy
      cases x with
      | error e =>
        have hagree := hr.setTable_agree hR hl ht ((hJ oid).next hk) (fun _ => hk)
        rw [setHeap_self ht] at hagree
        exact .some (hagree _)
      | ok found =>
        refine rel_bind (deleteTuples_rel (hJ oid) _ hk hg (HeapDatabase.found_rows hy))
          fun x y hxy => ?_
        exact .some (hr.setTable_agree hR hl ht ((hJ oid).next hxy) (fun _ => hxy) _)

/-- A new table is empty, and the catalog is saved with it. -/
theorem Refines.executeCreate (hJ : ∀ oid, Calls (J oid)) (hr : db.Refines J a)
    (hnew : ∀ dm : DiskManager, dm.plan = [] → J a.nextOid (RecordManager.new dm) HeapFile.empty)
    (name : List UInt8) (columns : List Column) :
    Option.Rel (Agree J) (Executor.executeCreate db name columns)
      (a.executeCreate name columns) := by
  have hR : ∀ oid, ReadCalls (J oid) := fun oid => (hJ oid).toReadCalls
  unfold Executor.executeCreate HeapDatabase.executeCreate Database.createTable
    HeapDatabase.createTable
  apply rel_handle
  rw [hr.names]
  cases a.names name with
  | some oid => exact .some (hr.agree hR _)
  | none =>
    have hk := hnew ⟨str "data/table_" ++ decimal a.nextOid ++ str ".db", db.fileOf a.nextOid, []⟩
      rfl
    have hisSome : (db.catalog.tables.lookup a.nextOid).isSome = (a.tables a.nextOid).isSome := by
      have ht := hr.tables a.nextOid
      cases hl : db.catalog.tables.lookup a.nextOid <;> cases ha : a.tables a.nextOid <;>
        rw [hl, ha] at ht <;> first | rfl | cases ht
    simp only [Database.saveCatalog, hr.saves, hr.next]
    refine .some (Refines.agree hR
      ⟨fun oid => ?_, fun oid info hl => ?_, fun n => ?_, rfl, ?_, rfl⟩ _)
    · rw [Catalog.lookup_register_tables]
      simp only
      split_ifs with ho
      · subst ho
        exact .some ⟨rfl, rfl, hk⟩
      · exact hr.tables oid
    · rw [Catalog.lookup_register_tables] at hl
      split_ifs at hl with ho
      · cases hl
        exact ho.symm
      · exact hr.own oid info hl
    · rw [Catalog.lookup_register_names]
      simp only [hr.names]
    · refine (AssocList.length_insert ..).trans ?_
      simp only [hisSome, hr.count]

theorem Refines.flushTables (hJ : ∀ oid, Layer (J oid)) (hr : db.Refines J a)
    (bytes : Option (List UInt8)) : Database.Refines J
      { db with catalog := db.catalog.flushTables, catalogDb := bytes, saves := [] } a where
  tables oid := by
    simp only [Catalog.flushTables, AssocList.lookup_mapVal]
    have hmap := rel_map (f := fun info : TableInfo => { info with table := info.table.flush })
      (g := id) (hr.tables oid) fun info t hi => (⟨hi.schema, hi.name, (hJ oid).flush hi.heap⟩ :
        TableInfo.Refines (J oid) { info with table := info.table.flush } t)
    rwa [Option.map_id] at hmap
  own oid info hl := by
    simp only [Catalog.flushTables, AssocList.lookup_mapVal] at hl
    obtain ⟨info', hl', rfl⟩ := Option.map_eq_some_iff.mp hl
    exact hr.own oid info' hl'
  names := hr.names
  next := hr.next
  count := (AssocList.length_mapVal ..).trans hr.count
  saves := rfl

theorem Refines.executeCommit (hJ : ∀ oid, Layer (J oid)) (hr : db.Refines J a) :
    Option.Rel (Agree J) (Executor.executeCommit db) a.executeCommit := by
  unfold Executor.executeCommit HeapDatabase.executeCommit
  simp only [Database.saveCatalog, hr.saves, hr.count]
  exact .some ((hr.flushTables hJ _).agree (fun oid => (hJ oid).toReadCalls) _)

theorem Refines.execute (hJ : ∀ oid, Layer (J oid)) (hr : db.Refines J a) (hs : a.Sound)
    (hnew : ∀ dm : DiskManager, dm.plan = [] → J a.nextOid (RecordManager.new dm) HeapFile.empty)
    (stmt : Statement) : Option.Rel (Agree J) (Executor.execute db stmt) (a.execute stmt) := by
  have hcalls : ∀ oid, Calls (J oid) := fun oid => (hJ oid).toCalls
  cases stmt with
  | createTable name columns => exact hr.executeCreate hcalls hnew name columns
  | insert name rawValues => exact hr.executeInsert hcalls hs name rawValues
  | select name => exact hr.executeSelect (fun oid => (hcalls oid).toReadCalls) hs name
  | commit => exact hr.executeCommit hJ
  | delete name whereColumn whereValue =>
    exact hr.executeDelete hcalls hs name whereColumn whereValue

end Database
end PragmaticDB
