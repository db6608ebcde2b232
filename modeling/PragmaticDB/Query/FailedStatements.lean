import PragmaticDB.Query.Durability
import PragmaticDB.Query.InsertTruth

/-!
What a statement leaves behind when it reports a failure. All of them do their work last, but a
`CREATE` whose catalog cannot be saved has its table registered by then.
-/
namespace PragmaticDB
open CallMachine Executor

namespace HeapDatabase
variable {a a' : HeapDatabase}

/-- A statement that fails has changed no page. -/
theorem execute_failed {stmt : Statement} {r : QueryResult}
    (he : a.execute stmt = some (.ok r, a')) (hr : r.success = false) : a' = a := by
  cases stmt with
  | commit =>
    cases he
    cases hr
  | createTable name columns =>
    cases hn : a.names name with
    | none =>
      have hok : a.execute (.createTable name columns) = some (.ok ⟨true,
          str "Table '" ++ name ++ str "' created.", []⟩,
          (a.createTable name (Schema.new columns)).2) := by
        change a.executeCreate name columns = _
        unfold executeCreate createTable
        simp only [hn]
        rfl
      obtain ⟨heq, -⟩ := Prod.mk.inj (Option.some.inj (he.symm.trans hok))
      cases heq
      cases hr
    | some oid =>
      have hsame : (a.createTable name (Schema.new columns)).2 = a := by
        unfold createTable
        rw [hn]
      rw [← hsame]
      exact (congrArg Prod.snd (Option.some.inj he)).symm
  | insert name rawValues =>
    rcases execute_insert he with hsame | ⟨oid, t, tuple, rid, h, -, -, -, -, hok⟩
    · exact hsame
    · cases hok
      cases hr
  | select name =>
    obtain ⟨⟨r', a₁⟩, hb, heq⟩ := Option.map_eq_some_iff.mp he
    obtain ⟨-, rfl⟩ := Prod.mk.inj heq
    cases hf : a.getTable name with
    | error e =>
      rw [hf] at hb
      cases hb
      rfl
    | ok x =>
      rw [hf] at hb
      obtain ⟨rows, -, hb⟩ := Option.bind_eq_some_iff.mp hb
      cases hb
      rfl
  | delete name whereColumn whereValue =>
    obtain ⟨⟨r', a₁⟩, hb, heq⟩ := Option.map_eq_some_iff.mp he
    obtain ⟨hres, rfl⟩ := Prod.mk.inj heq
    cases hf : a.getTable name with
    | error e =>
      rw [hf] at hb
      cases hb
      rfl
    | ok x =>
      rw [hf] at hb
      simp only at hb
      split_ifs at hb
      · cases hb
        rfl
      all_goals
        obtain ⟨x, -, hb⟩ := Option.bind_eq_some_iff.mp hb
        cases x with
        | error e =>
          cases hb
          rfl
        | ok found =>
          obtain ⟨h, -, hb⟩ := Option.bind_eq_some_iff.mp hb
          cases hb
          cases hres
          cases hr

end HeapDatabase

namespace Database
variable {db db' : Database} {a : HeapDatabase} {stmt : Statement}

/-- Statements with page ids in range, while every save of the catalog may fail. -/
def SavesFail (db : Database) : FaultEvent → Prop
  | .statement stmt => ∀ r db', execute db stmt = some (r, db') → db'.InRange
  | .saves _ => True
  | .writes _ _ => False

instance (db : Database) (e : FaultEvent) : Decidable (db.SavesFail e) :=
  match e with
  | .statement stmt => decidable_of_iff (∀ x ∈ execute db stmt, x.2.InRange)
      ⟨fun h r db' he => h (r, db') he, fun h x hx => h x.1 x.2 hx⟩
  | .saves _ => isTrue trivial
  | .writes _ _ => isFalse id

instance (h : List (FaultEvent × Option QueryResult)) (db : Database) (e : FaultEvent) :
    Decidable ((faultMachine.restrict SavesFail).Allowed h db e) :=
  inferInstanceAs (Decidable (True ∧ db.SavesFail e))

/-- Reached while the files work, and then by statements under any outcomes of `SaveCatalog`. -/
def ReachedUnderFaults (db : Database) : Prop :=
  ∃ db₀ h, Reached db₀ ∧ (faultMachine.restrict SavesFail).Run db₀ h db

/-- What an entry of `tables_` holds, its rows included. -/
def entryOf (info : TableInfo) : (ℕ × List UInt8 × Schema) × (List ℤ × ℤ) ×
    Option (List (RecordId × List UInt8)) :=
  ((info.oid, info.name, info.schema), (info.table.getPageIds, info.table.getNextPageId),
    info.table.scanAll.map Prod.fst)

/-- The same catalog, and the same rows in every table. -/
structure Untouched (db db' : Database) : Prop where
  tables : ∀ oid, (db.catalog.tables.lookup oid).map entryOf =
    (db'.catalog.tables.lookup oid).map entryOf
  names : ∀ name, db.catalog.tableNames.lookup name = db'.catalog.tableNames.lookup name
  next : db.catalog.nextTableOid = db'.catalog.nextTableOid

/-- If the statement reports a failure it has changed nothing. -/
def FailsUnchanged (db : Database) (stmt : Statement) : Prop :=
  ∀ r db', db.answer stmt = some (r, db') → r.success = false → Untouched db db'

/-- The statement registers a table, and the directory of the catalog file cannot be made. -/
def RegistersUnsaved (db : Database) (stmt : Statement) : Prop :=
  ∃ name columns what saves, stmt = .createTable name columns ∧
    db.catalog.tableNames.lookup name = none ∧ db.saves = .dirThrows what :: saves

theorem savesFail_preserves : (faultMachine.restrict SavesFail).Preserves fun _ db =>
    ∃ a, (db.withSaves []).Refines (fun _ => RecordManager.Refines) a ∧ a.Good := by
  rintro h db e o db' ⟨a, hr, hg⟩ ⟨-, hw⟩ hstep
  cases e with
  | saves outcomes =>
    cases hstep
    exact ⟨a, hr, hg⟩
  | writes oid plan => exact hw.elim
  | statement stmt =>
    obtain ⟨⟨r, db₁⟩, hans, heq⟩ := Option.map_eq_some_iff.mp hstep
    cases heq
    have he := answer_eq_some.mp hans
    have hrel := execute_withSaves db [] stmt
    rw [he] at hrel
    obtain ⟨⟨r₀, db₀⟩, he₀, hcat⟩ := rel_some_left hrel
    have hcat : db₁.catalog = db₀.catalog := hcat
    have hin : db₀.InRange := by
      unfold InRange
      rw [← hcat]
      exact hw _ _ he
    obtain ⟨a', -, hr', -, hg'⟩ := hr.executed (fun _ => refines_layer) hg
      (fun _ => RecordManager.new_refines) he₀ hin
    exact ⟨a', hr'.congr hcat.symm rfl, hg'⟩

theorem ReachedUnderFaults.refines (hr : ReachedUnderFaults db) :
    ∃ a, (db.withSaves []).Refines (fun _ => RecordManager.Refines) a ∧ a.Good := by
  obtain ⟨db₀, h, hr₀, hrun⟩ := hr
  obtain ⟨a, href, hg⟩ := hr₀.refines
  exact hrun.preserved savesFail_preserves ⟨a, href.congr rfl rfl, hg⟩

/-- Two databases with the same pages have the same entries. -/
theorem Refines.untouched (hr : db.Refines (fun _ => RecordManager.Refines) a)
    (hr' : db'.Refines (fun _ => RecordManager.Refines) a) (hg : a.Good) : Untouched db db' where
  tables oid := by
    have hside : ∀ {d : Database}, d.Refines (fun _ => RecordManager.Refines) a →
        (d.catalog.tables.lookup oid).map entryOf = (a.tables oid).map fun t =>
          ((oid, t.name, t.schema), (t.heap.ids, t.heap.next), some t.heap.rows) := by
      intro d hd
      have hrel := hd.tables oid
      cases hl : d.catalog.tables.lookup oid with
      | none =>
        rw [hl] at hrel
        generalize a.tables oid = y at hrel
        cases hrel
        rfl
      | some info =>
        obtain ⟨t, ht, hi⟩ := hd.table hl
        have hgood := hg.sound oid t ht
        obtain ⟨t', hscan, -⟩ :=
          TableManager.scanAll_rows (refines_reading hgood) hgood.nonneg hi.heap
        have hids : info.table.getPageIds = t.heap.ids := hi.heap.ids
        have hnext : info.table.getNextPageId = t.heap.next := hi.heap.next
        rw [ht, Option.map_some, Option.map_some, entryOf, hd.own oid info hl, hi.name, hi.schema,
          hids, hnext, hscan]
        rfl
    rw [hside hr, hside hr']
  names name := (hr.names name).trans (hr'.names name).symm
  next := hr.next.trans hr'.next.symm

/-- Statements that save nothing do the same whatever a save would come to. -/
theorem answer_withSaves (hs : ∀ name columns, stmt ≠ .createTable name columns)
    (hc : stmt ≠ .commit) {r : QueryResult} (hans : db.answer stmt = some (r, db')) :
    (db.withSaves []).answer stmt = some (r, db'.withSaves []) := by
  have he := answer_eq_some.mp hans
  apply answer_eq_some.mpr
  cases stmt with
  | createTable name columns => exact absurd rfl (hs name columns)
  | commit => exact absurd rfl hc
  | insert name rawValues =>
    change executeInsert db name rawValues = _ at he
    change executeInsert (db.withSaves []) name rawValues = _
    rw [executeInsert_withSaves, he]
    rfl
  | select name =>
    change executeSelect db name = _ at he
    change executeSelect (db.withSaves []) name = _
    rw [executeSelect_withSaves, he]
    rfl
  | delete name column value =>
    change executeDelete db name column value = _ at he
    change executeDelete (db.withSaves []) name column value = _
    rw [executeDelete_withSaves, he]
    rfl

variable {name : List UInt8} {columns : List Column}

theorem createTable_taken {oid : ℕ} {r : QueryResult}
    (hn : db.catalog.tableNames.lookup name = some oid)
    (hans : db.answer (.createTable name columns) = some (r, db')) : db' = db := by
  have hrun : execute db (.createTable name columns) = some (.ok ⟨false,
      str "Error: Table '" ++ name ++ str "' already exists in catalog.", []⟩, db) := by
    change executeCreate db name columns = _
    unfold executeCreate createTable
    rw [hn]
    rfl
  have hsame := (answer_eq_some.mp hans).symm.trans hrun
  exact congrArg Prod.snd (Option.some.inj hsame)

/-- A new table is registered whatever the save comes to; only the answer depends on it. -/
theorem createTable_free (columns : List Column)
    (hn : db.catalog.tableNames.lookup name = none) :
    ∃ r db', db.answer (.createTable name columns) = some (r, db') ∧
      db'.catalog.tableNames.lookup name = some db.catalog.nextTableOid ∧
      (r.success = false ↔ ∃ what saves, db.saves = .dirThrows what :: saves) := by
  let c : Catalog := { db.catalog with
    nextTableOid := (db.catalog.nextTableOid + 1) % 4294967296 }
  let info : TableInfo := ⟨Schema.new columns, name,
    openTable db.fileOf db.catalog.nextTableOid, db.catalog.nextTableOid⟩
  let db₁ : Database := { db with catalog := c.register info }
  have hrun : execute db (.createTable name columns) = handle (some (db₁.saveCatalog.1.map
      fun _ => ⟨true, str "Table '" ++ name ++ str "' created.", []⟩, db₁.saveCatalog.2)) := by
    change executeCreate db name columns = _
    unfold executeCreate createTable
    rw [hn]
  have hlook : db₁.saveCatalog.2.catalog.tableNames.lookup name =
      some db.catalog.nextTableOid := by
    rw [saveCatalog_catalog]
    exact AList.lookup_insert _
  have hsaves : db₁.saves = db.saves := rfl
  cases hs : db.saves with
  | nil => 
    have hsave : db₁.saveCatalog.1 = .ok () := by
      unfold saveCatalog
      rw [hsaves, hs]
    rw [hsave] at hrun
    exact ⟨_, _, answer_eq_some.mpr hrun, hlook, by simp⟩
  | cons outcome saves =>
    cases outcome with
    | dirThrows what =>
      have hsave : db₁.saveCatalog.1 = .error (.filesystemError what) := by
        unfold saveCatalog
        rw [hsaves, hs]
      rw [hsave] at hrun
      exact ⟨_, _, answer_eq_some.mpr hrun, hlook, by simp⟩
    | _ =>
      have hsave : db₁.saveCatalog.1 = .ok () := by
        unfold saveCatalog
        rw [hsaves, hs]
      rw [hsave] at hrun
      exact ⟨_, _, answer_eq_some.mpr hrun, hlook, by simp⟩

/-- A `COMMIT` that answers reports success. -/
theorem commit_success {r : QueryResult} (hans : db.answer .commit = some (r, db')) :
    r.success = true := by
  have hmap : ∀ (x : Except Exn Unit) (msg : List UInt8),
      x.map (fun _ => QueryResult.mk true msg []) = .ok r → r.success = true := by
    rintro (_ | _) msg h
    · cases h
    · cases h
      rfl
  have he : executeCommit db = some (.ok r, db') := answer_eq_some.mp hans
  exact hmap _ _ (congrArg Prod.fst (Option.some.inj he))

/-- **Failed statements**: a statement that reports a failure has changed nothing, unless it has
registered a table and the directory of the catalog file could not be made. -/
theorem failsUnchanged_iff (hr : ReachedUnderFaults db) :
    FailsUnchanged db stmt ↔ ¬ RegistersUnsaved db stmt := by
  constructor
  · rintro hkeeps ⟨name, columns, what, saves, rfl, hn, hs⟩
    obtain ⟨r, db', hans, hlook, hfails⟩ := createTable_free columns hn
    have hnames := (hkeeps r db' hans (hfails.mpr ⟨what, saves, hs⟩)).names name
    rw [hn, hlook] at hnames
    cases hnames
  · intro hfree r db' hans hfail
    have hread : (∀ name columns, stmt ≠ .createTable name columns) → stmt ≠ .commit →
        Untouched db db' := by
      intro hcreate hcommit
      obtain ⟨a, href, hg⟩ := hr.refines
      have he := answer_eq_some.mp (answer_withSaves hcreate hcommit hans)
      have hrel := href.statement hg stmt
      rw [he] at hrel
      obtain ⟨⟨r', a'⟩, he', hagree⟩ := rel_some_left hrel
      obtain ⟨rfl, -, href'⟩ := hagree
      -- the pages of a statement that fails are those from before it
      obtain rfl := a.execute_failed he' hfail
      have hsame := href.untouched (href' fun oid t ht => (hg.sound oid t ht).next_le) hg
      exact ⟨hsame.tables, hsame.names, hsame.next⟩
    cases stmt with
    | createTable name columns =>
      cases hn : db.catalog.tableNames.lookup name with
      | some oid =>
        rw [createTable_taken hn hans]
        exact ⟨fun _ => rfl, fun _ => rfl, rfl⟩
      | none =>
        obtain ⟨r₁, db₁, hans₁, -, hfails⟩ := createTable_free columns hn
        have hsame := Prod.mk.inj (Option.some.inj (hans.symm.trans hans₁))
        rw [hsame.1] at hfail
        obtain ⟨what, saves, hs⟩ := hfails.mp hfail
        exact absurd ⟨name, columns, what, saves, rfl, hn, hs⟩ hfree
    | commit =>
      rw [commit_success hans] at hfail
      cases hfail
    | insert name rawValues => exact hread (fun _ _ h => by cases h) fun h => by cases h
    | select name => exact hread (fun _ _ h => by cases h) fun h => by cases h
    | delete name column value => exact hread (fun _ _ h => by cases h) fun h => by cases h

/-- A row, and a `CREATE` whose save failed without a word: an `INSERT` that is refused and a second
`CREATE` of the table leave both tables as they are. -/
theorem refused_statements_unchanged : ∃ db, ReachedUnderFaults db ∧
    (db.tableRows (str "t")).map (fun x => x.2.length) = some 1 ∧
    (db.tableRows (str "u")).map (fun x => x.2.length) = some 0 ∧
    ∀ stmt ∈ [.insert (str "t") [str "maybe"], .createTable (str "t") [⟨str "x", .integer⟩]],
      (db.answer stmt).map (fun x => x.1.success) = some false ∧ FailsUnchanged db stmt := by
  have heval : ((pagedMachine.play [.createTable (str "t") [⟨str "b", .boolean⟩],
      .insert (str "t") [str "TRUE"]] [] Database.empty).bind fun x =>
        ((faultMachine.restrict SavesFail).play [.saves [.openFails],
          .statement (.createTable (str "u") [])] [] x.2).map fun y =>
            ((y.2.tableRows (str "t")).map fun x => x.2.length,
              (y.2.tableRows (str "u")).map fun x => x.2.length, y.2.saves,
              [.insert (str "t") [str "maybe"], .createTable (str "t") [⟨str "x", .integer⟩]].map
                fun stmt => (y.2.answer stmt).map fun x => x.1.success)) =
      some (some 1, some 0, [], [some false, some false]) := by
    decide +kernel
  obtain ⟨⟨h, db₀⟩, hplay, heval⟩ := Option.bind_eq_some_iff.mp heval
  obtain ⟨⟨h', db⟩, hplay', heq⟩ := Option.map_eq_some_iff.mp heval
  simp only [Prod.mk.injEq, List.map_cons, List.map_nil, List.cons.injEq, and_true] at heq
  obtain ⟨hrows, hnone, hsaves, hinsert, hcreate⟩ := heq
  have hreached : ReachedUnderFaults db :=
    ⟨db₀, h', .inl ⟨h, Machine.Run.start.play hplay⟩, Machine.Run.start.play hplay'⟩
  have hsaved : ∀ stmt, ¬ RegistersUnsaved db stmt := by
    rintro stmt ⟨name, columns, what, saves, -, -, hs⟩
    rw [hsaves] at hs
    cases hs
  refine ⟨db, hreached, hrows, hnone, fun stmt hstmt => ⟨?_, ?_⟩⟩
  · rcases List.mem_cons.mp hstmt with rfl | hstmt
    · exact hinsert
    · obtain rfl := List.mem_singleton.mp hstmt
      exact hcreate
  · exact (failsUnchanged_iff hreached).mpr (hsaved stmt)

/-- The first table, with a directory that cannot be made: a failure, and the table is there. -/
theorem failed_create_registers : ∃ db : Database, ReachedUnderFaults db ∧
    ¬ FailsUnchanged db (.createTable (str "t") [⟨str "x", .integer⟩]) := by
  let outcomes := [SaveOutcome.dirThrows (str "Permission denied")]
  let db := Database.empty.withSaves outcomes
  have hfaults : (faultMachine.restrict SavesFail).Run Database.empty
      [(.saves outcomes, none)] db := .call .start ⟨trivial, trivial⟩ rfl
  refine ⟨db, ⟨Database.empty, _, .inl ⟨[], .start⟩, hfaults⟩, ?_⟩
  intro hkeeps
  have hrun : db.answer (.createTable (str "t") [⟨str "x", .integer⟩]) = some
      ((db.answer (.createTable (str "t") [⟨str "x", .integer⟩])).get rfl) := rfl
  have hnext := (hkeeps _ _ hrun (by decide)).next
  cases hnext

end Database
end PragmaticDB
