import PragmaticDB.Query.Restart

/-!
Commits among failures of the files. `SaveCatalog` can fail in several ways without a word, and
so can the write of a page; a `COMMIT` reports success all the same.
-/
namespace PragmaticDB
open ByteStream CallMachine Executor

namespace Database
variable {db db' : Database} {a : HeapDatabase}

/-- The next saves of the catalog turn out as `saves` says. -/
def withSaves (db : Database) (saves : List SaveOutcome) : Database := { db with saves }

/-- The next writes to the file of table `oid` turn out as `plan` says. -/
def withPlan (db : Database) (oid : ℕ) (plan : List WriteOutcome) : Database :=
  let change k (info : TableInfo) : TableInfo :=
    if k = oid then
      let rm := info.table.recordManager
      let dm := { rm.pool.diskManager with plan }
      { info with table := ⟨{ rm with pool := { rm.pool with diskManager := dm } }⟩ }
    else info
  { db with catalog.tables := AssocList.mapVal change db.catalog.tables }

end Database

/-- What the callers do, and what the files will do next. -/
inductive FaultEvent where
  | statement (stmt : Statement)
  | saves (outcomes : List SaveOutcome)
  | writes (oid : ℕ) (plan : List WriteOutcome)
  deriving DecidableEq

/-- Statements under any pattern of failures. -/
def faultMachine : Machine Database FaultEvent (Option QueryResult) where
  step db e :=
    match e with
    | .statement stmt => (db.answer stmt).map fun x => (some x.1, x.2)
    | .saves outcomes => some (none, db.withSaves outcomes)
    | .writes oid plan => some (none, db.withPlan oid plan)
  Allowed _ _ _ := True

instance (h : List (FaultEvent × Option QueryResult)) (db : Database) (e : FaultEvent) :
    Decidable (faultMachine.Allowed h db e) := isTrue trivial

namespace Database
variable {db db' : Database} {a : HeapDatabase}

/-- No write of a page fails; saves of the catalog may. Sizes fit. -/
def PagesWork (db : Database) : FaultEvent → Prop
  | .statement stmt => db.Admits stmt
  | .saves _ => True
  | .writes _ plan => plan = []

instance (db : Database) (e : FaultEvent) : Decidable (db.PagesWork e) :=
  match e with
  | .statement stmt => inferInstanceAs (Decidable (db.Admits stmt))
  | .saves _ => isTrue trivial
  | .writes _ plan => inferInstanceAs (Decidable (plan = []))

instance (h : List (FaultEvent × Option QueryResult)) (db : Database) (e : FaultEvent) :
    Decidable ((faultMachine.restrict PagesWork).Allowed h db e) :=
  inferInstanceAs (Decidable (True ∧ db.PagesWork e))

/-- After the next save the catalog file has the catalog of a `COMMIT`, unless the save throws. -/
def CatalogWritten (db : Database) : Prop :=
  match db.saves with
  | [] | .ok :: _ | .dirThrows _ :: _ => True
  | .openFails :: _ => db.catalogDb = some db.catalog.flushTables.saveCatalog
  | .stopsAfter k :: _ => db.catalog.flushTables.saveCatalog.length ≤ k

/-- The same tables under the same names, and the same rows in them. -/
structure SameTables (db db' : Database) : Prop where
  tables : ∀ name, (db.catalog.getTable name).map (fun e => (e.1, e.2.schema)) =
    (db'.catalog.getTable name).map fun e => (e.1, e.2.schema)
  rows : ∀ name, (execute db (.select name)).map Prod.fst =
    (execute db' (.select name)).map Prod.fst

/-- Where a `COMMIT` reports success, a fresh process finds what was in memory. -/
def Durable (db : Database) : Prop :=
  ∀ r db', db.answer .commit = some (r, db') → r.success = true → SameTables db db'.restart

/-! Statements do not look at what the next saves come to. -/

@[simp] theorem withSaves_catalog (db : Database) (saves : List SaveOutcome) :
    (db.withSaves saves).catalog = db.catalog := rfl

theorem executeInsert_withSaves (db : Database) (saves : List SaveOutcome) (name : List UInt8)
    (rawValues : List (List UInt8)) : executeInsert (db.withSaves saves) name rawValues =
      (executeInsert db name rawValues).map fun x => (x.1, x.2.withSaves saves) := by
  unfold executeInsert
  rw [withSaves_catalog]
  rcases db.catalog.getTable name with e | ⟨oid, info⟩
  · rfl
  · simp only
    rcases (rowTuple info.schema rawValues).run with _ | e | tuple
    · rfl
    · rfl
    · simp only [Option.bind_eq_bind, Option.bind_some]
      rcases info.table.insertTuple tuple with _ | ⟨rid, t⟩
      · rfl
      · rfl

theorem executeSelect_withSaves (db : Database) (saves : List SaveOutcome) (name : List UInt8) :
    executeSelect (db.withSaves saves) name =
      (executeSelect db name).map fun x => (x.1, x.2.withSaves saves) := by
  unfold executeSelect
  rw [withSaves_catalog]
  rcases db.catalog.getTable name with e | ⟨oid, info⟩
  · rfl
  · simp only [Option.bind_eq_bind]
    generalize TableManager.scan _ info.table = x
    rcases x with _ | ⟨rows, t⟩
    · rfl
    · rfl

theorem executeDelete_withSaves (db : Database) (saves : List SaveOutcome)
    (name column value : List UInt8) : executeDelete (db.withSaves saves) name column value =
      (executeDelete db name column value).map fun x => (x.1, x.2.withSaves saves) := by
  unfold executeDelete
  rw [withSaves_catalog]
  rcases db.catalog.getTable name with e | ⟨oid, info⟩
  · rfl
  · simp only [Option.bind_eq_bind]
    split_ifs
    · rfl
    all_goals
      generalize TableManager.scan _ info.table = x
      rcases x with _ | ⟨e | found, t⟩
      · rfl
      · rfl
      · simp only [Option.bind_some]
        generalize deleteTuples _ t = y
        rcases y with _ | t'
        · rfl
        · rfl

/-- The catalogs are alike whatever the saves come to. -/
theorem execute_withSaves (db : Database) (saves : List SaveOutcome) (stmt : Statement) :
    Option.Rel (fun x y => x.2.catalog = y.2.catalog) (execute db stmt)
      (execute (db.withSaves saves) stmt) := by
  have hmap : ∀ x : Answer Database, Option.Rel (fun x y => x.2.catalog = y.2.catalog) x
      (x.map fun x => (x.1, x.2.withSaves saves)) := by
    rintro (_ | x)
    · exact .none
    · exact .some rfl
  cases stmt with
  | insert name rawValues =>
    change Option.Rel _ _ (executeInsert (db.withSaves saves) name rawValues)
    rw [executeInsert_withSaves]
    exact hmap _
  | select name =>
    change Option.Rel _ _ (executeSelect (db.withSaves saves) name)
    rw [executeSelect_withSaves]
    exact hmap _
  | delete name column value =>
    change Option.Rel _ _ (executeDelete (db.withSaves saves) name column value)
    rw [executeDelete_withSaves]
    exact hmap _
  | commit =>
    have hsave : ∀ d : Database, ({ d with catalog := d.catalog.flushTables } :
        Database).saveCatalog.2.catalog = d.catalog.flushTables := fun d => saveCatalog_catalog _
    apply Option.Rel.some
    exact (hsave db).trans (hsave (db.withSaves saves)).symm
  | createTable name columns =>
    apply Option.Rel.some
    change (db.createTable name (Schema.new columns)).2.catalog =
      ((db.withSaves saves).createTable name (Schema.new columns)).2.catalog
    cases hn : db.catalog.tableNames.lookup name with
    | some oid => simp only [createTable, withSaves, hn]
    | none => simp only [createTable, withSaves, hn, saveCatalog_catalog]; rfl

/-! Runs. -/

theorem Refines.congr {J : ℕ → RecordManager → HeapFile → Prop} (hr : db.Refines J a)
    (hc : db.catalog = db'.catalog) (hs : db'.saves = []) : db'.Refines J a :=
  ⟨hc ▸ hr.tables, hc ▸ hr.own, hc ▸ hr.names, hc ▸ hr.next, hc ▸ hr.count, hs⟩

theorem Kept.congr (hk : Kept db a) (hc : db.catalog = db'.catalog) (hs : db'.saves = []) :
    Kept db' a := ⟨hk.refines.congr hc hs, hk.good, hk.sized⟩

/-- Writes that go on succeeding change nothing. -/
theorem Kept.withPlan (hk : Kept db a) (oid : ℕ) : Kept (db.withPlan oid []) a := by
  have hr := hk.refines
  have hlook : ∀ k, (db.withPlan oid []).catalog.tables.lookup k =
      db.catalog.tables.lookup k := by
    intro k
    unfold Database.withPlan
    simp only [AssocList.lookup_mapVal]
    cases hl : db.catalog.tables.lookup k with
    | none => rfl
    | some info =>
      obtain ⟨t, -, hi⟩ := hr.table hl
      have hplan : info.table.recordManager.pool.diskManager.plan = [] := hi.heap.quiet.plan
      by_cases hk : k = oid
      · simp only [Option.map_some, if_pos hk, ← hplan]
      · simp only [Option.map_some, if_neg hk]
  refine ⟨⟨fun k => ?_, fun k info hl => ?_, hr.names, hr.next, ?_, hr.saves⟩, hk.good, hk.sized⟩
  · rw [hlook]
    exact hr.tables k
  · exact hr.own k info (hlook k ▸ hl)
  · exact (AssocList.length_mapVal ..).trans hr.count

/-- The invariant: saves that fail leave the tables in memory alone. -/
theorem faultMachine_preserves : (faultMachine.restrict PagesWork).Preserves
    fun _ db => ∃ a, Kept (db.withSaves []) a := by
  rintro h db e o db' ⟨a, hk⟩ ⟨-, hw⟩ hstep
  cases e with
  | saves outcomes =>
    cases hstep
    exact ⟨a, hk⟩
  | writes oid plan =>
    cases hstep
    obtain rfl : plan = [] := hw
    exact ⟨a, hk.withPlan oid⟩
  | statement stmt =>
    obtain ⟨⟨r, db₁⟩, hans, heq⟩ := Option.map_eq_some_iff.mp hstep
    cases heq
    have he := answer_eq_some.mp hans
    have hrel := execute_withSaves db [] stmt
    rw [he] at hrel
    obtain ⟨⟨r₀, db₀⟩, he₀, hcat⟩ := rel_some_left hrel
    have hcat : db₁.catalog = db₀.catalog := hcat
    have hin : db₀.InRange := by
      unfold InRange
      rw [← hcat]
      exact hw.2 _ _ he
    have hadm : (db.withSaves []).Admits stmt := by
      refine ⟨hw.1, fun r' db'' he' => ?_⟩
      obtain ⟨-, rfl⟩ := Prod.mk.inj (Option.some.inj (he₀.symm.trans he'))
      exact hin
    obtain ⟨a', -, hk'⟩ := hk.executed hadm he₀
    exact ⟨a', hk'.congr hcat.symm rfl⟩

/-- A `COMMIT` whose save works does what it does among no failures. -/
theorem commit_withSaves {r : QueryResult} (hw : CatalogWritten db)
    (hc : db.answer .commit = some (r, db')) :
    (db.withSaves []).answer .commit = some (r, db'.withSaves []) := by
  obtain ⟨catalog, catalogDb, tableFiles, saves⟩ := db
  unfold CatalogWritten at hw
  cases saves with
  | nil =>
    cases hc
    rfl
  | cons outcome saves =>
    cases outcome with
    | ok =>
      cases hc
      rfl
    | dirThrows what => cases hc
    | openFails =>
      cases hc
      obtain rfl : catalogDb = some catalog.flushTables.saveCatalog := hw
      rfl
    | stopsAfter k =>
      cases hc
      have htake : catalog.flushTables.saveCatalog.take k = catalog.flushTables.saveCatalog :=
        List.take_of_length_le hw
      unfold withSaves
      rw [htake]
      rfl

/-- What two databases with the same pages show. -/
theorem Kept.sameTables (hk : Kept db a) (hk' : Kept db' a) : SameTables db db' := by
  constructor
  · intro name
    have hf := hk.refines.getTable name
    have hf' := hk'.refines.getTable name
    generalize db.catalog.getTable name = x at hf ⊢
    generalize db'.catalog.getTable name = y at hf' ⊢
    generalize a.getTable name = z at hf hf'
    cases hf with
    | missing what =>
      cases hf'
      rfl
    | found hl ht hi =>
      cases hf' with
      | found hl' ht' hi' =>
        change Except.ok (_, _) = Except.ok (_, _)
        rw [hi.schema, hi'.schema]
  · intro name
    have hrel := hk.refines.statement hk.good (.select name)
    have hrel' := hk'.refines.statement hk'.good (.select name)
    generalize Executor.execute db (.select name) = x at hrel ⊢
    generalize Executor.execute db' (.select name) = y at hrel' ⊢
    generalize a.execute (.select name) = z at hrel hrel'
    cases hrel with
    | none =>
      cases hrel'
      rfl
    | some hx =>
      cases hrel' with
      | some hy => exact congrArg some (hx.1.trans hy.1.symm)

theorem select_withSaves (db : Database) (saves : List SaveOutcome) (name : List UInt8) :
    (execute (db.withSaves saves) (.select name)).map Prod.fst =
      (execute db (.select name)).map Prod.fst := by
  change (executeSelect (db.withSaves saves) name).map Prod.fst = _
  rw [executeSelect_withSaves, Option.map_map]
  rfl

/-- From the first failure on the process is not restarted. As long as no write of a page fails, a
`COMMIT` whose own save works is durable, whatever the saves before it came to. -/
theorem commit_durable {db₀ : Database} {h₀ : List (Event × Option QueryResult)}
    {h : List (FaultEvent × Option QueryResult)} (hs : sessionMachine.Run Database.empty h₀ db₀)
    (hr : (faultMachine.restrict PagesWork).Run db₀ h db) (hw : CatalogWritten db) :
    Durable db := by
  obtain ⟨a₀, hk₀, -⟩ := hs.preserved sessionMachine_preserves ⟨_, empty_kept, nofun⟩
  have hstart : Kept (db₀.withSaves []) a₀ := hk₀.congr rfl rfl
  obtain ⟨a, hk⟩ := hr.preserved faultMachine_preserves ⟨_, hstart⟩
  intro r db' hc _
  obtain ⟨r₁, db₁, hc₁, hk₁, hf⟩ := hk.commit
  obtain ⟨-, rfl⟩ := Prod.mk.inj (Option.some.inj ((commit_withSaves hw hc).symm.trans hc₁))
  have hsame := hk.sameTables (hk₁.restart hf)
  constructor
  · exact hsame.tables
  · intro name
    rw [← select_withSaves db [] name, hsame.rows name]
    exact select_withSaves db'.restart [] name

/-- A row, a restart, a `CREATE` whose save fails, then one more row: the `COMMIT` makes up for
it. -/
theorem durable_after_failed_save : ∃ h₀ db₀ h db,
    sessionMachine.Run Database.empty h₀ db₀ ∧ h₀.map Prod.fst =
      [.restart, .statement .commit, .statement (.insert (str "t") [str "1"]),
        .statement (.createTable (str "t") [⟨str "x", .integer⟩])] ∧
    (faultMachine.restrict PagesWork).Run db₀ h db ∧ h.map Prod.fst =
      [.statement (.insert (str "t") [str "7"]),
        .statement (.createTable (str "u") [⟨str "x", .integer⟩]), .saves [.openFails]] ∧
    Durable db := by
  have heval : ((sessionMachine.play [.statement (.createTable (str "t") [⟨str "x", .integer⟩]),
      .statement (.insert (str "t") [str "1"]), .statement .commit, .restart] []
      Database.empty).bind fun x => ((faultMachine.restrict PagesWork).play [.saves [.openFails],
        .statement (.createTable (str "u") [⟨str "x", .integer⟩]),
        .statement (.insert (str "t") [str "7"])] [] x.2).map fun y => y.2.saves) = some [] := by
    decide +kernel
  obtain ⟨⟨h₀, db₀⟩, hplay₀, heval⟩ := Option.bind_eq_some_iff.mp heval
  obtain ⟨⟨h, db⟩, hplay, hsaves⟩ := Option.map_eq_some_iff.mp heval
  have hrun₀ := Machine.Run.start.play hplay₀
  have hrun := Machine.Run.start.play hplay
  have hw : CatalogWritten db := by
    unfold CatalogWritten
    simp only at hsaves
    rw [hsaves]
    trivial
  exact ⟨h₀, db₀, h, db, hrun₀, Machine.play_calls hplay₀, hrun, Machine.play_calls hplay,
    commit_durable hrun₀ hrun hw⟩

/-- The catalog file cannot be opened for the `COMMIT`: the row it counted is gone. -/
theorem commit_not_durable : ∃ h db, faultMachine.Run Database.empty h db ∧ h.map Prod.fst =
      [.saves [.openFails], .statement (.insert (str "t") [str "7"]),
        .statement (.createTable (str "t") [⟨str "x", .integer⟩])] ∧
    ¬ Durable db := by
  have heval : ((faultMachine.play [.statement (.createTable (str "t") [⟨str "x", .integer⟩]),
      .statement (.insert (str "t") [str "7"]), .saves [.openFails]] []
      Database.empty).bind fun x =>
        (x.2.answer .commit).bind fun y => (x.2.answer (.select (str "t"))).bind fun z =>
          (y.2.restart.answer (.select (str "t"))).map fun z' =>
            (x.1.map Prod.fst, y.1.success, z.1.rows.length, z'.1.rows.length)) =
      some ([.saves [.openFails], .statement (.insert (str "t") [str "7"]),
        .statement (.createTable (str "t") [⟨str "x", .integer⟩])], true, 1, 0) := by
    decide +kernel
  obtain ⟨⟨h, db⟩, hplay, heval⟩ := Option.bind_eq_some_iff.mp heval
  obtain ⟨⟨r, db₁⟩, hcommit, heval⟩ := Option.bind_eq_some_iff.mp heval
  obtain ⟨⟨s, db₂⟩, hbefore, heval⟩ := Option.bind_eq_some_iff.mp heval
  obtain ⟨⟨s', db₃⟩, hafter, heq⟩ := Option.map_eq_some_iff.mp heval
  simp only [Prod.mk.injEq] at heq
  obtain ⟨hh, hsuccess, hrows, hrows'⟩ := heq
  refine ⟨h, db, Machine.Run.start.play hplay, hh, fun hd => ?_⟩
  have hsame := (hd r db₁ hcommit hsuccess).rows (str "t")
  rw [answer_eq_some.mp hbefore, answer_eq_some.mp hafter] at hsame
  obtain rfl : s = s' := by simpa using hsame
  rw [hrows] at hrows'
  cases hrows'

end Database
end PragmaticDB
