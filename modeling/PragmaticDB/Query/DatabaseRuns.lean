import PragmaticDB.Query.HeapSoundness

/-!
Runs of a database: statements, and restarts of its process. Sizes stay within the 32 bits
that the catalog file has for them.
-/
namespace PragmaticDB
open CallMachine Executor

/-- Sizes of a new table that the catalog file can hold, as the `nextOid`-th one. -/
def StatementFits (nextOid : ℕ) : Statement → Prop
  | .createTable name columns => name.length < 4294967296 ∧ columns.length < 4294967296 ∧
      (∀ c ∈ columns, Catalog.ColumnFits c) ∧ nextOid + 1 < 4294967296
  | _ => True

instance (nextOid : ℕ) (stmt : Statement) : Decidable (StatementFits nextOid stmt) :=
  match stmt with
  | .createTable name columns => inferInstanceAs (Decidable (name.length < 4294967296 ∧
      columns.length < 4294967296 ∧ (∀ c ∈ columns, c.name.length < 4294967296 ∧
        (c.typeId = .invalid ∨ c.typeId = .boolean ∨ c.typeId = .integer)) ∧
      nextOid + 1 < 4294967296))
  | .insert _ _ => isTrue trivial
  | .select _ => isTrue trivial
  | .commit => isTrue trivial
  | .delete _ _ _ => isTrue trivial

namespace Database

instance (db : Database) : Decidable db.InRange :=
  decidable_of_iff (∀ e ∈ db.catalog.tables.entries, e.2.table.getNextPageId ≤ 524288)
    ⟨fun h oid info hl => h ⟨oid, info⟩ (AList.mem_lookup_iff.mp hl),
      fun h e he => h e.1 e.2 (AList.mem_lookup_iff.mpr he)⟩

/-- The result of a statement. There is none where it is undefined, or where it throws what
no handler takes. -/
def answer (db : Database) (stmt : Statement) : Option (QueryResult × Database) := do
  let (r, db) ← execute db stmt
  match r with
  | .ok r => some (r, db)
  | .error _ => none

/-- Sizes fit, and page ids stay below `2 ^ 19`. -/
def Admits (db : Database) (stmt : Statement) : Prop :=
  StatementFits db.catalog.nextTableOid stmt ∧
    ∀ r db', execute db stmt = some (r, db') → db'.InRange

instance (db : Database) (stmt : Statement) : Decidable (db.Admits stmt) :=
  decidable_of_iff (StatementFits db.catalog.nextTableOid stmt ∧
    ∀ x ∈ execute db stmt, x.2.InRange)
    (and_congr_right fun _ => ⟨fun h r db' he => h (r, db') he, fun h x hx => h x.1 x.2 hx⟩)

end Database

/-- Statements one after the other. -/
def statementMachine : Machine Database Statement QueryResult where
  step := Database.answer
  Allowed _ db stmt := db.Admits stmt

instance (h : List (Statement × QueryResult)) (db : Database) (stmt : Statement) :
    Decidable (statementMachine.Allowed h db stmt) := inferInstanceAs (Decidable (db.Admits stmt))

inductive Event where
  | statement (stmt : Statement)
  | restart
  deriving DecidableEq

/-- The last event was a `COMMIT`. -/
def JustCommitted (h : List (Event × Option QueryResult)) : Prop :=
  h.head?.map Prod.fst = some (.statement .commit)

/-- Statements, and restarts right after a `COMMIT`. -/
def sessionMachine : Machine Database Event (Option QueryResult) where
  step db e :=
    match e with
    | .statement stmt => (db.answer stmt).map fun x => (some x.1, x.2)
    | .restart => some (none, db.restart)
  Allowed h db e :=
    match e with
    | .statement stmt => db.Admits stmt
    | .restart => JustCommitted h

instance (h : List (Event × Option QueryResult)) (db : Database) (e : Event) :
    Decidable (sessionMachine.Allowed h db e) :=
  match e with
  | .statement stmt => inferInstanceAs (Decidable (db.Admits stmt))
  | .restart => inferInstanceAs (Decidable (h.head?.map Prod.fst = some (.statement .commit)))

namespace HeapDatabase

/-- Names lead to the tables that have them, and all sizes fit the catalog file. -/
structure Sized (a : HeapDatabase) : Prop where
  fresh : ∀ oid, a.nextOid ≤ oid → a.tables oid = none
  nextOid : a.nextOid < 4294967296
  count : a.count ≤ a.nextOid
  named : ∀ name oid, a.names name = some oid ↔ ∃ t, a.tables oid = some t ∧ t.name = name
  tables : ∀ oid t, a.tables oid = some t → t.name.length < 4294967296 ∧
    t.schema.columns.length < 4294967296 ∧ ∀ c ∈ t.schema.columns, Catalog.ColumnFits c

variable {a a' : HeapDatabase}

theorem empty_sized : empty.Sized := ⟨fun _ _ => rfl, by decide, le_rfl, by simp [empty], nofun⟩

theorem Sized.setHeap (hz : a.Sized) (oid : ℕ) (h : HeapFile) : (a.setHeap oid h).Sized where
  fresh k hk := by
    unfold HeapDatabase.setHeap
    simp only [hz.fresh k hk, Option.map_none]
  nextOid := hz.nextOid
  count := hz.count
  named name k := by
    refine (hz.named name k).trans ⟨?_, ?_⟩
    · rintro ⟨t, ht, rfl⟩
      refine ⟨_, congrArg (Option.map _) ht, ?_⟩
      split_ifs <;> rfl
    · rintro ⟨t, ht, rfl⟩
      obtain ⟨t₀, ht₀, rfl⟩ := Option.map_eq_some_iff.mp ht
      refine ⟨t₀, ht₀, ?_⟩
      split_ifs <;> rfl
  tables k t ht := by
    obtain ⟨t₀, ht₀, rfl⟩ := Option.map_eq_some_iff.mp ht
    have hfit := hz.tables k t₀ ht₀
    split_ifs <;> exact hfit

theorem Sized.create (hz : a.Sized) {name : List UInt8} {columns : List Column}
    (hn : a.names name = none) (hfit : StatementFits a.nextOid (.createTable name columns)) :
    (a.createTable name (Schema.new columns)).2.Sized := by
  obtain ⟨hname, hcols, hcol, hnext⟩ := hfit
  have hfree : a.tables a.nextOid = none := hz.fresh _ le_rfl
  have hmod : (a.nextOid + 1) % 4294967296 = a.nextOid + 1 := Nat.mod_eq_of_lt hnext
  have hcount := hz.count
  unfold createTable
  rw [hn]
  refine ⟨fun k hk => ?_, ?_, ?_, fun n k => ?_, fun k t ht => ?_⟩
  · simp only [hmod] at hk ⊢
    rw [if_neg (by omega), hz.fresh k (by omega)]
  · simp only [hmod]
    exact hnext
  · simp only [hmod, hfree]
    simp only [Option.isSome_none, Bool.false_eq_true, if_false]
    omega
  · simp only
    constructor
    · intro h
      split_ifs at h with hnn
      · cases h
        exact ⟨_, if_pos rfl, hnn.symm⟩
      · obtain ⟨t, ht, rfl⟩ := (hz.named n k).mp h
        refine ⟨t, ?_, rfl⟩
        rw [if_neg, ht]
        rintro rfl
        rw [hfree] at ht
        cases ht
    · rintro ⟨t, ht, rfl⟩
      split_ifs at ht with hk
      · cases ht
        rw [if_pos rfl, hk]
      · have hold := (hz.named t.name k).mpr ⟨t, ht, rfl⟩
        rw [if_neg, hold]
        intro he
        rw [he, hn] at hold
        cases hold
  · simp only at ht
    split_ifs at ht
    · cases ht
      exact ⟨hname, hcols, hcol⟩
    · exact hz.tables k t ht

theorem Sized.step (hz : a.Sized) {stmt : Statement} (hs : a.Step stmt a')
    (hfit : StatementFits a.nextOid stmt) : a'.Sized := by
  cases hs with
  | unchanged => exact hz
  | create hn => exact hz.create hn hfit
  | insert => exact hz.setHeap _ _
  | delete => exact hz.setHeap _ _

end HeapDatabase

namespace Database

/-- What ties a database to the pages of its tables in every state of a run. -/
structure Kept (db : Database) (a : HeapDatabase) : Prop where
  refines : db.Refines (fun _ => RecordManager.Refines) a
  good : a.Good
  sized : a.Sized

variable {db db' : Database} {a : HeapDatabase}

theorem empty_kept : Kept Database.empty HeapDatabase.empty where
  refines := ⟨fun _ => .none, nofun, fun _ => rfl, rfl, rfl, rfl⟩
  good := HeapDatabase.empty_good
  sized := HeapDatabase.empty_sized

/-- More is known of every table. -/
theorem Refines.upgrade {J J' : ℕ → RecordManager → HeapFile → Prop} (hr : db.Refines J a)
    (h : ∀ oid info t, db.catalog.tables.lookup oid = some info → a.tables oid = some t →
      J oid info.table.recordManager t.heap → J' oid info.table.recordManager t.heap) :
    db.Refines J' a :=
  { hr with
    tables := fun oid => rel_imp_mem (hr.tables oid) fun info t hl ht hi =>
      ⟨hi.schema, hi.name, h oid info t hl ht hi.heap⟩ }

theorem Refines.statement (hr : db.Refines (fun _ => RecordManager.Refines) a) (hg : a.Good)
    (stmt : Statement) : Option.Rel (Agree fun _ => RecordManager.Refines)
      (Executor.execute db stmt) (a.execute stmt) :=
  hr.execute (fun _ => refines_layer) hg.sound (fun _ => RecordManager.new_refines) stmt

/-- What is executed on the pages is executed on the database. -/
theorem Refines.executes (hr : db.Refines (fun _ => RecordManager.Refines) a) (hg : a.Good)
    {stmt : Statement} {r : Except Exn QueryResult} {a' : HeapDatabase}
    (ha : a.execute stmt = some (r, a')) : ∃ db', Executor.execute db stmt = some (r, db') ∧
      (db'.InRange ↔ a'.InRange) := by
  have hrel := hr.statement hg stmt
  rw [ha] at hrel
  obtain ⟨⟨r', db'⟩, he, hagree⟩ := rel_some_right hrel
  have hrange := hagree.inRange
  obtain ⟨rfl, -⟩ := hagree
  exact ⟨db', he, hrange⟩

/-- What is executed with page ids in range is executed on the pages. -/
theorem Refines.executed {J : ℕ → RecordManager → HeapFile → Prop} (hJ : ∀ oid, Layer (J oid))
    (hr : db.Refines J a) (hg : a.Good)
    (hnew : ∀ dm : DiskManager, dm.plan = [] → J a.nextOid (RecordManager.new dm) HeapFile.empty)
    {stmt : Statement} {r : Except Exn QueryResult}
    (he : Executor.execute db stmt = some (r, db')) (hin : db'.InRange) :
    ∃ a', a.execute stmt = some (r, a') ∧ db'.Refines J a' ∧ a.Step stmt a' ∧ a'.Good := by
  have hrel := hr.execute hJ hg.sound hnew stmt
  rw [he] at hrel
  obtain ⟨⟨r', a'⟩, ha', hagree⟩ := rel_some_left hrel
  have hin' := hagree.inRange.mp hin
  obtain ⟨rfl, -, hr'⟩ := hagree
  have hstep := HeapDatabase.execute_step ha'
  exact ⟨a', ha', hr' hin', hstep, hg.step hstep hin'⟩

/-- Every allowed statement does to the database what it does to the pages. -/
theorem Kept.executed (hk : Kept db a) {stmt : Statement} (ha : db.Admits stmt)
    {r : Except Exn QueryResult} (he : Executor.execute db stmt = some (r, db')) :
    ∃ a', a.execute stmt = some (r, a') ∧ Kept db' a' := by
  obtain ⟨a', he', hr', hstep, hg'⟩ := hk.refines.executed (fun _ => refines_layer) hk.good
    (fun _ => RecordManager.new_refines) he (ha.2 r db' he)
  exact ⟨a', he', hr', hg', hk.sized.step hstep (hk.refines.next ▸ ha.1)⟩

/-- The schema of a table, and its rows from `Begin` to `End`. -/
def tableRows (db : Database) (name : List UInt8) :
    Option (Schema × List (RecordId × List UInt8)) :=
  match db.catalog.getTable name with
  | .ok (_, info) => info.table.scanAll.map fun x => (info.schema, x.1)
  | .error _ => none

/-- A scan of a table finds the rows of its pages. -/
theorem Refines.tableRows (hr : db.Refines (fun _ => RecordManager.Refines) a) (hg : a.Good)
    {name : List UInt8} {oid : ℕ} {t : HeapTable} (hf : a.getTable name = .ok (oid, t)) :
    db.tableRows name = some (t.schema, t.heap.rows) := by
  have hfound := hr.getTable name
  rw [hf] at hfound
  unfold Database.tableRows
  generalize db.catalog.getTable name = x at hfound ⊢
  cases hfound with
  | found hl ht hi =>
    have hgood := hg.sound _ _ ht
    obtain ⟨t', hscan, -⟩ := TableManager.scanAll_rows (refines_reading hgood) hgood.nonneg hi.heap
    simp only [hscan, Option.map_some, hi.schema]

theorem answer_eq_some {stmt : Statement} {r : QueryResult} :
    db.answer stmt = some (r, db') ↔ Executor.execute db stmt = some (.ok r, db') := by
  unfold answer
  constructor
  · intro h
    obtain ⟨⟨x, db₁⟩, he, h⟩ := Option.bind_eq_some_iff.mp h
    cases x with
    | error e => cases h
    | ok r' =>
      cases h
      exact he
  · intro h
    rw [h]
    rfl

end Database
end PragmaticDB
