import PragmaticDB.Query.PoolUse

/-!
What a fresh process finds when the old one was killed between two statements. `COMMIT` flushes
all pages and saves their list; but a page that loses its frame is written as well, and a
`CREATE TABLE` saves the page lists of all tables.
-/
namespace PragmaticDB
open CallMachine Executor BufferPoolManager

/-- Statements on a database, beside the one that the last `COMMIT` left. -/
def recoveryMachine : Machine (Database × Database) Statement QueryResult where
  step s stmt := (s.1.answer stmt).map fun x => (x.1, x.2, if stmt = .commit then x.2 else s.2)
  Allowed _ s stmt := s.1.Admits stmt

instance (h : List (Statement × QueryResult)) (s : Database × Database) (stmt : Statement) :
    Decidable (recoveryMachine.Allowed h s stmt) := inferInstanceAs (Decidable (s.1.Admits stmt))

namespace HeapDatabase

/-- The pages of table `oid`; none where there is no such table. -/
def heapOf (a : HeapDatabase) (oid : ℕ) : HeapFile :=
  match a.tables oid with
  | some t => t.heap
  | none => HeapFile.empty

theorem heapOf_some {a : HeapDatabase} {oid : ℕ} {t : HeapTable} (ht : a.tables oid = some t) :
    a.heapOf oid = t.heap := by
  unfold heapOf
  rw [ht]

theorem heapOf_none {a : HeapDatabase} {oid : ℕ} (ht : a.tables oid = none) :
    a.heapOf oid = HeapFile.empty := by
  unfold heapOf
  rw [ht]

end HeapDatabase

namespace Database
variable {db db' c : Database} {a ac : HeapDatabase} {cf : Catalog} {stmt : Statement}
  {name : List UInt8}

/-- A fresh process finds every table of `c` with the rows it has there, and every other table
without rows. -/
structure Recovers (db c : Database) : Prop where
  committed : ∀ name oid, c.catalog.tableNames.lookup name = some oid →
    ∃ x, c.tableRows name = some x ∧ db.restart.tableRows name = some x
  created : ∀ name oid, db.catalog.tableNames.lookup name = some oid →
    c.catalog.tableNames.lookup name = none →
    ∃ schema, db.restart.tableRows name = some (schema, [])

/-- The calls that the statement makes write back no page that `catalog.db` lists, but such as
have the tuples of the file. -/
def LeavesListed (db : Database) (stmt : Statement) : Prop :=
  ∀ r db', db.answer stmt = some (r, db') → ∀ oid, ∃ uh,
    ((useMachine 10).restrict (LeavesTuples (db.listedPages oid))).Run (db.poolOf oid) uh
      (db'.poolOf oid)

/-- The file has no tuples on the pages that are not listed yet; and where it does not have all
pages of a table, there are no more of them than frames. -/
def ListsNothing (db : Database) : Prop :=
  ∀ oid, (∀ p ∈ db.catalog.pagesOf oid, p ∉ db.listedPages oid →
      ∀ i, tupleAt (filePage (db.fileOf oid) p) i = some none) ∧
    BufferPoolManager.Readable (db.fileOf oid) (db.catalog.pagesOf oid) 10

/-- Between two `COMMIT`s: no listed page is written back with other tuples, and no page is listed
that the file has tuples on. -/
def KeepsCommitted (s : Database × Database) (stmt : Statement) : Prop :=
  (¬ s.1.SavesCatalog stmt → s.1.LeavesListed stmt) ∧ (s.1.CreatesTable stmt → s.1.ListsNothing)

/-- `catalog.db` lists all pages of all tables, and no table has more of them than frames. -/
def AllListed (db : Database) : Prop :=
  ∀ e ∈ db.catalog.tables.entries, (∀ p ∈ e.2.table.getPageIds, p ∈ db.listedPages e.1) ∧
    e.2.table.getPageIds.length ≤ 10

instance (db : Database) : Decidable db.AllListed :=
  inferInstanceAs (Decidable (∀ e ∈ db.catalog.tables.entries,
    (∀ p ∈ e.2.table.getPageIds, p ∈ db.listedPages e.1) ∧ e.2.table.getPageIds.length ≤ 10))

/-- The tables stay within their pools, and one is created only when the pages of the others are
listed. -/
def StaysSmall (s : Database × Database) (stmt : Statement) : Prop :=
  (∀ x ∈ execute s.1 stmt, x.2.Small) ∧ (s.1.CreatesTable stmt → s.1.AllListed)

instance (s : Database × Database) (stmt : Statement) : Decidable (StaysSmall s stmt) :=
  inferInstanceAs (Decidable ((∀ x ∈ execute s.1 stmt, x.2.Small) ∧
    (s.1.CreatesTable stmt → s.1.AllListed)))

/-- An entry of the catalog file, and the table it lists as it is now. -/
structure Lists (info : TableInfo) (t : HeapTable) : Prop where
  schema : info.schema = t.schema
  name : info.name = t.name
  ids : info.table.getPageIds <+: t.heap.ids
  range : ∀ p ∈ info.table.getPageIds, 0 ≤ p ∧ p < info.table.getNextPageId
  next_nonneg : 0 ≤ info.table.getNextPageId
  next_le : info.table.getNextPageId ≤ 524288

/-- The invariant of such runs: what the files show of the listed pages are the tuples of the
last `COMMIT`, whose pages are `ac`. -/
structure Recoverable (db : Database) (a ac : HeapDatabase) (cf : Catalog) : Prop where
  kept : Kept db a
  records : db.Records cf
  lists : ∀ oid, Option.Rel Lists (cf.tables.lookup oid) (a.tables oid)
  committed : ∀ oid t, ac.tables oid = some t → ∃ info, cf.tables.lookup oid = some info ∧
    info.schema = t.schema ∧ info.name = t.name
  ids : ∀ oid, (ac.heapOf oid).ids <+: cf.pagesOf oid
  tuples : ∀ oid, ∀ p ∈ cf.pagesOf oid, ∀ i,
    tupleAt (filePage (db.fileOf oid) p) i = some ((ac.heapOf oid).lookup ⟨p, i⟩)
  readable : ∀ oid, BufferPoolManager.Readable (db.fileOf oid) (cf.pagesOf oid) 10

theorem Recoverable.table (hr : Recoverable db a ac cf) {oid : ℕ} {info : TableInfo}
    (hl : cf.tables.lookup oid = some info) : ∃ t, a.tables oid = some t ∧ Lists info t := by
  have hrel := hr.lists oid
  rw [hl] at hrel
  exact rel_some_left hrel

theorem Recoverable.info (hr : Recoverable db a ac cf) {oid : ℕ} {t : HeapTable}
    (ht : a.tables oid = some t) : ∃ info, cf.tables.lookup oid = some info ∧ Lists info t := by
  have hrel := hr.lists oid
  rw [ht] at hrel
  exact rel_some_right hrel

theorem Recoverable.page (hr : Recoverable db a ac cf) {oid : ℕ} {p : ℤ}
    (hp : p ∈ cf.pagesOf oid) : ∃ t, a.tables oid = some t ∧ DiskManager.Addressable p := by
  cases hl : cf.tables.lookup oid with
  | none =>
    rw [Catalog.pagesOf_none hl] at hp
    cases hp
  | some info =>
    rw [Catalog.pagesOf_some hl] at hp
    obtain ⟨t, ht, hi⟩ := hr.table hl
    have hrange := hi.range p hp
    have hle := hi.next_le
    exact ⟨t, ht, hrange.1, by omega⟩

/-! The rows that a fresh process finds. -/

theorem Kept.tableRows (hk : Kept db a) {oid : ℕ} {t : HeapTable} (ht : a.tables oid = some t)
    (hn : t.name = name) : db.tableRows name = some (t.schema, t.heap.rows) := by
  have hname : a.names name = some oid := (hk.sized.named name oid).mpr ⟨t, ht, hn⟩
  exact hk.refines.tableRows hk.good (HeapDatabase.getTable_of hname ht)

theorem Recoverable.legible (hr : Recoverable db a ac cf) {oid : ℕ} {info : TableInfo}
    {t : HeapTable} (hl : cf.tables.lookup oid = some info) (hi : Lists info t) :
    Legible (db.fileOf oid) info.table.getPageIds info.table.getNextPageId where
  range := hi.range
  tuples p hp i := by
    rw [← Catalog.pagesOf_some hl] at hp
    exact ⟨_, hr.tuples oid p hp i⟩
  readable := by
    rw [← Catalog.pagesOf_some hl]
    exact hr.readable oid

/-- The rows of a listed table are those of the last `COMMIT`. -/
theorem Recoverable.rows (hr : Recoverable db a ac cf) {oid : ℕ} {info : TableInfo}
    {t : HeapTable} (hl : cf.tables.lookup oid = some info) (ht : a.tables oid = some t)
    (hi : Lists info t) :
    (fileHeap (db.fileOf oid) info.table.getPageIds info.table.getNextPageId).rows =
      (ac.heapOf oid).rows := by
  have hids := Catalog.pagesOf_some hl
  apply HeapFile.rows_of_front
  · rw [← hids]
    exact hr.ids oid
  · exact (hr.kept.good oid t ht).heap.nodup.sublist hi.ids.sublist
  · intro p hp i
    have hp : p ∈ cf.pagesOf oid := hids ▸ hp
    exact (tupleAt_eq (hr.tuples oid p hp i)).1.symm

theorem Recoverable.tableRows (hr : Recoverable db a ac cf) {oid : ℕ} {t : HeapTable}
    (ht : a.tables oid = some t) (hn : t.name = name) :
    db.restart.tableRows name = some (t.schema, (ac.heapOf oid).rows) := by
  obtain ⟨info, hl, hi⟩ := hr.info ht
  have hown := hr.records.consistent.own oid info hl
  have hnames : db.restart.catalog.tableNames.lookup name = some oid := by
    rw [hr.records.names, hr.records.consistent.named]
    exact ⟨info, hl, hi.name.trans hn⟩
  have hlookup := hr.records.lookup oid
  rw [hl, Option.map_some] at hlookup
  have hget : db.restart.catalog.getTable name =
      .ok (oid, Catalog.reopen db.fileOf (Catalog.listing info)) := by
    unfold Catalog.getTable Catalog.getTableByOid
    simp only [hnames, hlookup]
  have hserves : Serves (db.fileOf oid) info.table.getPageIds info.table.getNextPageId
      (Catalog.reopen db.fileOf (Catalog.listing info)).table.recordManager := by
    rw [← hown]
    exact restore_serves db.fileOf info.oid _ hi.next_nonneg hi.next_le
  obtain ⟨t', hscan⟩ := (hr.legible hl hi).scanAll hserves
  unfold Database.tableRows
  simp only [hget, hscan, Option.map_some, hr.rows hl ht hi]
  rw [← hi.schema]
  rfl

theorem Recoverable.recovers (hr : Recoverable db a ac cf) (hc : Kept c ac) : db.Recovers c where
  committed name oid hn := by
    rw [hc.refines.names, hc.sized.named] at hn
    obtain ⟨t, ht, htn⟩ := hn
    obtain ⟨info, hl, hschema, hname⟩ := hr.committed oid t ht
    obtain ⟨t', ha, hi⟩ := hr.table hl
    refine ⟨_, hc.tableRows ht htn, ?_⟩
    rw [hr.tableRows ha (hi.name.symm.trans (hname.trans htn)), HeapDatabase.heapOf_some ht,
      ← hi.schema, hschema]
  created name oid hn hnew := by
    rw [hr.kept.refines.names, hr.kept.sized.named] at hn
    obtain ⟨t, ht, htn⟩ := hn
    refine ⟨t.schema, ?_⟩
    rw [hr.tableRows ht htn]
    cases hac : ac.tables oid with
    | none =>
      rw [HeapDatabase.heapOf_none hac]
      rfl
    | some t₀ =>
      obtain ⟨info, hl, -, hname⟩ := hr.committed oid t₀ hac
      obtain ⟨t', ht', hi⟩ := hr.table hl
      obtain rfl := Option.some.inj (ht.symm.trans ht')
      have hold : ac.names name = some oid :=
        (hc.sized.named name oid).mpr ⟨t₀, hac, hname.symm.trans (hi.name.trans htn)⟩
      rw [hc.refines.names, hold] at hnew
      cases hnew

/-! Statement by statement. -/

theorem Kept.lists (hk : Kept db a) (oid : ℕ) :
    Option.Rel Lists (db.catalog.tables.lookup oid) (a.tables oid) := by
  apply rel_imp_mem (hk.refines.tables oid)
  intro info t hl ht hi
  have hg := (hk.good oid t ht).heap
  have hids : info.table.getPageIds = t.heap.ids := hi.heap.ids
  have hnext : info.table.getNextPageId = t.heap.next := hi.heap.next
  refine ⟨hi.schema, hi.name, by rw [hids], ?_, hnext ▸ hg.next_nonneg, hnext ▸ hg.next_le⟩
  rw [hids, hnext]
  exact hg.range

theorem empty_recoverable :
    Recoverable Database.empty HeapDatabase.empty HeapDatabase.empty Catalog.empty where
  kept := empty_kept
  records := empty_records
  lists _ := .none
  committed _ _ ht := by cases ht
  ids _ := List.nil_prefix
  tuples _ _ hp := by cases hp
  readable _ := .inl fun _ hp => by cases hp

/-- After a `COMMIT` the files show everything there is. -/
theorem Flushed.recoverable (hf : Flushed db a) (hk : Kept db a) :
    Recoverable db a a db.catalog where
  kept := hk
  records := hk.records hf.catalogDb
  lists := hk.lists
  committed oid t ht := by
    obtain ⟨info, hl, hi⟩ := hk.refines.info ht
    exact ⟨info, hl, hi.schema, hi.name⟩
  ids oid := by
    cases ht : a.tables oid with
    | none =>
      rw [HeapDatabase.heapOf_none ht]
      exact List.nil_prefix
    | some t => rw [HeapDatabase.heapOf_some ht, hk.pagesOf ht]
  tuples oid p hp i := by
    cases ht : a.tables oid with
    | none =>
      rw [hk.pagesOf_none ht] at hp
      cases hp
    | some t =>
      rw [hk.pagesOf ht] at hp
      rw [filePage_of_onFile (hf.pages oid t ht p hp), HeapDatabase.heapOf_some ht,
        HeapFile.lookup, if_pos hp]
      exact ((hk.good oid t ht).heap.formatted p hp).tupleAt i
  readable oid := by
    left
    intro p hp
    cases ht : a.tables oid with
    | none =>
      rw [hk.pagesOf_none ht] at hp
      cases hp
    | some t =>
      rw [hk.pagesOf ht] at hp
      exact ⟨_, hf.pages oid t ht p hp⟩

/-- A new table lists the pages of the others, those that the file has no tuples on as well. -/
theorem Recoverable.create (hr : Recoverable db a ac cf) {columns : List Column}
    (hn : db.catalog.tableNames.lookup name = none) (ha : db.Admits (.createTable name columns))
    (hlists : db.ListsNothing) : ∃ a', Recoverable (db.createTable name (Schema.new columns)).2 a'
      ac (db.createTable name (Schema.new columns)).2.catalog := by
  have hs := hr.kept.refines.saves
  have hfree := hr.kept.free
  obtain ⟨a', hk'⟩ := hr.kept.create hn ha
  have hdb := (createTable_saved hs hn (Schema.new columns)).2
  have hfile := createTable_fileOf hs hn (Schema.new columns) hfree
  have hpages := createTable_pagesOf hs hn (Schema.new columns) hfree
  have hlisted : ∀ oid, db.listedPages oid = cf.pagesOf oid := hr.records.listed
  have hgrown : ∀ oid, cf.pagesOf oid <+: db.catalog.pagesOf oid := by
    intro oid
    cases hl : cf.tables.lookup oid with
    | none =>
      rw [Catalog.pagesOf_none hl]
      exact List.nil_prefix
    | some info =>
      obtain ⟨t, ht, hi⟩ := hr.table hl
      rw [Catalog.pagesOf_some hl, hr.kept.pagesOf ht]
      exact hi.ids
  refine ⟨a', hk', hk'.records hdb, hk'.lists, fun oid t ht => ?_, fun oid => ?_, ?_, fun oid => ?_⟩
  · obtain ⟨info, hl, hschema, hname⟩ := hr.committed oid t ht
    obtain ⟨ta, hta, hi⟩ := hr.table hl
    obtain ⟨info', hl', hi'⟩ := hr.kept.refines.info hta
    have hne : oid ≠ db.catalog.nextTableOid := by
      rintro rfl
      rw [hfree] at hl'
      cases hl'
    refine ⟨info', ?_, ?_, ?_⟩
    · rw [createTable_lookup hs hn, if_neg hne, hl']
    · rw [hi'.schema, ← hi.schema, hschema]
    · rw [hi'.name, ← hi.name, hname]
  · rw [hpages]
    exact (hr.ids oid).trans (hgrown oid)
  · intro oid p hp i
    rw [hpages] at hp
    rw [hfile]
    by_cases hold : p ∈ db.listedPages oid
    · rw [hlisted] at hold
      exact hr.tuples oid p hold i
    · rw [(hlists oid).1 p hp hold i, HeapFile.lookup, if_neg]
      intro hmem
      apply hold
      rw [hlisted]
      exact (hr.ids oid).subset hmem
  · rw [hpages, hfile]
    exact (hlists oid).2

/-- A page that is in the file stays in the file. -/
theorem Kept.onFile_stays (hk : Kept db a) (ha : db.Admits stmt) {r : Except Exn QueryResult}
    (he : execute db stmt = some (r, db')) {oid : ℕ} {t : HeapTable} (ht : a.tables oid = some t)
    {p : ℤ} (hp : DiskManager.Addressable p) (hd : ∃ d, OnFile (db.fileOf oid) p d) :
    ∃ d, OnFile (db'.fileOf oid) p d := by
  have hclosed : ∀ k, WriteClosed fun file => k = oid → ∃ d, OnFile file p d :=
    fun k dm q d hplan hq hd hk => onFile_writeClosed hp dm q d hplan hq (hd hk)
  have hr : db.Refines (fun k => RecordManager.RefinesOver fun file =>
      k = oid → ∃ d, OnFile file p d) a := by
    apply hk.refines.upgrade
    intro k info t' hl _ hi
    refine ⟨hi, fun hko => ?_⟩
    subst hko
    rw [← fileOf_of_lookup hl]
    exact hd
  have hfresh : a.nextOid ≠ oid := by
    rintro rfl
    rw [hk.sized.fresh _ le_rfl] at ht
    cases ht
  obtain ⟨a', -, hr', hstep, -⟩ := hr.executed
    (fun k => (RecordManager.refinesOver_rules (hclosed k)).layer) hk.good
    (fun dm hdm => ⟨RecordManager.new_refines hdm, fun hko => absurd hko hfresh⟩) he (ha.2 r db' he)
  obtain ⟨t', ht', -⟩ := hstep.extends hk.good (hk.sized.fresh _ le_rfl) ht
  obtain ⟨info', hl', hi'⟩ := hr'.info ht'
  rw [fileOf_of_lookup hl']
  exact hi'.heap.file rfl

theorem Kept.fileOf (hk : Kept db a) {oid : ℕ} {t : HeapTable} (ht : a.tables oid = some t) :
    db.fileOf oid = (db.poolOf oid).diskManager.file := by
  obtain ⟨info, hl, -⟩ := hk.refines.info ht
  rw [fileOf_of_lookup hl, poolOf_of_lookup hl]

/-- The files keep the tuples of all listed pages. -/
theorem Recoverable.tuples_stay (hr : Recoverable db a ac cf) {r : QueryResult}
    (he : db.answer stmt = some (r, db')) (hw : db.LeavesListed stmt) {a' : HeapDatabase}
    (ha' : a.execute stmt = some (.ok r, a')) (hk' : Kept db' a') {oid : ℕ} {p : ℤ}
    (hp : p ∈ cf.pagesOf oid) (i : ℕ) : tupleAt (filePage (db'.fileOf oid) p) i =
      tupleAt (filePage (db.fileOf oid) p) i := by
  obtain ⟨t, ht, -⟩ := hr.page hp
  obtain ⟨t', ht', -⟩ := (HeapDatabase.execute_step ha').extends hr.kept.good
    (hr.kept.sized.fresh _ le_rfl) ht
  obtain ⟨uh, hrun⟩ := hw r db' he oid
  rw [hr.records.listed] at hrun
  have haddr : ∀ q ∈ cf.pagesOf oid, DiskManager.Addressable q := by
    intro q hq
    obtain ⟨t₁, -, haddr⟩ := hr.page hq
    exact haddr
  rw [hr.kept.fileOf ht, hk'.fileOf ht']
  exact ((hr.kept.quiet oid).tuples_stay haddr hrun).2 p hp i

/-- A statement that leaves the catalog file alone. -/
theorem Recoverable.other (hr : Recoverable db a ac cf) (ha : db.Admits stmt) {r : QueryResult}
    (he : db.answer stmt = some (r, db')) (hw : db.LeavesListed stmt)
    (hsame : db' = db ∨ ∃ oid t, db' = db.setTable oid t) : ∃ a', Recoverable db' a' ac cf := by
  have hx := answer_eq_some.mp he
  obtain ⟨a', ha', hk'⟩ := hr.kept.executed ha hx
  have hstep := HeapDatabase.execute_step ha'
  have hfresh := hr.kept.sized.fresh _ le_rfl
  have hdb : db'.catalogDb = db.catalogDb := by
    rcases hsame with rfl | ⟨oid, t, rfl⟩
    · rfl
    · rfl
  refine ⟨a', hk', hr.records.congr hdb, fun oid => ?_, hr.committed, hr.ids,
    fun oid p hp i => ?_, fun oid => ?_⟩
  · cases ht : a.tables oid with
    | none =>
      rw [(hr.kept.tables_eq_none hk' hsame oid).mpr ht, ← ht]
      exact hr.lists oid
    | some t =>
      obtain ⟨t', ht', hschema, hname, hids⟩ := hstep.extends hr.kept.good hfresh ht
      obtain ⟨info, hl, hi⟩ := hr.info ht
      rw [hl, ht']
      exact .some ⟨hi.schema.trans hschema.symm, hi.name.trans hname.symm, hi.ids.trans hids,
        hi.range, hi.next_nonneg, hi.next_le⟩
  · rw [hr.tuples_stay he hw ha' hk' hp i]
    exact hr.tuples oid p hp i
  · rcases hr.readable oid with hall | hlen
    · left
      intro p hp
      obtain ⟨t, ht, haddr⟩ := hr.page hp
      exact hr.kept.onFile_stays ha hx ht haddr (hall p hp)
    · exact .inr hlen

/-! Runs. -/

theorem recoverable_preserved : (recoveryMachine.restrict KeepsCommitted).Preserves
    fun _ s => ∃ a ac cf, Recoverable s.1 a ac cf ∧ Kept s.2 ac := by
  intro h s stmt r s' hi hallowed hstep
  obtain ⟨db, c⟩ := s
  obtain ⟨a, ac, cf, hr, hc⟩ := hi
  obtain ⟨ha, hwrites, hlists⟩ := hallowed
  obtain ⟨⟨r', db'⟩, he, heq⟩ := Option.map_eq_some_iff.mp hstep
  cases heq
  cases execute_leaves hr.kept.refines.saves (answer_eq_some.mp he) with
  | same hno =>
    obtain ⟨a', hr'⟩ := hr.other ha he (hwrites hno) (.inl rfl)
    refine ⟨a', ac, cf, hr', ?_⟩
    rw [if_neg fun hcommit => hno (.inl hcommit)]
    exact hc
  | table hno oid t =>
    obtain ⟨a', hr'⟩ := hr.other ha he (hwrites hno) (.inr ⟨oid, t, rfl⟩)
    refine ⟨a', ac, cf, hr', ?_⟩
    rw [if_neg fun hcommit => hno (.inl hcommit)]
    exact hc
  | create hn =>
    obtain ⟨a', hr'⟩ := hr.create hn ha (hlists hn)
    exact ⟨a', ac, _, hr', hc⟩
  | commit =>
    obtain ⟨r₀, db₀, hans, hk, hf⟩ := hr.kept.commit
    obtain ⟨-, rfl⟩ := Prod.mk.inj (Option.some.inj (he.symm.trans hans))
    exact ⟨a, a, _, hf.recoverable hk, hk⟩

/-- In every state of a run that meets the condition, a fresh process finds the tables of the
last `COMMIT` with the rows they had then, and no rows in those created since. -/
theorem recovers_last_commit {h : List (Statement × QueryResult)} {s : Database × Database}
    (hr : (recoveryMachine.restrict KeepsCommitted).Run (Database.empty, Database.empty) h s) :
    s.1.Recovers s.2 := by
  obtain ⟨a, ac, cf, hr, hc⟩ := hr.preserved recoverable_preserved
    ⟨_, _, _, empty_recoverable, empty_kept⟩
  exact hr.recovers hc

theorem AllListed.listsNothing (hl : db.AllListed) : db.ListsNothing := by
  intro oid
  cases hlook : db.catalog.tables.lookup oid with
  | none =>
    rw [Catalog.pagesOf_none hlook]
    exact ⟨fun p hp => (by cases hp), .inr (Nat.zero_le 10)⟩
  | some info =>
    obtain ⟨hmem, hlen⟩ := hl ⟨oid, info⟩ (AList.mem_lookup_iff.mp hlook)
    rw [Catalog.pagesOf_some hlook]
    exact ⟨fun p hp hnew => absurd (hmem p hp) hnew, .inr hlen⟩

/-- With more frames than pages no page is written back. -/
theorem Kept.keepsCommitted {s : Database × Database} (hk : Kept s.1 a) (ha : s.1.Admits stmt)
    (hs : StaysSmall s stmt) : KeepsCommitted s stmt := by
  refine ⟨fun hno r db' he oid => ?_, fun hn => (hs.2 hn).listsNothing⟩
  obtain ⟨uh, hrun⟩ := hk.visits ha he hno oid
  have hsmall : db'.Small := hs.1 _ (answer_eq_some.mp he)
  exact ⟨uh, (hk.quiet oid).leavesTuples_of_small hrun (hsmall.poolOf oid) _⟩

/-- So runs of such statements meet the condition. -/
theorem keepsCommitted_of_small {h : List (Statement × QueryResult)} {s : Database × Database}
    (hr : (recoveryMachine.restrict StaysSmall).Run (Database.empty, Database.empty) h s) :
    (recoveryMachine.restrict KeepsCommitted).Run (Database.empty, Database.empty) h s := by
  induction hr with
  | start => exact .start
  | call hr ha hs ih =>
    obtain ⟨a, ac, cf, hrec, -⟩ := ih.preserved recoverable_preserved
      ⟨_, _, _, empty_recoverable, empty_kept⟩
    exact ih.call ⟨ha.1, hrec.kept.keepsCommitted ha.1 ha.2⟩ hs

/-- Of two rows one is committed; the table that is created after them lists the page of both. -/
theorem committed_row_recovered : ∃ h s,
    (recoveryMachine.restrict KeepsCommitted).Run (Database.empty, Database.empty) h s ∧
    h.map Prod.fst = [.createTable (str "b") [⟨str "x", .integer⟩],
      .insert (str "a") [str "8"], .commit, .insert (str "a") [str "7"],
      .createTable (str "a") [⟨str "x", .integer⟩]] ∧
    (s.1.tableRows (str "a")).map (fun x => x.2.length) = some 2 ∧
    (s.2.tableRows (str "a")).map (fun x => x.2.length) = some 1 ∧ s.1.Recovers s.2 := by
  have heval : ((recoveryMachine.restrict StaysSmall).play
      [.createTable (str "a") [⟨str "x", .integer⟩], .insert (str "a") [str "7"], .commit,
        .insert (str "a") [str "8"], .createTable (str "b") [⟨str "x", .integer⟩]] []
        (Database.empty, Database.empty)).map (fun x =>
          ((x.2.1.tableRows (str "a")).map fun y => y.2.length,
            (x.2.2.tableRows (str "a")).map fun y => y.2.length)) = some (some 2, some 1) := by
    decide +kernel
  obtain ⟨⟨h, s⟩, hplay, hrows⟩ := Option.map_eq_some_iff.mp heval
  obtain ⟨hrows, hrows'⟩ := Prod.mk.inj hrows
  have hrun := keepsCommitted_of_small (Machine.Run.start.play hplay)
  exact ⟨h, s, hrun, Machine.play_calls hplay, hrows, hrows', recovers_last_commit hrun⟩

/-! A row that was not committed. -/

theorem tableRows_ne_nil {oid : ℕ} {info : TableInfo} {it : TableIterator} {rm : RecordManager}
    (hget : db.catalog.getTable name = .ok (oid, info))
    (hbegin : TableManager.begin info.table.recordManager = some (it, rm))
    (hit : it.rid ≠ invalidRecordId) {x : Schema × List (RecordId × List UInt8)}
    (hx : db.tableRows name = some x) : x.2 ≠ [] := by
  unfold tableRows at hx
  rw [hget] at hx
  obtain ⟨⟨rows, t⟩, hscan, rfl⟩ := Option.map_eq_some_iff.mp hx
  obtain ⟨⟨r, t'⟩, hscan, hrows⟩ := Option.bind_eq_some_iff.mp hscan
  unfold TableManager.scan at hscan
  rw [hbegin, Option.bind_eq_bind, Option.bind_some] at hscan
  obtain ⟨⟨r', rm'⟩, hfrom, heq⟩ := Option.bind_eq_some_iff.mp hscan
  cases heq
  unfold TableManager.scanFrom at hfrom
  rw [if_neg hit] at hfrom
  obtain ⟨⟨row, rm₁⟩, -, hfrom⟩ := Option.bind_eq_some_iff.mp hfrom
  cases row with
  | error e => cases e
  | ok row =>
    obtain ⟨⟨it', rm₂⟩, -, hfrom⟩ := Option.bind_eq_some_iff.mp hfrom
    obtain ⟨⟨rest, rm₃⟩, -, hfrom⟩ := Option.bind_eq_some_iff.mp hfrom
    cases hfrom
    cases rest with
    | error e => cases e
    | ok rest =>
      cases hrows
      exact List.cons_ne_nil _ _

/-- The columns of a table of which a page holds one row. -/
def wideColumns : List Column := List.replicate 511 ⟨str "x", .integer⟩

/-- The `COMMIT` has no row. -/
theorem uncommitted_row_recovered : ∃ h s,
    recoveryMachine.Run (Database.empty, Database.empty) h s ∧
    h.map Prod.fst = .createTable (str "b") [] ::
      List.replicate 11 (.insert (str "a") [str "7"]) ++
        [.commit, .createTable (str "a") wideColumns] ∧
    ¬ s.1.Recovers s.2 := by
  have heval : ((recoveryMachine.play ([Statement.createTable (str "a") wideColumns,
      Statement.commit] ++ List.replicate 11 (Statement.insert (str "a") [str "7"]) ++
      [Statement.createTable (str "b") []]) [] (Database.empty, Database.empty)).bind fun x =>
        (x.2.1.restart.catalog.getTable (str "a")).toOption.bind fun e =>
          (TableManager.begin e.2.table.recordManager).map fun y =>
            (x.1.map Prod.fst, (x.2.2.catalog.tableNames.lookup (str "a")).isSome,
              (x.2.2.tableRows (str "a")).map (fun z => z.2.isEmpty), y.1.rid)) =
      some (Statement.createTable (str "b") [] ::
        List.replicate 11 (Statement.insert (str "a") [str "7"]) ++
          [Statement.commit, Statement.createTable (str "a") wideColumns], true, some true,
            ⟨0, 0⟩) := by
    decide +kernel
  obtain ⟨⟨h, s⟩, hplay, heval⟩ := Option.bind_eq_some_iff.mp heval
  obtain ⟨⟨oid, info⟩, hget, heval⟩ := Option.bind_eq_some_iff.mp heval
  obtain ⟨⟨it, rm⟩, hbegin, heq⟩ := Option.map_eq_some_iff.mp heval
  simp only [Prod.mk.injEq] at heq
  obtain ⟨hh, hname, hrows, hrid⟩ := heq
  have hrun := Machine.Run.start.play hplay
  refine ⟨h, s, hrun, hh, fun hrec => ?_⟩
  obtain ⟨oid₀, hname⟩ := Option.isSome_iff_exists.mp hname
  obtain ⟨x, hx, hx'⟩ := hrec.committed _ _ hname
  rw [hx] at hrows
  have hget' : s.1.restart.catalog.getTable (str "a") = .ok (oid, info) := by
    cases hg : s.1.restart.catalog.getTable (str "a") with
    | error e =>
      rw [hg] at hget
      cases hget
    | ok y =>
      rw [hg] at hget
      exact congrArg Except.ok (Option.some.inj hget)
  exact tableRows_ne_nil hget' hbegin (by rw [hrid]; decide) hx'
    (List.isEmpty_iff.mp (Option.some.inj hrows))

end Database
end PragmaticDB
