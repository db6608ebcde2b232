import PragmaticDB.Lib.Rollback
import PragmaticDB.Query.TablesApart
import PragmaticDB.Query.WriteOrder
import PragmaticDB.Storage.CleanPools
import PragmaticDB.Storage.SmallPools

/-!
A database as a sequence of transactions. When no table has more pages than its pool has frames,
and tables are created only when nothing else is unsaved, a process that is killed loses the
statements since the last `COMMIT` or `CREATE TABLE`, all of them and nothing else.
-/
namespace PragmaticDB
open CallMachine Executor

/-- A kill does not take back what was done up to this statement. -/
def Statement.lasts : Statement → QueryResult → Bool
  | .commit, _ => true
  | .createTable _ _, r => r.success
  | _, _ => false

namespace Database
variable {db db' t u : Database} {a a₀ : HeapDatabase} {c : Catalog} {stmt : Statement}
  {r : QueryResult}

/-- No table has more pages than frames. -/
def Small (db : Database) : Prop :=
  ∀ oid info, db.catalog.tables.lookup oid = some info → info.table.getNextPageId ≤ 10

instance (db : Database) : Decidable db.Small :=
  decidable_of_iff (∀ e ∈ db.catalog.tables.entries, e.2.table.getNextPageId ≤ 10)
    ⟨fun h oid info hl => h ⟨oid, info⟩ (AList.mem_lookup_iff.mp hl),
      fun h e he => h e.1 e.2 (AList.mem_lookup_iff.mpr he)⟩

/-- No page has changes that its file does not have. -/
def Clean (db : Database) : Prop :=
  ∀ oid info, db.catalog.tables.lookup oid = some info → info.table.recordManager.pool.Clean

instance (db : Database) : Decidable db.Clean :=
  decidable_of_iff (∀ e ∈ db.catalog.tables.entries, e.2.table.recordManager.pool.Clean)
    ⟨fun h oid info hl => h ⟨oid, info⟩ (AList.mem_lookup_iff.mp hl),
      fun h e he => h e.1 e.2 (AList.mem_lookup_iff.mpr he)⟩

/-- Statements, and a process that is killed between two of them. -/
def killMachine : Machine Database Event (Option QueryResult) where
  step := sessionMachine.step
  Allowed _ db e :=
    match e with
    | .statement stmt => db.Admits stmt ∧
        (∀ r db', execute db stmt = some (r, db') → db'.Small) ∧ (db.CreatesTable stmt → db.Clean)
    | .restart => True

instance (h : List (Event × Option QueryResult)) (db : Database) (e : Event) :
    Decidable (killMachine.Allowed h db e) :=
  match e with
  | .statement stmt => decidable_of_iff (db.Admits stmt ∧
      (∀ x ∈ execute db stmt, x.2.Small) ∧ (db.CreatesTable stmt → db.Clean))
      (and_congr_right fun _ => and_congr_left fun _ =>
        ⟨fun h r db' he => h (r, db') he, fun h x hx => h x.1 x.2 hx⟩)
  | .restart => isTrue trivial

/-- The statement with its result, if it is not a kill. -/
def statementOf : Event × Option QueryResult → Option (Statement × QueryResult)
  | (.statement stmt, some r) => some (stmt, r)
  | _ => none

/-! The files. -/

theorem restart_congr (hdb : db'.catalogDb = db.catalogDb) (hfiles : db'.fileOf = db.fileOf)
    (hs : db'.saves = db.saves) : db'.restart = db.restart := by
  unfold Database.restart
  rw [hdb, hfiles, hs]

theorem Records.restart_fileOf (hc : db.Records c) : db.restart.fileOf = db.fileOf := by
  funext oid
  have hl := hc.lookup oid
  unfold Database.fileOf at hl ⊢
  rw [hl]
  cases hlook : c.tables.lookup oid with
  | none => rfl
  | some info =>
    have hown := hc.consistent.own oid info hlook
    change db.fileOf info.oid = db.fileOf oid
    rw [hown]

/-- A process that did nothing leaves the files as it found them. -/
theorem Records.restart_restart (hc : db.Records c) : db.restart.restart = db.restart :=
  restart_congr rfl hc.restart_fileOf rfl

/-- Without dirty pages the files have all pages. -/
theorem Kept.flushed (hk : Kept db a) (hdb : db.catalogDb = some db.catalog.saveCatalog)
    (hclean : db.Clean) : Flushed db a where
  catalogDb := hdb
  pages oid t ht p hp := by
    obtain ⟨info, hl, hi⟩ := hk.refines.info ht
    rw [fileOf_of_lookup hl]
    exact (hi.heap.has p hp).saved (hclean oid info hl p)

theorem Clean.create (hc : db.Clean) (hs : db.saves = []) {name : List UInt8}
    (hn : db.catalog.tableNames.lookup name = none) (schema : Schema) :
    (db.createTable name schema).2.Clean := by
  intro oid info hl
  rw [createTable_lookup hs hn] at hl
  split_ifs at hl with ho
  · cases hl
    exact BufferPoolManager.new_clean 10 _
  · exact hc oid info hl

/-- Only the files of tables can change. -/
theorem setTable_fileOf {k : ℕ} {tm : TableManager}
    (h : ∀ oid info, (db.setTable k tm).catalog.tables.lookup oid = some info →
      info.table.recordManager.pool.diskManager.file = db.fileOf oid) :
    (db.setTable k tm).fileOf = db.fileOf := by
  funext oid
  cases hl : (db.setTable k tm).catalog.tables.lookup oid with
  | some info =>
    rw [fileOf_of_lookup hl]
    exact h oid info hl
  | none =>
    have hnone := hl
    rw [setTable_lookup, Option.map_eq_none_iff] at hnone
    unfold Database.fileOf
    rw [hl, hnone]
    rfl

/-- Statements that leave the catalog file alone. -/
theorem Leaves.table_or_same (hl : db.Leaves stmt db') (hno : ¬ db.SavesCatalog stmt) :
    db' = db ∨ ∃ oid t, db' = db.setTable oid t := by
  cases hl with
  | same => exact .inl rfl
  | table _ oid t => exact .inr ⟨oid, t, rfl⟩
  | create hn => exact absurd (.inr hn) hno
  | commit => exact absurd (.inl rfl) hno

/-- They make only calls that write no page on purpose. -/
theorem Refines.calls {J : ℕ → RecordManager → HeapFile → Prop} (hJ : ∀ oid, Calls (J oid))
    (hr : db.Refines J a) (hs : a.Sound) (hno : ¬ db.SavesCatalog stmt)
    (he : Executor.execute db stmt = some (.ok r, db')) (hin : db'.InRange) :
    ∃ a', db'.Refines J a' := by
  have hrel : db' = db ∨ Option.Rel (Agree J) (Executor.execute db stmt) (a.execute stmt) := by
    cases stmt with
    | commit => exact absurd (.inl rfl) hno
    | createTable name columns =>
      obtain ⟨oid, hn⟩ := Option.ne_none_iff_exists'.mp fun hn => hno (.inr hn)
      change Executor.executeCreate db name columns = _ at he
      unfold Executor.executeCreate createTable at he
      rw [hn] at he
      cases he
      exact .inl rfl
    | insert name raws => exact .inr (hr.executeInsert hJ hs name raws)
    | select name => exact .inr (hr.executeSelect (fun oid => (hJ oid).toReadCalls) hs name)
    | delete name column value => exact .inr (hr.executeDelete hJ hs name column value)
  rcases hrel with rfl | hrel
  · exact ⟨a, hr⟩
  · rw [he] at hrel
    obtain ⟨⟨r', a'⟩, -, hagree⟩ := rel_some_left hrel
    exact ⟨a', hagree.2.2 (hagree.inRange.mp hin)⟩

/-- With more frames than pages, statements other than `CREATE TABLE` and `COMMIT` write no file. -/
theorem Kept.files_stay (hk : Kept db a) (ha : db.Admits stmt)
    (he : db.answer stmt = some (r, db')) (hno : ¬ db.SavesCatalog stmt) (hsmall : db'.Small) :
    db'.fileOf = db.fileOf := by
  have hx := answer_eq_some.mp he
  have hr : db.Refines (fun oid => RecordManager.Spares (db.fileOf oid)) a := by
    apply hk.refines.upgrade
    intro oid info t' hl _ hi
    exact ⟨hi, fun _ => (fileOf_of_lookup hl).symm⟩
  obtain ⟨a', hr'⟩ := hr.calls (fun oid => (RecordManager.spares_calls (db.fileOf oid)).calls)
    hk.good.sound hno hx (ha.2 _ _ hx)
  rcases (execute_leaves hk.refines.saves hx).table_or_same hno with rfl | ⟨k, t, rfl⟩
  · rfl
  apply setTable_fileOf
  intro oid info hl
  obtain ⟨t', -, hi⟩ := hr'.table hl
  have hnext : info.table.getNextPageId = t'.heap.next := hi.heap.refines.next
  exact hi.heap.file (hnext ▸ hsmall oid info hl)

/-- What lasts is what writes the catalog file. -/
theorem lasts_iff (hs : db.saves = []) (he : db.answer stmt = some (r, db')) :
    stmt.lasts r = true ↔ db.SavesCatalog stmt := by
  have hx := answer_eq_some.mp he
  cases stmt with
  | commit => exact iff_of_true rfl (.inl rfl)
  | createTable name columns =>
    change executeCreate db name columns = _ at hx
    unfold executeCreate at hx
    cases hn : db.catalog.tableNames.lookup name with
    | none =>
      have hok := (createTable_saved hs hn (Schema.new columns)).1
      generalize db.createTable name (Schema.new columns) = y at hok hx
      obtain ⟨y, db₁⟩ := y
      obtain rfl : y = .ok () := hok
      cases hx
      exact iff_of_true rfl (.inr hn)
    | some oid =>
      unfold createTable at hx
      rw [hn] at hx
      cases hx
      refine iff_of_false Bool.false_ne_true ?_
      rintro (h | h)
      · cases h
      · rw [CreatesTable, hn] at h
        cases h
  | insert name raws => simp [Statement.lasts, SavesCatalog, CreatesTable]
  | select name => simp [Statement.lasts, SavesCatalog, CreatesTable]
  | delete name column value => simp [Statement.lasts, SavesCatalog, CreatesTable]

/-! Runs. -/

/-- In memory the database has what `t` has, and in its files what `u` has. -/
def Remembers (db t u : Database) : Prop :=
  ∃ a a₀ c, Kept db a ∧ Kept t a ∧ Kept db.restart a₀ ∧ Kept u a₀ ∧ db.Records c

theorem empty_remembers : Remembers Database.empty Database.empty Database.empty :=
  ⟨_, _, _, empty_kept, empty_kept, empty_kept, empty_kept, empty_records⟩

/-- A killed process leaves what the files have. -/
theorem Remembers.killed (hm : Remembers db t u) : Remembers db.restart u u := by
  obtain ⟨a, a₀, c, -, -, hk, hu, hc⟩ := hm
  refine ⟨a₀, a₀, c, hk, hu, ?_, hu, hc.congr rfl⟩
  rw [hc.restart_restart]
  exact hk

/-- After a `COMMIT` and a `CREATE TABLE` the files have everything. -/
theorem Kept.lasting (hk : Kept db a) (he : db.answer stmt = some (r, db'))
    (hclean : db.CreatesTable stmt → db.Clean) (hsaves : db.SavesCatalog stmt)
    {a' : HeapDatabase} (ha' : a.execute stmt = some (.ok r, a')) (hk' : Kept db' a') :
    Kept db'.restart a' ∧ db'.Records db'.catalog := by
  have hflushed : Flushed db' a' := by
    cases execute_leaves hk.refines.saves (answer_eq_some.mp he) with
    | same hno => exact absurd hsaves hno
    | table hno => exact absurd hsaves hno
    | create hn =>
      have hs := hk.refines.saves
      exact hk'.flushed (createTable_saved hs hn _).2 ((hclean hn).create hs hn _)
    | commit =>
      obtain ⟨r₀, db₀, hans, -, hf⟩ := hk.commit
      obtain ⟨-, rfl⟩ := Prod.mk.inj (Option.some.inj (he.symm.trans hans))
      cases ha'
      exact hf
  exact ⟨hk'.restart hflushed, hk'.records hflushed.catalogDb⟩

/-- A statement has the result that it has without kills, and lasts if it is to. -/
theorem Remembers.called (hm : Remembers db t u) (ha : db.Admits stmt)
    (he : db.answer stmt = some (r, db')) (hsmall : db'.Small)
    (hclean : db.CreatesTable stmt → db.Clean) : t.Admits stmt ∧
      ∃ t', t.answer stmt = some (r, t') ∧ Remembers db' t' (if stmt.lasts r then t' else u) := by
  obtain ⟨a, a₀, c, hk, ht, hkr, hu, hc⟩ := hm
  have hx := answer_eq_some.mp he
  obtain ⟨a', ha', hk'⟩ := hk.executed ha hx
  obtain ⟨hadmits, -⟩ := hk.same ht ha
  obtain ⟨t', hxt, -⟩ := ht.refines.executes ht.good ha'
  obtain ⟨a₂, ha₂, ht'⟩ := ht.executed hadmits hxt
  obtain ⟨-, rfl⟩ := Prod.mk.inj (Option.some.inj (ha'.symm.trans ha₂))
  refine ⟨hadmits, t', answer_eq_some.mpr hxt, ?_⟩
  have hlasts := lasts_iff hk.refines.saves he
  by_cases hsaves : db.SavesCatalog stmt
  · rw [if_pos (hlasts.mpr hsaves)]
    obtain ⟨hkr', hc'⟩ := hk.lasting he hclean hsaves ha' hk'
    exact ⟨a', a', _, hk', ht', hkr', ht', hc'⟩
  · rw [if_neg (mt hlasts.mp hsaves)]
    have hdb : db'.catalogDb = db.catalogDb := by
      rcases (execute_leaves hk.refines.saves hx).table_or_same hsaves with rfl | ⟨k, tm, rfl⟩
      · rfl
      · rfl
    have hrestart : db'.restart = db.restart := restart_congr hdb
      (hk.files_stay ha he hsaves hsmall) (hk'.refines.saves.trans hk.refines.saves.symm)
    refine ⟨a', a₀, c, hk', ht', ?_, hu, hc.congr hdb⟩
    rw [hrestart]
    exact hkr

theorem killMachine_transactional :
    killMachine.Transactional statementOf statementMachine Statement.lasts Remembers where
  killed h db t u e o db' hm _ hs hcall := by
    cases e with
    | restart =>
      cases hs
      exact hm.killed
    | statement stmt =>
      obtain ⟨x, -, heq⟩ := Option.map_eq_some_iff.mp hs
      cases heq
      cases hcall
  called h db t u e o db' stmt r hm ha hs hcall := by
    cases e with
    | restart => cases hcall
    | statement stmt' =>
      obtain ⟨⟨r', db₁⟩, he, heq⟩ := Option.map_eq_some_iff.mp hs
      cases heq
      cases hcall
      obtain ⟨hadm, hsmall, hclean⟩ := ha
      obtain ⟨hadmits, t', ht', hm'⟩ :=
        hm.called hadm he (hsmall _ _ (answer_eq_some.mp he)) hclean
      exact ⟨t', fun _ => hadmits, ht', hm'⟩

/-- The statements that no kill has taken back. -/
def lasting (h : List (Event × Option QueryResult)) : List (Statement × QueryResult) :=
  (ledger Statement.lasts (h.map statementOf)).1

/-- However often the process is killed, the statements that are not taken back have the results
they have in a session without kills that has only these, and so does every statement to come. -/
theorem kills_roll_back {h : List (Event × Option QueryResult)}
    (hr : killMachine.Run Database.empty h db) :
    ∃ db', statementMachine.Run Database.empty (lasting h) db' ∧
      (∀ name, db.tableRows name = db'.tableRows name) ∧
      ∀ stmt, db.Admits stmt → db'.Admits stmt ∧
        (execute db stmt).map Prod.fst = (execute db' stmt).map Prod.fst := by
  obtain ⟨t, u, hrun, -, a, a₀, c, hk, ht, -⟩ :=
    killMachine_transactional.run empty_remembers hr
  refine ⟨t, hrun, fun name => ?_, fun stmt ha => ?_⟩
  · rw [hk.tableRows_eq, ht.tableRows_eq]
  · obtain ⟨hadmits, hrel⟩ := hk.same ht ha
    refine ⟨hadmits, ?_⟩
    generalize execute db stmt = x at hrel ⊢
    generalize execute t stmt = y at hrel ⊢
    cases hrel with
    | none => rfl
    | some hxy => exact congrArg some hxy.1

/-- Of two rows the second is not committed when the process is killed. -/
theorem uncommitted_row_forgotten : ∃ h db db', killMachine.Run Database.empty h db ∧
    h.map Prod.fst = [.restart, .statement (.insert (str "t") [str "8"]), .statement .commit,
      .statement (.insert (str "t") [str "7"]),
      .statement (.createTable (str "t") [⟨str "x", .integer⟩])] ∧
    (lasting h).map Prod.fst = [.commit, .insert (str "t") [str "7"],
      .createTable (str "t") [⟨str "x", .integer⟩]] ∧
    statementMachine.Run Database.empty (lasting h) db' ∧
    db.tableRows (str "t") = db'.tableRows (str "t") := by
  have heval : (killMachine.play [.statement (.createTable (str "t") [⟨str "x", .integer⟩]),
      .statement (.insert (str "t") [str "7"]), .statement .commit,
      .statement (.insert (str "t") [str "8"]), .restart] [] Database.empty).map
        (fun x => (lasting x.1).map Prod.fst) =
      some [.commit, .insert (str "t") [str "7"],
        .createTable (str "t") [⟨str "x", .integer⟩]] := by
    decide +kernel
  obtain ⟨⟨h, db⟩, hplay, hlasting⟩ := Option.map_eq_some_iff.mp heval
  have hrun := Machine.Run.start.play hplay
  obtain ⟨db', hrun', hrows, -⟩ := kills_roll_back hrun
  exact ⟨h, db, db', hrun, Machine.play_calls hplay, hlasting, hrun', hrows _⟩

end Database
end PragmaticDB
