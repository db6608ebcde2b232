import PragmaticDB.Query.Transactions

/-!
Sessions that only read. After a `COMMIT` neither `SELECT`s nor further `COMMIT`s nor restarts
write to a table file, however many pages go through the pools.
-/
namespace PragmaticDB
open CallMachine Executor

/-- Nothing that changes a table. -/
def Event.Reads : Event → Prop
  | .statement (.select _) | .statement .commit | .restart => True
  | _ => False

instance (e : Event) : Decidable e.Reads :=
  match e with
  | .restart => isTrue trivial
  | .statement .commit => isTrue trivial
  | .statement (.select _) => isTrue trivial
  | .statement (.createTable _ _) => isFalse id
  | .statement (.insert _ _) => isFalse id
  | .statement (.delete _ _ _) => isFalse id

/-! The pages. -/

namespace RecordManager
variable {rm : RecordManager} {h : HeapFile}

/-- The pages of `h`, none of them changed, over this file. -/
structure Rests (file : Option File) (rm : RecordManager) (h : HeapFile) : Prop where
  refines : rm.Refines h
  clean : rm.pool.Clean
  file : rm.pool.diskManager.file = file

theorem Rests.visit {file : Option File} {α : Type} {p : ℤ} {absent x : α}
    {act : PageData → Option (Visit α)} {rm' : RecordManager} (hr : Rests file rm h)
    (hact : ∀ d v, act d = some v → v.dirty = false)
    (he : rm.visit p absent act = some (x, rm')) (hr' : rm'.Refines h) : Rests file rm' h := by
  obtain ⟨hclean, hdisk⟩ := visit_clean hr.clean hr.refines.quiet.toShape hact he
  exact ⟨hr', hclean, (congrArg DiskManager.file hdisk).trans hr.file⟩

theorem rests_reads (file : Option File) : ReadCalls (Rests file) where
  next hr := hr.refines.next
  reading {h} hg :=
    { ids := fun _ hr => hr.refines.ids
      get := by
        intro rm rid hr hp
        obtain ⟨rm', he, hr'⟩ := (refines_reading hg).get rm rid hr.refines hp
        refine ⟨rm', he, ?_⟩
        unfold RecordManager.get at he
        rw [if_neg (ne_invalid_of_nonneg (hr.refines.range _ hp).1)] at he
        exact hr.visit (fun _ _ hv => getVisit_clean hv) he hr'
      getSlotCount := by
        intro rm p hr hp
        obtain ⟨rm', he, hr'⟩ := (refines_reading hg).getSlotCount rm p hr.refines hp
        refine ⟨rm', he, hr.visit (fun d v hv => ?_) he hr'⟩
        cases hv
        rfl }

end RecordManager

theorem HeapDatabase.executeSelect_same {a a' : HeapDatabase} {name : List UInt8}
    {x : Except Exn QueryResult} (he : a.executeSelect name = some (x, a')) : a' = a := by
  obtain ⟨⟨y, a₁⟩, hy, heq⟩ := Option.map_eq_some_iff.mp he
  cases heq
  cases hg : a.getTable name with
  | error e =>
    rw [hg] at hy
    cases hy
    rfl
  | ok entry =>
    rw [hg] at hy
    obtain ⟨rows, -, hy⟩ := Option.bind_eq_some_iff.mp hy
    cases hy
    rfl

namespace Database
variable {db db' : Database} {a : HeapDatabase} {r : QueryResult} {files : ℕ → Option File}

/-! Flushes. -/

theorem Kept.committed_clean (hk : Kept db a) : db.committed.Clean := by
  intro oid info hl
  change (AssocList.mapVal _ db.catalog.tables).lookup oid = some info at hl
  rw [AssocList.lookup_mapVal] at hl
  obtain ⟨info', hl', rfl⟩ := Option.map_eq_some_iff.mp hl
  obtain ⟨t, -, hi⟩ := hk.refines.table hl'
  exact hi.heap.quiet.toSound.flushAllPages_clean

theorem Clean.flushTables (hc : db.Clean) : db.catalog.flushTables = db.catalog := by
  have htables : AssocList.mapVal (fun _ (info : TableInfo) =>
      { info with table := info.table.flush }) db.catalog.tables = db.catalog.tables := by
    apply AssocList.mapVal_eq_self
    intro oid info hl
    have hpool := (hc oid info hl).flushAllPages
    unfold TableManager.flush RecordManager.flush
    rw [hpool]
  unfold Catalog.flushTables
  simp only [htables]

/-! What each event does. -/

/-- The files have all there is, and are these. -/
structure Settled (files : ℕ → Option File) (db : Database) (a : HeapDatabase) : Prop where
  kept : Kept db a
  restarted : Kept db.restart a
  records : ∃ c, db.Records c
  clean : db.Clean
  files : db.fileOf = files

theorem Kept.settled (hk : Kept db a) : ∃ r db', db.answer .commit = some (r, db') ∧
    a.execute .commit = some (.ok r, a) ∧ db' = db.committed ∧ Settled db'.fileOf db' a := by
  obtain ⟨r, db', hans, hk', hf⟩ := hk.commit
  have he := answer_eq_some.mp hans
  have hdb : db' = db.committed := by
    cases execute_leaves hk.refines.saves he with
    | same hno => exact absurd (.inl rfl) hno
    | table hno => exact absurd (.inl rfl) hno
    | commit => rfl
  have hrel := hk.refines.statement hk.good .commit
  rw [he] at hrel
  obtain ⟨⟨x, a'⟩, ha', rfl, -⟩ := rel_some_left hrel
  refine ⟨r, db', hans, ?_, hdb, hk', hk'.restart hf, ⟨_, hk'.records hf.catalogDb⟩, ?_, rfl⟩
  · rw [ha']
    cases ha'
    rfl
  · rw [hdb]
    exact hk.committed_clean

theorem Settled.commit (hs : Settled files db a) (he : db.answer .commit = some (r, db')) :
    a.execute .commit = some (.ok r, a) ∧ Settled files db' a := by
  obtain ⟨r', db₁, hans, ha, hdb, hs'⟩ := hs.kept.settled
  obtain ⟨rfl, rfl⟩ := Prod.mk.inj (Option.some.inj (he.symm.trans hans))
  have hfiles : db'.fileOf = files := by
    rw [hdb, ← hs.files]
    unfold committed Database.fileOf
    simp only [hs.clean.flushTables]
  exact ⟨ha, { hs' with files := hfiles }⟩

theorem Settled.select (hs : Settled files db a) {name : List UInt8}
    (he : db.answer (.select name) = some (r, db')) :
    a.execute (.select name) = some (.ok r, a) ∧ Settled files db' a := by
  have hx := answer_eq_some.mp he
  have hk := hs.kept
  have hrests : db.Refines (fun oid => RecordManager.Rests (files oid)) a := by
    apply hk.refines.upgrade
    intro oid info t hl _ hi
    refine ⟨hi, hs.clean oid info hl, ?_⟩
    rw [← hs.files, fileOf_of_lookup hl]
  have hrel := hrests.executeSelect (fun oid => RecordManager.rests_reads (files oid))
    hk.good.sound name
  have hselect : Executor.executeSelect db name = some (.ok r, db') := hx
  rw [hselect] at hrel
  obtain ⟨⟨x, a'⟩, ha, rfl, -, hr'⟩ := rel_some_left hrel
  obtain rfl := HeapDatabase.executeSelect_same ha
  have hr := hr' fun oid t ht => (hk.good oid t ht).heap.next_le
  have hk' : Kept db' a' := ⟨hr.upgrade fun _ _ _ _ _ hi => hi.refines, hk.good, hk.sized⟩
  have hclean : db'.Clean := by
    intro oid info hl
    obtain ⟨t, -, hi⟩ := hr.table hl
    exact hi.heap.clean
  have hno : ¬ db.SavesCatalog (.select name) := by simp [SavesCatalog, CreatesTable]
  refine ⟨ha, ?_⟩
  rcases (execute_leaves hk.refines.saves hx).table_or_same hno with rfl | ⟨k, tm, rfl⟩
  · exact hs
  · have hfiles : (db.setTable k tm).fileOf = db.fileOf := by
      apply setTable_fileOf
      intro oid info hl
      obtain ⟨t, -, hi⟩ := hr.table hl
      rw [hs.files]
      exact hi.heap.file
    have hrestart : (db.setTable k tm).restart = db.restart := restart_congr rfl hfiles rfl
    obtain ⟨c, hc⟩ := hs.records
    exact ⟨hk', hrestart ▸ hs.restarted, ⟨c, hc.congr rfl⟩, hclean, hfiles.trans hs.files⟩

theorem Settled.restart (hs : Settled files db a) : Settled files db.restart a := by
  obtain ⟨c, hc⟩ := hs.records
  refine ⟨hs.restarted, ?_, ⟨c, hc.congr rfl⟩, ?_, hc.restart_fileOf.trans hs.files⟩
  · rw [hc.restart_restart]
    exact hs.restarted
  · intro oid info hl
    rw [hc.lookup] at hl
    obtain ⟨info', -, rfl⟩ := Option.map_eq_some_iff.mp hl
    exact nofun

/-! Runs. -/

/-- Nothing but reads, with restarts at any time. -/
def readMachine : Machine Database Event (Option QueryResult) where
  step := sessionMachine.step
  Allowed _ _ e := e.Reads

instance (h : List (Event × Option QueryResult)) (db : Database) (e : Event) :
    Decidable (readMachine.Allowed h db e) := inferInstanceAs (Decidable e.Reads)

/-- All statements have the results that they have on these pages. -/
theorem readMachine_preserves (files : ℕ → Option File) (a : HeapDatabase) :
    readMachine.Preserves fun h db => Settled files db a ∧
      ∀ stmt r, (.statement stmt, some r) ∈ h → a.execute stmt = some (.ok r, a) := by
  rintro h db e o db' ⟨hs, hh⟩ ha hstep
  cases e with
  | restart =>
    cases hstep
    refine ⟨hs.restart, fun stmt r hmem => ?_⟩
    rcases List.mem_cons.mp hmem with heq | hmem
    · cases heq
    · exact hh stmt r hmem
  | statement stmt =>
    obtain ⟨⟨r, db₁⟩, he, heq⟩ := Option.map_eq_some_iff.mp hstep
    cases heq
    have hread : a.execute stmt = some (.ok r, a) ∧ Settled files db₁ a := by
      cases stmt with
      | select name => exact hs.select he
      | commit => exact hs.commit he
      | insert => exact ha.elim
      | delete => exact ha.elim
      | createTable => exact ha.elim
    refine ⟨hread.2, fun stmt' r' hmem => ?_⟩
    rcases List.mem_cons.mp hmem with heq | hmem
    · cases heq
      exact hread.1
    · exact hh stmt' r' hmem

/-- After a `COMMIT` no number of reads and restarts writes to a table file; all the reads have
the results they would have had at once, and a restart finds every table as it was. -/
theorem reads_write_nothing {h : List (Event × Option QueryResult)}
    (hr : sessionMachine.Run Database.empty h db) :
    ∃ r db₁, db.answer .commit = some (r, db₁) ∧ ∀ h' db₂, readMachine.Run db₁ h' db₂ →
      db₂.fileOf = db₁.fileOf ∧ (∀ name, db₂.restart.tableRows name = db₁.tableRows name) ∧
      ∀ stmt r', (.statement stmt, some r') ∈ h' →
        (execute db₁ stmt).map Prod.fst = some (.ok r') := by
  obtain ⟨a, hk, -⟩ := hr.preserved sessionMachine_preserves ⟨_, empty_kept, nofun⟩
  obtain ⟨r, db₁, hans, -, -, hs⟩ := hk.settled
  refine ⟨r, db₁, hans, fun h' db₂ hrun => ?_⟩
  obtain ⟨hs₂, hh⟩ := hrun.preserved (readMachine_preserves _ a) ⟨hs, nofun⟩
  refine ⟨hs₂.files, fun name => ?_, fun stmt r' hmem => ?_⟩
  · rw [hs₂.restarted.tableRows_eq, hs.kept.tableRows_eq]
  · obtain ⟨db', he, -⟩ := hs.kept.refines.executes hs.kept.good (hh stmt r' hmem)
    rw [he]
    rfl

/-- One row, read before and after a restart. -/
theorem committed_row_read : ∃ h db r db₁ h' db₂, sessionMachine.Run Database.empty h db ∧
    h.map Prod.fst = [.statement (.insert (str "t") [str "7"]),
      .statement (.createTable (str "t") [⟨str "x", .integer⟩])] ∧
    db.answer .commit = some (r, db₁) ∧ readMachine.Run db₁ h' db₂ ∧
    h'.map Prod.fst = [.statement .commit, .statement (.select (str "t")), .restart,
      .statement (.select (str "t"))] ∧ db₂.fileOf = db₁.fileOf := by
  have heval : ((sessionMachine.play [.statement (.createTable (str "t") [⟨str "x", .integer⟩]),
      .statement (.insert (str "t") [str "7"])] [] Database.empty).bind fun x =>
        (x.2.answer .commit).bind fun y =>
          readMachine.play [.statement (.select (str "t")), .restart,
            .statement (.select (str "t")), .statement .commit] [] y.2).isSome = true := by
    decide +kernel
  obtain ⟨⟨h', db₂⟩, heval⟩ := Option.isSome_iff_exists.mp heval
  obtain ⟨⟨h, db⟩, hplay, heval⟩ := Option.bind_eq_some_iff.mp heval
  obtain ⟨⟨r, db₁⟩, hcommit, hread⟩ := Option.bind_eq_some_iff.mp heval
  have hrun := Machine.Run.start.play hplay
  obtain ⟨r', db₁', hcommit', hall⟩ := reads_write_nothing hrun
  obtain ⟨rfl, rfl⟩ := Prod.mk.inj (Option.some.inj (hcommit.symm.trans hcommit'))
  have hrun' := Machine.Run.start.play hread
  obtain ⟨hfiles, -⟩ := hall _ _ hrun'
  exact ⟨h, db, r, db₁, h', db₂, hrun, Machine.play_calls hplay, hcommit, hrun',
    Machine.play_calls hread, hfiles⟩

end Database
end PragmaticDB
