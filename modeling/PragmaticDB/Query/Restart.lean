import PragmaticDB.Query.DatabaseRuns
import PragmaticDB.Table.OpenedTable

/-!
Restarts. A fresh process gets its tables from the catalog file and their pages from the table
files; right after a `COMMIT` these hold all there is.
-/
namespace PragmaticDB
open ByteBlock ByteStream CallMachine Executor

/-- A table that is opened on a file with all its pages. -/
theorem restore_refines {files : TableFiles} {oid : ℕ} {h : HeapFile} (hg : h.Good)
    (hdisk : ∀ p ∈ h.ids, OnFile (files oid) p (h.page p)) :
    ((openTable files oid).restore h.ids h.next).recordManager.Refines h where
  quiet := restore_quiet files oid h.ids hg.next_nonneg hg.next_le
  ids := rfl
  next := rfl
  range := hg.range
  has p hp := by
    have hrange := hg.range p hp
    have hle := hg.next_le
    exact ⟨⟨hrange.1, by omega⟩, nofun, fun _ => hdisk p hp⟩

namespace Database
variable {db db' : Database} {a : HeapDatabase} {name : List UInt8}

theorem fileOf_of_lookup {oid : ℕ} {info : TableInfo}
    (hl : db.catalog.tables.lookup oid = some info) :
    db.fileOf oid = info.table.recordManager.pool.diskManager.file := by
  unfold fileOf
  rw [hl]

theorem Kept.consistent (hk : Kept db a) : db.catalog.Consistent := by
  refine ⟨hk.refines.own, fun name oid => ?_⟩
  rw [hk.refines.names, hk.sized.named]
  constructor
  · rintro ⟨t, ht, rfl⟩
    obtain ⟨info, hl, hi⟩ := hk.refines.info ht
    exact ⟨info, hl, hi.name⟩
  · rintro ⟨info, hl, rfl⟩
    obtain ⟨t, ht, hi⟩ := hk.refines.table hl
    exact ⟨t, ht, hi.name.symm⟩

theorem Kept.fits (hk : Kept db a) : db.catalog.Fits := by
  have hnext := hk.sized.nextOid
  have hcount := hk.sized.count
  refine ⟨by rw [hk.refines.count]; omega, hk.refines.next ▸ hnext, fun oid info hl => ?_⟩
  obtain ⟨t, ht, hi⟩ := hk.refines.table hl
  obtain ⟨hname, hcols, hcol⟩ := hk.sized.tables oid t ht
  have hg := (hk.good oid t ht).heap
  have hids : info.table.getPageIds = t.heap.ids := hi.heap.ids
  have hpid : info.table.getNextPageId = t.heap.next := hi.heap.next
  have hoid : oid < a.nextOid := by
    by_contra hle
    rw [hk.sized.fresh oid (not_lt.mp hle)] at ht
    cases ht
  have hlen : t.heap.ids.length ≤ 524288 := by
    have hsub : t.heap.ids ⊆ (List.range 524288).map Int.ofNat := by
      intro p hp
      obtain ⟨h0, hlt⟩ := hg.range p hp
      have hle := hg.next_le
      exact List.mem_map.mpr ⟨p.toNat, List.mem_range.mpr (by omega), by simp; omega⟩
    simpa using (hg.nodup.subperm hsub).length_le
  have h0 := hg.next_nonneg
  have hle := hg.next_le
  refine ⟨hi.name ▸ hname, ?_, hi.schema ▸ hcols, hi.schema ▸ hcol, ?_, fun p hp => ?_, ?_⟩
  · rw [hk.refines.own oid info hl]
    omega
  · rw [hids]
    omega
  · rw [hids] at hp
    obtain ⟨hp0, hlt⟩ := hg.range p hp
    exact ⟨by omega, by omega⟩
  · rw [hpid]
    exact ⟨by omega, by omega⟩

/-- The catalog file is up to date, and so are all pages in the table files. -/
structure Flushed (db : Database) (a : HeapDatabase) : Prop where
  catalogDb : db.catalogDb = some db.catalog.saveCatalog
  pages : ∀ oid t, a.tables oid = some t → ∀ p ∈ t.heap.ids,
    OnFile (db.fileOf oid) p (t.heap.page p)

/-- `COMMIT` leaves everything in the files. -/
theorem Kept.commit (hk : Kept db a) : ∃ r db', db.answer .commit = some (r, db') ∧
    Kept db' a ∧ Flushed db' a := by
  have hr := hk.refines
  have hflush := hr.flushTables (fun _ => refines_layer) (some db.catalog.flushTables.saveCatalog)
  refine ⟨_, _, by simp only [answer, Executor.execute, executeCommit, saveCatalog, hr.saves]; rfl,
    ⟨hflush, hk.good, hk.sized⟩, rfl, fun oid t ht p hp => ?_⟩
  obtain ⟨info, hl, hi⟩ := hr.info ht
  have hl' : db.catalog.flushTables.tables.lookup oid =
      some { info with table := info.table.flush } := by
    simp only [Catalog.flushTables, AssocList.lookup_mapVal, hl, Option.map_some]
  unfold fileOf
  simp only [hl']
  exact (hi.heap.has p hp).onDisk_flushAllPages hi.heap.quiet.toSound

theorem restart_catalog {c : Catalog} (hdb : db.catalogDb = some c.saveCatalog)
    (hc : c.Consistent) (hf : c.Fits) : db.restart.catalog = c.reloaded db.fileOf := by
  unfold Database.restart
  simp only [hdb]
  rw [Catalog.load_eq db.fileOf hc hf]

/-- A restart with everything in the files changes nothing. -/
theorem Kept.restart (hk : Kept db a) (hf : Flushed db a) : Kept db.restart a := by
  have hc := hk.consistent
  have hcat := restart_catalog hf.catalogDb hc hk.fits
  refine ⟨⟨fun oid => ?_, fun oid info hl => ?_, fun name => ?_, ?_, ?_, hk.refines.saves⟩, hk.good,
    hk.sized⟩
  · rw [hcat, hc.lookup_reloaded]
    cases hl : db.catalog.tables.lookup oid with
    | none =>
      cases ht : a.tables oid with
      | none => exact .none
      | some t =>
        obtain ⟨info, hl', -⟩ := hk.refines.info ht
        rw [hl] at hl'
        cases hl'
    | some info =>
      obtain ⟨t, ht, hi⟩ := hk.refines.table hl
      have hown := hk.refines.own oid info hl
      have hids : info.table.getPageIds = t.heap.ids := hi.heap.ids
      have hnext : info.table.getNextPageId = t.heap.next := hi.heap.next
      rw [ht]
      refine .some ⟨hi.schema, hi.name, ?_⟩
      simp only [Catalog.reopen, Catalog.listing, hids, hnext, hown]
      exact restore_refines (hk.good oid t ht).heap (hf.pages oid t ht)
  · rw [hcat, hc.lookup_reloaded] at hl
    obtain ⟨info', hl', rfl⟩ := Option.map_eq_some_iff.mp hl
    exact hk.refines.own oid info' hl'
  · rw [hcat, hc.names_reloaded]
    exact hk.refines.names name
  · rw [hcat, Catalog.nextTableOid_reloaded]
    exact hk.refines.next
  · rw [hcat, hc.length_reloaded]
    exact hk.refines.count

/-- The invariant of sessions. -/
def InSession (h : List (Event × Option QueryResult)) (db : Database) : Prop :=
  ∃ a, Kept db a ∧ (JustCommitted h → Flushed db a)

/-- The statements keep `P` of the pages. -/
def PagesKeep (P : HeapDatabase → Prop) : Prop :=
  ∀ a stmt r a', P a → a.Good → a.execute stmt = some (r, a') → a'.Good → P a'

/-- What every statement keeps of the pages, a session keeps. -/
theorem sessionMachine_pages {P : HeapDatabase → Prop} (hP : PagesKeep P) :
    sessionMachine.Preserves fun h db =>
      ∃ a, Kept db a ∧ (JustCommitted h → Flushed db a) ∧ P a := by
  rintro h db e o db' ⟨a, hk, hf, hp⟩ ha hs
  cases e with
  | restart =>
    cases hs
    exact ⟨a, hk.restart (hf ha), nofun, hp⟩
  | statement stmt =>
    obtain ⟨⟨r, db₁⟩, hans, heq⟩ := Option.map_eq_some_iff.mp hs
    cases heq
    obtain ⟨a', he', hk'⟩ := hk.executed ha (answer_eq_some.mp hans)
    by_cases hc : stmt = .commit
    · subst hc
      obtain ⟨r', db'', hans', hkc, hfc⟩ := hk.commit
      rw [hans] at hans'
      obtain ⟨rfl, rfl⟩ := Prod.mk.inj (Option.some.inj hans')
      exact ⟨a, hkc, fun _ => hfc, hp⟩
    · refine ⟨a', hk', fun hj => absurd ?_ hc, hP a stmt _ a' hp hk.good he' hk'.good⟩
      cases hj
      rfl

theorem sessionMachine_preserves : sessionMachine.Preserves InSession := by
  rintro h db e o db' ⟨a, hk, hf⟩ ha hs
  obtain ⟨a', hk', hf', -⟩ := sessionMachine_pages (P := fun _ => True)
    (fun _ _ _ _ _ _ _ _ => trivial) h db e o db' ⟨a, hk, hf, trivial⟩ ha hs
  exact ⟨a', hk', hf'⟩

/-- Two databases with the same pages answer alike, and come to the same pages. -/
theorem Kept.same (hk : Kept db a) (hk' : Kept db' a) {stmt : Statement} (ha : db.Admits stmt) :
    db'.Admits stmt ∧ Option.Rel
      (fun x y => x.1 = y.1 ∧ ∃ a', Kept x.2 a' ∧ Kept y.2 a')
      (Executor.execute db stmt) (Executor.execute db' stmt) := by
  have hrel := hk.refines.statement hk.good stmt
  have hrel' := hk'.refines.statement hk'.good stmt
  have hfit : StatementFits db'.catalog.nextTableOid stmt := by
    rw [hk'.refines.next, ← hk.refines.next]
    exact ha.1
  cases he : Executor.execute db stmt with
  | none =>
    cases ha' : a.execute stmt with
    | some y =>
      rw [he, ha'] at hrel
      cases hrel
    | none =>
      rw [ha'] at hrel'
      cases he' : Executor.execute db' stmt with
      | none => exact ⟨⟨hfit, by simp [he']⟩, .none⟩
      | some x =>
        rw [he'] at hrel'
        cases hrel'
  | some x =>
    obtain ⟨r, db₁⟩ := x
    obtain ⟨a', ha', hk₁⟩ := hk.executed ha he
    rw [he, ha'] at hrel
    rw [ha'] at hrel'
    obtain ⟨⟨r', db₁'⟩, he', hagree'⟩ := rel_some_right hrel'
    cases hrel with
    | some hagree =>
      have hin : a'.InRange := hagree.inRange.mp (ha.2 r db₁ he)
      have hadm : db'.Admits stmt := by
        refine ⟨hfit, fun r₂ db₂ he₂ => ?_⟩
        obtain ⟨rfl, rfl⟩ := Prod.mk.inj (Option.some.inj (he'.symm.trans he₂))
        exact hagree'.inRange.mpr hin
      obtain ⟨a₂, ha₂, hk₂⟩ := hk'.executed hadm he'
      obtain ⟨rfl, rfl⟩ := Prod.mk.inj (Option.some.inj (ha'.symm.trans ha₂))
      rw [he']
      exact ⟨hadm, .some ⟨rfl, a', hk₁, hk₂⟩⟩

theorem same_pages_simulate : statementMachine.Simulates statementMachine
    fun db db' => ∃ a, Kept db a ∧ Kept db' a := by
  rintro h db db' stmt ⟨a, hk, hk'⟩ ha
  obtain ⟨ha', hrel⟩ := hk.same hk' ha
  refine ⟨ha', rel_bind hrel fun x y hxy => ?_⟩
  obtain ⟨r, db₁⟩ := x
  obtain ⟨r', db₁'⟩ := y
  obtain ⟨rfl, hkept⟩ : r = r' ∧ _ := hxy
  cases r with
  | error e => exact .none
  | ok r => exact .some ⟨rfl, hkept⟩

/-- A restart right after a `COMMIT` is invisible: whatever statements follow have the results
they would have had without it. -/
theorem restart_after_commit {h : List (Event × Option QueryResult)}
    (hr : sessionMachine.Run Database.empty h db) :
    ∃ r db₁, db.answer .commit = some (r, db₁) ∧
      ∀ h' db₂, statementMachine.Run db₁ h' db₂ → ∃ db₂', statementMachine.Run db₁.restart h' db₂' ∧
        ∀ stmt, db₂.Admits stmt →
          (Executor.execute db₂ stmt).map Prod.fst = (Executor.execute db₂' stmt).map Prod.fst := by
  obtain ⟨a, hk, -⟩ := hr.preserved sessionMachine_preserves
    ⟨_, empty_kept, nofun⟩
  obtain ⟨r, db₁, hans, hk₁, hf⟩ := hk.commit
  refine ⟨r, db₁, hans, fun h' db₂ hrun => ?_⟩
  obtain ⟨db₂', hrun', a₂, hk₂, hk₂'⟩ := same_pages_simulate.run ⟨a, hk₁, hk₁.restart hf⟩ hrun
  refine ⟨db₂', hrun', fun stmt ha => ?_⟩
  obtain ⟨-, hrel⟩ := hk₂.same hk₂' ha
  generalize Executor.execute db₂ stmt = x at hrel ⊢
  generalize Executor.execute db₂' stmt = y at hrel ⊢
  cases hrel with
  | none => rfl
  | some hxy => exact congrArg some hxy.1

/-- One row, committed and read again after a restart. -/
theorem committed_row_reloaded : ∃ h db r db₁ db₂, sessionMachine.Run Database.empty h db ∧
    h.map Prod.fst = [.statement (.insert (str "t") [str "7"]),
      .statement (.createTable (str "t") [⟨str "x", .integer⟩])] ∧
    db.answer .commit = some (r, db₁) ∧ statementMachine.Run db₁.restart
      [(.select (str "t"), ⟨true, str "1 rows returned.", [[str "7"]]⟩)] db₂ := by
  have heval : ((sessionMachine.play [.statement (.createTable (str "t") [⟨str "x", .integer⟩]),
      .statement (.insert (str "t") [str "7"])] [] Database.empty).bind fun x =>
        (x.2.answer .commit).bind fun y =>
          (statementMachine.play [.select (str "t")] [] y.2).map fun z =>
            (x.1.map Prod.fst, z.1)) =
      some ([.statement (.insert (str "t") [str "7"]),
        .statement (.createTable (str "t") [⟨str "x", .integer⟩])],
        [(.select (str "t"), ⟨true, str "1 rows returned.", [[str "7"]]⟩)]) := by
    decide +kernel
  obtain ⟨⟨h, db⟩, hplay, heval⟩ := Option.bind_eq_some_iff.mp heval
  obtain ⟨⟨r, db₁⟩, hcommit, heval⟩ := Option.bind_eq_some_iff.mp heval
  obtain ⟨⟨h', db₂⟩, hselect, heval⟩ := Option.map_eq_some_iff.mp heval
  obtain ⟨hh, rfl⟩ := Prod.mk.inj heval
  have hrun := Machine.Run.start.play hplay
  obtain ⟨r', db₁', hcommit', hall⟩ := restart_after_commit hrun
  obtain ⟨rfl, rfl⟩ := Prod.mk.inj (Option.some.inj (hcommit.symm.trans hcommit'))
  obtain ⟨db₂', hrun', -⟩ := hall _ _ (Machine.Run.start.play hselect)
  exact ⟨h, db, r, db₁, db₂', hrun, hh, hcommit, hrun'⟩

/-! Sizes beyond 32 bits. -/

theorem select_missing (hn : db.catalog.tableNames.lookup name = none) :
    (execute db (.select name)).map Prod.fst =
      some (.ok ⟨false, str "Error: Table '" ++ name ++ str "' not found in catalog.", []⟩) := by
  have hget : db.catalog.getTable name = .error (.runtimeError
      (str "Error: Table '" ++ name ++ str "' not found in catalog.")) := by
    unfold Catalog.getTable
    rw [hn]
  change (executeSelect db name).map Prod.fst = _
  unfold executeSelect
  rw [hget]
  rfl

theorem select_empty {oid : ℕ} {info : TableInfo}
    (hn : db.catalog.tableNames.lookup name = some oid)
    (hl : db.catalog.tables.lookup oid = some info)
    (hids : info.table.recordManager.pageIds = []) :
    (execute db (.select name)).map Prod.fst =
      some (.ok ⟨true, str "0 rows returned.", []⟩) := by
  have hget : db.catalog.getTable name = .ok (oid, info) := by
    unfold Catalog.getTable Catalog.getTableByOid
    rw [hn]
    simp only [hl]
  change (executeSelect db name).map Prod.fst = _
  unfold executeSelect TableManager.scan TableManager.begin
  rw [hget]
  simp only [hids]
  rfl

/-- The catalog file keeps the length of a name in 32 bits. -/
theorem long_name (hlen : name.length = 4294967296) :
    ∃ r₀ db₀ r₁ db₁, Database.empty.answer (.createTable name []) = some (r₀, db₀) ∧
      db₀.answer .commit = some (r₁, db₁) ∧
      (execute db₁ (.select name)).map Prod.fst =
        some (.ok ⟨true, str "0 rows returned.", []⟩) ∧
      (execute db₁.restart (.select name)).map Prod.fst =
        some (.ok ⟨false, str "Error: Table '" ++ name ++ str "' not found in catalog.", []⟩) := by
  refine ⟨_, _, _, _, rfl, rfl, select_empty (AList.lookup_insert _) rfl rfl, select_missing ?_⟩
  have hname : Catalog.writeString name = [0, 0, 0, 0] := by
    unfold Catalog.writeString
    rw [hlen]
    rfl
  have hbytes : Catalog.saveCatalog ⟨AList.singleton 0 ⟨Schema.new [], name,
      (openTable Database.empty.fileOf 0).flush, 0⟩, AList.singleton name 0, 1⟩ =
      [1, 0, 0, 0, 1, 0, 0, 0, 0, 0, 0, 0, 0, 0, 0, 0, 0, 0, 0, 0, 0, 0, 0, 0, 0, 0, 0, 0] := by
    have htable : Catalog.writeTable ⟨0, ⟨Schema.new [], name,
        (openTable Database.empty.fileOf 0).flush, 0⟩⟩ = leBytes 4 0 ++ (Catalog.writeString name ++
          (leBytes 4 0 ++ ([] ++ (leBytes 4 0 ++ ([] ++ Catalog.writeInt32 0))))) := rfl
    have hcat : Catalog.saveCatalog ⟨AList.singleton 0 ⟨Schema.new [], name,
        (openTable Database.empty.fileOf 0).flush, 0⟩, AList.singleton name 0, 1⟩ =
        leBytes 4 1 ++ (leBytes 4 1 ++ (Catalog.writeTable ⟨0, ⟨Schema.new [], name,
          (openTable Database.empty.fileOf 0).flush, 0⟩⟩ ++ [])) := rfl
    rw [hcat, htable, hname]
    decide
  have hload : ∀ files, ((Catalog.loadCatalog files Catalog.empty).run (.ofBytes
      [1, 0, 0, 0, 1, 0, 0, 0, 0, 0, 0, 0, 0, 0, 0, 0, 0, 0, 0, 0, 0, 0, 0, 0, 0, 0, 0,
        0])).1.tableNames = AList.singleton [] 0 := fun _ => rfl
  have hne : name ≠ [] := by
    rintro rfl
    cases hlen
  change AList.lookup name ((Catalog.loadCatalog _ Catalog.empty).run (.ofBytes
    (Catalog.saveCatalog ⟨AList.singleton 0 ⟨Schema.new [], name,
      (openTable Database.empty.fileOf 0).flush, 0⟩, AList.singleton name 0, 1⟩))).1.tableNames =
        none
  rw [hbytes, hload]
  exact List.dlookup_cons_ne [] _ hne

/-- A name of `2 ^ 32` bytes comes back as the empty one. -/
theorem long_name_lost : ∃ name r₀ db₀ r₁ db₁, name = List.replicate 4294967296 97 ∧
    Database.empty.answer (.createTable name []) = some (r₀, db₀) ∧
    db₀.answer .commit = some (r₁, db₁) ∧
    (execute db₁ (.select name)).map Prod.fst = some (.ok ⟨true, str "0 rows returned.", []⟩) ∧
    (execute db₁.restart (.select name)).map Prod.fst =
      some (.ok ⟨false, str "Error: Table '" ++ name ++ str "' not found in catalog.", []⟩) := by
  obtain ⟨r₀, db₀, r₁, db₁, hall⟩ := long_name (List.length_replicate (n := 4294967296) (a := 97))
  exact ⟨_, r₀, db₀, r₁, db₁, rfl, hall⟩

end Database
end PragmaticDB
