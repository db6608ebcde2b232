import PragmaticDB.Query.CatalogFile
import PragmaticDB.Storage.HeapDisk
import PragmaticDB.Storage.RecordRuns

/-!
The order of the writes to `catalog.db` and to the table files. `COMMIT` flushes the pages before
it saves their list; `CREATE TABLE` saves the lists of all tables and flushes nothing.
-/
namespace PragmaticDB
open CallMachine Executor

theorem RecordManager.VisitCalls.calls {J : RecordManager → HeapFile → Prop}
    (hJ : RecordManager.VisitCalls J) : Calls J where
  reading hg :=
    { ids := fun _ hr => (hJ.refines hr).ids
      get := fun _ _ hr hp => hJ.get hr hg hp
      getSlotCount := fun _ _ hr hp => hJ.getSlotCount hr hp }
  delete hr _ hp := hJ.delete hr hp
  insert bytes hr _ := hJ.insert hr bytes
  next hr := (hJ.refines hr).next

theorem RecordManager.VisitRules.layer {J : RecordManager → HeapFile → Prop}
    (hJ : RecordManager.VisitRules J) : Layer J where
  toCalls := hJ.calls
  flush hr := hJ.flush hr

theorem new_saves {dm : DiskManager} (hdm : dm.plan = []) {K : Set ℤ} (hK : ∀ p, p ∉ K) :
    RecordManager.Saves K (RecordManager.new dm) HeapFile.empty where
  refines := RecordManager.new_refines hdm
  formatted p hp := by cases hp
  listed p hp := absurd hp (hK p)
  copies p hp := absurd hp (hK p)

namespace Database
variable {db db' : Database} {a : HeapDatabase} {c : Catalog} {stmt : Statement}

/-- Every page that `catalog.db` lists stands formatted in the file of its table. -/
def ListedWritten (db : Database) : Prop :=
  ∀ oid, ∀ p ∈ db.listedPages oid, InFile (db.fileOf oid) p

/-- So does every page of every table. -/
def PagesWritten (db : Database) : Prop :=
  ∀ oid, ∀ p ∈ db.catalog.pagesOf oid, InFile (db.fileOf oid) p

/-- A table is created only when the pages of the others have been written. -/
def CreatesWritten (db : Database) (stmt : Statement) : Prop :=
  db.CreatesTable stmt → db.PagesWritten

/-- The invariant of such runs: the pages that `catalog.db` lists have copies in the files. -/
structure Ordered (db : Database) (a : HeapDatabase) (c : Catalog) : Prop where
  kept : Kept db a
  records : db.Records c
  saves : db.Refines (fun oid => RecordManager.Saves {p | p ∈ c.pagesOf oid}) a
  absent : ∀ oid, a.tables oid = none → c.pagesOf oid = []

theorem empty_ordered : Ordered Database.empty HeapDatabase.empty Catalog.empty where
  kept := empty_kept
  records := empty_records
  saves :=
    { tables := fun _ => .none
      own := fun _ _ hl => by cases hl
      names := fun _ => rfl
      next := rfl
      count := rfl
      saves := rfl }
  absent _ _ := rfl

theorem Ordered.listedWritten (ho : Ordered db a c) : db.ListedWritten := by
  intro oid p hp
  rw [ho.records.listed] at hp
  cases ht : a.tables oid with
  | some t =>
    obtain ⟨info, hl, hi⟩ := ho.saves.info ht
    rw [fileOf_of_lookup hl]
    exact hi.heap.copies p hp
  | none =>
    rw [ho.absent oid ht] at hp
    cases hp

/-- A catalog file that lists what is in memory, when all of it has been written. -/
theorem Kept.ordered (hk : Kept db a) (hdb : db.catalogDb = some db.catalog.saveCatalog)
    (hw : db.PagesWritten) : Ordered db a db.catalog where
  kept := hk
  records := hk.records hdb
  absent _ ht := hk.pagesOf_none ht
  saves := hk.refines.upgrade fun oid info t hl ht hi => by
    refine ⟨hi, (hk.good oid t ht).heap.formatted, fun p hp => ?_, fun p hp => ?_⟩
    · rw [← hk.pagesOf ht]
      exact hp
    · rw [← fileOf_of_lookup hl]
      exact hw oid p hp

theorem Flushed.pagesWritten (hk : Kept db a) (hf : Flushed db a) : db.PagesWritten := by
  intro oid p hp
  cases ht : a.tables oid with
  | some t =>
    rw [hk.pagesOf ht] at hp
    exact ⟨t.heap.page p, hf.pages oid t ht p hp, (hk.good oid t ht).heap.formatted p hp⟩
  | none =>
    rw [hk.pagesOf_none ht] at hp
    cases hp

/-- A statement that leaves the catalog file alone. -/
theorem Ordered.other (ho : Ordered db a c) (ha : db.Admits stmt) {r : Except Exn QueryResult}
    (he : execute db stmt = some (r, db'))
    (hsame : db' = db ∨ ∃ oid t, db' = db.setTable oid t) : ∃ a', Ordered db' a' c := by
  have hnew : ∀ dm : DiskManager, dm.plan = [] →
      RecordManager.Saves {p | p ∈ c.pagesOf a.nextOid} (RecordManager.new dm) HeapFile.empty := by
    intro dm hdm
    apply new_saves hdm
    intro p hp
    rw [Set.mem_ofPred_eq, ho.absent a.nextOid (ho.kept.sized.fresh a.nextOid le_rfl)] at hp
    cases hp
  obtain ⟨a', ha', hs, -, -⟩ := ho.saves.executed
    (fun _ => (RecordManager.saves_rules _).layer) ho.kept.good hnew he
    (ha.2 r db' he)
  obtain ⟨a₂, ha₂, hk⟩ := ho.kept.executed ha he
  obtain ⟨-, rfl⟩ := Prod.mk.inj (Option.some.inj (ha'.symm.trans ha₂))
  have hdb : db'.catalogDb = db.catalogDb := by
    rcases hsame with rfl | ⟨oid, t, rfl⟩ <;> rfl
  refine ⟨a', hk, ho.records.congr hdb, hs, fun oid ht => ho.absent oid ?_⟩
  exact (ho.kept.tables_eq_none hk hsame oid).mp ht

/-- A new table writes no pages, and has none. -/
theorem createTable_pagesWritten (hs : db.saves = []) {name : List UInt8}
    (hn : db.catalog.tableNames.lookup name = none) (schema : Schema)
    (hfree : db.catalog.tables.lookup db.catalog.nextTableOid = none) :
    (db.createTable name schema).2.PagesWritten ↔ db.PagesWritten := by
  unfold PagesWritten
  simp only [createTable_fileOf hs hn schema hfree, createTable_pagesOf hs hn schema hfree]

/-- Whether the next statement keeps the order is whether it meets the condition. -/
theorem Ordered.step (ho : Ordered db a c) (ha : db.Admits stmt) {r : QueryResult}
    (he : db.answer stmt = some (r, db')) :
    (db.CreatesWritten stmt → ∃ a' c', Ordered db' a' c') ∧
      (db'.ListedWritten → db.CreatesWritten stmt) := by
  have hs := ho.kept.refines.saves
  have hx := answer_eq_some.mp he
  cases execute_leaves hs hx with
  | same hno =>
    obtain ⟨a', ho'⟩ := ho.other ha hx (.inl rfl)
    exact ⟨fun _ => ⟨a', c, ho'⟩, fun _ hn => absurd (.inr hn) hno⟩
  | table hno oid t =>
    obtain ⟨a', ho'⟩ := ho.other ha hx (.inr ⟨oid, t, rfl⟩)
    exact ⟨fun _ => ⟨a', c, ho'⟩, fun _ hn => absurd (.inr hn) hno⟩
  | @create name columns hn =>
    obtain ⟨a', hk'⟩ := ho.kept.create hn ha
    have hdb := (createTable_saved hs hn (Schema.new columns)).2
    have hiff := createTable_pagesWritten hs hn (Schema.new columns) ho.kept.free
    constructor
    · intro hw
      exact ⟨a', _, hk'.ordered hdb (hiff.mpr (hw hn))⟩
    · intro hl _
      apply hiff.mp
      intro oid p hp
      apply hl oid p
      rw [(hk'.records hdb).listed]
      exact hp
  | commit =>
    obtain ⟨r', db'', hans, hk', hf⟩ := ho.kept.commit
    obtain ⟨-, rfl⟩ := Prod.mk.inj (Option.some.inj (he.symm.trans hans))
    exact ⟨fun _ => ⟨a, _, hk'.ordered hf.catalogDb (hf.pagesWritten hk')⟩, fun _ hn => hn.elim⟩

theorem ordered_preserved : (statementMachine.restrict CreatesWritten).Preserves
    fun _ db => ∃ a c, Ordered db a c := by
  intro h db stmt r db' hi hallowed hstep
  obtain ⟨a, c, ho⟩ := hi
  obtain ⟨ha, hcond⟩ := hallowed
  exact (ho.step ha hstep).1 hcond

/-- Along a run that creates tables only when the pages of the others have been written, every
page listed in `catalog.db` is written and formatted, and the work of an `INSERT` on it stays
inside the page; the next statement keeps this just if it meets the condition, too. -/
theorem listed_pages_written {h : List (Statement × QueryResult)}
    (hr : (statementMachine.restrict CreatesWritten).Run Database.empty h db) :
    (∀ oid, ∀ p ∈ db.listedPages oid, ∃ d, OnFile (db.fileOf oid) p d ∧ Formatted p d ∧
      RecordManager.ExactWork d) ∧
    ∀ stmt r db', db.Admits stmt → db.answer stmt = some (r, db') →
      (db'.ListedWritten ↔ db.CreatesWritten stmt) := by
  obtain ⟨a, c, ho⟩ := hr.preserved ordered_preserved ⟨_, _, empty_ordered⟩
  constructor
  · intro oid p hp
    obtain ⟨d, hd, hf⟩ := ho.listedWritten oid p hp
    exact ⟨d, hd, hf, RecordManager.Formatted.exactWork hf⟩
  · intro stmt r db' ha he
    have hstep := ho.step ha he
    constructor
    · exact hstep.2
    · intro hcond
      obtain ⟨a', c', ho'⟩ := hstep.1 hcond
      exact ho'.listedWritten

/-- One row, committed. -/
theorem committed_page_written : ∃ h db,
    (statementMachine.restrict CreatesWritten).Run Database.empty h db ∧
    h.map Prod.fst = [.commit, .insert (str "a") [str "7"],
      .createTable (str "a") [⟨str "x", .integer⟩]] ∧ db.listedPages 0 = [0] ∧
    ∃ d, OnFile (db.fileOf 0) 0 d ∧ Formatted 0 d ∧ RecordManager.ExactWork d := by
  have heval : ((Database.empty.answer (.createTable (str "a") [⟨str "x", .integer⟩])).bind fun x =>
      (x.2.answer (.insert (str "a") [str "7"])).bind fun y => (y.2.answer .commit).map fun z =>
        (decide (Database.empty.Admits (.createTable (str "a") [⟨str "x", .integer⟩])),
          decide (x.2.Admits (.insert (str "a") [str "7"])), decide (y.2.Admits .commit),
          z.2.listedPages 0)) = some (true, true, true, [0]) := by
    decide +kernel
  obtain ⟨x, hx, heval⟩ := Option.bind_eq_some_iff.mp heval
  obtain ⟨y, hy, heval⟩ := Option.bind_eq_some_iff.mp heval
  obtain ⟨z, hz, heval⟩ := Option.map_eq_some_iff.mp heval
  simp only [Prod.mk.injEq, decide_eq_true_eq] at heval
  obtain ⟨hadmX, hadmY, hadmZ, hlisted⟩ := heval
  have hfirst : Database.empty.CreatesWritten
      (.createTable (str "a") [⟨str "x", .integer⟩]) := fun _ oid p hp => by cases hp
  have hrun₁ : (statementMachine.restrict CreatesWritten).Run Database.empty _ x.2 :=
    .call .start ⟨hadmX, hfirst⟩ hx
  have hrun₂ : (statementMachine.restrict CreatesWritten).Run Database.empty _ y.2 :=
    .call hrun₁ ⟨hadmY, fun hn => hn.elim⟩ hy
  have hrun₃ : (statementMachine.restrict CreatesWritten).Run Database.empty _ z.2 :=
    .call hrun₂ ⟨hadmZ, fun hn => hn.elim⟩ hz
  refine ⟨_, z.2, hrun₃, rfl, hlisted, (listed_pages_written hrun₃).1 0 0 ?_⟩
  rw [hlisted]
  exact List.mem_cons_self

/-- A second table is created after an `INSERT` into the first: the page with the row is listed
and nowhere in the file, and the first `INSERT` after a restart writes outside of it. -/
theorem page_listed_unwritten : ∃ h db, statementMachine.Run Database.empty h db ∧
    h.map Prod.fst = [.createTable (str "b") [⟨str "x", .integer⟩],
      .insert (str "a") [str "7"], .createTable (str "a") [⟨str "x", .integer⟩]] ∧
    db.listedPages 0 = [0] ∧ db.fileOf 0 = none ∧ ¬ db.ListedWritten ∧
    execute db.restart (.insert (str "a") [str "8"]) = none := by
  have heval : (statementMachine.play [.createTable (str "a") [⟨str "x", .integer⟩],
      .insert (str "a") [str "7"], .createTable (str "b") [⟨str "x", .integer⟩]] []
      Database.empty).map (fun x => (x.1.map Prod.fst, x.2.listedPages 0, (x.2.fileOf 0).isNone,
        (execute x.2.restart (.insert (str "a") [str "8"])).isNone)) =
      some ([.createTable (str "b") [⟨str "x", .integer⟩], .insert (str "a") [str "7"],
        .createTable (str "a") [⟨str "x", .integer⟩]], [0], true, true) := by
    decide +kernel
  obtain ⟨⟨h, db⟩, hplay, heval⟩ := Option.map_eq_some_iff.mp heval
  simp only [Prod.mk.injEq, Option.isNone_iff_eq_none] at heval
  obtain ⟨hh, hlisted, hfile, hinsert⟩ := heval
  refine ⟨h, db, Machine.Run.start.play hplay, hh, hlisted, hfile, fun hw => ?_, hinsert⟩
  have hmem : (0 : ℤ) ∈ db.listedPages 0 := by
    rw [hlisted]
    exact List.mem_cons_self
  obtain ⟨d, hd, -⟩ := hw 0 0 hmem
  rw [hfile] at hd
  obtain ⟨file, hf, -⟩ := hd
  cases hf

end Database
end PragmaticDB
