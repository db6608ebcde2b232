import PragmaticDB.Query.TupleCodec
import PragmaticDB.Query.Restart

/-!
What an `INSERT` answers and what it does. That the record manager gave back no record id is
noticed by nobody above it.
-/
namespace PragmaticDB
open CallMachine Executor Throwing

namespace HeapFile
variable {h h' : HeapFile} {bytes : List UInt8} {rid : RecordId}

/-- A stored tuple is one row more. -/
theorem Inserts.rows_perm (hg : h.Good) (h0 : 0 < bytes.length) (hins : h.Inserts bytes rid h')
    (hup : h.CompactsUpwards bytes.length) (hle : h'.next ≤ 524288)
    (hvalid : rid ≠ invalidRecordId) : h'.rows.Perm ((rid, bytes) :: h.rows) := by
  have hlook := hins.lookup hg h0 hup
  have hfresh : h.lookup rid = none := by
    by_contra hsome
    unfold HeapFile.lookup at hsome
    split_ifs at hsome with hp
    · have hlive := record_isSome.mp (Option.isSome_iff_ne_none.mpr hsome)
      exact hins.fresh hg ⟨hp, hlive.1⟩
    · exact hsome rfl
  have hnew : (rid, bytes) ∉ h.rows := by
    intro hmem
    rw [mem_rows, hfresh] at hmem
    cases hmem
  have hnodup := (rows_nodup hg).of_map
  have hnodup' := (rows_nodup (hins.good hg hle)).of_map
  apply (List.perm_ext_iff_of_nodup hnodup' (List.nodup_cons.mpr ⟨hnew, hnodup⟩)).mpr
  rintro ⟨r, b⟩
  rw [mem_rows, hlook, List.mem_cons, mem_rows]
  by_cases hr : r = rid
  · rw [if_pos ⟨hr, hvalid⟩, hr, hfresh]
    simp [eq_comm]
  · rw [if_neg fun hand => hr hand.1]
    simp [hr]

/-- A tuple that is not stored leaves all rows as they are. -/
theorem Inserts.rows_same (hg : h.Good) (h0 : 0 < bytes.length)
    (hins : h.Inserts bytes invalidRecordId h') (hup : h.CompactsUpwards bytes.length) :
    h'.rows = h.rows := by
  have hids : h'.ids = h.ids := (hins.invalid_cases hg rfl).1
  apply rows_of_front hins.extends_ids (hids ▸ hg.nodup)
  intro p hp i
  have hlook := hins.lookup hg h0 hup ⟨p, i⟩
  rw [if_neg fun hand => hand.2 rfl] at hlook
  rw [← hlook, HeapFile.lookup, if_pos hp]

end HeapFile

namespace HeapTable
variable {t : HeapTable} {tuple : List UInt8}

/-- Rows of 1 to 4084 bytes are stored. -/
theorem Good.insert_stored (hg : t.Good) (h0 : 0 < tuple.length) (hlen : tuple.length ≤ 4084) :
    ∃ rid h, t.heap.insert tuple = some (rid, h) ∧
      (h.next ≤ 524288 → h.rows.Perm ((rid, tuple) :: t.heap.rows)) := by
  obtain ⟨rid, h, he, hins⟩ := hg.heap.insert_cases h0 (by omega)
  refine ⟨rid, h, he, fun hle => ?_⟩
  have hvalid : rid ≠ invalidRecordId := by
    rcases hins.rid_cases hg.heap with ⟨-, hlong⟩ | ⟨-, hp, -⟩
    · omega
    · intro hinv
      rw [hinv] at hp
      exact ne_invalid_of_nonneg (hins.nonneg hg.heap hp) rfl
  exact hins.rows_perm hg.heap h0 (hg.heap.compactsUpwards hg.descending tuple.length) hle hvalid

/-- Rows of no bytes, and those that no page can hold, are not. -/
theorem Good.insert_ignored (hg : t.Good) (hlen : tuple.length = 0 ∨ 4084 < tuple.length)
    (hlt : tuple.length < 65532) : ∃ rid h, t.heap.insert tuple = some (rid, h) ∧
      shown { t with heap := h } = t.shown := by
  by_cases h0 : tuple.length = 0
  · have hnone : t.heap.insert tuple = some (invalidRecordId, t.heap) := if_pos (.inl h0)
    exact ⟨_, _, hnone, rfl⟩
  · obtain ⟨rid, h, he, hins⟩ := hg.heap.insert_cases (Nat.pos_of_ne_zero h0) hlt
    have hup := hg.heap.compactsUpwards hg.descending tuple.length
    rcases hins.rid_cases hg.heap with ⟨rfl, -⟩ | ⟨hshort, -⟩
    · refine ⟨_, h, he, ?_⟩
      unfold shown
      rw [hins.rows_same hg.heap (Nat.pos_of_ne_zero h0) hup]
    · omega

end HeapTable

namespace Database
variable {db : Database} {name : List UInt8} {raws : List (List UInt8)}

/-- Sequences of statements with page ids below `2 ^ 19`. -/
def pagedMachine : Machine Database Statement QueryResult where
  step := Database.answer
  Allowed _ db stmt := ∀ r db', execute db stmt = some (r, db') → db'.InRange

instance (h : List (Statement × QueryResult)) (db : Database) (stmt : Statement) :
    Decidable (pagedMachine.Allowed h db stmt) :=
  decidable_of_iff (∀ x ∈ execute db stmt, x.2.InRange)
    ⟨fun h r db' he => h (r, db') he, fun h x hx => h x.1 x.2 hx⟩

/-- Reached by statements, or by statements and restarts with sizes that the catalog file can
hold. -/
def Reached (db : Database) : Prop :=
  (∃ h, pagedMachine.Run Database.empty h db) ∨ ∃ h, sessionMachine.Run Database.empty h db

theorem pagedMachine_preserves {P : HeapDatabase → Prop} (hP : PagesKeep P) :
    pagedMachine.Preserves fun _ db =>
      ∃ a : HeapDatabase, db.Refines (fun _ => RecordManager.Refines) a ∧ a.Good ∧ P a := by
  rintro h db stmt r db' ⟨a, hr, hg, hp⟩ hin hstep
  have he := answer_eq_some.mp hstep
  obtain ⟨a', he', hr', -, hg'⟩ := hr.executed (fun _ => refines_layer) hg
    (fun _ => RecordManager.new_refines) he (hin _ _ he)
  exact ⟨a', hr', hg', hP a stmt _ a' hp hg he' hg'⟩

/-- What every statement keeps of the pages holds in every reached database. -/
theorem Reached.pages {P : HeapDatabase → Prop} (hP : PagesKeep P) (h₀ : P HeapDatabase.empty)
    (hr : Reached db) :
    ∃ a : HeapDatabase, db.Refines (fun _ => RecordManager.Refines) a ∧ a.Good ∧ P a := by
  rcases hr with ⟨h, hr⟩ | ⟨h, hr⟩
  · exact hr.preserved (pagedMachine_preserves hP)
      ⟨_, empty_kept.refines, HeapDatabase.empty_good, h₀⟩
  · obtain ⟨a, hk, -, hp⟩ := hr.preserved (sessionMachine_pages hP)
      ⟨_, empty_kept, (fun hj => by cases hj), h₀⟩
    exact ⟨a, hk.refines, hk.good, hp⟩

theorem Reached.refines (hr : Reached db) :
    ∃ a : HeapDatabase, db.Refines (fun _ => RecordManager.Refines) a ∧ a.Good := by
  obtain ⟨a, href, hg, -⟩ := hr.pages (P := fun _ => True) (fun _ _ _ _ _ _ _ _ => trivial) trivial
  exact ⟨a, href, hg⟩

/-- An `INSERT` says that it succeeded exactly if the rows after it are those before it and
`row`; otherwise it changes no rows and says so. -/
def TellsTruth (db : Database) (name : List UInt8) (raws row : List (List UInt8)) : Prop :=
  ∃ rows r db' rows', Returns db name rows ∧ db.answer (.insert name raws) = some (r, db') ∧
    Returns db' name rows' ∧ (r.success = true ↔ rows'.Perm (row :: rows)) ∧
    (¬ rows'.Perm (row :: rows) → r.success = false ∧ rows' = rows)

theorem Returns.unique {rows rows' : List (List (List UInt8))} (h : Returns db name rows)
    (h' : Returns db name rows') : rows = rows' := by
  obtain ⟨_, he⟩ := h
  obtain ⟨_, he'⟩ := h'
  have heq := congrArg Prod.fst (Option.some.inj (he.symm.trans he'))
  exact congrArg QueryResult.rows heq

variable {a : HeapDatabase} {oid : ℕ} {t : HeapTable} {h : HeapFile} {tuple : List UInt8}
  {rid : RecordId}

/-- Whatever becomes of its tuple, an `INSERT` answers that a row was inserted. -/
theorem Refines.insert_answered (hr : db.Refines (fun _ => RecordManager.Refines) a) (hg : a.Good)
    (hf : a.getTable name = .ok (oid, t)) (htuple : (rowTuple t.schema raws).run = some (.ok tuple))
    (hins : t.heap.insert tuple = some (rid, h))
    (hin : ∀ r db', Executor.execute db (.insert name raws) = some (r, db') → db'.InRange) :
    ∃ db', db.answer (.insert name raws) = some (⟨true, str "1 row inserted.", []⟩, db') ∧
      db'.Refines (fun _ => RecordManager.Refines) (a.setHeap oid h) ∧ (a.setHeap oid h).Good ∧
      h.next ≤ 524288 := by
  have ha : a.execute (.insert name raws) =
      some (.ok ⟨true, str "1 row inserted.", []⟩, a.setHeap oid h) := by
    change a.executeInsert name raws = _
    unfold HeapDatabase.executeInsert
    simp only [hf, htuple, hins, Option.bind_eq_bind, Option.bind_some]
    rfl
  obtain ⟨db', he, hrange⟩ := hr.executes hg ha
  have hin' := hin _ db' he
  obtain ⟨a', ha', hr', -, hg'⟩ := hr.executed (fun _ => refines_layer) hg
    (fun _ => RecordManager.new_refines) he hin'
  obtain ⟨-, rfl⟩ := Prod.mk.inj (Option.some.inj (ha.symm.trans ha'))
  have ht := (HeapDatabase.getTable_ok hf).2
  exact ⟨db', answer_eq_some.mpr he, hr', hg', (hrange.mp hin').heap ht⟩

/-- An `INSERT` of one accepted value for each column tells the truth exactly if its row has
between 1 and 4084 bytes; otherwise it says that a row was inserted, and there is none. -/
theorem tellsTruth_iff {info : TableInfo} (hr : Reached db)
    (hg : db.catalog.getTable name = .ok (oid, info))
    (hf : HeapDatabase.RowFits info.schema.columns raws)
    (hin : ∀ r db', Executor.execute db (.insert name raws) = some (r, db') → db'.InRange) :
    TellsTruth db name raws (canonicalRow info.schema.columns raws) ↔
      1 ≤ info.schema.length ∧ info.schema.length ≤ 4084 := by
  obtain ⟨a, href, hgood⟩ := hr.refines
  obtain ⟨t, hft, hschema⟩ := href.getTable_heap hg
  rw [hschema] at hf ⊢
  have ht := hgood oid t (HeapDatabase.getTable_ok hft).2
  have hplain : t.Plain := fun _ _ _ => hf.plain
  have htuple := rowTuple_eq hf
  have hlen := rowTuple_length htuple
  have htexts := textsOf_eq hf
  have hshort : t.schema.length < 65532 := by
    have hsum := hf.short
    rw [Tuple.length_eq (by omega)]
    exact hsum
  generalize (List.zipWith valueOf t.schema.columns raws).flatMap Value.bytes = tuple at *
  have hbefore := href.shows hgood hft hplain
  have hafter : ∀ h db', db'.Refines (fun _ => RecordManager.Refines) (a.setHeap oid h) →
      (a.setHeap oid h).Good → Returns db' name (HeapTable.shown { t with heap := h }) := by
    intro h db' hr' hg'
    have hft' := HeapDatabase.getTable_setHeap hft oid h
    rw [if_pos rfl] at hft'
    exact hr'.shows hg' hft' fun _ _ _ => hf.plain
  by_cases hfits : 1 ≤ t.schema.length ∧ t.schema.length ≤ 4084
  · refine iff_of_true ?_ hfits
    obtain ⟨rid, h, hins, hperm⟩ := ht.insert_stored (hlen ▸ hfits.1) (hlen ▸ hfits.2)
    obtain ⟨db', hans, hr', hg', hle⟩ := href.insert_answered hgood hft htuple hins hin
    have hrows := (hperm hle).map fun r : RecordId × List UInt8 => textsOf t.schema r.2
    rw [List.map_cons, htexts] at hrows
    exact ⟨_, _, db', _, hbefore, hans, hafter h db' hr' hg', iff_of_true rfl hrows,
      fun hno => absurd hrows hno⟩
  · refine iff_of_false ?_ hfits
    rintro ⟨rows, r, db', rows', hret, hans, hret', htrue, -⟩
    have hcase : tuple.length = 0 ∨ 4084 < tuple.length := by omega
    obtain ⟨rid, h, hins, hsame⟩ := ht.insert_ignored hcase (hlen ▸ hshort)
    obtain ⟨db₁, hans₁, hr', hg', -⟩ := href.insert_answered hgood hft htuple hins hin
    obtain ⟨rfl, rfl⟩ := Prod.mk.inj (Option.some.inj (hans.symm.trans hans₁))
    have hrows := hret.unique hbefore
    have hrows' := hret'.unique (hafter h db' hr' hg')
    rw [hsame] at hrows'
    have hlength := (htrue.mp rfl).length_eq
    rw [hrows, hrows', List.length_cons] at hlength
    omega

/-- A database with one empty table of these columns. -/
def withTable (columns : List Column) : Database :=
  (Database.empty.createTable (str "t") (Schema.new columns)).2

theorem withTable_reached (columns : List Column) : Reached (withTable columns) := by
  have hstep : Database.empty.answer (.createTable (str "t") columns) =
      some (⟨true, str "Table '" ++ str "t" ++ str "' created.", []⟩, withTable columns) := rfl
  have hallow : pagedMachine.Allowed [] Database.empty (.createTable (str "t") columns) := by
    intro r db' he
    cases he
    exact create_inRange _ _
  exact .inl ⟨_, Machine.Run.start.call hallow hstep⟩

/-- A row of one byte is stored. -/
theorem one_byte_told : TellsTruth (withTable [⟨str "b", .boolean⟩]) (str "t") [str "TRUE"]
    (canonicalRow [⟨str "b", .boolean⟩] [str "TRUE"]) := by
  have hg : (withTable [⟨str "b", .boolean⟩]).catalog.getTable (str "t") =
      .ok (0, ⟨Schema.new [⟨str "b", .boolean⟩], str "t",
        openTable Database.empty.fileOf 0, 0⟩) := by
    rfl
  have hf : HeapDatabase.RowFits [⟨str "b", .boolean⟩] [str "TRUE"] := by decide +kernel
  have hin : pagedMachine.Allowed [] (withTable [⟨str "b", .boolean⟩])
      (.insert (str "t") [str "TRUE"]) := by decide +kernel
  exact (tellsTruth_iff (withTable_reached _) hg hf hin).mpr (by decide)

/-- The row of a table without columns is not. -/
theorem no_columns_told : Reached (withTable []) ∧ HeapDatabase.RowFits [] [] ∧
    (∃ oid info, (withTable []).catalog.getTable (str "t") = .ok (oid, info) ∧
      info.schema.columns = []) ∧
    ¬ TellsTruth (withTable []) (str "t") [] (canonicalRow [] []) := by
  refine ⟨withTable_reached [], by decide +kernel, ⟨0, _, by rfl, rfl⟩, ?_⟩
  rintro ⟨rows, r, db', rows', -, hans, ⟨db₁, hsel⟩, htrue, -⟩
  have heval : ((withTable []).answer (.insert (str "t") [])).map (fun x =>
      (x.1.success, (x.2.answer (.select (str "t"))).map fun y => y.1.rows)) =
        some (true, some []) := by decide +kernel
  rw [hans, Option.map_some, hsel] at heval
  obtain ⟨hsuccess, hrows⟩ := Prod.mk.inj (Option.some.inj heval)
  have hnil : rows' = [] := Option.some.inj hrows
  have hlength := (htrue.mp hsuccess).length_eq
  rw [hnil] at hlength
  cases hlength

end Database
end PragmaticDB
