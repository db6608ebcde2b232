import PragmaticDB.Query.InsertTruth
import PragmaticDB.Query.TablesApart
import PragmaticDB.Table.ScanRuns

/-!
What the database is for: tables as lists of rows, and what each statement says and does to them.
Sessions of the database behave like this, restarts included. Where an `INSERT` puts its row is
left open.
-/
namespace PragmaticDB
open CallMachine Executor

/-- A table as its user knows it. -/
structure Relation where
  columns : List Column
  rows : List (List (List UInt8))

/-- All tables by their names. -/
structure Relations where
  table : List UInt8 → Option Relation
  count : ℕ

/-- The table a statement needs. -/
def Statement.target : Statement → Option (List UInt8)
  | .insert name _ => some name
  | .select name => some name
  | .delete name _ _ => some name
  | .createTable _ _ => none
  | .commit => none

namespace Relations

def empty : Relations := ⟨fun _ => none, 0⟩

def set (v : Relations) (name : List UInt8) (t : Relation) : Relations :=
  { v with table := Function.update v.table name (some t) }

/-- The bytes of a row. -/
def width (columns : List Column) : ℕ := (columns.map Column.getLength).sum

/-- What a statement can answer and do. -/
inductive Step (v : Relations) : Statement → QueryResult → Relations → Prop where
  | created {name : List UInt8} {columns : List Column} (hn : v.table name = none) :
      Step v (.createTable name columns)
        ⟨true, str "Table '" ++ name ++ str "' created.", []⟩
        { v.set name ⟨columns, []⟩ with count := v.count + 1 }
  | known {name : List UInt8} {columns : List Column} {t : Relation}
      (hn : v.table name = some t) :
      Step v (.createTable name columns)
        ⟨false, str "Error: Table '" ++ name ++ str "' already exists in catalog.", []⟩ v
  | unknown {stmt : Statement} {name : List UInt8} (ht : stmt.target = some name)
      (hn : v.table name = none) :
      Step v stmt ⟨false, str "Error: Table '" ++ name ++ str "' not found in catalog.", []⟩ v
  | committed : Step v .commit
      ⟨true, str "COMMIT: " ++ decimal v.count ++ str " table(s) flushed to disk.", []⟩ v
  | selected {name : List UInt8} {t : Relation} (hn : v.table name = some t) :
      Step v (.select name)
        ⟨true, decimal t.rows.length ++ str " rows returned.", t.rows⟩ v
  | inserted {name : List UInt8} {raws : List (List UInt8)} {t : Relation}
      {before after : List (List (List UInt8))} (hn : v.table name = some t)
      (hf : HeapDatabase.RowFits t.columns raws) (hw : 1 ≤ width t.columns ∧ width t.columns ≤ 4084)
      (hrows : t.rows = before ++ after) :
      Step v (.insert name raws) ⟨true, str "1 row inserted.", []⟩
        (v.set name ⟨t.columns, before ++ canonicalRow t.columns raws :: after⟩)
  | dropped {name : List UInt8} {raws : List (List UInt8)} {t : Relation}
      (hn : v.table name = some t) (hf : HeapDatabase.RowFits t.columns raws)
      (hw : ¬ (1 ≤ width t.columns ∧ width t.columns ≤ 4084)) :
      Step v (.insert name raws) ⟨true, str "1 row inserted.", []⟩ v
  | refused {name what : List UInt8} {raws : List (List UInt8)} {t : Relation} {e : Exn}
      (hn : v.table name = some t)
      (he : (rowTuple (Schema.new t.columns) raws).run = some (.error e))
      (hw : e.caught = some what) : Step v (.insert name raws) ⟨false, what, []⟩ v
  | noColumn {name column value : List UInt8} {t : Relation} (hn : v.table name = some t)
      (hc : column ≠ [] ∧ ∀ c ∈ t.columns, c.name ≠ column) :
      Step v (.delete name column value)
        ⟨false, str "Error: Column '" ++ column ++ str "' not found.", []⟩ v
  | deleted {name column value : List UInt8} {t : Relation} (hn : v.table name = some t)
      (hc : column = [] ∨ ∃ c ∈ t.columns, c.name = column) :
      Step v (.delete name column value)
        ⟨true, decimal (t.rows.filter (Selected t.columns column value)).length ++
          str " row(s) deleted.", []⟩
        (v.set name ⟨t.columns, t.rows.filter fun row => !Selected t.columns column value row⟩)

/-- Statements one after the other. A restart is not seen. -/
inductive Run : List (Event × Option QueryResult) → Relations → Prop where
  | start : Run [] empty
  | statement {h : List (Event × Option QueryResult)} {v v' : Relations} {stmt : Statement}
      {r : QueryResult} : Run h v → Step v stmt r v' → Run ((.statement stmt, some r) :: h) v'
  | restart {h : List (Event × Option QueryResult)} {v : Relations} :
      Run h v → Run ((.restart, none) :: h) v

end Relations

/-- An element more in an ordered list stands at one place. -/
theorem between_of_perm {α : Type*} {R : α → α → Prop} {l l' : List α} {x : α}
    (hp : l'.Perm (x :: l)) (hl : l.Pairwise R) (hl' : l'.Pairwise R)
    (hanti : ∀ a b, R a b → ¬ R b a) : ∃ l₁ l₂, l = l₁ ++ l₂ ∧ l' = l₁ ++ x :: l₂ := by
  obtain ⟨l₁, l₂, rfl⟩ := List.append_of_mem (hp.mem_iff.mpr List.mem_cons_self)
  have hrest : (l₁ ++ l₂).Perm l := (List.perm_middle.symm.trans hp).cons_inv
  have hsub : (l₁ ++ l₂).Sublist (l₁ ++ x :: l₂) :=
    (List.Sublist.refl l₁).append (List.sublist_cons_self x l₂)
  have hanti' : ∀ a b, a ∈ l₁ ++ l₂ → b ∈ l → R a b → R b a → a = b :=
    fun a b _ _ hab hba => absurd hba (hanti a b hab)
  exact ⟨l₁, l₂, (List.Perm.eq_of_pairwise hanti' (hl'.sublist hsub) hl hrest).symm, rfl⟩

namespace HeapTable
variable {t : HeapTable} {tuple : List UInt8} {rid : RecordId} {h : HeapFile}

theorem before_asymm {ids : List ℤ} {a b : RecordId × List UInt8} (h : Before ids a.1 b.1) :
    ¬ Before ids b.1 a.1 := by
  rintro (h' | ⟨hp, hs⟩)
  · rcases h with h | ⟨hp, -⟩
    · omega
    · rw [hp] at h'
      omega
  · rcases h with h | ⟨-, hs'⟩
    · rw [hp] at h
      omega
    · omega

/-- The new row stands at one place between the others. -/
theorem Good.insert_between (hg : t.Good) (hlen : tuple.length = t.schema.length)
    (hpos : 1 ≤ tuple.length) (hle : tuple.length ≤ 4084)
    (hins : t.heap.insert tuple = some (rid, h)) (hin : h.next ≤ 524288) :
    ∃ before after, t.heap.rows = before ++ after ∧
      h.rows = before ++ (rid, tuple) :: after := by
  obtain ⟨rid', h', hins', hperm⟩ := hg.insert_stored hpos hle
  obtain ⟨rfl, rfl⟩ := Prod.mk.inj (Option.some.inj (hins.symm.trans hins'))
  have hg' : HeapTable.Good { t with heap := h } := hg.insert hlen hins hin
  have hids : t.heap.ids <+: h.ids := hg.insert_ids hins
  have hold : t.heap.rows.Pairwise fun a b => Before h.ids a.1 b.1 := by
    refine List.Pairwise.imp_of_mem ?_ (rows_pairwise hg.heap)
    intro a b ha hb hab
    obtain ⟨rest, hrest⟩ := hids
    unfold Before at hab ⊢
    rw [← hrest, List.idxOf_append_of_mem (mem_ids_of_mem_rows ha),
      List.idxOf_append_of_mem (mem_ids_of_mem_rows hb)]
    exact hab
  exact between_of_perm (hperm hin) hold (rows_pairwise hg'.heap)
    fun _ _ => before_asymm

/-- So do its texts. -/
theorem Good.shown_between (hg : t.Good) (hlen : tuple.length = t.schema.length)
    (hpos : 1 ≤ tuple.length) (hle : tuple.length ≤ 4084)
    (hins : t.heap.insert tuple = some (rid, h)) (hin : h.next ≤ 524288) :
    ∃ before after, t.shown = before ++ after ∧
      shown { t with heap := h } = before ++ textsOf t.schema tuple :: after := by
  obtain ⟨before, after, hrows, hrows'⟩ := hg.insert_between hlen hpos hle hins hin
  refine ⟨before.map fun r => textsOf t.schema r.2, after.map fun r => textsOf t.schema r.2,
    ?_, ?_⟩
  · unfold shown
    rw [hrows, List.map_append]
  · unfold shown
    rw [hrows', List.map_append, List.map_cons]

end HeapTable

namespace HeapDatabase
variable {a a' : HeapDatabase} {name : List UInt8} {oid : ℕ} {t : HeapTable} {h : HeapFile}

/-- The tables as their users know them. -/
def view (a : HeapDatabase) : Relations where
  table name := (a.table name).map fun t => ⟨t.schema.columns, t.shown⟩
  count := a.count

theorem view_found (hf : a.getTable name = .ok (oid, t)) :
    a.view.table name = some ⟨t.schema.columns, t.shown⟩ := by
  simp only [view, table_found hf, Option.map_some]

theorem view_missing (hz : a.Sized) {e : Exn} (hf : a.getTable name = .error e) :
    a.view.table name = none ∧
      e = .runtimeError (str "Error: Table '" ++ name ++ str "' not found in catalog.") := by
  obtain ⟨hnone, rfl⟩ := table_missing hz hf
  exact ⟨by simp only [view, hnone, Option.map_none], rfl⟩

/-- One table is changed, or is there for the first time. -/
theorem view_set (ht : a'.table name = some t)
    (hother : ∀ other, other ≠ name → a'.table other = a.table other) :
    a'.view = { a.view.set name ⟨t.schema.columns, t.shown⟩ with count := a'.count } := by
  have htable : a'.view.table =
      Function.update a.view.table name (some ⟨t.schema.columns, t.shown⟩) := by
    funext other
    by_cases ho : other = name
    · rw [ho, Function.update_self]
      simp only [view, ht, Option.map_some]
    · rw [Function.update_of_ne ho]
      simp only [view, hother other ho]
  unfold Relations.set
  rw [← htable]
  rfl

theorem view_setHeap (hz : a.Sized) (hf : a.getTable name = .ok (oid, t)) (h : HeapFile) :
    (a.setHeap oid h).view = a.view.set name
      ⟨t.schema.columns, HeapTable.shown { t with heap := h }⟩ := by
  obtain ⟨hn, ht⟩ := getTable_ok hf
  exact view_set (table_setHeap hn ht h) fun _ ho => table_setHeap_other hz hn ho h

theorem view_create (hz : a.Sized) (hn : a.names name = none) (columns : List Column) :
    (a.createTable name (Schema.new columns)).2.view =
      { a.view.set name ⟨columns, []⟩ with count := a.view.count + 1 } := by
  have hcount : (a.createTable name (Schema.new columns)).2.count = a.count + 1 := by
    unfold createTable
    rw [hn]
    simp [hz.fresh a.nextOid le_rfl]
  rw [view_set (table_createTable hn _) fun _ ho => table_createTable_other hz hn ho _, hcount]
  rfl

theorem meaning_create (hz : a.Sized) {columns : List Column} {r : QueryResult}
    (he : a.execute (.createTable name columns) = some (.ok r, a')) :
    a.view.Step (.createTable name columns) r a'.view := by
  unfold execute executeCreate at he
  cases hn : a.names name with
  | none =>
    have hview := view_create hz hn columns
    unfold createTable at he hview
    simp only [hn] at he hview
    cases he
    have hv : a.view.table name = none := by
      simp only [view, hz.table_eq_none.mpr hn, Option.map_none]
    rw [hview]
    exact .created hv
  | some oid =>
    obtain ⟨t, ht, -⟩ := (hz.named name oid).mp hn
    have hv := view_found (getTable_of hn ht)
    unfold createTable at he
    simp only [hn] at he
    cases he
    exact .known hv

theorem meaning_select (hg : a.Good) (hz : a.Sized) (hp : a.Plain) {r : QueryResult}
    (he : a.execute (.select name) = some (.ok r, a')) :
    a.view.Step (.select name) r a'.view := by
  cases hf : a.getTable name with
  | error e =>
    obtain ⟨hv, rfl⟩ := view_missing hz hf
    change a.executeSelect name = _ at he
    unfold executeSelect at he
    rw [hf] at he
    cases he
    exact .unknown rfl hv
  | ok x =>
    obtain ⟨oid, t⟩ := x
    have ht := (getTable_ok hf).2
    have hsel := executeSelect_shown hf (hg oid t ht) (hp oid t ht)
    have hsame : a.execute (.select name) = a.executeSelect name := rfl
    rw [hsame, hsel] at he
    cases he
    exact .selected (view_found hf)

theorem meaning_delete (hg : a.Good) (hz : a.Sized) (hp : a.Plain) {column value : List UInt8}
    {r : QueryResult} (he : a.execute (.delete name column value) = some (.ok r, a')) :
    a.view.Step (.delete name column value) r a'.view := by
  change a.executeDelete name column value = _ at he
  cases hf : a.getTable name with
  | error e =>
    obtain ⟨hv, rfl⟩ := view_missing hz hf
    unfold executeDelete at he
    rw [hf] at he
    cases he
    exact .unknown rfl hv
  | ok x =>
    obtain ⟨oid, t⟩ := x
    have ht := (getTable_ok hf).2
    have hcount : columnCount t.schema = t.schema.columns.length :=
      Nat.mod_eq_of_lt (hz.tables oid t ht).2.1
    by_cases hc : column ≠ [] ∧ ∀ c ∈ t.schema.columns, c.name ≠ column
    · have hfind : findColumn t.schema column = none := by
        unfold findColumn
        rw [hcount, List.take_length, List.findIdx?_eq_none_iff]
        intro c hmem
        simpa using hc.2 c hmem
      unfold executeDelete at he
      simp only [hf, hfind] at he
      rw [if_pos ⟨hc.1, trivial⟩] at he
      cases he
      exact .noColumn (view_found hf) hc
    · have hcol : column = [] ∨ ∃ c ∈ t.schema.columns, c.name = column := by
        by_contra hno
        simp only [not_or, not_exists, not_and] at hno
        exact hc hno
      have hfind : column ≠ [] → findColumn t.schema column =
            some (t.schema.columns.findIdx fun c => c.name = column) ∧
          t.schema.columns.findIdx (fun c => c.name = column) =
            t.schema.columns.findIdx (fun c => c.name = column) ∧
          t.schema.columns.findIdx (fun c => c.name = column) < t.schema.columns.length := by
        intro hne
        obtain ⟨c, hmem, hname⟩ := hcol.resolve_left hne
        have hlt : t.schema.columns.findIdx (fun c => c.name = column) <
            t.schema.columns.length :=
          List.findIdx_lt_length.mpr ⟨c, hmem, by simpa using hname⟩
        refine ⟨?_, rfl, hlt⟩
        unfold findColumn
        rw [hcount, List.take_length, List.findIdx?_eq_some_iff_findIdx_eq]
        exact ⟨hlt, rfl⟩
      obtain ⟨h, hdel, -, hshown⟩ := executeDelete_shown hf (hg oid t ht) (hp oid t ht) hfind value
      rw [hdel] at he
      cases he
      rw [view_setHeap hz hf, hshown]
      exact .deleted (view_found hf) hcol

/-- An `INSERT` whose tuple the heap takes, stored or not. -/
theorem insert_answer {raws : List (List UInt8)} {tuple : List UInt8} {rid : RecordId}
    {r : QueryResult} (hf : a.getTable name = .ok (oid, t))
    (htuple : (rowTuple t.schema raws).run = some (.ok tuple))
    (hins : t.heap.insert tuple = some (rid, h))
    (he : a.execute (.insert name raws) = some (.ok r, a')) :
    r = ⟨true, str "1 row inserted.", []⟩ ∧ a' = a.setHeap oid h := by
  change a.executeInsert name raws = _ at he
  unfold executeInsert at he
  simp only [hf, htuple, hins, Option.bind_eq_bind, Option.bind_some] at he
  cases he
  exact ⟨rfl, rfl⟩

theorem insert_refused {raws : List (List UInt8)} {e : Exn} {r : QueryResult}
    (hf : a.getTable name = .ok (oid, t))
    (herror : (rowTuple t.schema raws).run = some (.error e))
    (he : a.execute (.insert name raws) = some (.ok r, a')) :
    a' = a ∧ ∃ what, e.caught = some what ∧ r = ⟨false, what, []⟩ := by
  change a.executeInsert name raws = _ at he
  unfold executeInsert at he
  simp only [hf, herror, Option.bind_eq_bind, Option.bind_some] at he
  obtain ⟨hr, rfl⟩ := Prod.mk.inj (Option.some.inj he)
  obtain ⟨what, hw⟩ := caught_of_handleError hr
  rw [handleError_caught hw] at hr
  exact ⟨rfl, what, hw, (Except.ok.inj hr).symm⟩

/-- A row that fits a page, or one that does not. -/
theorem meaning_row (hg : a.Good) (hz : a.Sized) {raws : List (List UInt8)} {r : QueryResult}
    (hf : a.getTable name = .ok (oid, t)) (hfits : RowFits t.schema.columns raws)
    (he : a.execute (.insert name raws) = some (.ok r, a')) (hin : a'.InRange) :
    a.view.Step (.insert name raws) r a'.view := by
  have ht := (getTable_ok hf).2
  have hv := view_found hf
  have htuple := rowTuple_eq hfits
  have hlen := rowTuple_length htuple
  have htexts := textsOf_eq hfits
  have hshort := hfits.short
  have hwidth : t.schema.length = Relations.width t.schema.columns :=
    Tuple.length_eq (by omega)
  unfold Relations.width at hwidth
  generalize (List.zipWith valueOf t.schema.columns raws).flatMap Value.bytes = tuple at *
  by_cases hw : 1 ≤ Relations.width t.schema.columns ∧ Relations.width t.schema.columns ≤ 4084
  · obtain ⟨hpos, hle⟩ := hw
    unfold Relations.width at hpos hle
    have hpos' : 1 ≤ tuple.length := by omega
    have hle' : tuple.length ≤ 4084 := by omega
    obtain ⟨rid, h, hins, -⟩ := (hg oid t ht).insert_stored hpos' hle'
    obtain ⟨rfl, rfl⟩ := insert_answer hf htuple hins he
    obtain ⟨before, after, hold, hnew⟩ := (hg oid t ht).shown_between hlen hpos' hle' hins
      (InRange.heap ht hin)
    rw [htexts] at hnew
    rw [view_setHeap hz hf, hnew]
    exact .inserted hv hfits ⟨hpos, hle⟩ hold
  · have hcase : tuple.length = 0 ∨ 4084 < tuple.length := by
      unfold Relations.width at hw
      omega
    obtain ⟨rid, h, hins, hshown⟩ := (hg oid t ht).insert_ignored hcase (by omega)
    obtain ⟨rfl, rfl⟩ := insert_answer hf htuple hins he
    have hsame : a.view.set name ⟨t.schema.columns, t.shown⟩ = a.view := by
      unfold Relations.set
      rw [← hv, Function.update_eq_self]
    rw [view_setHeap hz hf, hshown, hsame]
    exact .dropped hv hfits hw

theorem meaning_insert (hg : a.Good) (hz : a.Sized) {raws : List (List UInt8)}
    {r : QueryResult} (hfit : ∀ oid t, a.getTable name = .ok (oid, t) →
      RowFits t.schema.columns raws ∨ ∃ e, (rowTuple t.schema raws).run = some (.error e))
    (he : a.execute (.insert name raws) = some (.ok r, a')) (hin : a'.InRange) :
    a.view.Step (.insert name raws) r a'.view := by
  cases hf : a.getTable name with
  | error e =>
    obtain ⟨hv, rfl⟩ := view_missing hz hf
    change a.executeInsert name raws = _ at he
    unfold executeInsert at he
    rw [hf] at he
    cases he
    exact .unknown rfl hv
  | ok x =>
    obtain ⟨oid, t⟩ := x
    rcases hfit oid t hf with hfits | ⟨e, herror⟩
    · exact meaning_row hg hz hf hfits he hin
    · obtain ⟨rfl, what, hw, rfl⟩ := insert_refused hf herror he
      rw [t.schema.eq_new] at herror
      exact .refused (view_found hf) herror hw

/-- What a statement does to the pages, it does to the relations. -/
theorem execute_meaning (hg : a.Good) (hz : a.Sized) (hp : a.Plain) {stmt : Statement}
    {r : QueryResult} (hfit : ∀ name raws oid t, stmt = .insert name raws →
      a.getTable name = .ok (oid, t) → RowFits t.schema.columns raws ∨
        ∃ e, (rowTuple t.schema raws).run = some (.error e))
    (he : a.execute stmt = some (.ok r, a')) (hin : a'.InRange) :
    a.view.Step stmt r a'.view := by
  cases stmt with
  | createTable name columns => exact meaning_create hz he
  | insert name raws => exact meaning_insert hg hz (fun oid t => hfit name raws oid t rfl) he hin
  | select name => exact meaning_select hg hz hp he
  | commit =>
    cases he
    exact .committed
  | delete name column value => exact meaning_delete hg hz hp he

theorem Plain.executed (hp : a.Plain) (hg : a.Good) {stmt : Statement} {r : Except Exn QueryResult}
    (hfit : ∀ name raws oid t, stmt = .insert name raws → a.getTable name = .ok (oid, t) →
      RowFits t.schema.columns raws ∨ ∃ e, (rowTuple t.schema raws).run = some (.error e))
    (he : a.execute stmt = some (r, a')) : a'.Plain := by
  by_cases hsame : a' = a
  · exact hsame ▸ hp
  refine hp.step hg (execute_step he) ?_
  rintro name raws oid t rfl hf
  rcases execute_insert he with h | ⟨oid', t', tuple, rid, h, hf', htuple, -⟩
  · exact absurd h hsame
  · rw [hf] at hf'
    obtain ⟨rfl, rfl⟩ := Prod.mk.inj (Except.ok.inj hf')
    refine (hfit name raws oid t rfl hf).resolve_right ?_
    rintro ⟨e, herror⟩
    rw [htuple] at herror
    cases herror

end HeapDatabase

namespace Database
variable {db : Database} {h : List (Event × Option QueryResult)}

/-- An `INSERT` gives one accepted value for each column, or has a value that is refused. -/
def RowsOrErrors (db : Database) : Event → Prop
  | .statement (.insert name raws) => ∀ oid info, db.catalog.getTable name = .ok (oid, info) →
      HeapDatabase.RowFits info.schema.columns raws ∨
        ∃ e, (rowTuple info.schema raws).run = some (.error e)
  | _ => True

instance (db : Database) (e : Event) : Decidable (db.RowsOrErrors e) :=
  match e with
  | .statement (.insert name raws) =>
    match hf : db.catalog.getTable name with
    | .error _ => isTrue fun oid info hf' => by cases hf.symm.trans hf'
    | .ok (oid, info) =>
      if hfit : HeapDatabase.RowFits info.schema.columns raws then
        isTrue fun oid' info' hf' => by cases hf.symm.trans hf'; exact .inl hfit
      else
        match he : (rowTuple info.schema raws).run with
        | some (.error e) => isTrue fun oid' info' hf' => by
            cases hf.symm.trans hf'
            exact .inr ⟨e, he⟩
        | some (.ok _) => isFalse fun h => by
            rcases h oid info hf with h | ⟨e, he'⟩
            · exact hfit h
            · cases he.symm.trans he'
        | none => isFalse fun h => by
            rcases h oid info hf with h | ⟨e, he'⟩
            · exact hfit h
            · cases he.symm.trans he'
  | .statement (.createTable _ _) | .statement (.select _) | .statement .commit
  | .statement (.delete _ _ _) | .restart => isTrue trivial

/-- Sessions of such statements, with restarts after a `COMMIT`. -/
def relationMachine : Machine Database Event (Option QueryResult) :=
  sessionMachine.restrict RowsOrErrors

instance (h : List (Event × Option QueryResult)) (db : Database) (e : Event) :
    Decidable (relationMachine.Allowed h db e) :=
  inferInstanceAs (Decidable (sessionMachine.Allowed h db e ∧ db.RowsOrErrors e))

/-- The invariant of sessions, with what they mean. -/
structure Means (h : List (Event × Option QueryResult)) (db : Database) (a : HeapDatabase) :
    Prop where
  kept : Kept db a
  flushed : JustCommitted h → Flushed db a
  plain : a.Plain
  run : Relations.Run h a.view

theorem empty_means : Means [] Database.empty HeapDatabase.empty where
  kept := empty_kept
  flushed hj := by cases hj
  plain _ _ ht := by cases ht
  run := .start

theorem Means.statement {a : HeapDatabase} (hm : Means h db a) {stmt : Statement}
    (ha : db.Admits stmt) (hfit : db.RowsOrErrors (.statement stmt)) {r : QueryResult}
    {db' : Database} (hans : db.answer stmt = some (r, db')) :
    ∃ a', Means ((.statement stmt, some r) :: h) db' a' := by
  have he := answer_eq_some.mp hans
  have hin := ha.2 _ db' he
  obtain ⟨a', he', hk'⟩ := hm.kept.executed ha he
  have hfit' : ∀ name raws oid t, stmt = .insert name raws → a.getTable name = .ok (oid, t) →
      HeapDatabase.RowFits t.schema.columns raws ∨
        ∃ e, (rowTuple t.schema raws).run = some (.error e) := by
    rintro name raws oid t rfl hf
    obtain ⟨info, hinfo, hschema⟩ := hm.kept.refines.getTable_catalog hf
    exact hschema ▸ hfit oid info hinfo
  have hrange : a'.InRange := by
    intro oid t ht
    exact (hk'.good oid t ht).heap.next_le
  have hstep := HeapDatabase.execute_meaning hm.kept.good hm.kept.sized hm.plain hfit' he' hrange
  have hplain := hm.plain.executed hm.kept.good hfit' he'
  refine ⟨a', hk', fun hj => ?_, hplain, .statement hm.run hstep⟩
  obtain rfl : stmt = .commit := by
    cases hj
    rfl
  obtain ⟨r', db'', hans', hkc, hfc⟩ := hm.kept.commit
  rw [hans] at hans'
  obtain ⟨rfl, rfl⟩ := Prod.mk.inj (Option.some.inj hans')
  cases he'
  exact hfc

theorem relationMachine_preserves : relationMachine.Preserves fun h db => ∃ a, Means h db a := by
  rintro h db e o db' ⟨a, hm⟩ ⟨ha, hfit⟩ hs
  cases e with
  | restart =>
    cases hs
    exact ⟨a, hm.kept.restart (hm.flushed ha), nofun, hm.plain, .restart hm.run⟩
  | statement stmt =>
    obtain ⟨⟨r, db₁⟩, hans, heq⟩ := Option.map_eq_some_iff.mp hs
    cases heq
    exact hm.statement ha hfit hans

/-- The database is its tables as lists of rows: every answer of a session is what the statements
mean, restarts change nothing, and at its end each table shows its rows. -/
theorem session_means (hr : relationMachine.Run Database.empty h db) :
    ∃ v, Relations.Run h v ∧ ∀ name t, v.table name = some t → Returns db name t.rows := by
  obtain ⟨a, hm⟩ := hr.preserved relationMachine_preserves ⟨_, empty_means⟩
  refine ⟨a.view, hm.run, fun name t hv => ?_⟩
  obtain ⟨t', hfound, rfl⟩ := Option.map_eq_some_iff.mp hv
  obtain ⟨oid, hn, ht'⟩ := Option.bind_eq_some_iff.mp hfound
  have hf := HeapDatabase.getTable_of hn ht'
  exact hm.kept.refines.shows hm.kept.good hf (hm.plain oid t' ht')

/-- A row is refused, another one stored, and it is there after a restart. -/
theorem stored_row_means : ∃ h db v, relationMachine.Run Database.empty h db ∧
    h.map Prod.fst = [.restart, .statement .commit,
      .statement (.insert (str "t") [str "yes"]), .statement (.insert (str "t") [str "true"]),
      .statement (.createTable (str "t") [⟨str "b", .boolean⟩])] ∧ Relations.Run h v := by
  have heval : (relationMachine.play [.statement (.createTable (str "t") [⟨str "b", .boolean⟩]),
      .statement (.insert (str "t") [str "true"]), .statement (.insert (str "t") [str "yes"]),
      .statement .commit, .restart] [] Database.empty).map (fun x => x.1.map Prod.fst) =
      some [.restart, .statement .commit, .statement (.insert (str "t") [str "yes"]),
        .statement (.insert (str "t") [str "true"]),
        .statement (.createTable (str "t") [⟨str "b", .boolean⟩])] := by
    decide +kernel
  obtain ⟨⟨h, db⟩, hplay, hevents⟩ := Option.map_eq_some_iff.mp heval
  have hrun := Machine.Run.start.play hplay
  obtain ⟨v, hv, -⟩ := session_means hrun
  exact ⟨h, db, v, hrun, hevents, hv⟩

end Database
end PragmaticDB
