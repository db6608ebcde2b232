import PragmaticDB.Query.InsertValues

/-!
What a `DELETE` takes out of a table. A `SELECT` sees the rows as lists of texts in the order of
pages and slots; a `DELETE` is a filter on that list.
-/
namespace PragmaticDB
open CallMachine Executor Throwing

/-! Rows of a heap after some of them were deleted. -/

namespace HeapFile
variable {h : HeapFile}

theorem rows_nodup (hg : h.Good) : (h.rows.map Prod.fst).Nodup := by
  rw [List.nodup_iff_pairwise_ne, List.pairwise_map]
  apply (rows_pairwise hg).imp
  rintro a b (hlt | ⟨-, hlt⟩) heq
  · rw [heq] at hlt
    exact lt_irrefl _ hlt
  · rw [heq] at hlt
    exact lt_irrefl _ hlt

end HeapFile

namespace HeapDatabase

/-- Deleting rows leaves the others where they are. -/
theorem deleteRows_spec (rids : List RecordId) {h : HeapFile} (hg : h.Good)
    (hp : ∀ rid ∈ rids, rid.pageId ∈ h.ids) : ∃ h', deleteRows rids h = some h' ∧ h'.Good ∧
      h'.ids = h.ids ∧ h'.next = h.next ∧
      (∀ p, slotCount (h'.page p) = slotCount (h.page p)) ∧
      ∀ r, h'.record r = if r ∈ rids then none else h.record r := by
  induction rids generalizing h with
  | nil => exact ⟨h, rfl, hg, rfl, rfl, fun _ => rfl, fun r => rfl⟩
  | cons rid rids ih =>
    obtain ⟨h₁, he, hg₁, hids, hnext, hcount, -, hrec⟩ := hg.delete (hp rid List.mem_cons_self)
    have hp₁ : ∀ r ∈ rids, r.pageId ∈ h₁.ids := fun r hr => hids ▸ hp r (List.mem_cons_of_mem _ hr)
    obtain ⟨h', he', hg', hids', hnext', hcount', hrec'⟩ := ih hg₁ hp₁
    refine ⟨h', ?_, hg', hids'.trans hids, hnext'.trans hnext,
      fun p => (hcount' p).trans (hcount p), fun r => ?_⟩
    · unfold deleteRows
      simp only [he, Option.bind_eq_bind, Option.bind_some, he']
    · rw [hrec', hrec]
      by_cases hr : r = rid
      · simp [hr]
      · simp [hr]

theorem rows_of_records {h h' : HeapFile} {rids : List RecordId} (hids : h'.ids = h.ids)
    (hcount : ∀ p, slotCount (h'.page p) = slotCount (h.page p))
    (hrec : ∀ r, h'.record r = if r ∈ rids then none else h.record r) :
    h'.rows = h.rows.filter fun r => r.1 ∉ rids := by
  have hpage : ∀ p, h'.pageRows p = (h.pageRows p).filter fun r => r.1 ∉ rids := by
    intro p
    unfold HeapFile.pageRows HeapFile.slotRows
    rw [List.filter_filterMap, hcount]
    apply List.filterMap_congr
    intro j _
    rw [hrec]
    by_cases hr : (⟨p, j⟩ : RecordId) ∈ rids
    · cases h.record ⟨p, j⟩ <;> simp [Option.filter, hr]
    · cases h.record ⟨p, j⟩ <;> simp [Option.filter, hr]
  unfold HeapFile.rows
  rw [List.filter_flatMap, hids]
  exact List.flatMap_congr fun p _ => hpage p

end HeapDatabase

/-! Rows as texts. -/

/-- The layout of rows of `BOOLEAN` and `INTEGER` columns that together stay below 65532 bytes. -/
structure Schema.Plain (s : Schema) : Prop where
  typed : ∀ c ∈ s.columns, c.typeId = .integer ∨ c.typeId = .boolean
  short : (s.columns.map Column.getLength).sum < 65532

theorem layoutFrom_inside {n : ℕ} {cs : List Column}
    (hsum : n + (cs.map Column.getLength).sum < 4294967296) :
    (layoutFrom n cs).2 = n + (cs.map Column.getLength).sum ∧
      ∀ (i : ℕ) (c : Column), cs[i]? = some c →
        ∃ off, (layoutFrom n cs).1[i]? = some off ∧ off + c.getLength ≤ (layoutFrom n cs).2 := by
  induction cs generalizing n with
  | nil => exact ⟨rfl, fun i c hc => by simp at hc⟩
  | cons c cs ih =>
    rw [List.map_cons, List.sum_cons] at hsum ⊢
    have hmod : (n + c.getLength) % 4294967296 = n + c.getLength := Nat.mod_eq_of_lt (by omega)
    obtain ⟨htotal, hin⟩ := ih (show n + c.getLength + (cs.map Column.getLength).sum < 4294967296 by
      omega)
    unfold layoutFrom
    simp only [hmod, htotal]
    refine ⟨by omega, fun i d hd => ?_⟩
    cases i with
    | zero =>
      obtain rfl := Option.some.inj hd
      exact ⟨n, rfl, by omega⟩
    | succ i =>
      obtain ⟨off, ho, hle⟩ := hin i d hd
      exact ⟨off, ho, by omega⟩

/-- The text of a cell, and of all cells of a row. -/
def cellOf (s : Schema) (bytes : List UInt8) (i : ℕ) : List UInt8 :=
  match (cellText s bytes i).run with
  | some (.ok text) => text
  | _ => []

def textsOf (s : Schema) (bytes : List UInt8) : List (List UInt8) :=
  (List.range s.columns.length).map (cellOf s bytes)

namespace Schema.Plain
variable {s : Schema} {bytes : List UInt8} {i : ℕ}

theorem length_le (hs : s.Plain) : s.columns.length < 65532 := by
  have hpos : ∀ n ∈ s.columns.map Column.getLength, 1 ≤ n := by
    intro n hn
    obtain ⟨c, hc, rfl⟩ := List.mem_map.mp hn
    rcases hs.typed c hc with ht | ht <;> simp [Column.getLength, ht]
  have hle := List.card_nsmul_le_sum _ 1 hpos
  have hshort := hs.short
  simp only [List.length_map, smul_eq_mul, mul_one] at hle
  omega

theorem columnCount_eq (hs : s.Plain) : columnCount s = s.columns.length := by
  have hle := hs.length_le
  exact Nat.mod_eq_of_lt (by omega)

/-- Every cell of a row of the right length has a text. -/
theorem cellText_ok (hs : s.Plain) (hlen : bytes.length = s.length)
    (hi : i < s.columns.length) : (cellText s bytes i).run = some (.ok (cellOf s bytes i)) := by
  have hshort := hs.short
  have hbuilt := s.built
  have hcol : s.columns[i]? = some s.columns[i] := List.getElem?_eq_getElem hi
  have hsum : 0 + (s.columns.map Column.getLength).sum < 4294967296 := by omega
  obtain ⟨-, hin⟩ := layoutFrom_inside hsum
  obtain ⟨off, hoff, hle⟩ := hin i _ hcol
  rw [← hbuilt] at hoff hle
  simp only [← hlen] at hle
  have hok : ∃ text, (cellText s bytes i).run = some (.ok text) := by
    unfold cellText
    rcases hs.typed _ (List.getElem_mem hi) with ht | ht
    · rw [Column.getLength, ht] at hle
      simp only at hle
      have hval : Tuple.getValue bytes s i = some ⟨.integer,
          .int32 (Int.bmod (ByteBlock.leNat ((bytes.drop off).take 4)) 4294967296)⟩ := by
        simp only [Tuple.getValue, hcol, hoff, ht, Option.bind_eq_bind, Option.bind_some,
          Value.deserialize, if_pos hle]
      rw [hval, hcol]
      exact ⟨_, congrArg (fun t => (raised (ValueFactory.toString _ t)).run) ht⟩
    · rw [Column.getLength, ht] at hle
      simp only at hle
      have hval : Tuple.getValue bytes s i = some ⟨.boolean,
          .int8 (Int.bmod (ByteBlock.leNat ((bytes.drop off).take 1)) 256)⟩ := by
        simp only [Tuple.getValue, hcol, hoff, ht, Option.bind_eq_bind, Option.bind_some,
          Value.deserialize, if_pos hle]
      rw [hval, hcol]
      exact ⟨_, congrArg (fun t => (raised (ValueFactory.toString _ t)).run) ht⟩
  obtain ⟨text, ht⟩ := hok
  unfold cellOf
  rw [ht]

theorem rowTexts_ok (hs : s.Plain) (hlen : bytes.length = s.length) :
    (HeapDatabase.rowTexts s bytes).run = some (.ok (textsOf s bytes)) := by
  unfold HeapDatabase.rowTexts textsOf
  rw [hs.columnCount_eq]
  apply run_mapM_ok
  intro i hi
  exact hs.cellText_ok hlen (List.mem_range.mp hi)

end Schema.Plain

/-- The row has the text `value` in the first column of that name; all rows do where the name is
empty. -/
def Selected (columns : List Column) (column value : List UInt8) (row : List (List UInt8)) :
    Bool := column = [] ∨ row[columns.findIdx fun c => c.name = column]? = some value

namespace HeapTable
variable {t : HeapTable}

/-- A table that has rows has a plain schema. -/
def Plain (t : HeapTable) : Prop :=
  ∀ rid bytes, t.heap.lookup rid = some bytes → t.schema.Plain

/-- The rows as a `SELECT` shows them. -/
def shown (t : HeapTable) : List (List (List UInt8)) :=
  t.heap.rows.map fun r => textsOf t.schema r.2

variable {r : RecordId × List UInt8}

theorem Plain.schema (hp : t.Plain) (hr : r ∈ t.heap.rows) : t.schema.Plain :=
  hp r.1 r.2 (mem_rows.mp hr)

theorem Good.row_length (hg : t.Good) (hr : r ∈ t.heap.rows) :
    r.2.length = t.schema.length := hg.lengths r.1 r.2 (mem_rows.mp hr)

theorem Plain.rowTexts (hp : t.Plain) (hg : t.Good) (hr : r ∈ t.heap.rows) :
    (HeapDatabase.rowTexts t.schema r.2).run = some (.ok (textsOf t.schema r.2)) :=
  (hp.schema hr).rowTexts_ok (hg.row_length hr)

/-- What the `WHERE` makes of a row is read off its texts. -/
theorem Plain.matchText (hp : t.Plain) (hg : t.Good) {column value : List UInt8} {i : ℕ}
    (hr : r ∈ t.heap.rows)
    (hc : column ≠ [] → findColumn t.schema column = some i ∧
      t.schema.columns.findIdx (fun c => c.name = column) = i ∧ i < t.schema.columns.length) :
    (HeapDatabase.matchText t.schema (if column = [] then none else findColumn t.schema column)
      value r).run = some (.ok
        (if Selected t.schema.columns column value (textsOf t.schema r.2) then some r.1
          else none)) := by
  by_cases hcol : column = []
  · rw [if_pos hcol, if_pos (by simp [Selected, hcol])]
    rfl
  · obtain ⟨hfind, hidx, hi⟩ := hc hcol
    have hcell := (hp.schema hr).cellText_ok (hg.row_length hr) hi
    have htext : (textsOf t.schema r.2)[i]? = some (cellOf t.schema r.2 i) := by
      simp [textsOf, hi]
    have hsel : Selected t.schema.columns column value (textsOf t.schema r.2) =
        decide (cellOf t.schema r.2 i = value) := by
      simp [Selected, hcol, hidx, htext]
    rw [if_neg hcol, hfind, hsel]
    unfold HeapDatabase.matchText
    rw [ExceptT.run_bind, hcell]
    simp only [decide_eq_true_eq]
    rfl

end HeapTable

namespace HeapDatabase
variable {a : HeapDatabase} {name column : List UInt8} {oid : ℕ} {t : HeapTable}

theorem executeSelect_shown (hf : a.getTable name = .ok (oid, t)) (hg : t.Good) (hp : t.Plain) :
    a.executeSelect name = some (.ok ⟨true, decimal t.shown.length ++ str " rows returned.",
      t.shown⟩, a) := by
  have hrows : (t.heap.rows.mapM fun r => rowTexts t.schema r.2).run = some (.ok t.shown) :=
    run_mapM_ok fun r hr => hp.rowTexts hg hr
  unfold executeSelect
  simp only [hf, hrows]
  rfl

/-- A `DELETE` whose `WHERE` makes something of every row filters the rows of its table. -/
theorem executeDelete_rows (hf : a.getTable name = .ok (oid, t)) (hg : t.Good)
    {value : List UInt8} (hcol : ¬ (column ≠ [] ∧ findColumn t.schema column = none))
    (sel : RecordId × List UInt8 → Bool) (hsel : ∀ r ∈ t.heap.rows, (matchText t.schema
      (if column = [] then none else findColumn t.schema column) value r).run =
        some (.ok (if sel r then some r.1 else none))) :
    ∃ h, a.executeDelete name column value = some (.ok ⟨true,
        decimal (t.heap.rows.filter sel).length ++ str " row(s) deleted.", []⟩,
        a.setHeap oid h) ∧ h.next = t.heap.next ∧
      h.rows = t.heap.rows.filter fun r => !sel r := by
  have hfound : (t.heap.rows.mapM (matchText t.schema (if column = [] then none
      else findColumn t.schema column) value)).run =
        some (.ok (t.heap.rows.map fun r => if sel r then some r.1 else none)) :=
    run_mapM_ok hsel
  have hlist : (t.heap.rows.map fun r => if sel r then some r.1 else none).filterMap id =
      (t.heap.rows.filter sel).map Prod.fst := by
    rw [List.filterMap_map, ← List.filterMap_eq_map, List.filterMap_filter]
    apply List.filterMap_congr
    intro r _
    by_cases hr : sel r = true <;> simp [hr]
  have hpages : ∀ rid ∈ (t.heap.rows.filter sel).map Prod.fst, rid.pageId ∈ t.heap.ids := by
    intro rid hrid
    obtain ⟨r, hr, rfl⟩ := List.mem_map.mp hrid
    exact mem_ids_of_mem_rows (List.mem_of_mem_filter hr)
  obtain ⟨h, hdel, -, hids, hnext, hcount, hrec⟩ := deleteRows_spec _ hg.heap hpages
  have hrows : h.rows = t.heap.rows.filter fun r => !sel r := by
    rw [rows_of_records hids hcount hrec]
    apply List.filter_congr
    intro r hr
    -- record ids are distinct, so the id of a row is deleted when the row is
    have hmem : r.1 ∈ (t.heap.rows.filter sel).map Prod.fst ↔ sel r = true := by
      constructor
      · intro hm
        obtain ⟨r', hr', heq⟩ := List.mem_map.mp hm
        obtain ⟨hin, hsel⟩ := List.mem_filter.mp hr'
        have hsame := List.inj_on_of_nodup_map (HeapFile.rows_nodup hg.heap) hin hr heq
        exact hsame ▸ hsel
      · intro hsel
        exact List.mem_map_of_mem (List.mem_filter.mpr ⟨hr, hsel⟩)
    simp [hmem]
  refine ⟨h, ?_, hnext, hrows⟩
  unfold executeDelete
  simp only [hf, if_neg hcol, hfound, Option.bind_eq_bind, Option.bind_some, hlist, hdel,
    List.length_map]
  rfl

/-- The same for the rows as they are shown. -/
theorem executeDelete_shown (hf : a.getTable name = .ok (oid, t)) (hg : t.Good) (hp : t.Plain)
    {i : ℕ} (hc : column ≠ [] → findColumn t.schema column = some i ∧
      t.schema.columns.findIdx (fun c => c.name = column) = i ∧ i < t.schema.columns.length)
    (value : List UInt8) : ∃ h, a.executeDelete name column value =
      some (.ok ⟨true, decimal (t.shown.filter (Selected t.schema.columns column value)).length ++
        str " row(s) deleted.", []⟩, a.setHeap oid h) ∧ h.next = t.heap.next ∧
      HeapTable.shown { t with heap := h } =
        t.shown.filter fun row => !Selected t.schema.columns column value row := by
  have hcol : ¬ (column ≠ [] ∧ findColumn t.schema column = none) := by
    rintro ⟨hne, hnone⟩
    rw [(hc hne).1] at hnone
    cases hnone
  obtain ⟨h, hdel, hnext, hrows⟩ := executeDelete_rows hf hg hcol
    (fun r => Selected t.schema.columns column value (textsOf t.schema r.2))
    fun r hr => hp.matchText hg hr hc
  refine ⟨h, ?_, hnext, ?_⟩
  · rw [hdel, HeapTable.shown, List.filter_map, List.length_map]
    rfl
  · unfold HeapTable.shown
    simp only [hrows]
    rw [List.filter_map]
    rfl

variable {a' : HeapDatabase}

/-- The values of a row: one for each column, and accepted by it. -/
structure RowFits (columns : List Column) (raws : List (List UInt8)) : Prop where
  typed : List.Forall₂ (fun c raw => Accepts c.typeId raw) columns raws
  short : (columns.map Column.getLength).sum < 65532

instance (columns : List Column) (raws : List (List UInt8)) : Decidable (RowFits columns raws) :=
  decidable_of_iff (List.Forall₂ (fun c raw => Accepts c.typeId raw) columns raws ∧
    (columns.map Column.getLength).sum < 65532) ⟨fun h => ⟨h.1, h.2⟩, fun h => ⟨h.typed, h.short⟩⟩

theorem accepted_type {columns : List Column} {raws : List (List UInt8)}
    (h : List.Forall₂ (fun c raw => Accepts c.typeId raw) columns raws) :
    ∀ c ∈ columns, c.typeId = .integer ∨ c.typeId = .boolean := by
  induction h with
  | nil => nofun
  | @cons c raw columns raws ha _ ih =>
    intro d hd
    rcases List.mem_cons.mp hd with rfl | hd
    · unfold Accepts at ha
      split at ha
      next ht => exact .inl ht
      next ht => exact .inr ht
      next => exact ha.elim
    · exact ih d hd

theorem RowFits.plain {s : Schema} {raws : List (List UInt8)} (hf : RowFits s.columns raws) :
    s.Plain := ⟨accepted_type hf.typed, hf.short⟩

/-- Every table with rows has a plain schema. -/
def Plain (a : HeapDatabase) : Prop := ∀ oid t, a.tables oid = some t → t.Plain

theorem Plain.setHeap (hp : a.Plain) {oid : ℕ} {t : HeapTable} (ht : a.tables oid = some t)
    {h : HeapFile} (hh : HeapTable.Plain { t with heap := h }) : (a.setHeap oid h).Plain := by
  intro k t' hk
  obtain ⟨t₀, hk₀, rfl⟩ := Option.map_eq_some_iff.mp hk
  split_ifs with hko
  · subst hko
    obtain rfl := Option.some.inj (hk₀.symm.trans ht)
    exact hh
  · exact hp k t₀ hk₀

theorem getTable_setHeap {other : List UInt8} {k : ℕ} {t' : HeapTable}
    (hf : a.getTable other = .ok (k, t')) (oid : ℕ) (h : HeapFile) :
    (a.setHeap oid h).getTable other = .ok (k, if k = oid then { t' with heap := h } else t') := by
  obtain ⟨hn, ht⟩ := getTable_ok hf
  apply getTable_of
  · exact hn
  · simp [setHeap, ht]

theorem Plain.step (hp : a.Plain) (hg : a.Good) {stmt : Statement} (hs : a.Step stmt a')
    (hfit : ∀ name raws oid t, stmt = .insert name raws → a.getTable name = .ok (oid, t) →
      RowFits t.schema.columns raws) : a'.Plain := by
  cases hs with
  | unchanged => exact hp
  | @create name columns hn =>
    intro k t ht
    unfold createTable at ht
    rw [hn] at ht
    simp only at ht
    split_ifs at ht with hk
    · cases ht
      exact fun rid bytes hl => absurd hl (by simp [HeapFile.lookup, HeapFile.empty])
    · exact hp k t ht
  | insert hn ht hlen hins =>
    have hplain := (hfit _ _ _ _ rfl (getTable_of hn ht)).plain
    exact hp.setHeap ht fun _ _ _ => hplain
  | @delete name column value oid t rids h hn ht hrids hdel =>
    obtain ⟨h', hdel', -, hids, -, -, hrec⟩ := deleteRows_spec rids (hg oid t ht).heap hrids
    obtain rfl := Option.some.inj (hdel.symm.trans hdel')
    refine hp.setHeap ht fun rid bytes hl => hp oid t ht rid bytes ?_
    unfold HeapFile.lookup at hl ⊢
    simp only [hids, hrec] at hl
    split_ifs at hl with hpage hmem
    rw [if_pos hpage]
    exact hl

end HeapDatabase

namespace Database
variable {db db' : Database} {a : HeapDatabase} {name : List UInt8}

/-- An `INSERT` gives one accepted value for each column, and rows are shorter than 65532 bytes. -/
def RowInsert (db : Database) : Statement → Prop
  | .insert name raws => ∀ oid info, db.catalog.getTable name = .ok (oid, info) →
      HeapDatabase.RowFits info.schema.columns raws
  | _ => True

instance (db : Database) (stmt : Statement) : Decidable (db.RowInsert stmt) :=
  match stmt with
  | .insert name raws =>
    match h : db.catalog.getTable name with
    | .ok (oid, info) => decidable_of_iff (HeapDatabase.RowFits info.schema.columns raws) (by
        simp [RowInsert, h])
    | .error e => isTrue (by simp [RowInsert, h])
  | .createTable _ _ | .select _ | .commit | .delete _ _ _ => isTrue trivial

/-- Sequences of such statements, with page ids below `2 ^ 19`. -/
def rowMachine : Machine Database Statement QueryResult where
  step := Database.answer
  Allowed _ db stmt := RowInsert db stmt ∧ ∀ r db', execute db stmt = some (r, db') → db'.InRange

instance (h : List (Statement × QueryResult)) (db : Database) (stmt : Statement) :
    Decidable (rowMachine.Allowed h db stmt) :=
  decidable_of_iff (db.RowInsert stmt ∧ ∀ x ∈ execute db stmt, x.2.InRange)
    (and_congr_right fun _ => ⟨fun h r db' he => h (r, db') he, fun h x hx => h x.1 x.2 hx⟩)

/-- The rows a `SELECT` returns. -/
def Returns (db : Database) (name : List UInt8) (rows : List (List (List UInt8))) : Prop :=
  ∃ db', db.answer (.select name) =
    some (⟨true, decimal rows.length ++ str " rows returned.", rows⟩, db')

/-- The invariant of every run. -/
structure Readable (db : Database) (a : HeapDatabase) : Prop where
  refines : db.Refines (fun _ => RecordManager.Refines) a
  good : a.Good
  plain : a.Plain

theorem empty_readable : Readable Database.empty HeapDatabase.empty :=
  ⟨empty_kept.refines, HeapDatabase.empty_good, nofun⟩

theorem Refines.getTable_heap (hr : db.Refines (fun _ => RecordManager.Refines) a) {oid : ℕ}
    {info : TableInfo} (hg : db.catalog.getTable name = .ok (oid, info)) :
    ∃ t, a.getTable name = .ok (oid, t) ∧ info.schema = t.schema := by
  have hf := hr.getTable name
  rw [hg] at hf
  generalize a.getTable name = y at hf ⊢
  cases hf with
  | found hl ht hi => exact ⟨_, rfl, hi.schema⟩

theorem Refines.getTable_catalog (hr : db.Refines (fun _ => RecordManager.Refines) a) {oid : ℕ}
    {t : HeapTable} (hg : a.getTable name = .ok (oid, t)) :
    ∃ info, db.catalog.getTable name = .ok (oid, info) ∧ info.schema = t.schema := by
  have hf := hr.getTable name
  rw [hg] at hf
  generalize db.catalog.getTable name = x at hf ⊢
  cases hf with
  | found hl ht hi => exact ⟨_, rfl, hi.schema⟩

theorem Readable.executed (hk : Readable db a) {stmt : Statement} (hfit : RowInsert db stmt)
    {r : Except Exn QueryResult} (he : Executor.execute db stmt = some (r, db'))
    (hin : db'.InRange) : ∃ a', a.execute stmt = some (r, a') ∧ Readable db' a' := by
  obtain ⟨a', he', hr', hstep, hg'⟩ := hk.refines.executed (fun _ => refines_layer) hk.good
    (fun _ => RecordManager.new_refines) he hin
  refine ⟨a', he', hr', hg', hk.plain.step hk.good hstep ?_⟩
  rintro n raws oid t rfl hf
  obtain ⟨info, hinfo, hschema⟩ := hk.refines.getTable_catalog hf
  exact hschema ▸ hfit oid info hinfo

theorem rowMachine_preserves : rowMachine.Preserves fun _ db => ∃ a, Readable db a := by
  rintro h db stmt r db' ⟨a, hk⟩ ⟨hfit, hin⟩ hstep
  have he := answer_eq_some.mp hstep
  obtain ⟨a', -, hk'⟩ := hk.executed hfit he (hin _ _ he)
  exact ⟨a', hk'⟩

theorem Refines.shows (hr : db.Refines (fun _ => RecordManager.Refines) a) (hg : a.Good) {oid : ℕ}
    {t : HeapTable} (hf : a.getTable name = .ok (oid, t)) (hp : t.Plain) :
    Returns db name t.shown := by
  have ht := (HeapDatabase.getTable_ok hf).2
  have hsel := HeapDatabase.executeSelect_shown hf (hg oid t ht) hp
  have hrun : a.execute (.select name) = _ := hsel
  obtain ⟨db', he, -⟩ := hr.executes hg hrun
  exact ⟨db', answer_eq_some.mpr he⟩

theorem Readable.returns (hk : Readable db a) {oid : ℕ} {t : HeapTable}
    (hf : a.getTable name = .ok (oid, t)) : Returns db name t.shown :=
  hk.refines.shows hk.good hf (hk.plain oid t (HeapDatabase.getTable_ok hf).2)

/-- A `DELETE` removes from the rows of its table those it selects, in place, says how many, and
leaves the rows of all other tables. -/
theorem delete_removes {h : List (Statement × QueryResult)} {oid : ℕ} {info : TableInfo}
    {column : List UInt8} (hr : rowMachine.Run Database.empty h db)
    (hg : db.catalog.getTable name = .ok (oid, info))
    (hc : column ≠ [] → (∃ c ∈ info.schema.columns, c.name = column) ∧
      info.schema.columns.length < 4294967296) (value : List UInt8) :
    ∃ rows db', Returns db name rows ∧
      db.answer (.delete name column value) = some (⟨true, decimal
        (rows.filter (Selected info.schema.columns column value)).length ++
          str " row(s) deleted.", []⟩, db') ∧
      Returns db' name (rows.filter fun row => !Selected info.schema.columns column value row) ∧
      ∀ other k info', db.catalog.getTable other = .ok (k, info') → k ≠ oid →
        ∃ rows', Returns db other rows' ∧ Returns db' other rows' := by
  obtain ⟨a, hk⟩ := hr.preserved rowMachine_preserves ⟨_, empty_readable⟩
  obtain ⟨t, hf, hschema⟩ := hk.refines.getTable_heap hg
  have ht := (HeapDatabase.getTable_ok hf).2
  rw [hschema] at hc ⊢
  have hfind : column ≠ [] → findColumn t.schema column =
        some (t.schema.columns.findIdx fun c => c.name = column) ∧
      t.schema.columns.findIdx (fun c => c.name = column) =
        t.schema.columns.findIdx (fun c => c.name = column) ∧
      t.schema.columns.findIdx (fun c => c.name = column) < t.schema.columns.length := by
    intro hne
    obtain ⟨⟨c, hmem, hname⟩, hlen⟩ := hc hne
    have hlt : t.schema.columns.findIdx (fun c => c.name = column) < t.schema.columns.length :=
      List.findIdx_lt_length.mpr ⟨c, hmem, by simpa using hname⟩
    refine ⟨?_, rfl, hlt⟩
    unfold findColumn columnCount
    rw [Nat.mod_eq_of_lt hlen, List.take_length, List.findIdx?_eq_some_iff_findIdx_eq]
    exact ⟨hlt, rfl⟩
  obtain ⟨h', hdel, hnext, hshown⟩ := HeapDatabase.executeDelete_shown hf (hk.good oid t ht)
    (hk.plain oid t ht) hfind value
  have hin : (a.setHeap oid h').InRange := by
    intro k t' hk'
    obtain ⟨t₀, ht₀, rfl⟩ := Option.map_eq_some_iff.mp hk'
    split_ifs with hko
    · exact hnext.trans_le (hk.good oid t ht).heap.next_le
    · exact (hk.good k t₀ ht₀).heap.next_le
  have hrun : a.execute (.delete name column value) = _ := hdel
  obtain ⟨db', he, hrange⟩ := hk.refines.executes hk.good hrun
  have hfit : RowInsert db (.delete name column value) := trivial
  obtain ⟨a', ha', hk'⟩ := hk.executed hfit he (hrange.mpr hin)
  obtain ⟨-, rfl⟩ := Prod.mk.inj (Option.some.inj (hrun.symm.trans ha'))
  refine ⟨t.shown, db', hk.returns hf, answer_eq_some.mpr he, ?_, ?_⟩
  · rw [← hshown]
    have hf' := HeapDatabase.getTable_setHeap hf oid h'
    rw [if_pos rfl] at hf'
    exact hk'.returns hf'
  · intro other k info' hg' hne
    obtain ⟨t', hft', -⟩ := hk.refines.getTable_heap hg'
    have hft := HeapDatabase.getTable_setHeap hft' oid h'
    rw [if_neg hne] at hft
    exact ⟨t'.shown, hk.returns hft', hk'.returns hft⟩

/-- Two rows of which one is deleted. -/
theorem one_row_deleted : ∃ h db rows db', rowMachine.Run Database.empty h db ∧
    Returns db (str "t") rows ∧ db.answer (.delete (str "t") (str "x") (str "7")) = some (⟨true,
      decimal (rows.filter (Selected [⟨str "x", .integer⟩] (str "x") (str "7"))).length ++
        str " row(s) deleted.", []⟩, db') ∧
    Returns db' (str "t")
      (rows.filter fun row => !Selected [⟨str "x", .integer⟩] (str "x") (str "7") row) := by
  have heval : (rowMachine.play [.createTable (str "t") [⟨str "x", .integer⟩],
      .insert (str "t") [str "7"], .insert (str "t") [str "8"]] [] Database.empty).bind (fun x =>
        (x.2.catalog.getTable (str "t")).toOption.map fun e => e.2.schema.columns) =
      some [⟨str "x", .integer⟩] := by
    decide +kernel
  obtain ⟨⟨h, db⟩, hplay, heval⟩ := Option.bind_eq_some_iff.mp heval
  have hrun := Machine.Run.start.play hplay
  cases hg : db.catalog.getTable (str "t") with
  | error e =>
    rw [hg] at heval
    cases heval
  | ok x =>
    rw [hg] at heval
    have hcols : x.2.schema.columns = [⟨str "x", .integer⟩] := Option.some.inj heval
    have hc : str "x" ≠ [] → (∃ c ∈ x.2.schema.columns, c.name = str "x") ∧
        x.2.schema.columns.length < 4294967296 := by
      simp [hcols]
    obtain ⟨rows, db', hbefore, hdelete, hafter, -⟩ := delete_removes hrun hg hc (str "7")
    rw [hcols] at hdelete hafter
    exact ⟨h, db, rows, db', hrun, hbefore, hdelete, hafter⟩

theorem create_inRange (name : List UInt8) (columns : List Column) :
    (Database.empty.createTable name (Schema.new columns)).2.InRange := by
  intro oid info hl
  change (AList.insert 0 _ ∅ : AList fun _ : ℕ => TableInfo).lookup oid = some info at hl
  rw [AList.lookup_insert_ite] at hl
  split_ifs at hl
  · cases hl
    exact (by decide : (0 : ℤ) ≤ 524288)
  · cases hl

/-- The column count of a table of `2 ^ 32` columns wraps to zero. -/
theorem wide_table_column_missing : ∃ h db oid info db',
    rowMachine.Run Database.empty h db ∧ db.catalog.getTable (str "t") = .ok (oid, info) ∧
    (∃ c ∈ info.schema.columns, c.name = str "x") ∧
    db.answer (.delete (str "t") (str "x") (str "true")) =
      some (⟨false, str "Error: Column '" ++ str "x" ++ str "' not found.", []⟩, db') := by
  obtain ⟨columns, hlen, hmem⟩ : ∃ columns : List Column, columns.length % 4294967296 = 0 ∧
      ⟨str "x", .boolean⟩ ∈ columns := by
    refine ⟨List.replicate 4294967296 ⟨str "x", .boolean⟩, ?_, ?_⟩
    · rw [List.length_replicate]
    · exact List.mem_replicate.mpr ⟨by decide, rfl⟩
  have hallow : rowMachine.Allowed [] Database.empty (.createTable (str "t") columns) := by
    refine ⟨trivial, fun r db' he => ?_⟩
    cases he
    exact create_inRange _ _
  have hstep : Database.empty.answer (.createTable (str "t") columns) =
      some (⟨true, str "Table '" ++ str "t" ++ str "' created.", []⟩,
        (Database.empty.createTable (str "t") (Schema.new columns)).2) := rfl
  have htable : (Database.empty.createTable (str "t") (Schema.new columns)).2.catalog.getTable
      (str "t") = .ok (0, ⟨Schema.new columns, str "t", openTable Database.empty.fileOf 0, 0⟩) := by
    rfl
  have hnone : findColumn (Schema.new columns) (str "x") = none := by
    unfold findColumn columnCount
    rw [show (Schema.new columns).columns = columns from rfl, hlen]
    rfl
  have hne : str "x" ≠ [] := by decide +kernel
  have hdelete : Executor.execute (Database.empty.createTable (str "t") (Schema.new columns)).2
      (.delete (str "t") (str "x") (str "true")) =
        some (.ok ⟨false, str "Error: Column '" ++ str "x" ++ str "' not found.", []⟩,
          (Database.empty.createTable (str "t") (Schema.new columns)).2) := by
    unfold Executor.execute Executor.executeDelete
    simp only [htable, hnone, hne, ne_eq, not_false_eq_true, and_self, if_true]
    rfl
  exact ⟨_, _, _, _, _, Machine.Run.start.call hallow hstep, htable, ⟨_, hmem, rfl⟩,
    answer_eq_some.mpr hdelete⟩

end Database
end PragmaticDB
