import PragmaticDB.Query.DeletedRows
import PragmaticDB.Query.CatalogFile
import PragmaticDB.Query.Literals

/-!
Which exceptions leave `Execute`. Its handlers take runtime errors; the errors of `std::stoi` are
logic errors, and nothing behind `Execute` takes those.
-/
namespace PragmaticDB
open ByteBlock CallMachine Executor Throwing

/-- Defined, and handlers take what is thrown. -/
abbrev Caught {α : Type} (x : Outcome α) : Prop := ThrowsOnly (fun e => e.caught ≠ none) x

theorem caught_defined {α : Type} {x : Option α} {a : α} (h : x = some a) : Caught (defined x) := by
  subst h
  refine ⟨.ok a, rfl, fun e he => ?_⟩
  cases he

theorem caught_raised {α : Type} {x : Except Exn α} (h : ∀ e, x = .error e → e.caught ≠ none) :
    Caught (raised x) := ⟨x, rfl, h⟩

/-- The sizes of the columns add up without a wrap. -/
def Schema.Unwrapped (s : Schema) : Prop := (s.columns.map Column.getLength).sum < 4294967296

namespace Schema.Unwrapped
variable {s : Schema} {i : ℕ} {col : Column}

theorem offset (hs : s.Unwrapped) (hc : s.columns[i]? = some col) :
    ∃ off, s.offsets[i]? = some off ∧ off + col.getLength ≤ s.length := by
  have hsum : 0 + (s.columns.map Column.getLength).sum < 4294967296 := by
    rw [Nat.zero_add]
    exact hs
  obtain ⟨off, hoff, hle⟩ := (layoutFrom_inside hsum).2 i col hc
  have hbuilt := s.built
  rw [← hbuilt] at hoff hle
  exact ⟨off, hoff, hle⟩

end Schema.Unwrapped

/-! Rows as texts. -/

/-- What is read at the place of a column has the type of the column. -/
theorem deserialize_typed (v₀ : Value) {data : List UInt8} {off : ℕ} {col : Column}
    (hle : off + col.getLength ≤ data.length) :
    ∃ v, v₀.deserialize data off col.typeId = some v ∧
      ∀ e, ValueFactory.toString v col.typeId = .error e → e.caught ≠ none := by
  unfold Column.getLength at hle
  cases ht : col.typeId with
  | integer =>
    rw [ht] at hle
    refine ⟨_, if_pos hle, fun e he => ?_⟩
    cases he
  | boolean =>
    rw [ht] at hle
    refine ⟨_, if_pos hle, fun e he => ?_⟩
    cases he
  | invalid =>
    refine ⟨_, rfl, fun e he => ?_⟩
    cases he
    simp [Exn.caught]
  | unnamed raw =>
    refine ⟨_, rfl, fun e he => ?_⟩
    cases he
    simp [Exn.caught]

theorem getValue_typed {s : Schema} (hs : s.Unwrapped) {bytes : List UInt8}
    (hlen : bytes.length = s.length) {i : ℕ} {col : Column} (hc : s.columns[i]? = some col) :
    ∃ v, Tuple.getValue bytes s i = some v ∧
      ∀ e, ValueFactory.toString v col.typeId = .error e → e.caught ≠ none := by
  obtain ⟨off, hoff, hle⟩ := hs.offset hc
  rw [← hlen] at hle
  unfold Tuple.getValue
  rw [hc, hoff]
  exact deserialize_typed _ hle

theorem cellText_caught {s : Schema} (hs : s.Unwrapped) {bytes : List UInt8}
    (hlen : bytes.length = s.length) {i : ℕ} (hi : i < s.columns.length) :
    Caught (cellText s bytes i) := by
  have hc : s.columns[i]? = some s.columns[i] := List.getElem?_eq_getElem hi
  obtain ⟨v, hv, hcaught⟩ := getValue_typed hs hlen hc
  unfold cellText
  apply (caught_defined hv).bind
  intro v' hv'
  apply (caught_defined hc).bind
  intro col hcol
  apply caught_raised
  rw [hv] at hv'
  rw [hc] at hcol
  cases hv'
  cases hcol
  exact hcaught

theorem columnCount_le (s : Schema) : columnCount s ≤ s.columns.length := Nat.mod_le _ _

theorem rowTexts_caught {s : Schema} (hs : s.Unwrapped) {bytes : List UInt8}
    (hlen : bytes.length = s.length) : Caught (HeapDatabase.rowTexts s bytes) := by
  unfold HeapDatabase.rowTexts
  apply ThrowsOnly.mapM
  intro i hi
  exact cellText_caught hs hlen ((List.mem_range.mp hi).trans_le (columnCount_le s))

theorem findColumn_lt {s : Schema} {name : List UInt8} {i : ℕ} (h : findColumn s name = some i) :
    i < s.columns.length := by
  obtain ⟨hlt, -⟩ := List.findIdx?_eq_some_iff_getElem.mp h
  rw [List.length_take] at hlt
  omega

theorem matchText_caught {s : Schema} (hs : s.Unwrapped) {r : RecordId × List UInt8}
    (hlen : r.2.length = s.length) {col : Option ℕ}
    (hcol : ∀ i, col = some i → i < s.columns.length)
    (value : List UInt8) : Caught (HeapDatabase.matchText s col value r) := by
  cases col with
  | none => exact throwsOnly_pure _
  | some i =>
    apply (cellText_caught hs hlen (hcol i rfl)).bind
    intro text _
    exact throwsOnly_pure _

theorem handle_caught {σ : Type} {e : Exn} (a : σ) (h : e.caught ≠ none) :
    ∃ r, handle (some (.error e, a)) = some (.ok r, a) := by
  obtain ⟨what, hw⟩ := Option.ne_none_iff_exists'.mp h
  refine ⟨⟨false, what, []⟩, ?_⟩
  change some (handleError (.error e), a) = _
  rw [handleError_caught hw]

namespace HeapDatabase
variable {a : HeapDatabase} {name : List UInt8} {oid : ℕ} {t : HeapTable}

/-- Every `SELECT` returns. -/
theorem executeSelect_returns (hf : a.getTable name = .ok (oid, t)) (hg : t.Good)
    (hs : t.schema.Unwrapped) : ∃ r, a.executeSelect name = some (.ok r, a) := by
  have hrows : Caught (t.heap.rows.mapM fun r => rowTexts t.schema r.2) := by
    apply ThrowsOnly.mapM
    intro r hr
    exact rowTexts_caught hs (hg.row_length hr)
  obtain ⟨rows, hrun, hcaught⟩ := hrows
  unfold executeSelect
  simp only [hf, hrun, Option.bind_eq_bind, Option.bind_some]
  cases rows with
  | error e => exact handle_caught a (hcaught e rfl)
  | ok rows => exact ⟨_, rfl⟩

/-- So does every `DELETE`. -/
theorem executeDelete_returns (hf : a.getTable name = .ok (oid, t)) (hg : t.Good)
    (hs : t.schema.Unwrapped) (column value : List UInt8) :
    ∃ r a', a.executeDelete name column value = some (.ok r, a') := by
  unfold executeDelete
  simp only [hf]
  by_cases hmissing : column ≠ [] ∧ findColumn t.schema column = none
  · rw [if_pos hmissing]
    exact ⟨_, a, rfl⟩
  · rw [if_neg hmissing]
    have hcol : ∀ i, (if column = [] then none else findColumn t.schema column) = some i →
        i < t.schema.columns.length := by
      intro i hi
      split_ifs at hi
      exact findColumn_lt hi
    have hrows : Caught (t.heap.rows.mapM (matchText t.schema
        (if column = [] then none else findColumn t.schema column) value)) := by
      apply ThrowsOnly.mapM
      intro r hr
      exact matchText_caught hs (hg.row_length hr) hcol value
    obtain ⟨found, hrun, hcaught⟩ := hrows
    simp only [hrun, Option.bind_eq_bind, Option.bind_some]
    cases found with
    | error e =>
      obtain ⟨r, hr⟩ := handle_caught a (hcaught e rfl)
      exact ⟨r, a, hr⟩
    | ok found =>
      obtain ⟨h, hdel, -⟩ := deleteRows_spec (found.filterMap id) hg.heap (found_rows hrun)
      simp only [hdel, Option.bind_some]
      exact ⟨_, _, rfl⟩

/-- A row is inserted unless its size wraps around in 16 bits on its way to a page. -/
theorem insert_defined_iff (hg : t.Good) (tuple : List UInt8) :
    (∃ rid h, t.heap.insert tuple = some (rid, h)) ↔
      ¬ (65532 ≤ tuple.length ∧ tuple.length ≤ 65535) := by
  constructor
  · rintro ⟨rid, h, hi⟩ ⟨hlo, hhi⟩
    rw [t.heap.insert_wide hlo hhi] at hi
    cases hi
  · intro hlen
    by_cases hsize : tuple.length = 0 ∨ 65535 < tuple.length
    · unfold HeapFile.insert
      rw [if_pos hsize]
      exact ⟨_, _, rfl⟩
    · have h0 : 0 < tuple.length := by omega
      have hlt : tuple.length < 65532 := by omega
      obtain ⟨rid, h, hi, -⟩ := hg.heap.insert_cases h0 hlt
      exact ⟨rid, h, hi⟩

end HeapDatabase

/-! Values and tuples. -/

/-- A value that takes just the place of its column. -/
def Value.Fills (v : Value) (col : Column) : Prop :=
  ∃ bytes, v.serialize = .ok bytes ∧ bytes.length = col.getLength

theorem fromString_fills {col : Column} {raw : List UInt8} (ha : Accepts col.typeId raw) :
    ∃ v, ValueFactory.fromString raw col.typeId = .ok v ∧ v.Fills col := by
  unfold Value.Fills Column.getLength
  cases ht : col.typeId with
  | integer =>
    rw [ht] at ha
    obtain ⟨n, hn⟩ := ha
    exact ⟨⟨.integer, .int32 n⟩, congrArg (Except.map _) hn, _, rfl, leBytes_length 4 _⟩
  | boolean =>
    rw [ht] at ha
    exact ⟨_, if_neg fun hn => ha.elim hn.1 hn.2, _, rfl, leBytes_length 1 _⟩
  | invalid =>
    rw [ht] at ha
    exact ha.elim
  | unnamed n =>
    rw [ht] at ha
    exact ha.elim

/-- The values from column `i` on take the places of their columns. -/
def FillFrom (s : Schema) : ℕ → List Value → Prop
  | _, [] => True
  | i, v :: vs => (∃ col, s.columns[i]? = some col ∧ v.Fills col) ∧ FillFrom s (i + 1) vs

theorem fromStrings_fill {s : Schema} {i : ℕ} {raws : List (List UInt8)}
    (hle : i + raws.length ≤ s.columns.length)
    (ha : ∀ p ∈ (s.columns.drop i).zip raws, Accepts p.1.typeId p.2) :
    ∃ vs, (fromStrings s i raws).run = some (.ok vs) ∧ FillFrom s i vs := by
  induction raws generalizing i with
  | nil => exact ⟨[], rfl, trivial⟩
  | cons raw raws ih =>
    rw [List.length_cons] at hle
    have hlt : i < s.columns.length := by omega
    have hc : s.columns[i]? = some s.columns[i] := List.getElem?_eq_getElem hlt
    rw [drop_columns hc, List.zip_cons_cons] at ha
    obtain ⟨v, hv, hfill⟩ := fromString_fills (ha _ List.mem_cons_self)
    obtain ⟨vs, hvs, hrest⟩ :=
      ih (i := i + 1) (by omega) fun p hp => ha p (List.mem_cons_of_mem _ hp)
    refine ⟨v :: vs, ?_, ⟨_, hc, hfill⟩, hrest⟩
    rw [run_fromStrings_cons hc, hv, hvs]
    rfl

/-- The constructor copies such values inside its buffer. -/
theorem serializeFrom_fill {s : Schema} (hs : s.Unwrapped) {i : ℕ} {vs : List Value}
    {data : List UInt8} (hf : FillFrom s i vs) (hlen : data.length = s.length) :
    ∃ tuple, (Tuple.serializeFrom s i vs data).run = some (.ok tuple) := by
  induction vs generalizing i data with
  | nil => exact ⟨data, rfl⟩
  | cons v vs ih =>
    obtain ⟨⟨col, hc, bytes, hb, hbytes⟩, hrest⟩ := hf
    obtain ⟨off, hoff, hle⟩ := hs.offset hc
    have hinside : off + bytes.length ≤ data.length := by
      rw [hbytes, hlen]
      exact hle
    have hw : writeAt data off bytes =
        some (data.take off ++ bytes ++ data.drop (off + bytes.length)) := if_pos hinside
    obtain ⟨tuple, ht⟩ := ih hrest ((writeAt_length hw).trans hlen)
    refine ⟨tuple, ?_⟩
    unfold Tuple.serializeFrom
    apply run_bind_ok.mpr
    refine ⟨off, by rw [hoff]; rfl, run_bind_ok.mpr ⟨bytes, by rw [hb]; rfl, ?_⟩⟩
    exact run_bind_ok.mpr ⟨_, by rw [hw]; rfl, ht⟩

theorem rowTuple_accepted {s : Schema} (hs : s.Unwrapped) {raws : List (List UInt8)}
    (hle : raws.length ≤ s.columns.length)
    (ha : ∀ p ∈ s.columns.zip (raws.take (loopBound raws.length)), Accepts p.1.typeId p.2) :
    ∃ tuple, (rowTuple s raws).run = some (.ok tuple) := by
  have htake : (raws.take (loopBound raws.length)).length ≤ raws.length := by
    rw [List.length_take]
    exact Nat.min_le_right _ _
  have hbound : 0 + (raws.take (loopBound raws.length)).length ≤ s.columns.length := by omega
  obtain ⟨vs, hvs, hf⟩ := fromStrings_fill hbound ha
  obtain ⟨tuple, ht⟩ := serializeFrom_fill hs hf List.length_replicate
  exact ⟨tuple, run_bind_ok.mpr ⟨vs, hvs, ht⟩⟩

/-- The texts of values of type `t`: for an integer digits behind an optional sign, of a number
that has 32 bits. -/
def Valid (t : TypeId) (raw : List UInt8) : Prop :=
  match t with
  | .integer => ∃ sign ds, raw = sign ++ ds ∧ (sign = [] ∨ sign = [43] ∨ sign = [45]) ∧ ds ≠ [] ∧
      (∀ c ∈ ds, isDigit c) ∧ -2147483648 ≤ signedValue (sign = [45]) ds ∧
      signedValue (sign = [45]) ds < 2147483648
  | .boolean => upper raw = str "TRUE" ∨ upper raw = str "FALSE"
  | _ => False

theorem Valid.accepts {t : TypeId} {raw : List UInt8} (h : Valid t raw) : Accepts t raw := by
  cases t with
  | integer =>
    obtain ⟨sign, ds, rfl, hsign, hne, hd, hlo, hhi⟩ := h
    have hnum : Denotes (sign ++ ds) (signedValue (sign = [45]) ds) :=
      ⟨sign, ds, rfl, hsign, ⟨hne, hd⟩, rfl⟩
    exact ⟨_, hnum.stoi ⟨hlo, hhi⟩⟩
  | boolean => exact h
  | invalid => exact h
  | unnamed n => exact h

/-- Every value that has a column is valid for it. -/
def ValidRow (columns : List Column) (raws : List (List UInt8)) : Prop :=
  ∀ p ∈ columns.zip raws, Valid p.1.typeId p.2

theorem Rejected.invalid {columns : List Column} {raws : List (List UInt8)}
    (h : Rejected columns raws) : ¬ ValidRow columns raws := by
  induction h with
  | here _ hno => exact fun hv => hno (hv _ List.mem_cons_self).accepts
  | later _ _ ih => exact fun hv => ih fun p hp => hv p (List.mem_cons_of_mem _ hp)

theorem ValidRow.take {columns : List Column} {raws : List (List UInt8)}
    (h : ValidRow columns raws) (n : ℕ) : ValidRow columns (raws.take n) := by
  intro p hp
  obtain ⟨i, hi⟩ := List.mem_iff_getElem?.mp hp
  obtain ⟨h1, h2⟩ := List.getElem?_zip_eq_some.mp hi
  rw [List.getElem?_take] at h2
  split_ifs at h2
  exact h p (List.mem_of_getElem? (List.getElem?_zip_eq_some.mpr ⟨h1, h2⟩))

namespace Database
variable {db : Database} {a : HeapDatabase} {stmt : Statement}

/-- The statement returns, and an `INSERT` with an invalid value is refused. -/
structure Answered (db : Database) (stmt : Statement) : Prop where
  returns : ∃ r db', execute db stmt = some (.ok r, db')
  refused : ∀ name raws oid info, stmt = .insert name raws →
    db.catalog.getTable name = .ok (oid, info) → ¬ ValidRow info.schema.columns raws →
    db.Refuses stmt

/-- Either the first value of an `INSERT` that the conversion does not take is none for an
`INTEGER`, or all values are valid and the row has no size that wraps around in 16 bits. -/
def Convertible (db : Database) (stmt : Statement) : Prop :=
  ∀ name raws oid info, stmt = .insert name raws → db.catalog.getTable name = .ok (oid, info) →
    Rejected info.schema.columns (raws.take (loopBound raws.length)) ∨
      ValidRow info.schema.columns raws ∧
        ¬ (65532 ≤ info.schema.length ∧ info.schema.length ≤ 65535)

/-- An `INSERT` has no more values than its table has columns. -/
def CountFits (db : Database) (stmt : Statement) : Prop :=
  ∀ name raws oid info, stmt = .insert name raws → db.catalog.getTable name = .ok (oid, info) →
    raws.length ≤ info.schema.columns.length

/-- In no table the sizes of the columns wrap around in 32 bits. -/
def Unwrapped (db : Database) : Prop :=
  ∀ oid info, db.catalog.tables.lookup oid = some info → info.schema.Unwrapped

theorem getTable_missing {name : List UInt8} {e : Exn} (h : db.catalog.getTable name = .error e) :
    e.caught ≠ none := by
  unfold Catalog.getTable Catalog.getTableByOid at h
  split at h
  · split at h
    · cases h
    · cases h
      simp [Exn.caught]
  · cases h
    simp [Exn.caught]

/-- A statement returns on the database when it does on the pages. -/
theorem Refines.returns (hr : db.Refines (fun _ => RecordManager.Refines) a) (hg : a.Good)
    (stmt : Statement) : (∃ r db', Executor.execute db stmt = some (.ok r, db')) ↔
      ∃ r a', a.execute stmt = some (.ok r, a') := by
  constructor
  · intro h
    obtain ⟨r, db', he⟩ := h
    have hrel := hr.statement hg stmt
    rw [he] at hrel
    obtain ⟨⟨r', a'⟩, ha', rfl, -⟩ := rel_some_left hrel
    exact ⟨r, a', ha'⟩
  · intro h
    obtain ⟨r, a', ha'⟩ := h
    obtain ⟨db', he, -⟩ := hr.executes hg ha'
    exact ⟨r, db', he⟩

/-- All that is not an `INSERT` into a table returns. -/
theorem Kept.returns (hk : Kept db a) (hu : db.Unwrapped)
    (hno : ∀ name raws oid info, stmt = .insert name raws →
      db.catalog.getTable name ≠ .ok (oid, info)) :
    ∃ r db', execute db stmt = some (.ok r, db') := by
  have hs := hk.refines.saves
  cases stmt with
  | createTable name columns =>
    change ∃ r db', handle (some (((db.createTable name (Schema.new columns)).1).map _, _)) = _
    cases hn : db.catalog.tableNames.lookup name with
    | none =>
      rw [(createTable_saved hs hn _).1]
      exact ⟨_, _, rfl⟩
    | some oid =>
      have hfail : (db.createTable name (Schema.new columns)).1 = .error (.runtimeError
          (str "Error: Table '" ++ name ++ str "' already exists in catalog.")) := by
        unfold createTable
        rw [hn]
      rw [hfail]
      exact ⟨_, _, rfl⟩
  | commit =>
    obtain ⟨r, db', he, -⟩ := hk.commit
    exact ⟨r, db', answer_eq_some.mp he⟩
  | insert name raws =>
    cases hg : db.catalog.getTable name with
    | ok e => exact absurd hg (hno name raws e.1 e.2 rfl)
    | error e =>
      obtain ⟨r, hr⟩ := handle_caught db (getTable_missing hg)
      refine ⟨r, db, ?_⟩
      change executeInsert db name raws = _
      unfold executeInsert
      rw [hg]
      exact hr
  | select name =>
    cases hg : db.catalog.getTable name with
    | error e =>
      obtain ⟨r, hr⟩ := handle_caught db (getTable_missing hg)
      refine ⟨r, db, ?_⟩
      change executeSelect db name = _
      unfold executeSelect
      rw [hg]
      exact hr
    | ok e =>
      obtain ⟨t, hf, hschema⟩ := hk.refines.getTable_heap hg
      have ht := hk.good e.1 t (HeapDatabase.getTable_ok hf).2
      have hwrap : t.schema.Unwrapped := hschema ▸ hu e.1 e.2 (Catalog.getTable_lookup hg).2
      obtain ⟨r, he⟩ := HeapDatabase.executeSelect_returns hf ht hwrap
      exact (hk.refines.returns hk.good (.select name)).mpr ⟨r, a, he⟩
  | delete name column value =>
    cases hg : db.catalog.getTable name with
    | error e =>
      obtain ⟨r, hr⟩ := handle_caught db (getTable_missing hg)
      refine ⟨r, db, ?_⟩
      change executeDelete db name column value = _
      unfold executeDelete
      rw [hg]
      exact hr
    | ok e =>
      obtain ⟨t, hf, hschema⟩ := hk.refines.getTable_heap hg
      have ht := hk.good e.1 t (HeapDatabase.getTable_ok hf).2
      have hwrap : t.schema.Unwrapped := hschema ▸ hu e.1 e.2 (Catalog.getTable_lookup hg).2
      exact (hk.refines.returns hk.good (.delete name column value)).mpr
        (HeapDatabase.executeDelete_returns hf ht hwrap column value)

/-- An `INSERT` of valid values returns when the row has a size that does not wrap around. -/
theorem Kept.insert_returns (hk : Kept db a) (hu : db.Unwrapped) {name : List UInt8} {oid : ℕ}
    {info : TableInfo} (hg : db.catalog.getTable name = .ok (oid, info)) {raws : List (List UInt8)}
    (hle : raws.length ≤ info.schema.columns.length) (hv : ValidRow info.schema.columns raws) :
    (∃ r db', execute db (.insert name raws) = some (.ok r, db')) ↔
      ¬ (65532 ≤ info.schema.length ∧ info.schema.length ≤ 65535) := by
  have hwrap := hu oid info (Catalog.getTable_lookup hg).2
  obtain ⟨t, hf, hschema⟩ := hk.refines.getTable_heap hg
  have ht := hk.good oid t (HeapDatabase.getTable_ok hf).2
  rw [hschema] at hwrap hle hv ⊢
  obtain ⟨tuple, htuple⟩ := rowTuple_accepted hwrap hle fun p hp => (hv.take _ p hp).accepts
  have hlen : tuple.length = t.schema.length := rowTuple_length htuple
  have hrun : a.execute (.insert name raws) = handle ((t.heap.insert tuple).bind fun x =>
      some (.ok ⟨true, str "1 row inserted.", []⟩, a.setHeap oid x.2)) := by
    change a.executeInsert name raws = _
    unfold HeapDatabase.executeInsert
    simp only [hf, htuple, Option.bind_eq_bind, Option.bind_some]
  rw [hk.refines.returns hk.good, hrun, ← hlen, ← HeapDatabase.insert_defined_iff ht]
  constructor
  · intro h
    obtain ⟨r, a', he⟩ := h
    obtain ⟨y, hy, -⟩ := Option.map_eq_some_iff.mp he
    obtain ⟨⟨rid, h'⟩, hins, -⟩ := Option.bind_eq_some_iff.mp hy
    exact ⟨rid, h', hins⟩
  · intro h
    obtain ⟨rid, h', hins⟩ := h
    rw [hins]
    exact ⟨_, _, rfl⟩

/-- In every database reached a statement returns as it should just if its values can be
converted: `std::stoi` neither throws nor takes a number with something behind it, and the row
finds its page. -/
theorem answered_iff {h : List (Event × Option QueryResult)}
    (hr : sessionMachine.Run Database.empty h db) (hu : db.Unwrapped) (hc : db.CountFits stmt) :
    db.Answered stmt ↔ db.Convertible stmt := by
  obtain ⟨a, hk, -⟩ := hr.preserved sessionMachine_preserves ⟨_, empty_kept, fun hj => by cases hj⟩
  by_cases hins : ∃ name raws oid info, stmt = .insert name raws ∧
      db.catalog.getTable name = .ok (oid, info)
  · obtain ⟨name, raws, oid, info, rfl, hg⟩ := hins
    have hret := hk.insert_returns hu hg (hc name raws oid info rfl hg)
    constructor
    · intro ha name' raws' oid' info' heq hg'
      cases heq
      cases hg.symm.trans hg'
      by_cases hv : ValidRow info.schema.columns raws
      · exact .inr ⟨hv, (hret hv).mp ha.returns⟩
      · exact .inl ((insert_refused_iff hg).mp (ha.refused name raws oid info rfl hg hv))
    · intro hconv
      rcases hconv name raws oid info rfl hg with hrej | ⟨hv, hlen⟩
      · have href := (insert_refused_iff hg).mpr hrej
        obtain ⟨r, db', he, -⟩ := href
        exact ⟨⟨r, db', he⟩, fun _ _ _ _ _ _ _ => (insert_refused_iff hg).mpr hrej⟩
      · refine ⟨(hret hv).mpr hlen, fun name' raws' oid' info' heq hg' hno => ?_⟩
        cases heq
        cases hg.symm.trans hg'
        exact absurd hv hno
  · have hno : ∀ name raws oid info, stmt = .insert name raws →
        db.catalog.getTable name ≠ .ok (oid, info) :=
      fun name raws oid info heq hg => hins ⟨name, raws, oid, info, heq, hg⟩
    constructor
    · intro _ name raws oid info heq hg
      exact absurd hg (hno name raws oid info heq)
    · intro _
      exact ⟨hk.returns hu hno, fun name raws oid info heq hg =>
        absurd hg (hno name raws oid info heq)⟩

instance (db : Database) : Decidable db.Unwrapped :=
  decidable_of_iff (∀ e ∈ db.catalog.tables.entries,
      (e.2.schema.columns.map Column.getLength).sum < 4294967296)
    ⟨fun h oid info hl => h ⟨oid, info⟩ (AList.mem_lookup_iff.mp hl),
      fun h e he => h e.1 e.2 (AList.mem_lookup_iff.mpr he)⟩

theorem columns_of_getTable {name : List UInt8} {columns : List Column} {oid : ℕ}
    {info : TableInfo}
    (h : (db.catalog.getTable name).toOption.map (fun e => e.2.schema.columns) = some columns)
    (hg : db.catalog.getTable name = .ok (oid, info)) : info.schema.columns = columns := by
  rw [hg] at h
  exact Option.some.inj h

/-- Two bad values, of which the first is refused. -/
theorem first_value_refused : ∃ h db, sessionMachine.Run Database.empty h db ∧
    h.map Prod.fst = [.statement (.createTable (str "t")
      [⟨str "b", .boolean⟩, ⟨str "x", .integer⟩])] ∧
    db.Answered (.insert (str "t") [str "maybe", str "abc"]) := by
  have heval : ((sessionMachine.play [.statement (.createTable (str "t")
      [⟨str "b", .boolean⟩, ⟨str "x", .integer⟩])] [] Database.empty).map fun x =>
        (x.1.map Prod.fst, decide x.2.Unwrapped,
          (x.2.catalog.getTable (str "t")).toOption.map fun e => e.2.schema.columns)) =
      some ([.statement (.createTable (str "t") [⟨str "b", .boolean⟩, ⟨str "x", .integer⟩])], true,
        some [⟨str "b", .boolean⟩, ⟨str "x", .integer⟩]) := by
    decide +kernel
  obtain ⟨⟨h, db⟩, hplay, heval⟩ := Option.map_eq_some_iff.mp heval
  simp only [Prod.mk.injEq, decide_eq_true_eq] at heval
  obtain ⟨hh, hu, hcols⟩ := heval
  have hrun := Machine.Run.start.play hplay
  have hno : ¬ Accepts .boolean (str "maybe") := by
    have hne : upper (str "maybe") ≠ str "TRUE" ∧ upper (str "maybe") ≠ str "FALSE" := by
      decide +kernel
    exact fun h => h.elim hne.1 hne.2
  have hcount : db.CountFits (.insert (str "t") [str "maybe", str "abc"]) := by
    intro name raws oid info heq hg
    cases heq
    rw [columns_of_getTable hcols hg]
    decide
  refine ⟨h, db, hrun, hh, (answered_iff hrun hu hcount).mpr ?_⟩
  intro name raws oid info heq hg
  cases heq
  rw [columns_of_getTable hcols hg]
  exact .inl (.here (by decide) hno)

/-- A text that is no number, for an `INTEGER`: `std::invalid_argument` leaves `Execute`. -/
theorem insert_throws : ∃ h db stmt, sessionMachine.Run Database.empty h db ∧
    h.map Prod.fst = [.statement (.createTable (str "t") [⟨str "x", .integer⟩])] ∧
    Parser.parse (str "INSERT INTO t VALUES (abc)") = some stmt ∧ db.CountFits stmt ∧
    (execute db stmt).map Prod.fst = some (.error .invalidArgument) ∧ ¬ db.Answered stmt := by
  have heval : ((sessionMachine.play [.statement (.createTable (str "t")
      [⟨str "x", .integer⟩])] [] Database.empty).map fun x =>
        (x.1.map Prod.fst, (execute x.2 (.insert (str "t") [str "abc"])).map Prod.fst,
          (x.2.catalog.getTable (str "t")).toOption.map fun e => e.2.schema.columns)) =
      some ([.statement (.createTable (str "t") [⟨str "x", .integer⟩])],
        some (.error .invalidArgument), some [⟨str "x", .integer⟩]) := by
    decide +kernel
  obtain ⟨⟨h, db⟩, hplay, heval⟩ := Option.map_eq_some_iff.mp heval
  simp only [Prod.mk.injEq] at heval
  obtain ⟨hh, hthrow, hcols⟩ := heval
  have hparse : Parser.parse (str "INSERT INTO t VALUES (abc)") =
      some (.insert (str "t") [str "abc"]) := by
    decide +kernel
  refine ⟨h, db, _, Machine.Run.start.play hplay, hh, hparse, ?_, hthrow, fun ha => ?_⟩
  · intro name raws oid info heq hg
    cases heq
    rw [columns_of_getTable hcols hg]
    decide
  · obtain ⟨r, db', he⟩ := ha.returns
    rw [he] at hthrow
    cases hthrow

end Database
end PragmaticDB
