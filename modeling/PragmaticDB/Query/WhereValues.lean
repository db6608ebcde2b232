import PragmaticDB.Query.InsertTruth

/-!
What a `WHERE` compares. `INSERT` reads a literal into a value, `DELETE` compares the text of a
stored value with the literal as it is written; the two agree on canonical texts only.
-/
namespace PragmaticDB
open CallMachine Executor Throwing

/-! The values in a stored row. -/

namespace Executor
variable {s : Schema} {raws : List (List UInt8)} {bytes value : List UInt8} {c : Column} {i : ℕ}
  {v w x : Value}

/-- The values an `INSERT` reads have the types of the first columns. -/
theorem fromStrings_sql {vs : List Value} (h : (fromStrings s i raws).run = some (.ok vs)) :
    List.Forall₂ (fun c v => Value.Sql c.typeId v) ((s.columns.drop i).take vs.length) vs := by
  induction raws generalizing i vs with
  | nil =>
    cases h
    exact .nil
  | cons raw raws ih =>
    unfold fromStrings at h
    obtain ⟨col, hcol, h⟩ := run_bind_ok.mp h
    obtain ⟨v, hv, h⟩ := run_bind_ok.mp h
    obtain ⟨vs', hvs, h⟩ := run_bind_ok.mp h
    cases h
    obtain ⟨col', hcol, he⟩ := Option.map_eq_some_iff.mp hcol
    cases he
    rw [drop_columns hcol, List.length_cons, List.take_succ_cons]
    exact .cons (ValueFactory.fromString_sql (Option.some.inj hv)) (ih hvs)

theorem sql_ofType {t : TypeId} (h : v.Sql t) : v.OfType t := by
  cases h with
  | integer hn => exact .integer hn.1 hn.2
  | boolean hn => exact .boolean (by omega) (by omega)

/-- A column that got no value has the value of its zero bytes. -/
theorem zero_bytes (ht : c.typeId = .integer ∨ c.typeId = .boolean) :
    (Value.new c.typeId).Sql c.typeId ∧
      (Value.new c.typeId).bytes = List.replicate c.getLength 0 := by
  unfold Column.getLength
  rcases ht with ht | ht
  · rw [ht]
    exact ⟨.integer ⟨by decide, by decide⟩, rfl⟩
  · rw [ht]
    exact ⟨.boolean (.inl rfl), rfl⟩

/-- A cell of an inserted row has a value of its column's type. -/
theorem rowTuple_cell (hs : (s.columns.map Column.getLength).sum < 4294967296)
    (h : (rowTuple s raws).run = some (.ok bytes)) (hc : s.columns[i]? = some c)
    (ht : c.typeId = .integer ∨ c.typeId = .boolean) :
    ∃ x, Tuple.getValue bytes s i = some x ∧ x.Sql c.typeId := by
  obtain ⟨hi, hci⟩ := List.getElem?_eq_some_iff.mp hc
  have hpre := fun k => (sum_take_le_sum s.columns k).trans_lt hs
  obtain ⟨vs, hvs, hnew⟩ := run_bind_ok.mp h
  have hsql := fromStrings_sql hvs
  rw [List.drop_zero] at hsql
  have htyped : Typed (s.columns.take vs.length) vs := hsql.imp fun _ _ => sql_ofType
  rw [Tuple.new_front hs htyped] at hnew
  obtain rfl := Except.ok.inj (Option.some.inj hnew)
  rcases Nat.lt_or_ge i vs.length with hlt | hge
  · have hlt' : i < (s.columns.take vs.length).length := by
      rw [List.length_take]
      omega
    have hval := hsql.get (i := i) hlt' hlt
    rw [List.get_eq_getElem, List.get_eq_getElem, List.getElem_take, hci] at hval
    exact ⟨vs[i], Tuple.getValue_front (hpre _) htyped (List.getElem?_eq_getElem hlt) _, hval⟩
  · obtain ⟨hsqlz, hzero⟩ := zero_bytes ht
    obtain ⟨k, rfl⟩ := Nat.exists_eq_add_of_le hge
    have hk : k < (s.columns.drop vs.length).length := by
      rw [List.length_drop]
      omega
    have hck : (s.columns.drop vs.length)[k] = c := by
      rw [List.getElem_drop]
      exact hci
    -- the zero bytes of the columns before it, of its own, and of the columns behind it
    have hrest : List.replicate ((s.columns.drop vs.length).map Column.getLength).sum (0 : UInt8) =
        List.replicate (((s.columns.drop vs.length).take k).map Column.getLength).sum 0 ++
          ((Value.new c.typeId).bytes ++ List.replicate
            (((s.columns.drop vs.length).drop (k + 1)).map Column.getLength).sum 0) := by
      have hsum := congrArg (fun cs => (cs.map Column.getLength).sum)
        (List.take_append_drop k (s.columns.drop vs.length))
      rw [List.drop_eq_getElem_cons hk, hck] at hsum
      simp only [List.map_append, List.sum_append, List.map_cons, List.sum_cons] at hsum
      rw [hzero, List.replicate_append_replicate, List.replicate_append_replicate, hsum]
    have hbefore : (vs.flatMap Value.bytes ++ List.replicate
        (((s.columns.drop vs.length).take k).map Column.getLength).sum 0).length =
          ((s.columns.take (vs.length + k)).map Column.getLength).sum := by
      rw [List.length_append, htyped.length_bytes, List.length_replicate, List.take_add,
        List.map_append, List.sum_append]
    refine ⟨_, ?_, hsqlz⟩
    rw [hrest, ← List.append_assoc]
    exact Tuple.getValue_at (hpre _) hc (sql_ofType hsqlz) hbefore _

/-- Whatever the bytes are, a cell that can be read has a value of its column's type. -/
theorem getValue_ofType (hc : s.columns[i]? = some c)
    (ht : c.typeId = .integer ∨ c.typeId = .boolean) (hx : Tuple.getValue bytes s i = some x) :
    x.OfType c.typeId := by
  unfold Tuple.getValue at hx
  simp only [hc, Option.bind_eq_bind, Option.bind_some] at hx
  obtain ⟨off, -, hx⟩ := Option.bind_eq_some_iff.mp hx
  rcases ht with ht | ht
  · rw [ht] at hx ⊢
    unfold Value.deserialize at hx
    simp only at hx
    split_ifs at hx
    cases hx
    have hlo := Int.le_bmod (x := ByteBlock.leNat ((bytes.drop off).take 4)) (m := 4294967296)
      (by decide)
    have hhi := Int.bmod_lt (x := ByteBlock.leNat ((bytes.drop off).take 4)) (m := 4294967296)
      (by decide)
    exact .integer (by omega) (by omega)
  · rw [ht] at hx ⊢
    unfold Value.deserialize at hx
    simp only at hx
    split_ifs at hx
    cases hx
    have hlo := Int.le_bmod (x := ByteBlock.leNat ((bytes.drop off).take 1)) (m := 256)
      (by decide)
    have hhi := Int.bmod_lt (x := ByteBlock.leNat ((bytes.drop off).take 1)) (m := 256)
      (by decide)
    exact .boolean (by omega) (by omega)

/-- Whether texts and values compare alike: they do for canonical texts and for other values;
`true` is also the text of truth values other than 1. -/
theorem text_eq_iff {t : TypeId} (hx : x.OfType t)
    (hw : ValueFactory.fromString value t = .ok w) : (x.text t = value ↔ x = w) ↔
      (x.Sql t ∨ value ≠ str "true") ∧ (value = w.text t ∨ x ≠ w) := by
  have hwsql := ValueFactory.fromString_sql hw
  by_cases hsql : x.Sql t
  · by_cases hxw : x = w
    · subst hxw
      simp [hsql, eq_comm]
    · -- two values do not have the same text
      have hne : x.text t ≠ value := by
        rintro rfl
        obtain ⟨text, htext, hback⟩ := hsql.read_back
        have hsame : x.text t = text := by
          unfold Value.text
          rw [htext]
        rw [hsame, hback] at hw
        exact hxw (Except.ok.inj hw)
      simp [hsql, hxw, hne]
  · have hxw : x ≠ w := by
      rintro rfl
      exact hsql hwsql
    have htrue : x.text t = str "true" := by
      cases hx with
      | integer hlo hhi => exact absurd (.integer ⟨hlo, hhi⟩) hsql
      | @boolean n hlo hhi =>
        have h0 : n ≠ 0 := by
          rintro rfl
          exact hsql (.boolean (.inl rfl))
        simp [Value.text, ValueFactory.toString, Value.getInt8, h0, Except.map]
    simp [hsql, hxw, htrue, eq_comm]

end Executor

namespace HeapTable
variable {t : HeapTable}

/-- Every row is the tuple of some `INSERT`. -/
def Inserted (t : HeapTable) : Prop := ∀ rid bytes, t.heap.lookup rid = some bytes →
  ∃ raws, (rowTuple t.schema raws).run = some (.ok bytes)

theorem Inserted.insert (hi : t.Inserted) (hg : t.Good) {raws : List (List UInt8)}
    {tuple : List UInt8} {rid : RecordId} {h : HeapFile}
    (htuple : (rowTuple t.schema raws).run = some (.ok tuple))
    (hins : t.heap.insert tuple = some (rid, h)) : Inserted { t with heap := h } := by
  by_cases hsize : tuple.length = 0 ∨ 65535 < tuple.length
  · unfold HeapFile.insert at hins
    rw [if_pos hsize] at hins
    obtain ⟨-, rfl⟩ := Prod.mk.inj (Option.some.inj hins)
    exact hi
  · rcases Nat.lt_or_ge tuple.length 65532 with hlt | hge
    · have h0 : 0 < tuple.length := by omega
      obtain ⟨rid', h', he', hcase⟩ := hg.heap.insert_cases h0 hlt
      obtain ⟨rfl, rfl⟩ := Prod.mk.inj (Option.some.inj (hins.symm.trans he'))
      intro r bytes hr
      rw [hcase.lookup hg.heap (by omega) (hg.heap.compactsUpwards hg.descending _)] at hr
      split_ifs at hr
      · cases hr
        exact ⟨raws, htuple⟩
      · exact hi r bytes hr
    · rw [t.heap.insert_wide hge (by omega)] at hins
      cases hins

end HeapTable

namespace HeapDatabase
variable {a a' : HeapDatabase}

def Inserted (a : HeapDatabase) : Prop := ∀ oid t, a.tables oid = some t → t.Inserted

theorem Inserted.setHeap (hi : a.Inserted) {oid : ℕ} {t : HeapTable} (ht : a.tables oid = some t)
    {h : HeapFile} (hh : HeapTable.Inserted { t with heap := h }) :
    (a.setHeap oid h).Inserted := by
  intro k t' hk
  obtain ⟨t₀, hk₀, rfl⟩ := Option.map_eq_some_iff.mp hk
  split_ifs with hko
  · subst hko
    obtain rfl := Option.some.inj (hk₀.symm.trans ht)
    exact hh
  · exact hi k t₀ hk₀

/-- Rows come from `INSERT`s alone. -/
theorem inserted_kept : Database.PagesKeep Inserted := by
  intro a stmt r a' hi hg he _
  cases execute_step he with
  | unchanged => exact hi
  | @create name columns hn =>
    intro k t ht
    unfold createTable at ht
    rw [hn] at ht
    simp only at ht
    split_ifs at ht with hk
    · cases ht
      exact fun rid bytes hl => absurd hl (by simp [HeapFile.lookup, HeapFile.empty])
    · exact hi k t ht
  | insert =>
    rcases execute_insert he with hsame | ⟨oid, t, tuple, rid, h, hf, htuple, hins, hset, -⟩
    · rw [hsame]
      exact hi
    · have ht := (getTable_ok hf).2
      rw [hset]
      exact hi.setHeap ht ((hi oid t ht).insert (hg oid t ht) htuple hins)
  | @delete name column value oid t rids h hn ht hrids hdel =>
    obtain ⟨h', hdel', -, hids, -, -, hrec⟩ := deleteRows_spec rids (hg oid t ht).heap hrids
    obtain rfl := Option.some.inj (hdel.symm.trans hdel')
    refine hi.setHeap ht fun rid bytes hl => hi oid t ht rid bytes ?_
    unfold HeapFile.lookup at hl ⊢
    simp only [hids, hrec] at hl
    split_ifs at hl with hpage hmem
    rw [if_pos hpage]
    exact hl

end HeapDatabase

/-! What a `DELETE` does with one column. -/

namespace HeapDatabase
variable {s : Schema} {i : ℕ} {c : Column} {value : List UInt8} {r : RecordId × List UInt8}

/-- The text of a row's cell is what the `WHERE` is compared with. -/
theorem matchText_cell (hc : s.columns[i]? = some c) {x : Value}
    (hx : Tuple.getValue r.2 s i = some x) (ht : x.OfType c.typeId) :
    (matchText s (some i) value r).run =
      some (.ok (if x.text c.typeId = value then some r.1 else none)) := by
  have hcell : (cellText s r.2 i).run = some (.ok (x.text c.typeId)) := by
    apply run_bind_ok.mpr
    refine ⟨x, ?_, run_bind_ok.mpr ⟨c, ?_, congrArg some ht.toString⟩⟩
    · rw [hx]
      rfl
    · rw [hc]
      rfl
  unfold matchText
  rw [ExceptT.run_bind, hcell]
  rfl

theorem matchText_outside (hx : Tuple.getValue r.2 s i = none) :
    (matchText s (some i) value r).run = none := by
  have hcell : (cellText s r.2 i).run = none := by
    unfold cellText
    rw [hx]
    rfl
  unfold matchText
  rw [ExceptT.run_bind, hcell]
  rfl

end HeapDatabase

namespace Database
variable {db : Database} {a : HeapDatabase} {name column value : List UInt8} {oid i : ℕ}
  {info : TableInfo} {t : HeapTable} {c : Column} {w : Value}

/-- A `DELETE` takes out the rows that have the value `w` in column `i`, and no others. -/
def DeletesByValue (db : Database) (name column value : List UInt8) (i : ℕ) (w : Value) : Prop :=
  ∃ s rows r db', db.tableRows name = some (s, rows) ∧
    db.answer (.delete name column value) = some (r, db') ∧ r.success = true ∧
    db'.tableRows name = some (s, rows.filter fun row => Tuple.getValue row.2 s i ≠ some w)

/-- What a `DELETE` comes to when it can read the cell of every row. -/
theorem Refines.delete_cells (hr : db.Refines (fun _ => RecordManager.Refines) a) (hg : a.Good)
    (hf : a.getTable name = .ok (oid, t)) (value : List UInt8) (hcol : column ≠ [])
    (hfind : findColumn t.schema column = some i) (hc : t.schema.columns[i]? = some c)
    (ht : c.typeId = .integer ∨ c.typeId = .boolean)
    (hcells : ∀ row ∈ t.heap.rows, ∃ x, Tuple.getValue row.2 t.schema i = some x) :
    ∃ r db', db.answer (.delete name column value) = some (r, db') ∧ r.success = true ∧
      db'.tableRows name = some (t.schema, t.heap.rows.filter fun row =>
        (Tuple.getValue row.2 t.schema i).map (Value.text c.typeId) ≠ some value) := by
  have htable := (HeapDatabase.getTable_ok hf).2
  have hsome : ¬ (column ≠ [] ∧ findColumn t.schema column = none) := by simp [hfind]
  have hsel : ∀ row ∈ t.heap.rows, (HeapDatabase.matchText t.schema
      (if column = [] then none else findColumn t.schema column) value row).run =
        some (.ok (if decide ((Tuple.getValue row.2 t.schema i).map (Value.text c.typeId) =
          some value) then some row.1 else none)) := by
    intro row hrow
    obtain ⟨x, hx⟩ := hcells row hrow
    rw [if_neg hcol, hfind, HeapDatabase.matchText_cell hc hx (getValue_ofType hc ht hx), hx]
    simp
  obtain ⟨h, hdel, hnext, hrows⟩ :=
    HeapDatabase.executeDelete_rows hf (hg oid t htable) hsome _ hsel
  have hrun : a.execute (.delete name column value) = _ := hdel
  obtain ⟨db', he, hrange⟩ := hr.executes hg hrun
  have hin : (a.setHeap oid h).InRange := by
    intro k t' hk
    obtain ⟨t₀, ht₀, rfl⟩ := Option.map_eq_some_iff.mp hk
    split_ifs with hko
    · exact hnext.trans_le (hg oid t htable).heap.next_le
    · exact (hg k t₀ ht₀).heap.next_le
  obtain ⟨a', ha', hr', -, hg'⟩ := hr.executed (fun _ => refines_layer) hg
    (fun _ => RecordManager.new_refines) he (hrange.mpr hin)
  obtain ⟨-, rfl⟩ := Prod.mk.inj (Option.some.inj (hrun.symm.trans ha'))
  have hf' := HeapDatabase.getTable_setHeap hf oid h
  rw [if_pos rfl] at hf'
  refine ⟨_, db', answer_eq_some.mpr he, rfl, ?_⟩
  rw [hr'.tableRows hg' hf', hrows]
  simp only [decide_not]

/-- Otherwise it is undefined. -/
theorem Refines.delete_outside (hr : db.Refines (fun _ => RecordManager.Refines) a) (hg : a.Good)
    (hf : a.getTable name = .ok (oid, t)) (hcol : column ≠ [])
    (hfind : findColumn t.schema column = some i) (hc : t.schema.columns[i]? = some c)
    (ht : c.typeId = .integer ∨ c.typeId = .boolean) {row : RecordId × List UInt8}
    (hrow : row ∈ t.heap.rows) (hnone : Tuple.getValue row.2 t.schema i = none) :
    db.answer (.delete name column value) = none := by
  have hsome : ¬ (column ≠ [] ∧ findColumn t.schema column = none) := by simp [hfind]
  have hscan : (t.heap.rows.mapM (HeapDatabase.matchText t.schema
      (if column = [] then none else findColumn t.schema column) value)).run = none := by
    rw [if_neg hcol, hfind]
    apply run_mapM_none
    · intro row hrow
      cases hx : Tuple.getValue row.2 t.schema i with
      | none => exact .inl (HeapDatabase.matchText_outside hx)
      | some x =>
        exact .inr ⟨_, HeapDatabase.matchText_cell hc hx (getValue_ofType hc ht hx)⟩
    · exact ⟨row, hrow, HeapDatabase.matchText_outside hnone⟩
  have hrun : a.execute (.delete name column value) = none := by
    change a.executeDelete name column value = none
    unfold HeapDatabase.executeDelete
    simp only [hf, if_neg hsome, hscan]
    rfl
  have hrel := hr.statement hg (.delete name column value)
  rw [hrun] at hrel
  unfold answer
  generalize Executor.execute db (.delete name column value) = x at hrel ⊢
  cases hrel with
  | none => rfl

theorem filter_eq_filter_iff {α : Type} {p q : α → Bool} {l : List α} :
    l.filter p = l.filter q ↔ ∀ x ∈ l, (p x = true ↔ q x = true) := by
  constructor
  · intro h x hx
    have hmem : x ∈ l.filter p ↔ x ∈ l.filter q := by rw [h]
    simpa [hx] using hmem
  · intro h
    apply List.filter_congr
    intro x hx
    exact Bool.eq_iff_iff.mpr (h x hx)

/-- The rows that are left are the right ones if texts and values compare alike in each row. -/
theorem Refines.deletesByValue_iff_cells (hr : db.Refines (fun _ => RecordManager.Refines) a)
    (hg : a.Good) (hf : a.getTable name = .ok (oid, t)) (value : List UInt8) (w : Value)
    (hcol : column ≠ []) (hfind : findColumn t.schema column = some i)
    (hc : t.schema.columns[i]? = some c) (ht : c.typeId = .integer ∨ c.typeId = .boolean)
    (hcells : ∀ row ∈ t.heap.rows, ∃ x, Tuple.getValue row.2 t.schema i = some x) :
    DeletesByValue db name column value i w ↔ ∀ row ∈ t.heap.rows, ∀ x,
      Tuple.getValue row.2 t.schema i = some x → (x.text c.typeId = value ↔ x = w) := by
  have hrows := hr.tableRows hg hf
  obtain ⟨r, db', hans, hok, hafter⟩ := hr.delete_cells hg hf value hcol hfind hc ht hcells
  have hfilter : DeletesByValue db name column value i w ↔
      (t.heap.rows.filter fun row =>
        (Tuple.getValue row.2 t.schema i).map (Value.text c.typeId) ≠ some value) =
      t.heap.rows.filter fun row => Tuple.getValue row.2 t.schema i ≠ some w := by
    constructor
    · rintro ⟨s, rows, r', db'', hbefore, hans', -, hafter'⟩
      obtain ⟨rfl, rfl⟩ := Prod.mk.inj (Option.some.inj (hrows.symm.trans hbefore))
      obtain ⟨-, rfl⟩ := Prod.mk.inj (Option.some.inj (hans.symm.trans hans'))
      exact (Prod.mk.inj (Option.some.inj (hafter.symm.trans hafter'))).2
    · intro hsame
      exact ⟨_, _, r, db', hrows, hans, hok, hsame ▸ hafter⟩
  rw [hfilter, filter_eq_filter_iff]
  refine forall₂_congr fun row hrow => ?_
  obtain ⟨x, hx⟩ := hcells row hrow
  simp [hx, not_iff_not]

/-- A `DELETE` compares by value exactly if the literal is the canonical text of its value or no
row has that value in the column, provided that every row has a value there that texts tell
apart; in tables with rows below `2 ^ 32` bytes every row has one. -/
theorem deletesByValue_iff (hr : Reached db) (hg : db.catalog.getTable name = .ok (oid, info))
    (hcol : column ≠ []) (hfind : findColumn info.schema column = some i)
    (hc : info.schema.columns[i]? = some c)
    (hw : ValueFactory.fromString value c.typeId = .ok w) :
    ∃ rows, db.tableRows name = some (info.schema, rows) ∧
      (DeletesByValue db name column value i w ↔
        (∀ row ∈ rows, ∃ x, Tuple.getValue row.2 info.schema i = some x ∧
          (x.Sql c.typeId ∨ value ≠ str "true")) ∧
        (value = w.text c.typeId ∨ ∀ row ∈ rows, Tuple.getValue row.2 info.schema i ≠ some w)) ∧
      ((info.schema.columns.map Column.getLength).sum < 4294967296 →
        (DeletesByValue db name column value i w ↔ value = w.text c.typeId ∨
          ∀ row ∈ rows, Tuple.getValue row.2 info.schema i ≠ some w)) := by
  obtain ⟨a, href, hgood, hins⟩ := hr.pages HeapDatabase.inserted_kept nofun
  obtain ⟨t, hf, hschema⟩ := href.getTable_heap hg
  rw [hschema] at hfind hc ⊢
  have htable := (HeapDatabase.getTable_ok hf).2
  have hrows := href.tableRows hgood hf
  have ht : c.typeId = .integer ∨ c.typeId = .boolean := by
    cases htype : c.typeId with
    | integer => exact .inl rfl
    | boolean => exact .inr rfl
    | invalid =>
      rw [htype] at hw
      cases hw
    | unnamed raw =>
      rw [htype] at hw
      cases hw
  have hiff : DeletesByValue db name column value i w ↔
      (∀ row ∈ t.heap.rows, ∃ x, Tuple.getValue row.2 t.schema i = some x ∧
        (x.Sql c.typeId ∨ value ≠ str "true")) ∧
      (value = w.text c.typeId ∨
        ∀ row ∈ t.heap.rows, Tuple.getValue row.2 t.schema i ≠ some w) := by
    by_cases hcells : ∀ row ∈ t.heap.rows, ∃ x, Tuple.getValue row.2 t.schema i = some x
    · rw [href.deletesByValue_iff_cells hgood hf value w hcol hfind hc ht hcells]
      constructor
      · intro h
        refine ⟨fun row hrow => ?_, ?_⟩
        · obtain ⟨x, hx⟩ := hcells row hrow
          exact ⟨x, hx, ((text_eq_iff (getValue_ofType hc ht hx) hw).mp (h row hrow x hx)).1⟩
        · by_cases hval : value = w.text c.typeId
          · exact .inl hval
          · refine .inr fun row hrow hx => ?_
            have hcase := (text_eq_iff (getValue_ofType hc ht hx) hw).mp (h row hrow w hx)
            exact hcase.2.elim hval fun hne => hne rfl
      · rintro ⟨hsql, hval⟩ row hrow x hx
        obtain ⟨x', hx', hx's⟩ := hsql row hrow
        obtain rfl := Option.some.inj (hx.symm.trans hx')
        refine (text_eq_iff (getValue_ofType hc ht hx) hw).mpr ⟨hx's, hval.imp_right fun hno => ?_⟩
        rintro rfl
        exact hno row hrow hx
    · refine iff_of_false ?_ fun h => hcells fun row hrow => ?_
      · rintro ⟨s, rows, r', db'', -, hans', -⟩
        simp only [not_forall, not_exists] at hcells
        obtain ⟨row, hrow, hx⟩ := hcells
        have hnone := Option.eq_none_iff_forall_ne_some.mpr hx
        rw [href.delete_outside hgood hf hcol hfind hc ht hrow hnone] at hans'
        cases hans'
      · obtain ⟨x, hx, -⟩ := h.1 row hrow
        exact ⟨x, hx⟩
  refine ⟨t.heap.rows, hrows, hiff, fun hsum => ?_⟩
  rw [hiff, and_iff_right]
  intro row hrow
  obtain ⟨raws, htuple⟩ := hins oid t htable row.1 row.2 (mem_rows.mp hrow)
  obtain ⟨x, hx, hsql⟩ := rowTuple_cell hsum htuple hc ht
  exact ⟨x, hx, .inl hsql⟩

/-- A row that was inserted as `TRUE` is deleted as `true`. -/
theorem true_deleted : ∃ db, Reached db ∧
    DeletesByValue db (str "t") (str "b") (str "true") 0 ⟨.boolean, .int8 1⟩ := by
  have heval : (pagedMachine.play [.createTable (str "t") [⟨str "b", .boolean⟩],
      .insert (str "t") [str "TRUE"]] [] Database.empty).bind (fun x =>
        (x.2.catalog.getTable (str "t")).toOption.map fun e => e.2.schema) =
      some (Schema.new [⟨str "b", .boolean⟩]) := by
    decide +kernel
  obtain ⟨⟨h, db⟩, hplay, heval⟩ := Option.bind_eq_some_iff.mp heval
  have hr : Reached db := .inl ⟨h, Machine.Run.start.play hplay⟩
  cases hg : db.catalog.getTable (str "t") with
  | error e =>
    rw [hg] at heval
    cases heval
  | ok x =>
    rw [hg] at heval
    obtain ⟨oid, info⟩ := x
    have hs : info.schema = Schema.new [⟨str "b", .boolean⟩] := Option.some.inj heval
    have hfind : findColumn info.schema (str "b") = some 0 := by
      rw [hs]
      decide +kernel
    have hc : info.schema.columns[0]? = some ⟨str "b", .boolean⟩ := by
      rw [hs]
      rfl
    have hw : ValueFactory.fromString (str "true") .boolean = .ok ⟨.boolean, .int8 1⟩ := by
      decide +kernel
    obtain ⟨rows, -, -, hshort⟩ := deletesByValue_iff hr hg (by decide +kernel) hfind hc hw
    rw [hs] at hshort
    exact ⟨db, hr, (hshort (by decide)).mpr (.inl (by decide +kernel))⟩

/-- As `TRUE`, the literal of its `INSERT`, the row is not. -/
theorem spelling_compared : ∃ db oid info, Reached db ∧
    db.catalog.getTable (str "t") = .ok (oid, info) ∧
    findColumn info.schema (str "b") = some 0 ∧
    info.schema.columns[0]? = some ⟨str "b", .boolean⟩ ∧
    ValueFactory.fromString (str "TRUE") .boolean = .ok ⟨.boolean, .int8 1⟩ ∧
    ¬ DeletesByValue db (str "t") (str "b") (str "TRUE") 0 ⟨.boolean, .int8 1⟩ := by
  have heval : (pagedMachine.play [.createTable (str "t") [⟨str "b", .boolean⟩],
      .insert (str "t") [str "TRUE"]] [] Database.empty).bind (fun x =>
        (x.2.catalog.getTable (str "t")).toOption.map fun e => (e.2.schema,
          ((x.2.answer (.delete (str "t") (str "b") (str "TRUE"))).bind fun y =>
            y.2.tableRows (str "t")).map fun y => y.2.map Prod.snd)) =
      some (Schema.new [⟨str "b", .boolean⟩], some [[1]]) := by
    decide +kernel
  obtain ⟨⟨h, db⟩, hplay, heval⟩ := Option.bind_eq_some_iff.mp heval
  have hr : Reached db := .inl ⟨h, Machine.Run.start.play hplay⟩
  cases hg : db.catalog.getTable (str "t") with
  | error e =>
    rw [hg] at heval
    cases heval
  | ok x =>
    rw [hg] at heval
    obtain ⟨oid, info⟩ := x
    simp only [Except.toOption, Option.map_some, Option.some.injEq, Prod.mk.injEq] at heval
    obtain ⟨hs, hafter⟩ := heval
    refine ⟨db, oid, info, hr, hg, ?_, ?_, by decide +kernel, ?_⟩
    · rw [hs]
      decide +kernel
    · rw [hs]
      rfl
    · rintro ⟨s, rows, r, db', hrows, hans, -, hrows'⟩
      have hschema : info.schema = s := by
        unfold Database.tableRows at hrows
        rw [hg] at hrows
        obtain ⟨x, -, hx⟩ := Option.map_eq_some_iff.mp hrows
        exact congrArg Prod.fst hx
      rw [hans, Option.bind_some, hrows', Option.map_some, Option.some.injEq] at hafter
      -- the row that is left has the value 1
      obtain ⟨row, hrow, hone⟩ := List.mem_map.mp (hafter ▸ List.mem_singleton_self [1])
      have hvalue := (List.mem_filter.mp hrow).2
      rw [hone, ← hschema, hs] at hvalue
      revert hvalue
      decide +kernel

end Database
end PragmaticDB
