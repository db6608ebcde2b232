import PragmaticDB.Query.InsertionOrder
import PragmaticDB.Query.WhereValues

/-!
Texts of values and values of texts, and what follows for the rows of a table: what a `SELECT`
prints can be inserted again.
-/
namespace PragmaticDB
open CallMachine Executor Throwing

/-! One value. -/

namespace ValueFactory

/-- The two conversions of one type undo each other, but for truth values that are neither 0
nor 1: these come back as 1. -/
structure Inverse (t : TypeId) : Prop where
  values : ∀ v, v.Sql t → ∃ text, toString v t = .ok text ∧ fromString text t = .ok v
  truths : t = .boolean → ∀ n, n ≠ 0 → toString ⟨.boolean, .int8 n⟩ t = .ok (str "true") ∧
    fromString (str "true") t = .ok ⟨.boolean, .int8 1⟩
  texts : ∀ raw v, fromString raw t = .ok v →
    ∃ text, toString v t = .ok text ∧ fromString text t = .ok v
  spellings : ∀ raw raw' v v', fromString raw t = .ok v → fromString raw' t = .ok v' →
    (toString v t = toString v' t ↔ v = v')

theorem inverse (t : TypeId) : Inverse t where
  values v hv := hv.read_back
  truths ht n hn := by
    subst ht
    have htext : toString ⟨.boolean, .int8 n⟩ .boolean =
        .ok (if n = 0 then str "false" else str "true") := rfl
    rw [htext, if_neg hn]
    exact ⟨rfl, by decide +kernel⟩
  texts raw v h := (fromString_sql h).read_back
  spellings raw raw' v v' h h' := by
    obtain ⟨text, htext, hback⟩ := (fromString_sql h).read_back
    obtain ⟨text', htext', hback'⟩ := (fromString_sql h').read_back
    constructor
    · intro hsame
      rw [htext, htext'] at hsame
      obtain rfl := Except.ok.inj hsame
      exact Except.ok.inj (hback.symm.trans hback')
    · rintro rfl
      rfl

/-- `text` is printed for a value of type `t`, whatever byte a truth value has. -/
def Prints (t : TypeId) (text : List UInt8) : Prop := ∃ v, Value.OfType t v ∧ v.text t = text

/-- What is printed is taken, and printed again as it was. -/
theorem Prints.accepted {c : Column} {text : List UInt8} (h : Prints c.typeId text) :
    Accepts c.typeId text ∧ (valueOf c text).text c.typeId = text := by
  obtain ⟨name, t⟩ := c
  obtain ⟨v, hv, rfl⟩ := h
  cases hv with
  | @integer n hlo hhi =>
    have hread : stoi (decimalInt n) = .ok n := (decimalInt_denotes n).stoi ⟨hlo, hhi⟩
    have hval : valueOf ⟨name, .integer⟩ (decimalInt n) = ⟨.integer, .int32 n⟩ := by
      unfold valueOf fromString
      simp only [hread]
      rfl
    refine ⟨⟨n, hread⟩, ?_⟩
    change (valueOf ⟨name, .integer⟩ (decimalInt n)).text .integer = _
    rw [hval]
  | @boolean n hlo hhi =>
    have htext : Value.text .boolean ⟨.boolean, .int8 n⟩ =
        if n = 0 then str "false" else str "true" := rfl
    rw [htext]
    split_ifs
    · exact ⟨.inr (by decide +kernel), rfl⟩
    · exact ⟨.inl (by decide +kernel), rfl⟩

end ValueFactory

/-! One row. -/

namespace Executor
variable {s : Schema} {bytes : List UInt8} {texts : List (List UInt8)}
open HeapDatabase ValueFactory

/-- A cell that can be shown lies within the row. -/
theorem cellText_inside {i : ℕ} {text : List UInt8}
    (h : (cellText s bytes i).run = some (.ok text))
    (hpre : ((s.columns.take i).map Column.getLength).sum < 4294967296) :
    ∃ c, s.columns[i]? = some c ∧ Prints c.typeId text ∧
      ((s.columns.take i).map Column.getLength).sum + c.getLength ≤ bytes.length := by
  obtain ⟨x', hval, h⟩ := run_bind_ok.mp h
  obtain ⟨c', hcol, hrun⟩ := run_bind_ok.mp h
  obtain ⟨x, hx, heq⟩ := Option.map_eq_some_iff.mp hval
  obtain rfl := Except.ok.inj heq
  obtain ⟨c, hc, heq⟩ := Option.map_eq_some_iff.mp hcol
  obtain rfl := Except.ok.inj heq
  have htext : ValueFactory.toString x c.typeId = .ok text := Option.some.inj hrun
  have ht : c.typeId = .integer ∨ c.typeId = .boolean := by
    cases hid : c.typeId with
    | integer => exact .inl rfl
    | boolean => exact .inr rfl
    | invalid =>
      rw [hid] at htext
      cases htext
    | unnamed raw =>
      rw [hid] at htext
      cases htext
  have hof := getValue_ofType hc ht hx
  obtain ⟨hi, -⟩ := List.getElem?_eq_some_iff.mp hc
  refine ⟨c, hc, ⟨x, hof, ?_⟩, ?_⟩
  · exact Except.ok.inj (hof.toString.symm.trans htext)
  · unfold Tuple.getValue at hx
    rw [hc, Tuple.offset_eq hpre hi] at hx
    simp only [Option.bind_eq_bind, Option.bind_some] at hx
    unfold Column.getLength
    rcases ht with ht | ht
    · rw [ht] at hx ⊢
      unfold Value.deserialize at hx
      simp only at hx ⊢
      split_ifs at hx with hin
      exact hin
    · rw [ht] at hx ⊢
      unfold Value.deserialize at hx
      simp only at hx ⊢
      split_ifs at hx with hin
      exact hin

/-- A row that can be shown has all the columns that are shown, and the texts of their values. -/
theorem rowTexts_prints (h : (rowTexts s bytes).run = some (.ok texts))
    (hlt : bytes.length < 4294967296) :
    List.Forall₂ (fun c text => Prints c.typeId text) (s.columns.take (columnCount s)) texts ∧
      ((s.columns.take (columnCount s)).map Column.getLength).sum ≤ bytes.length := by
  have hcells := run_mapM_eq_ok.mp h
  have hlen : texts.length = columnCount s := by
    rw [← hcells.length_eq, List.length_range]
  have hcount : columnCount s ≤ s.columns.length := Nat.mod_le _ _
  have hcell : ∀ (i : ℕ) (hi : i < texts.length),
      (cellText s bytes i).run = some (.ok texts[i]) := by
    intro i hi
    have hrow := hcells.get (i := i) (by rw [List.length_range]; omega) hi
    rwa [List.get_eq_getElem, List.getElem_range] at hrow
  -- by induction on `k` the first `k` columns are within the row
  have hinside : ∀ k, k ≤ columnCount s →
      ((s.columns.take k).map Column.getLength).sum ≤ bytes.length := by
    intro k
    induction k with
    | zero => exact fun _ => Nat.zero_le _
    | succ k ih =>
      intro hk
      obtain ⟨c, hc, -, hle⟩ := cellText_inside (hcell k (by omega)) ((ih (by omega)).trans_lt hlt)
      obtain ⟨hkc, rfl⟩ := List.getElem?_eq_some_iff.mp hc
      rw [List.take_succ_eq_append_getElem hkc, List.map_append, List.sum_append]
      exact hle
  refine ⟨List.forall₂_iff_get.mpr ⟨?_, fun i hi hi' => ?_⟩, hinside _ le_rfl⟩
  · rw [List.length_take]
    omega
  · obtain ⟨c, hc, hprints, -⟩ :=
      cellText_inside (hcell i hi') ((hinside i (by omega)).trans_lt hlt)
    obtain ⟨hic, rfl⟩ := List.getElem?_eq_some_iff.mp hc
    rw [List.get_eq_getElem, List.get_eq_getElem, List.getElem_take]
    exact hprints

/-- The texts of a row make a tuple that is as long as the row and is shown as it is. -/
theorem rowTuple_texts (h : (rowTexts s bytes).run = some (.ok texts))
    (hlen : bytes.length = s.length) (hlt : s.length ≤ 4084) :
    ∃ tuple, (rowTuple s texts).run = some (.ok tuple) ∧ tuple.length = s.length ∧
      (rowTexts s tuple).run = some (.ok texts) := by
  obtain ⟨hprints, hsum⟩ := rowTexts_prints h (by omega)
  have hcount : columnCount s ≤ s.columns.length := Nat.mod_le _ _
  have hlength : texts.length = columnCount s := by
    rw [← hprints.length_eq, List.length_take]
    omega
  have hacc : Accepted (s.columns.take (columnCount s)) texts :=
    hprints.imp fun _ _ hp => hp.accepted.1
  have htyped := Accepted.typed hacc
  have hvalues : (List.zipWith valueOf (s.columns.take (columnCount s)) texts).length =
      columnCount s := by
    rw [← htyped.length_eq, List.length_take]
    omega
  have hbytes := htyped.length_bytes
  have hshort := Typed.length_le htyped
  rw [List.length_take] at hshort
  have hbound : texts.length < 2147483648 := by omega
  have hacc' : Accepted ((s.columns.drop 0).take texts.length) texts := by
    rwa [List.drop_zero, hlength]
  have hfrom := fromStrings_eq hacc'
  rw [List.drop_zero, hlength] at hfrom
  have hsmall : ((s.columns.take (columnCount s)).map Column.getLength).sum < 4294967296 := by
    omega
  generalize hvs : List.zipWith valueOf (s.columns.take (columnCount s)) texts = vs at *
  rw [← hvalues] at htyped hsmall
  obtain ⟨rest, hrest, hnew⟩ : ∃ rest : List UInt8,
      (vs.flatMap Value.bytes ++ rest).length = s.length ∧
        (Tuple.new vs s).run = some (.ok (vs.flatMap Value.bytes ++ rest)) := by
    refine ⟨_, ?_, Tuple.new_within htyped (by omega) (by omega)⟩
    rw [List.length_append, List.length_replicate]
    omega
  refine ⟨_, run_bind_ok.mpr ⟨vs, ?_, hnew⟩, hrest, run_mapM_eq_ok.mpr ?_⟩
  · rw [loopBound_eq hbound, List.take_length, hfrom]
  · apply List.forall₂_iff_get.mpr
    refine ⟨by rw [List.length_range, hlength], fun i hi hi' => ?_⟩
    rw [List.get_eq_getElem, List.get_eq_getElem, List.getElem_range]
    have hic : i < s.columns.length := by omega
    have hiv : i < vs.length := by omega
    have hget := Tuple.getValue_front hsmall htyped (List.getElem?_eq_getElem hiv) rest
    have hprint := hprints.get (i := i) (by rw [List.length_take]; omega) hi'
    rw [List.get_eq_getElem, List.get_eq_getElem, List.getElem_take] at hprint
    have hval : vs[i] = valueOf s.columns[i] texts[i] := by
      subst hvs
      rw [List.getElem_zipWith, List.getElem_take]
    have hof := htyped.get (i := i) (by rw [List.length_take]; omega) hiv
    rw [List.get_eq_getElem, List.get_eq_getElem, List.getElem_take] at hof
    apply run_bind_ok.mpr
    refine ⟨vs[i], ?_, run_bind_ok.mpr ⟨s.columns[i], ?_, ?_⟩⟩
    · rw [hget]
      rfl
    · rw [List.getElem?_eq_getElem hic]
      rfl
    · have htext := hof.toString
      rw [hval, hprint.accepted.2] at htext
      rw [hval]
      exact congrArg some htext

end Executor

/-! All rows of a table. -/

/-- Rows that are stored have between 1 and 4084 bytes. -/
theorem HeapTable.Good.row_size {t : HeapTable} (hg : t.Good) {r : RecordId × List UInt8}
    (hr : r ∈ t.heap.rows) : 0 < r.2.length ∧ r.2.length ≤ 4084 := by
  have hlook := mem_rows.mp hr
  unfold HeapFile.lookup at hlook
  split_ifs at hlook with hp
  obtain ⟨hlive, htuple⟩ := record_eq_some hlook
  have hformat := hg.heap.formatted _ hp
  obtain ⟨hlo, hhi⟩ := hformat.inside _ hlive
  have hroom := hformat.room
  have hcount := hlive.1
  rw [← htuple, tuple, ByteBlock.Block.load_length]
  exact ⟨hlive.2, by omega⟩

namespace Database
variable {db db' db₁ db₂ : Database} {a : HeapDatabase} {name other : List UInt8} {s : Schema}
  {rows : List (List (List UInt8))} {texts : List (List UInt8)} {oid : ℕ} {t : HeapTable}
open HeapDatabase

/-- A row and its texts. -/
abbrev ShownAs (s : Schema) (r : RecordId × List UInt8) (texts : List (List UInt8)) : Prop :=
  (rowTexts s r.2).run = some (.ok texts)

theorem Refines.returns_iff (hr : db.Refines (fun _ => RecordManager.Refines) a) (hg : a.Good)
    (hf : a.getTable name = .ok (oid, t)) :
    Returns db name rows ↔ List.Forall₂ (ShownAs t.schema) t.heap.rows rows := by
  rw [← run_mapM_eq_ok (f := fun r : RecordId × List UInt8 => rowTexts t.schema r.2)]
  constructor
  · rintro ⟨db', hans⟩
    have hrel := hr.statement hg (.select name)
    rw [answer_eq_some.mp hans] at hrel
    obtain ⟨⟨r, a'⟩, ha, rfl, -⟩ := rel_some_left hrel
    obtain ⟨⟨x, a₁⟩, hb, heq⟩ := Option.map_eq_some_iff.mp ha
    rw [hf] at hb
    obtain ⟨y, hy, hb⟩ := Option.bind_eq_some_iff.mp hb
    cases y with
    | error e =>
      cases hb
      -- an exception that is handled is no success
      have hres : handleError (.error e) = .ok _ := congrArg Prod.fst heq
      obtain ⟨what, hwhat⟩ := caught_of_handleError hres
      rw [handleError_caught hwhat] at hres
      cases hres
    | ok rows' =>
      cases hb
      have hres := congrArg QueryResult.rows (Except.ok.inj (congrArg Prod.fst heq))
      exact hy.trans (congrArg (fun rows => some (Except.ok rows)) hres)
  · intro hrows
    have hsel : a.execute (.select name) = some (.ok ⟨true, decimal rows.length ++
        str " rows returned.", rows⟩, a) := by
      change a.executeSelect name = _
      unfold HeapDatabase.executeSelect
      simp only [hf, hrows]
      rfl
    obtain ⟨db', he, -⟩ := hr.executes hg hsel
    exact ⟨db', answer_eq_some.mpr he⟩

/-- `texts` is how some stored row of the schema `s` is shown. -/
def Printed (s : Schema) (texts : List (List UInt8)) : Prop :=
  ∃ r : RecordId × List UInt8, ShownAs s r texts ∧ r.2.length = s.length ∧ 0 < s.length ∧
    s.length ≤ 4084

/-- The table shows these rows, in some order. -/
structure Contains (db : Database) (a : HeapDatabase) (name : List UInt8) (s : Schema)
    (rows : List (List (List UInt8))) (oid : ℕ) (t : HeapTable) : Prop where
  refines : db.Refines (fun _ => RecordManager.Refines) a
  good : a.Good
  table : a.getTable name = .ok (oid, t)
  schema : t.schema = s
  listed : ∃ rows', List.Forall₂ (ShownAs s) t.heap.rows rows' ∧ rows'.Perm rows

/-- A printed row is inserted, and shown as it was printed. -/
theorem Contains.insert (hl : Contains db a name s rows oid t) (hp : Printed s texts)
    (hin : ∀ r db', Executor.execute db (.insert name texts) = some (r, db') → db'.InRange) :
    ∃ db' a' t', db.answer (.insert name texts) = some (⟨true, str "1 row inserted.", []⟩, db') ∧
      Contains db' a' name s (texts :: rows) oid t' := by
  obtain ⟨r, hshown, hlen, hlo, hhi⟩ := hp
  obtain ⟨tuple, htuple, hsize, hback⟩ := rowTuple_texts hshown hlen hhi
  have ht := hl.good oid t (HeapDatabase.getTable_ok hl.table).2
  obtain ⟨rid, h, hins, hperm⟩ := ht.insert_stored (hsize ▸ hlo) (hsize ▸ hhi)
  rw [← hl.schema] at htuple
  obtain ⟨db', hans, hr', hg', hle⟩ := hl.refines.insert_answered hl.good hl.table htuple hins hin
  have hget := HeapDatabase.getTable_setHeap hl.table oid h
  rw [if_pos rfl] at hget
  obtain ⟨rows', hall, hsame⟩ := hl.listed
  have hback : ShownAs s (rid, tuple) texts := hback
  obtain ⟨rows'', hall', hsame'⟩ := List.perm_comp_forall₂ (hperm hle) (.cons hback hall)
  exact ⟨db', _, _, hans, hr', hg', hget, hl.schema, rows'', hall',
    hsame'.trans (hsame.cons texts)⟩

/-- Rows of `rows` are inserted into table `other`, and nothing else is done. -/
def ReloadsOnly (other : List UInt8) (rows : List (List (List UInt8))) : Statement → Prop
  | .insert name raws => name = other ∧ raws ∈ rows
  | _ => False

instance (stmt : Statement) : Decidable (ReloadsOnly other rows stmt) :=
  match stmt with
  | .insert name raws => inferInstanceAs (Decidable (name = other ∧ raws ∈ rows))
  | .createTable _ _ => isFalse id
  | .delete _ _ _ => isFalse id
  | .select _ => isFalse id
  | .commit => isFalse id

def reloadMachine (other : List UInt8) (rows : List (List (List UInt8))) :
    Machine Database Statement QueryResult :=
  pagedMachine.restrict fun _ => ReloadsOnly other rows

instance (h : List (Statement × QueryResult)) (stmt : Statement) :
    Decidable ((reloadMachine other rows).Allowed h db stmt) :=
  inferInstanceAs (Decidable (pagedMachine.Allowed h db stmt ∧ ReloadsOnly other rows stmt))

theorem reloadMachine_preserves (hp : ∀ texts ∈ rows, Printed s texts) :
    (reloadMachine other rows).Preserves fun h db => (∀ x ∈ h, x.2.success = true) ∧
      ∃ a oid t, Contains db a other s (insertedRows other h) oid t := by
  rintro h db stmt r db' ⟨hok, a, oid, t, hl⟩ ⟨hin, hreload⟩ hans
  cases stmt with
  | insert name raws =>
    obtain ⟨rfl, hraws⟩ := hreload
    obtain ⟨db₁, a', t', hans', hl'⟩ := hl.insert (hp raws hraws) hin
    obtain ⟨rfl, rfl⟩ := Prod.mk.inj (Option.some.inj (hans'.symm.trans hans))
    refine ⟨?_, a', oid, t', hl'.refines, hl'.good, hl'.table, hl'.schema, ?_⟩
    · rintro x (_ | ⟨_, hx⟩)
      · rfl
      · exact hok x hx
    · obtain ⟨rows', hall, hsame⟩ := hl'.listed
      have hrows : ∀ r, insertedRows name ((.insert name raws, r) :: h) =
          insertedRows name h ++ [raws] := fun _ => if_pos rfl
      rw [hrows]
      exact ⟨rows', hall, hsame.trans (List.perm_append_singleton raws _).symm⟩
  | createTable name columns => exact hreload.elim
  | delete name column value => exact hreload.elim
  | select name => exact hreload.elim
  | commit => exact hreload.elim

/-- Conversions undo each other, and so the rows that a `SELECT` printed can be inserted into an
empty table of the same columns, which then has these rows. -/
theorem printed_rows_reload {h : List (Statement × QueryResult)} {oid' : ℕ}
    {info info' : TableInfo} (hr : Reached db) (hr' : Reached db₁)
    (hg : db.catalog.getTable name = .ok (oid, info))
    (hg' : db₁.catalog.getTable other = .ok (oid', info')) (hsame : info'.schema = info.schema)
    (hsel : Returns db name rows) (hempty : Returns db₁ other [])
    (hrun : (reloadMachine other rows).Run db₁ h db₂) :
    (∀ t, ValueFactory.Inverse t) ∧ (∀ x ∈ h, x.2.success = true) ∧
      (∃ rows', Returns db₂ other rows' ∧ rows'.Perm (insertedRows other h)) ∧
      ∀ raws, (reloadMachine other rows).Allowed h db₂ (.insert other raws) →
        ∃ db₃, db₂.answer (.insert other raws) =
          some (⟨true, str "1 row inserted.", []⟩, db₃) := by
  obtain ⟨a, href, hgood⟩ := hr.refines
  obtain ⟨t, hf, hschema⟩ := href.getTable_heap hg
  have ht := hgood oid t (HeapDatabase.getTable_ok hf).2
  have hprinted : ∀ texts ∈ rows, Printed info.schema texts := by
    intro texts hmem
    have hall := (href.returns_iff hgood hf).mp hsel
    obtain ⟨i, hi, rfl⟩ := List.getElem_of_mem hmem
    have hi' : i < t.heap.rows.length := hi.trans_eq hall.length_eq.symm
    have hrow := List.getElem_mem hi'
    obtain ⟨hlo, hhi⟩ := ht.row_size hrow
    have hlen := ht.row_length hrow
    rw [hschema]
    exact ⟨_, hall.get hi' hi, hlen, hlen ▸ hlo, hlen ▸ hhi⟩
  obtain ⟨a₁, href₁, hgood₁⟩ := hr'.refines
  obtain ⟨t₁, hf₁, hschema₁⟩ := href₁.getTable_heap hg'
  have hstart : Contains db₁ a₁ other info.schema (insertedRows other []) oid' t₁ := by
    have hnone := (href₁.returns_iff hgood₁ hf₁).mp hempty
    rw [← hschema₁, hsame] at hnone
    exact ⟨href₁, hgood₁, hf₁, hschema₁.symm.trans hsame, [], hnone, .refl _⟩
  obtain ⟨hok, a₂, oid₂, t₂, hl⟩ := hrun.preserved (reloadMachine_preserves hprinted)
    ⟨nofun, a₁, oid', t₁, hstart⟩
  refine ⟨ValueFactory.inverse, hok, ?_, fun raws hallow => ?_⟩
  · obtain ⟨rows', hall, hperm⟩ := hl.listed
    rw [← hl.schema] at hall
    exact ⟨rows', (hl.refines.returns_iff hl.good hl.table).mpr hall, hperm⟩
  · obtain ⟨hin, hreload⟩ := hallow
    obtain ⟨db₃, a₃, t₃, hans, -⟩ := hl.insert (hprinted raws hreload.2) hin
    exact ⟨db₃, hans⟩

/-- A table with one row is filled from what is printed of another one. -/
theorem one_row_reloaded : ∃ db₂ rows', Returns db₂ (str "t") rows' ∧
    rows'.Perm [[str "7", str "true"]] := by
  have heval : ((pagedMachine.play [.createTable (str "t") [⟨str "x", .integer⟩,
      ⟨str "b", .boolean⟩], .insert (str "t") [str "+7", str "True"]] []
      Database.empty).bind fun x => (x.2.answer (.select (str "t"))).map fun y =>
          (y.1, (x.2.catalog.getTable (str "t")).toOption.map fun e => e.2.schema)) =
      some (⟨true, decimal 1 ++ str " rows returned.", [[str "7", str "true"]]⟩,
        some (Schema.new [⟨str "x", .integer⟩, ⟨str "b", .boolean⟩])) := by
    decide +kernel
  have hreload : ((reloadMachine (str "t") [[str "7", str "true"]]).play
      [.insert (str "t") [str "7", str "true"]] []
      (withTable [⟨str "x", .integer⟩, ⟨str "b", .boolean⟩])).map (fun x =>
        insertedRows (str "t") x.1) = some [[str "7", str "true"]] := by
    decide +kernel
  obtain ⟨⟨h, db⟩, hplay, heval⟩ := Option.bind_eq_some_iff.mp heval
  obtain ⟨⟨r, db'⟩, hsel, heval⟩ := Option.map_eq_some_iff.mp heval
  obtain ⟨rfl, hschema⟩ := Prod.mk.inj heval
  obtain ⟨⟨h', db₂⟩, hplay', hrows⟩ := Option.map_eq_some_iff.mp hreload
  cases hg : db.catalog.getTable (str "t") with
  | error e =>
    rw [hg] at hschema
    cases hschema
  | ok x =>
    rw [hg] at hschema
    have hr : Reached db := .inl ⟨h, Machine.Run.start.play hplay⟩
    have hrun := Machine.Run.start.play hplay'
    have hempty : Returns (withTable [⟨str "x", .integer⟩, ⟨str "b", .boolean⟩]) (str "t") [] :=
      ⟨_, rfl⟩
    have hshown : Returns db (str "t") [[str "7", str "true"]] := ⟨db', hsel⟩
    obtain ⟨-, -, ⟨rows', hreturns, hperm⟩, -⟩ := printed_rows_reload hr (withTable_reached _) hg
      (by rfl) (Option.some.inj hschema).symm hshown hempty hrun
    rw [hrows] at hperm
    exact ⟨db₂, rows', hreturns, hperm⟩

end Database

/-- A truth value that is neither 0 nor 1 does not come back. -/
theorem ValueFactory.two_becomes_one : ∃ v text, Value.OfType .boolean v ∧
    toString v .boolean = .ok text ∧ fromString text .boolean ≠ .ok v :=
  ⟨⟨.boolean, .int8 2⟩, str "true", .boolean (by decide) (by decide), rfl, by decide +kernel⟩

end PragmaticDB
