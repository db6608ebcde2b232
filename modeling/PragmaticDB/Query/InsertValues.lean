import PragmaticDB.Query.DatabaseRuns

/-!
What an `INSERT` makes of its values. The loop is driven by the values, not by the columns.
-/
namespace PragmaticDB
open Executor Throwing CallMachine

/-- The texts that `FromString` takes for a column of type `t`. -/
def Accepts (t : TypeId) (raw : List UInt8) : Prop :=
  match t with
  | .integer => ∃ v, stoi raw = .ok v
  | .boolean => upper raw = str "TRUE" ∨ upper raw = str "FALSE"
  | _ => False

instance (t : TypeId) (raw : List UInt8) : Decidable (Accepts t raw) :=
  match t with
  | .integer => decidable_of_iff ((stoi raw).toOption.isSome = true) (by
      cases h : stoi raw <;> simp [Accepts, h, Except.toOption])
  | .boolean => inferInstanceAs (Decidable (upper raw = str "TRUE" ∨ upper raw = str "FALSE"))
  | .invalid => isFalse id
  | .unnamed _ => isFalse id

/-- Of the values that have a column, the first that is not accepted belongs to a column that is
no `INTEGER` column. -/
inductive Rejected : List Column → List (List UInt8) → Prop where
  | here {col : Column} {cols : List Column} {raw : List UInt8} {raws : List (List UInt8)} :
      col.typeId ≠ .integer → ¬ Accepts col.typeId raw → Rejected (col :: cols) (raw :: raws)
  | later {col : Column} {cols : List Column} {raw : List UInt8} {raws : List (List UInt8)} :
      Accepts col.typeId raw → Rejected cols raws → Rejected (col :: cols) (raw :: raws)

theorem stoi_error {raw : List UInt8} {e : Exn} (h : stoi raw = .error e) : e.caught = none := by
  unfold stoi stoiFrom at h
  generalize List.takeWhile isDigit _ = ds at h
  simp only at h
  split_ifs at h
  · cases h
    rfl
  · cases h
    rfl

namespace ValueFactory

theorem fromString_accepted {t : TypeId} {raw : List UInt8} (h : Accepts t raw) :
    ∃ v, fromString raw t = .ok v := by
  cases t with
  | integer =>
    obtain ⟨v, hv⟩ := h
    exact ⟨_, congrArg (Except.map _) hv⟩
  | boolean => exact ⟨_, if_neg fun hn => h.elim hn.1 hn.2⟩
  | invalid => exact h.elim
  | unnamed raw => exact h.elim

/-- Only the errors of `std::stoi` are no runtime errors. -/
theorem fromString_refused {t : TypeId} {raw : List UInt8} (h : ¬ Accepts t raw) :
    ∃ e, fromString raw t = .error e ∧ (e.caught = none ↔ t = .integer) := by
  cases t with
  | integer =>
    cases hs : stoi raw with
    | ok v => exact absurd ⟨v, hs⟩ h
    | error e => exact ⟨e, congrArg (Except.map _) hs, iff_of_true (stoi_error hs) rfl⟩
  | boolean => exact ⟨_, if_pos (not_or.mp h), iff_of_false nofun nofun⟩
  | invalid => exact ⟨_, rfl, iff_of_false nofun nofun⟩
  | unnamed raw => exact ⟨_, rfl, iff_of_false nofun nofun⟩

end ValueFactory

theorem layoutFrom_length (n : ℕ) (cs : List Column) :
    (layoutFrom n cs).1.length = cs.length := by
  induction cs generalizing n with
  | nil => rfl
  | cons c cs ih =>
    unfold layoutFrom
    simp only [List.length_cons, ih]

theorem Schema.length_offsets (s : Schema) : s.offsets.length = s.columns.length := by
  rw [show s.offsets = _ from congrArg Prod.fst s.built, layoutFrom_length]

namespace Executor
variable {s : Schema} {i : ℕ} {raws : List (List UInt8)}

/-- One value more in front of the loop. -/
theorem run_fromStrings_cons {col : Column} (hc : s.columns[i]? = some col) (raw : List UInt8)
    (raws : List (List UInt8)) : (fromStrings s i (raw :: raws)).run =
      match ValueFactory.fromString raw col.typeId with
      | .error e => some (.error e)
      | .ok v => (fromStrings s (i + 1) raws).run.map fun vs => vs.map (v :: ·) := by
  change ((defined s.columns[i]?) >>= fun col => _).run = _
  rw [ExceptT.run_bind, hc]
  change ((raised (ValueFactory.fromString raw col.typeId)) >>= fun v => _).run = _
  rw [ExceptT.run_bind]
  cases ValueFactory.fromString raw col.typeId with
  | error e => rfl
  | ok v =>
    change ((fromStrings s (i + 1) raws) >>= fun vs => pure (v :: vs)).run = _
    rw [ExceptT.run_bind]
    rcases (fromStrings s (i + 1) raws).run with _ | e | vs <;> rfl

theorem run_fromStrings_out (hc : s.columns[i]? = none) (raw : List UInt8)
    (raws : List (List UInt8)) : (fromStrings s i (raw :: raws)).run = none := by
  change ((defined s.columns[i]?) >>= fun col => _).run = _
  rw [ExceptT.run_bind, hc]
  rfl

theorem drop_columns {col : Column} (hc : s.columns[i]? = some col) :
    s.columns.drop i = col :: s.columns.drop (i + 1) := by
  obtain ⟨hlt, he⟩ := List.getElem?_eq_some_iff.mp hc
  rw [List.drop_eq_getElem_cons hlt, he]

/-- The loop throws what a handler takes for just the rejected values. -/
theorem fromStrings_rejected (s : Schema) (i : ℕ) (raws : List (List UInt8)) :
    (∃ e what, (fromStrings s i raws).run = some (.error e) ∧ e.caught = some what) ↔
      Rejected (s.columns.drop i) raws := by
  induction raws generalizing i with
  | nil =>
    constructor
    · rintro ⟨e, what, h, -⟩
      cases h
    · generalize s.columns.drop i = cols
      nofun
  | cons raw raws ih =>
    cases hc : s.columns[i]? with
    | none =>
      have hdrop : s.columns.drop i = [] :=
        List.drop_eq_nil_iff.mpr (List.getElem?_eq_none_iff.mp hc)
      rw [run_fromStrings_out hc, hdrop]
      exact iff_of_false nofun nofun
    | some col =>
      rw [run_fromStrings_cons hc, drop_columns hc]
      by_cases ha : Accepts col.typeId raw
      · obtain ⟨v, hv⟩ := ValueFactory.fromString_accepted ha
        have hrest : Rejected (col :: s.columns.drop (i + 1)) (raw :: raws) ↔
            Rejected (s.columns.drop (i + 1)) raws := by
          constructor
          · intro h
            cases h with
            | here _ hn => exact absurd ha hn
            | later _ h => exact h
          · exact .later ha
        rw [hv, hrest, ← ih (i + 1)]
        rcases (fromStrings s (i + 1) raws).run with _ | e | vs
        · exact iff_of_false nofun nofun
        · exact Iff.rfl
        · exact iff_of_false nofun nofun
      · obtain ⟨e, he, hcaught⟩ := ValueFactory.fromString_refused ha
        rw [he]
        constructor
        · rintro ⟨e', what, h, hw⟩
          cases h
          refine .here (fun ht => ?_) ha
          rw [hcaught.mpr ht] at hw
          cases hw
        · intro h
          cases h with
          | here ht _ =>
            obtain ⟨what, hw⟩ := Option.ne_none_iff_exists'.mp fun hn => ht (hcaught.mp hn)
            exact ⟨e, what, rfl, hw⟩
          | later ha' _ => exact absurd ha' ha

theorem fromStrings_defined (hle : i + raws.length ≤ s.columns.length) :
    (fromStrings s i raws).run ≠ none := by
  induction raws generalizing i with
  | nil => nofun
  | cons raw raws ih =>
    rw [List.length_cons] at hle
    have hc : s.columns[i]? = some (s.columns.get ⟨i, by omega⟩) := List.getElem?_eq_getElem _
    rw [run_fromStrings_cons hc]
    cases ValueFactory.fromString raw (s.columns.get ⟨i, by omega⟩).typeId with
    | error e => nofun
    | ok v =>
      intro h
      exact ih (by omega) (Option.map_eq_none_iff.mp h)

theorem fromStrings_length {vs : List Value} (h : (fromStrings s i raws).run = some (.ok vs)) :
    vs.length = raws.length := by
  induction raws generalizing i vs with
  | nil =>
    cases h
    rfl
  | cons raw raws ih =>
    obtain ⟨col, -, h⟩ := run_bind_ok.mp h
    obtain ⟨v, -, h⟩ := run_bind_ok.mp h
    obtain ⟨vs, hvs, h⟩ := run_bind_ok.mp h
    cases h
    exact congrArg Nat.succ (ih hvs)

end Executor

theorem defined_ne_error {α : Type} (x : Option α) (e : Exn) :
    (defined x).run ≠ some (.error e) := by
  cases x <;> nofun

theorem Value.serialize_error {v : Value} {e : Exn} (h : v.serialize = .error e) :
    e.caught = none := by
  obtain ⟨t, data⟩ := v
  cases t <;> cases data <;> cases h <;> rfl

/-- The constructor of a tuple throws nothing that a handler takes. -/
theorem serializeFrom_error {s : Schema} {i : ℕ} {vs : List Value} {data : List UInt8} {e : Exn}
    (h : (Tuple.serializeFrom s i vs data).run = some (.error e)) : e.caught = none := by
  induction vs generalizing i data with
  | nil => cases h
  | cons v vs ih =>
    unfold Tuple.serializeFrom at h
    rcases run_bind_error.mp h with h | ⟨off, -, h⟩
    · exact absurd h (defined_ne_error _ _)
    rcases run_bind_error.mp h with h | ⟨bytes, -, h⟩
    · exact Value.serialize_error (Option.some.inj h)
    rcases run_bind_error.mp h with h | ⟨data', -, h⟩
    · exact absurd h (defined_ne_error _ _)
    exact ih h

theorem rowTuple_caught {s : Schema} {raws : List (List UInt8)} :
    (∃ e what, (rowTuple s raws).run = some (.error e) ∧ e.caught = some what) ↔
      Rejected s.columns (raws.take (loopBound raws.length)) := by
  have hiff := fromStrings_rejected s 0 (raws.take (loopBound raws.length))
  rw [List.drop_zero] at hiff
  rw [← hiff]
  constructor
  · rintro ⟨e, what, h, hw⟩
    rcases run_bind_error.mp h with h | ⟨vs, -, h⟩
    · exact ⟨e, what, h, hw⟩
    · rw [serializeFrom_error h] at hw
      cases hw
  · rintro ⟨e, what, h, hw⟩
    exact ⟨e, what, run_bind_error.mpr (.inl h), hw⟩

theorem handleError_caught {e : Exn} {what : List UInt8} (hw : e.caught = some what) :
    handleError (.error e) = .ok ⟨false, what, []⟩ := by
  unfold handleError
  simp only [hw]

theorem caught_of_handleError {e : Exn} {r : QueryResult} (h : handleError (.error e) = .ok r) :
    ∃ what, e.caught = some what := by
  unfold handleError at h
  cases hw : e.caught with
  | none =>
    simp only [hw] at h
    cases h
  | some what => exact ⟨what, rfl⟩

namespace Database
variable {db : Database} {name : List UInt8} {oid : ℕ} {info : TableInfo}
  {raws : List (List UInt8)}

/-- The answer to a statement says that it failed, and the database is as it was. -/
def Refuses (db : Database) (stmt : Statement) : Prop :=
  ∃ r db', execute db stmt = some (.ok r, db') ∧ r.success = false ∧ db' = db

theorem insert_refused_iff (hg : db.catalog.getTable name = .ok (oid, info)) :
    db.Refuses (.insert name raws) ↔
      Rejected info.schema.columns (raws.take (loopBound raws.length)) := by
  rw [← rowTuple_caught]
  have hrun : execute db (.insert name raws) = executeInsert db name raws := rfl
  unfold Refuses
  rw [hrun]
  unfold executeInsert
  rw [hg]
  simp only
  constructor
  · rintro ⟨r, db', h, hr, -⟩
    obtain ⟨⟨x, db₁⟩, hx, heq⟩ := Option.map_eq_some_iff.mp h
    obtain ⟨tuple, ht, hx⟩ := Option.bind_eq_some_iff.mp hx
    cases tuple with
    | error e =>
      cases hx
      obtain ⟨what, hw⟩ := caught_of_handleError (congrArg Prod.fst heq)
      exact ⟨e, what, ht, hw⟩
    | ok tuple =>
      obtain ⟨y, -, hx⟩ := Option.bind_eq_some_iff.mp hx
      cases hx
      cases heq
      cases hr
  · rintro ⟨e, what, ht, hw⟩
    refine ⟨⟨false, what, []⟩, db, ?_, rfl, rfl⟩
    rw [ht]
    change some (handleError (.error e), db) = _
    rw [handleError_caught hw]

/-- Every column that the loop over the values and the constructor of the tuple look up exists. -/
structure IndexesInside (s : Schema) (raws : List (List UInt8)) : Prop where
  columns : (fromStrings s 0 (raws.take (loopBound raws.length))).run ≠ none
  offsets : ∀ vs, (fromStrings s 0 (raws.take (loopBound raws.length))).run = some (.ok vs) →
    vs.length ≤ s.offsets.length

/-- An `INSERT` with a wrong number of values is refused, and no lookup is out of bounds. -/
structure ArityChecked (db : Database) (name : List UInt8) (s : Schema)
    (raws : List (List UInt8)) : Prop where
  refused : raws.length ≠ s.columns.length → db.Refuses (.insert name raws)
  inside : IndexesInside s raws

theorem indexesInside_of_le (hle : raws.length ≤ info.schema.columns.length) :
    IndexesInside info.schema raws := by
  have htake : (raws.take (loopBound raws.length)).length ≤ raws.length := by
    rw [List.length_take]
    exact Nat.min_le_right _ _
  refine ⟨fromStrings_defined (by omega), fun vs h => ?_⟩
  rw [fromStrings_length h, info.schema.length_offsets]
  omega

theorem indexesInside_of_rejected
    (hr : Rejected info.schema.columns (raws.take (loopBound raws.length))) :
    IndexesInside info.schema raws := by
  have hiff := fromStrings_rejected info.schema 0 (raws.take (loopBound raws.length))
  rw [List.drop_zero] at hiff
  obtain ⟨e, what, h, -⟩ := hiff.mpr hr
  constructor
  · rw [h]
    nofun
  · intro vs hvs
    rw [h] at hvs
    cases hvs

/-- The number of values is not checked: a wrong one is noticed only through the values. -/
theorem arityChecked_iff (hg : db.catalog.getTable name = .ok (oid, info)) :
    ArityChecked db name info.schema raws ↔
      raws.length = info.schema.columns.length ∨
        Rejected info.schema.columns (raws.take (loopBound raws.length)) := by
  constructor
  · intro h
    by_cases hlen : raws.length = info.schema.columns.length
    · exact .inl hlen
    · exact .inr ((insert_refused_iff hg).mp (h.refused hlen))
  · rintro (hlen | hr)
    · exact ⟨fun hne => absurd hlen hne, indexesInside_of_le hlen.le⟩
    · exact ⟨fun _ => (insert_refused_iff hg).mpr hr, indexesInside_of_rejected hr⟩

/-- A value that is no `BOOLEAN` is refused before the missing column is looked up. -/
theorem extra_value_refused : ∃ r db, Database.empty.answer
      (.createTable (str "t") [⟨str "b", .boolean⟩]) = some (r, db) ∧
    ∃ oid info, db.catalog.getTable (str "t") = .ok (oid, info) ∧
      ArityChecked db (str "t") info.schema [str "maybe", str "true"] := by
  refine ⟨_, _, rfl, 0, ⟨Schema.new [⟨str "b", .boolean⟩], str "t",
    openTable Database.empty.fileOf 0, 0⟩, by rfl, ?_⟩
  have hno : ¬ Accepts .boolean (str "maybe") := by
    have hne : upper (str "maybe") ≠ str "TRUE" ∧ upper (str "maybe") ≠ str "FALSE" := by
      decide +kernel
    exact fun h => h.elim hne.1 hne.2
  exact (arityChecked_iff (by rfl)).mpr (.inr (.here (by decide) hno))

/-- One value for two columns is inserted with a zero for the other. -/
theorem short_row_inserted : ∃ h db oid info, statementMachine.Run Database.empty h db ∧
    db.catalog.getTable (str "t") = .ok (oid, info) ∧ info.schema.columns.length = 2 ∧
    (∃ r₁ db₁ r₂ db₂, db.answer (.insert (str "t") [str "7"]) = some (r₁, db₁) ∧
      r₁.success = true ∧ db₁.answer (.select (str "t")) = some (r₂, db₂) ∧
      r₂.rows = [[str "7", str "0"]]) ∧
    ¬ ArityChecked db (str "t") info.schema [str "7"] := by
  have heval : ((statementMachine.play [.createTable (str "t")
      [⟨str "x", .integer⟩, ⟨str "y", .integer⟩]] [] Database.empty).bind fun x =>
        (x.2.answer (.insert (str "t") [str "7"])).bind fun y =>
          (y.2.answer (.select (str "t"))).map fun z =>
            ((x.2.catalog.getTable (str "t")).toOption.map fun e => e.2.schema.columns.length,
              y.1.success, z.1.rows)) = some (some 2, true, [[str "7", str "0"]]) := by
    decide +kernel
  obtain ⟨⟨h, db⟩, hplay, heval⟩ := Option.bind_eq_some_iff.mp heval
  obtain ⟨⟨r₁, db₁⟩, hinsert, heval⟩ := Option.bind_eq_some_iff.mp heval
  obtain ⟨⟨r₂, db₂⟩, hselect, heval⟩ := Option.map_eq_some_iff.mp heval
  obtain ⟨htable, hsuccess, hrows⟩ := Prod.mk.inj heval |>.imp id Prod.mk.inj
  simp only at htable
  cases hg : db.catalog.getTable (str "t") with
  | error e =>
    rw [hg] at htable
    cases htable
  | ok x =>
    rw [hg] at htable
    have hlen : x.2.schema.columns.length = 2 := Option.some.inj htable
    refine ⟨h, db, x.1, x.2, Machine.Run.start.play hplay, hg, hlen,
      ⟨r₁, db₁, r₂, db₂, hinsert, hsuccess, hselect, hrows⟩, fun ha => ?_⟩
    obtain ⟨r, db', he, hr, -⟩ := ha.refused (by rw [hlen]; decide)
    have hsame := (answer_eq_some.mp hinsert).symm.trans he
    cases hsame
    rw [hr] at hsuccess
    cases hsuccess

end Database
end PragmaticDB
