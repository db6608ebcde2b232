import PragmaticDB.Lib.Unwinding
import PragmaticDB.Query.Restart

/-!
Tables do not interfere. A statement on one table reads and writes only this table, so in any two
sessions the same statements on it have the same results, whatever other statements and restarts
stand between them.
-/
namespace PragmaticDB
open CallMachine Executor

/-- The table a statement is about. `COMMIT` counts all of them. -/
def Statement.table? : Statement → Option (List UInt8)
  | .createTable name _ => some name
  | .insert name _ => some name
  | .select name => some name
  | .delete name _ _ => some name
  | .commit => none

def Event.table? : Event → Option (List UInt8)
  | .statement stmt => stmt.table?
  | .restart => none

namespace HeapDatabase
variable {a b a' : HeapDatabase} {name other : List UInt8} {oid : ℕ} {t : HeapTable}

/-- The table of this name. -/
def table (a : HeapDatabase) (name : List UInt8) : Option HeapTable := (a.names name).bind a.tables

theorem table_found (hf : a.getTable name = .ok (oid, t)) : a.table name = some t := by
  obtain ⟨hn, ht⟩ := getTable_ok hf
  unfold table
  rw [hn, Option.bind_some, ht]

theorem table_missing (hz : a.Sized) {e : Exn} (hf : a.getTable name = .error e) :
    a.table name = none ∧
      e = .runtimeError (str "Error: Table '" ++ name ++ str "' not found in catalog.") := by
  unfold getTable at hf
  cases hn : a.names name with
  | none =>
    rw [hn] at hf
    exact ⟨by simp only [table, hn, Option.bind_none], (Except.error.inj hf).symm⟩
  | some oid =>
    obtain ⟨t, ht, -⟩ := (hz.named name oid).mp hn
    rw [hn] at hf
    simp only [getTableByOid, ht] at hf
    cases hf

theorem Sized.table_eq_none (hz : a.Sized) : a.table name = none ↔ a.names name = none := by
  unfold table
  cases hn : a.names name with
  | none => simp
  | some oid =>
    obtain ⟨t, ht, -⟩ := (hz.named name oid).mp hn
    simp [ht]

/-- `GetTable` sees nothing of a database but the table of this name. -/
theorem getTable_alike (ha : a.Sized) (hb : b.Sized) (hab : a.table name = b.table name) :
    (∃ e, a.getTable name = .error e ∧ b.getTable name = .error e) ∨
      ∃ oid oid' t, a.getTable name = .ok (oid, t) ∧ b.getTable name = .ok (oid', t) := by
  cases hf : a.getTable name with
  | error e =>
    obtain ⟨hnone, rfl⟩ := table_missing ha hf
    cases hf' : b.getTable name with
    | error e' =>
      obtain ⟨-, rfl⟩ := table_missing hb hf'
      exact .inl ⟨_, rfl, rfl⟩
    | ok x =>
      rw [table_found hf', hnone] at hab
      cases hab
  | ok x =>
    obtain ⟨oid, t⟩ := x
    cases hf' : b.getTable name with
    | error e' =>
      rw [table_found hf, (table_missing hb hf').1] at hab
      cases hab
    | ok x' =>
      obtain ⟨oid', t'⟩ := x'
      rw [table_found hf, table_found hf'] at hab
      cases hab
      exact .inr ⟨oid, oid', t, rfl, rfl⟩

/-- Different names lead to different tables. -/
theorem Sized.names_inj (hz : a.Sized) (hn : a.names name = some oid)
    (ho : a.names other = some oid) : name = other := by
  obtain ⟨t, ht, rfl⟩ := (hz.named name oid).mp hn
  obtain ⟨t', ht', rfl⟩ := (hz.named other oid).mp ho
  rw [ht] at ht'
  cases ht'
  rfl

theorem table_setHeap (hn : a.names name = some oid) (ht : a.tables oid = some t) (h : HeapFile) :
    (a.setHeap oid h).table name = some { t with heap := h } := by
  simp [table, setHeap, hn, ht]

theorem table_setHeap_other (hz : a.Sized) (hn : a.names name = some oid) (hne : other ≠ name)
    (h : HeapFile) : (a.setHeap oid h).table other = a.table other := by
  cases ho : a.names other with
  | none => simp [table, setHeap, ho]
  | some k =>
    have hk : k ≠ oid := by
      rintro rfl
      exact hne (hz.names_inj ho hn)
    simp [table, setHeap, ho, hk]

theorem table_createTable (hn : a.names name = none) (schema : Schema) :
    (a.createTable name schema).2.table name = some ⟨schema, name, HeapFile.empty⟩ := by
  unfold createTable
  simp [hn, table]

theorem table_createTable_other (hz : a.Sized) (hn : a.names name = none) (hne : other ≠ name)
    (schema : Schema) : (a.createTable name schema).2.table other = a.table other := by
  unfold createTable
  simp only [hn, table, if_neg hne]
  cases ho : a.names other with
  | none => rfl
  | some k =>
    have hk : k ≠ a.nextOid := by
      rintro rfl
      obtain ⟨t, ht, -⟩ := (hz.named other _).mp ho
      rw [hz.fresh _ le_rfl] at ht
      cases ht
    simp only [Option.bind_some, if_neg hk]

/-- A statement leaves the tables alone that it is not about. -/
theorem Step.apart (hz : a.Sized) {stmt : Statement} (hs : a.Step stmt a')
    (hne : stmt.table? ≠ some other) : a'.table other = a.table other := by
  cases hs with
  | unchanged => rfl
  | create hn => exact table_createTable_other hz hn (fun h => hne (congrArg some h.symm)) _
  | insert hn => exact table_setHeap_other hz hn (fun h => hne (congrArg some h.symm)) _
  | delete hn => exact table_setHeap_other hz hn (fun h => hne (congrArg some h.symm)) _

/-- The same result, and the same table afterwards. -/
structure Alike (name : List UInt8) (x y : Except Exn QueryResult × HeapDatabase) : Prop where
  result : x.1 = y.1
  table : x.2.table name = y.2.table name

theorem rel_handle_alike {x y : Answer HeapDatabase} (h : Option.Rel (Alike name) x y) :
    Option.Rel (Alike name) (handle x) (handle y) :=
  rel_map h fun _ _ hxy => ⟨congrArg handleError hxy.result, hxy.table⟩

theorem same_alike (r : Except Exn QueryResult) (hab : a.table name = b.table name) :
    Option.Rel (Alike name) (some (r, a)) (some (r, b)) := .some ⟨rfl, hab⟩

theorem executeCreate_alike (ha : a.Sized) (hb : b.Sized) (hab : a.table name = b.table name)
    (columns : List Column) :
    Option.Rel (Alike name) (a.executeCreate name columns) (b.executeCreate name columns) := by
  unfold executeCreate
  simp only
  apply rel_handle_alike
  have hnames : a.names name = none ↔ b.names name = none := by
    rw [← ha.table_eq_none, hab, hb.table_eq_none]
  by_cases hn : a.names name = none
  · have hn' := hnames.mp hn
    refine .some ⟨?_, (table_createTable hn _).trans (table_createTable hn' _).symm⟩
    unfold createTable
    simp only [hn, hn']
  · have hn' := hn ∘ hnames.mpr
    obtain ⟨oid, hn⟩ := Option.ne_none_iff_exists'.mp hn
    obtain ⟨oid', hn'⟩ := Option.ne_none_iff_exists'.mp hn'
    unfold createTable
    simp only [hn, hn']
    exact same_alike _ hab

theorem executeInsert_alike (ha : a.Sized) (hb : b.Sized) (hab : a.table name = b.table name)
    (raws : List (List UInt8)) :
    Option.Rel (Alike name) (a.executeInsert name raws) (b.executeInsert name raws) := by
  apply rel_handle_alike
  rcases getTable_alike ha hb hab with ⟨e, hf, hf'⟩ | ⟨oid, oid', t, hf, hf'⟩
  · simp only [hf, hf']
    exact same_alike _ hab
  · simp only [hf, hf']
    cases (rowTuple t.schema raws).run with
    | none => exact .none
    | some x =>
      cases x with
      | error e => exact same_alike _ hab
      | ok tuple =>
        simp only [Option.bind_eq_bind, Option.bind_some]
        cases t.heap.insert tuple with
        | none => exact .none
        | some y =>
          refine .some ⟨rfl, ?_⟩
          obtain ⟨hn, ht⟩ := getTable_ok hf
          obtain ⟨hn', ht'⟩ := getTable_ok hf'
          exact (table_setHeap hn ht y.2).trans (table_setHeap hn' ht' y.2).symm

theorem executeSelect_alike (ha : a.Sized) (hb : b.Sized) (hab : a.table name = b.table name) :
    Option.Rel (Alike name) (a.executeSelect name) (b.executeSelect name) := by
  apply rel_handle_alike
  rcases getTable_alike ha hb hab with ⟨e, hf, hf'⟩ | ⟨oid, oid', t, hf, hf'⟩
  · simp only [hf, hf']
    exact same_alike _ hab
  · simp only [hf, hf']
    cases (t.heap.rows.mapM fun r => rowTexts t.schema r.2).run with
    | none => exact .none
    | some rows => exact same_alike _ hab

theorem executeDelete_alike (ha : a.Sized) (hb : b.Sized) (hab : a.table name = b.table name)
    (column value : List UInt8) :
    Option.Rel (Alike name) (a.executeDelete name column value)
      (b.executeDelete name column value) := by
  apply rel_handle_alike
  rcases getTable_alike ha hb hab with ⟨e, hf, hf'⟩ | ⟨oid, oid', t, hf, hf'⟩
  · simp only [hf, hf']
    exact same_alike _ hab
  · simp only [hf, hf']
    by_cases hc : column ≠ [] ∧ findColumn t.schema column = none
    · rw [if_pos hc, if_pos hc]
      exact same_alike _ hab
    · rw [if_neg hc, if_neg hc]
      generalize (t.heap.rows.mapM (matchText t.schema (if column = [] then none
        else findColumn t.schema column) value)).run = found
      cases found with
      | none => exact .none
      | some x =>
        cases x with
        | error e => exact same_alike _ hab
        | ok found =>
          simp only [Option.bind_eq_bind, Option.bind_some]
          cases deleteRows (found.filterMap id) t.heap with
          | none => exact .none
          | some h =>
            refine .some ⟨rfl, ?_⟩
            obtain ⟨hn, ht⟩ := getTable_ok hf
            obtain ⟨hn', ht'⟩ := getTable_ok hf'
            exact (table_setHeap hn ht h).trans (table_setHeap hn' ht' h).symm

/-- A statement sees nothing of a database but the table it is about. -/
theorem execute_alike (ha : a.Sized) (hb : b.Sized) (hab : a.table name = b.table name)
    {stmt : Statement} (hkey : stmt.table? = some name) :
    Option.Rel (Alike name) (a.execute stmt) (b.execute stmt) := by
  cases stmt with
  | commit => cases hkey
  | createTable other columns =>
    obtain rfl := Option.some.inj hkey
    exact executeCreate_alike ha hb hab columns
  | insert other raws =>
    obtain rfl := Option.some.inj hkey
    exact executeInsert_alike ha hb hab raws
  | select other =>
    obtain rfl := Option.some.inj hkey
    exact executeSelect_alike ha hb hab
  | delete other column value =>
    obtain rfl := Option.some.inj hkey
    exact executeDelete_alike ha hb hab column value

/-- A session on the pages. A restart is not seen. -/
def heapMachine : Machine HeapDatabase Event (Option QueryResult) where
  step a e :=
    match e with
    | .statement stmt => (a.execute stmt).bind fun x =>
      match x.1 with
      | .ok r => some (some r, x.2)
      | .error _ => none
    | .restart => some (none, a)
  Allowed _ a e :=
    match e with
    | .statement stmt => StatementFits a.nextOid stmt
    | .restart => True

theorem heapMachine_step {stmt : Statement} {o : Option QueryResult}
    (hs : heapMachine.step a (.statement stmt) = some (o, a')) :
    ∃ r, o = some r ∧ a.execute stmt = some (.ok r, a') := by
  obtain ⟨⟨x, a₁⟩, he, hs⟩ := Option.bind_eq_some_iff.mp hs
  cases x with
  | error e => cases hs
  | ok r =>
    cases hs
    exact ⟨r, rfl, he⟩

/-- Tables are parts of the database that do not interfere. -/
theorem heapMachine_unwinds : heapMachine.Unwinds Event.table? table Sized where
  keeps h a e o a' hz ha hs := by
    cases e with
    | restart =>
      cases hs
      exact hz
    | statement stmt =>
      obtain ⟨r, -, he⟩ := heapMachine_step hs
      exact hz.step (execute_step he) ha
  apart a e o a' name hz hs hne := by
    cases e with
    | restart =>
      cases hs
      rfl
    | statement stmt =>
      obtain ⟨r, -, he⟩ := heapMachine_step hs
      exact (execute_step he).apart hz hne
  alike a b e o o' a' b' name ha hb hab hkey hs hs' := by
    cases e with
    | restart => cases hkey
    | statement stmt =>
      obtain ⟨r, rfl, he⟩ := heapMachine_step hs
      obtain ⟨r', rfl, he'⟩ := heapMachine_step hs'
      have hrel := execute_alike ha hb hab hkey
      rw [he, he'] at hrel
      obtain ⟨y, hy, hresult, htable⟩ := rel_some_left hrel
      cases hy
      exact ⟨congrArg some (Except.ok.inj hresult), htable⟩

end HeapDatabase

namespace Database
variable {db db' : Database} {a a' : HeapDatabase} {name : List UInt8}
  {h h' : List (Event × Option QueryResult)}

theorem sessionMachine_heap : sessionMachine.Preserves fun h db => ∃ a, Kept db a ∧
    (JustCommitted h → Flushed db a) ∧
      HeapDatabase.heapMachine.Run HeapDatabase.empty h a := by
  rintro h db e o db' ⟨a, hk, hf, hr⟩ ha hs
  cases e with
  | restart =>
    cases hs
    exact ⟨a, hk.restart (hf ha), nofun, hr.call trivial rfl⟩
  | statement stmt =>
    obtain ⟨⟨r, db₁⟩, hans, heq⟩ := Option.map_eq_some_iff.mp hs
    cases heq
    obtain ⟨a', he', hk'⟩ := hk.executed ha (answer_eq_some.mp hans)
    have hstep : HeapDatabase.heapMachine.step a (.statement stmt) = some (some r, a') := by
      change (a.execute stmt).bind _ = _
      rw [he']
      rfl
    have hfit : StatementFits a.nextOid stmt := hk.refines.next ▸ ha.1
    refine ⟨a', hk', fun hj => ?_, hr.call hfit hstep⟩
    obtain rfl : stmt = .commit := by
      cases hj
      rfl
    obtain ⟨r', db'', hans', hkc, hfc⟩ := hk.commit
    rw [hans] at hans'
    obtain ⟨rfl, rfl⟩ := Prod.mk.inj (Option.some.inj hans')
    cases he'
    exact hfc

theorem Kept.tableRows_eq (hk : Kept db a) :
    db.tableRows name = (a.table name).map fun t => (t.schema, t.heap.rows) := by
  cases hf : a.getTable name with
  | ok x =>
    rw [hk.refines.tableRows hk.good hf, HeapDatabase.table_found hf]
    rfl
  | error e =>
    rw [(HeapDatabase.table_missing hk.sized hf).1]
    have hfound := hk.refines.getTable name
    rw [hf] at hfound
    unfold Database.tableRows
    generalize db.catalog.getTable name = x at hfound ⊢
    cases hfound with
    | missing => rfl

/-- In any two sessions with the same statements on a table these have the same results, and at
the end the table has the same columns and the same rows under the same record ids, whatever
statements on other tables, `COMMIT`s and restarts there are. -/
theorem tables_apart (hr : sessionMachine.Run Database.empty h db)
    (hr' : sessionMachine.Run Database.empty h' db')
    (hsame : (Machine.own Event.table? name h).map Prod.fst =
      (Machine.own Event.table? name h').map Prod.fst) :
    Machine.own Event.table? name h = Machine.own Event.table? name h' ∧
      db.tableRows name = db'.tableRows name := by
  obtain ⟨a, hk, -, hrun⟩ := hr.preserved sessionMachine_heap ⟨_, empty_kept, nofun, .start⟩
  obtain ⟨a', hk', -, hrun'⟩ := hr'.preserved sessionMachine_heap ⟨_, empty_kept, nofun, .start⟩
  obtain ⟨hown, htable⟩ := HeapDatabase.heapMachine_unwinds.same_answers
    HeapDatabase.empty_sized HeapDatabase.empty_sized rfl hrun hrun' hsame
  exact ⟨hown, by rw [hk.tableRows_eq, hk'.tableRows_eq, htable]⟩

/-- A table that is alone, and the same one beside another that comes and goes. -/
theorem row_beside_others : ∃ h db h' db', sessionMachine.Run Database.empty h db ∧
    sessionMachine.Run Database.empty h' db' ∧
    h.map Prod.fst = [.statement (.select (str "t")), .statement (.insert (str "t") [str "7"]),
      .statement (.createTable (str "t") [⟨str "x", .integer⟩])] ∧
    h'.map Prod.fst = [.statement (.select (str "t")), .statement (.delete (str "u") [] []),
      .restart, .statement .commit, .statement (.insert (str "t") [str "7"]),
      .statement (.insert (str "u") [str "1"]),
      .statement (.createTable (str "t") [⟨str "x", .integer⟩]),
      .statement (.createTable (str "u") [⟨str "y", .boolean⟩])] ∧
    Machine.own Event.table? (str "t") h = Machine.own Event.table? (str "t") h' ∧
    db.tableRows (str "t") = db'.tableRows (str "t") := by
  have heval : ((sessionMachine.play [.statement (.createTable (str "t") [⟨str "x", .integer⟩]),
      .statement (.insert (str "t") [str "7"]), .statement (.select (str "t"))] []
        Database.empty).bind fun x =>
      (sessionMachine.play [.statement (.createTable (str "u") [⟨str "y", .boolean⟩]),
        .statement (.createTable (str "t") [⟨str "x", .integer⟩]),
        .statement (.insert (str "u") [str "1"]), .statement (.insert (str "t") [str "7"]),
        .statement .commit, .restart, .statement (.delete (str "u") [] []),
        .statement (.select (str "t"))] [] Database.empty).map fun y =>
          (x.1.map Prod.fst, y.1.map Prod.fst)) =
      some ([.statement (.select (str "t")), .statement (.insert (str "t") [str "7"]),
        .statement (.createTable (str "t") [⟨str "x", .integer⟩])],
        [.statement (.select (str "t")), .statement (.delete (str "u") [] []),
        .restart, .statement .commit, .statement (.insert (str "t") [str "7"]),
        .statement (.insert (str "u") [str "1"]),
        .statement (.createTable (str "t") [⟨str "x", .integer⟩]),
        .statement (.createTable (str "u") [⟨str "y", .boolean⟩])]) := by
    decide +kernel
  obtain ⟨⟨h, db⟩, hplay, heval⟩ := Option.bind_eq_some_iff.mp heval
  obtain ⟨⟨h', db'⟩, hplay', heval⟩ := Option.map_eq_some_iff.mp heval
  obtain ⟨hevents, hevents'⟩ := Prod.mk.inj heval
  simp only at hevents hevents'
  have hrun := Machine.Run.start.play hplay
  have hrun' := Machine.Run.start.play hplay'
  have hown : ∀ g : List (Event × Option QueryResult),
      (Machine.own Event.table? (str "t") g).map Prod.fst =
        (g.map Prod.fst).filter fun e => e.table? = some (str "t") := by
    intro g
    rw [List.filter_map]
    rfl
  have hsame : (Machine.own Event.table? (str "t") h).map Prod.fst =
      (Machine.own Event.table? (str "t") h').map Prod.fst := by
    rw [hown, hown, hevents, hevents']
    decide
  exact ⟨h, db, h', db', hrun, hrun', hevents, hevents', tables_apart hrun hrun' hsame⟩

end Database
end PragmaticDB
