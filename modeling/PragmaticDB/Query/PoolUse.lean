import PragmaticDB.Query.Transactions
import PragmaticDB.Table.WriteBacks

/-!
The pools under a session. Each table uses its pool one page at a time, so what is known of such
pools holds of every table.
-/
namespace PragmaticDB
open CallMachine BufferPoolManager

namespace RecordManager

theorem new_usedSinceNew {dm : DiskManager} (hdm : dm.plan = []) :
    InPool UsedSinceNew (new dm) HeapFile.empty := ⟨new_refines hdm, dm, [], hdm, .start⟩

end RecordManager

namespace Database
open RecordManager (InPool VisitedFrom UsedSinceNew)
variable {db db' : Database} {a : HeapDatabase} {h : List (Statement × QueryResult)}
  {stmt : Statement} {r : QueryResult} {oid : ℕ} {info : TableInfo}

theorem statementMachine_usedSinceNew : statementMachine.Preserves fun _ db =>
    ∃ a, Kept db a ∧ db.Refines (fun _ => InPool UsedSinceNew) a := by
  rintro h db stmt r db' ⟨a, hk, hu⟩ ha hs
  have he := answer_eq_some.mp hs
  obtain ⟨a', ha', hu', -⟩ := hu.executed (fun _ => RecordManager.usedSinceNew_rules.layer) hk.good
    (fun _ => RecordManager.new_usedSinceNew) he (ha.2 _ _ he)
  obtain ⟨a₂, ha₂, hk'⟩ := hk.executed ha he
  obtain ⟨-, rfl⟩ := Prod.mk.inj (Option.some.inj (ha'.symm.trans ha₂))
  exact ⟨a', hk', hu'⟩

theorem empty_usedSinceNew :
    Database.empty.Refines (fun _ => InPool UsedSinceNew) HeapDatabase.empty :=
  ⟨fun _ => .none, nofun, fun _ => rfl, rfl, rfl, rfl⟩

/-- In every session all pools are as the uses of single pages leave them. -/
theorem pools_used (hr : statementMachine.Run Database.empty h db)
    (hl : db.catalog.tables.lookup oid = some info) : ∃ dm uh, dm.plan = [] ∧
      (useMachine 10).Run (BufferPoolManager.new 10 dm) uh info.table.recordManager.pool := by
  obtain ⟨a, -, hu⟩ := hr.preserved statementMachine_usedSinceNew
    ⟨_, empty_kept, empty_usedSinceNew⟩
  obtain ⟨t, -, hi⟩ := hu.table hl
  exact hi.heap.pool

/-! One statement. -/

/-- The pool of table `oid`; a pool without pages where there is no such table. -/
def poolOf (db : Database) (oid : ℕ) : BufferPoolManager 10 :=
  match db.catalog.tables.lookup oid with
  | some info => info.table.recordManager.pool
  | none => BufferPoolManager.new 10 ⟨[], none, []⟩

theorem poolOf_of_lookup (hl : db.catalog.tables.lookup oid = some info) :
    db.poolOf oid = info.table.recordManager.pool := by
  unfold poolOf
  rw [hl]

theorem poolOf_none (hl : db.catalog.tables.lookup oid = none) :
    db.poolOf oid = BufferPoolManager.new 10 ⟨[], none, []⟩ := by
  unfold poolOf
  rw [hl]

theorem Small.poolOf (hs : db.Small) (oid : ℕ) : (db.poolOf oid).nextPageId ≤ 10 := by
  cases hl : db.catalog.tables.lookup oid with
  | none =>
    rw [poolOf_none hl]
    exact Int.natCast_nonneg 10
  | some info =>
    rw [poolOf_of_lookup hl]
    exact hs oid info hl

theorem Kept.quiet (hk : Kept db a) (oid : ℕ) : (db.poolOf oid).Quiet := by
  cases hl : db.catalog.tables.lookup oid with
  | none =>
    rw [poolOf_none hl]
    exact ⟨BufferPoolManager.new_sound 10 rfl, fun _ => rfl⟩
  | some info =>
    obtain ⟨t, -, hi⟩ := hk.refines.table hl
    rw [poolOf_of_lookup hl]
    exact hi.heap.quiet

/-- A statement that saves no catalog works on single pages, and flushes no pool. -/
theorem Kept.visits (hk : Kept db a) (ha : db.Admits stmt) (he : db.answer stmt = some (r, db'))
    (hno : ¬ db.SavesCatalog stmt) (oid : ℕ) :
    ∃ uh, (visitMachine 10).Run (db.poolOf oid) uh (db'.poolOf oid) := by
  have hx := answer_eq_some.mp he
  have hu : db.Refines (fun oid => InPool (VisitedFrom (db.poolOf oid))) a := by
    apply hk.refines.upgrade
    intro oid info t hl _ hi
    rw [poolOf_of_lookup hl]
    exact ⟨hi, [], .start⟩
  obtain ⟨a', hu'⟩ := hu.calls (fun oid => (RecordManager.visitedFrom_calls (db.poolOf oid)).calls)
    hk.good.sound hno hx (ha.2 _ _ hx)
  cases hl : db'.catalog.tables.lookup oid with
  | some info =>
    obtain ⟨t, -, hi⟩ := hu'.table hl
    rw [poolOf_of_lookup hl]
    exact hi.heap.pool
  | none =>
    have hold : db.catalog.tables.lookup oid = none := by
      rcases (execute_leaves hk.refines.saves hx).table_or_same hno with rfl | ⟨k, t, rfl⟩
      · exact hl
      · rw [setTable_lookup, Option.map_eq_none_iff] at hl
        exact hl
    rw [poolOf_none hl, poolOf_none hold]
    exact ⟨[], .start⟩

end Database
end PragmaticDB
