import PragmaticDB.Query.HeapRefinement
import PragmaticDB.Table.ScanRuns

/-!
What holds of the heaps of a database after every statement: pages are formatted, their tuples
stand in slot order, and every row has the length its schema gives it.
-/
namespace PragmaticDB
open ByteBlock PageDataManager Executor Throwing

/-- The rows of a table are as long as its schema says. -/
structure HeapTable.Good (t : HeapTable) : Prop where
  heap : t.heap.Good
  descending : ∀ p ∈ t.heap.ids, Descending (t.heap.page p)
  lengths : ∀ rid bytes, t.heap.lookup rid = some bytes → bytes.length = t.schema.length

namespace HeapTable
variable {t : HeapTable} {h : HeapFile}

theorem empty_good (s : Schema) (name : List UInt8) : Good ⟨s, name, HeapFile.empty⟩ :=
  ⟨HeapFile.empty_good, nofun, nofun⟩

theorem Good.insert (hg : t.Good) {bytes : List UInt8} {rid : RecordId}
    (hlen : bytes.length = t.schema.length) (he : t.heap.insert bytes = some (rid, h))
    (hle : h.next ≤ 524288) : Good { t with heap := h } := by
  by_cases hsize : bytes.length = 0 ∨ 65535 < bytes.length
  · unfold HeapFile.insert at he
    rw [if_pos hsize] at he
    obtain ⟨-, rfl⟩ := Prod.mk.inj (Option.some.inj he)
    exact hg
  · rcases Nat.lt_or_ge bytes.length 65532 with hlt | hge
    · have h0 : 0 < bytes.length := by omega
      obtain ⟨rid', h', he', hins⟩ := hg.heap.insert_cases h0 hlt
      obtain ⟨rfl, rfl⟩ := Prod.mk.inj (Option.some.inj (he.symm.trans he'))
      refine ⟨hins.good hg.heap hle, hins.descending hg.heap hg.descending, fun r b hr => ?_⟩
      rw [hins.lookup hg.heap h0 (hg.heap.compactsUpwards hg.descending _)] at hr
      split_ifs at hr
      · cases hr
        exact hlen
      · exact hg.lengths r b hr
    · rw [t.heap.insert_wide hge (by omega)] at he
      cases he

/-- Pages are added at the end. -/
theorem Good.insert_ids (hg : t.Good) {bytes : List UInt8} {rid : RecordId}
    (he : t.heap.insert bytes = some (rid, h)) : t.heap.ids <+: h.ids := by
  by_cases hsize : bytes.length = 0 ∨ 65535 < bytes.length
  · unfold HeapFile.insert at he
    rw [if_pos hsize] at he
    obtain ⟨-, rfl⟩ := Prod.mk.inj (Option.some.inj he)
    exact List.prefix_rfl
  · rcases Nat.lt_or_ge bytes.length 65532 with hlt | hge
    · obtain ⟨rid', h', he', hins⟩ := hg.heap.insert_cases (by omega) hlt
      obtain ⟨rfl, rfl⟩ := Prod.mk.inj (Option.some.inj (he.symm.trans he'))
      exact hins.extends_ids
    · rw [t.heap.insert_wide hge (by omega)] at he
      cases he

theorem Good.delete (hg : t.Good) {rid : RecordId} {ok : Bool} (hp : rid.pageId ∈ t.heap.ids)
    (he : t.heap.delete rid = some (ok, h)) :
    Good { t with heap := h } ∧ h.ids = t.heap.ids ∧ h.next = t.heap.next := by
  obtain ⟨h', he', hg', hids, hnext, -, hdesc, hrec⟩ := hg.heap.delete hp
  obtain ⟨-, rfl⟩ := Prod.mk.inj (Option.some.inj (he.symm.trans he'))
  refine ⟨⟨hg', fun p hp' => hdesc p (hg.descending p (hids ▸ hp')), fun r b hr => ?_⟩, hids,
    hnext⟩
  simp only [HeapFile.lookup, hids, hrec] at hr
  apply hg.lengths r b
  unfold HeapFile.lookup
  split_ifs at hr ⊢ with h1 h2
  exact hr

theorem Good.deleteRows (rids : List RecordId) (hg : t.Good)
    (hp : ∀ rid ∈ rids, rid.pageId ∈ t.heap.ids)
    (he : HeapDatabase.deleteRows rids t.heap = some h) :
    Good { t with heap := h } ∧ h.ids = t.heap.ids ∧ h.next = t.heap.next := by
  induction rids generalizing t with
  | nil =>
    cases he
    exact ⟨hg, rfl, rfl⟩
  | cons rid rids ih =>
    obtain ⟨⟨ok, h₁⟩, hd, he⟩ := Option.bind_eq_some_iff.mp he
    obtain ⟨hg₁, hids, hnext⟩ := hg.delete (hp rid (by simp)) hd
    obtain ⟨hg', hids', hnext'⟩ := ih (t := { t with heap := h₁ }) hg₁
      (fun r hr => hids ▸ hp r (by simp [hr])) he
    exact ⟨hg', hids'.trans hids, hnext'.trans hnext⟩

end HeapTable

/-! Tuples are as long as their schema says. -/

theorem writeAt_length {data data' bytes : List UInt8} {off : ℕ}
    (h : writeAt data off bytes = some data') : data'.length = data.length := by
  unfold writeAt at h
  split_ifs at h with hle
  cases h
  simp only [List.length_append, List.length_take, List.length_drop]
  omega

theorem serializeFrom_length {s : Schema} {i : ℕ} {vs : List Value} {data tuple : List UInt8}
    (h : (Tuple.serializeFrom s i vs data).run = some (.ok tuple)) :
    tuple.length = data.length := by
  induction vs generalizing i data with
  | nil =>
    cases h
    rfl
  | cons v vs ih =>
    unfold Tuple.serializeFrom at h
    obtain ⟨off, -, h⟩ := run_bind_ok.mp h
    obtain ⟨bytes, -, h⟩ := run_bind_ok.mp h
    obtain ⟨data₁, hw, h⟩ := run_bind_ok.mp h
    obtain ⟨_, hw, he⟩ := Option.map_eq_some_iff.mp hw
    cases he
    exact (ih h).trans (writeAt_length hw)

theorem rowTuple_length {s : Schema} {rawValues : List (List UInt8)} {tuple : List UInt8}
    (h : (rowTuple s rawValues).run = some (.ok tuple)) : tuple.length = s.length := by
  obtain ⟨vs, -, h⟩ := run_bind_ok.mp h
  exact (serializeFrom_length h).trans List.length_replicate

namespace HeapDatabase

/-- Every table is well formed. -/
def Good (a : HeapDatabase) : Prop := ∀ oid t, a.tables oid = some t → t.Good

variable {a a' : HeapDatabase}

theorem Good.sound (hg : a.Good) : a.Sound := fun oid t ht => (hg oid t ht).heap

theorem empty_good : empty.Good := nofun

theorem Good.setHeap (hg : a.Good) {oid : ℕ} {t : HeapTable} (ht : a.tables oid = some t)
    {h : HeapFile} (hh : HeapTable.Good { t with heap := h }) : (a.setHeap oid h).Good := by
  intro k t' hk
  obtain ⟨t₀, hk₀, rfl⟩ := Option.map_eq_some_iff.mp hk
  split_ifs with hko
  · subst hko
    obtain rfl := Option.some.inj (hk₀.symm.trans ht)
    exact hh
  · exact hg k t₀ hk₀

theorem InRange.heap {oid : ℕ} {t : HeapTable} {h : HeapFile} (ht : a.tables oid = some t)
    (hin : (a.setHeap oid h).InRange) : h.next ≤ 524288 :=
  hin oid { t with heap := h } (by simp [setHeap, ht])

theorem getTable_ok {name : List UInt8} {oid : ℕ} {t : HeapTable}
    (h : a.getTable name = .ok (oid, t)) : a.names name = some oid ∧ a.tables oid = some t := by
  unfold getTable at h
  cases hn : a.names name with
  | none =>
    rw [hn] at h
    cases h
  | some k =>
    rw [hn] at h
    unfold getTableByOid at h
    simp only at h
    cases ht : a.tables k with
    | none =>
      rw [ht] at h
      cases h
    | some t' =>
      rw [ht] at h
      cases h
      exact ⟨rfl, ht⟩

theorem getTable_of {name : List UInt8} {oid : ℕ} {t : HeapTable} (hn : a.names name = some oid)
    (ht : a.tables oid = some t) : a.getTable name = .ok (oid, t) := by
  unfold getTable getTableByOid
  rw [hn]
  simp only [ht]

/-- What a statement can do to the tables. -/
inductive Step (a : HeapDatabase) : Statement → HeapDatabase → Prop where
  | unchanged (stmt : Statement) : Step a stmt a
  | create {name : List UInt8} {columns : List Column} (hn : a.names name = none) :
      Step a (.createTable name columns) (a.createTable name (Schema.new columns)).2
  | insert {name : List UInt8} {rawValues : List (List UInt8)} {oid : ℕ} {t : HeapTable}
      {tuple : List UInt8} {rid : RecordId} {h : HeapFile} (hn : a.names name = some oid)
      (ht : a.tables oid = some t) (hlen : tuple.length = t.schema.length)
      (hins : t.heap.insert tuple = some (rid, h)) :
      Step a (.insert name rawValues) (a.setHeap oid h)
  | delete {name whereColumn whereValue : List UInt8} {oid : ℕ} {t : HeapTable}
      {rids : List RecordId} {h : HeapFile} (hn : a.names name = some oid)
      (ht : a.tables oid = some t) (hrids : ∀ rid ∈ rids, rid.pageId ∈ t.heap.ids)
      (hdel : deleteRows rids t.heap = some h) :
      Step a (.delete name whereColumn whereValue) (a.setHeap oid h)

/-- What an `INSERT` that returns has done. -/
theorem execute_insert {name : List UInt8} {rawValues : List (List UInt8)}
    {r : Except Exn QueryResult} (he : a.execute (.insert name rawValues) = some (r, a')) :
    a' = a ∨ ∃ oid t tuple rid h, a.getTable name = .ok (oid, t) ∧
      (rowTuple t.schema rawValues).run = some (.ok tuple) ∧
      t.heap.insert tuple = some (rid, h) ∧ a' = a.setHeap oid h ∧
      r = .ok ⟨true, str "1 row inserted.", []⟩ := by
  obtain ⟨⟨r', a₁⟩, hb, heq⟩ := Option.map_eq_some_iff.mp he
  obtain ⟨rfl, rfl⟩ := Prod.mk.inj heq
  cases hf : a.getTable name with
  | error e =>
    rw [hf] at hb
    cases hb
    exact .inl rfl
  | ok x =>
    obtain ⟨oid, t⟩ := x
    rw [hf] at hb
    obtain ⟨x, hx, hb⟩ := Option.bind_eq_some_iff.mp hb
    cases x with
    | error e =>
      cases hb
      exact .inl rfl
    | ok tuple =>
      obtain ⟨⟨rid, h⟩, hins, hb⟩ := Option.bind_eq_some_iff.mp hb
      cases hb
      exact .inr ⟨oid, t, tuple, rid, h, rfl, hx, hins, rfl, rfl⟩

theorem execute_step {stmt : Statement} {r : Except Exn QueryResult}
    (he : a.execute stmt = some (r, a')) : Step a stmt a' := by
  cases stmt with
  | commit =>
    cases he
    exact .unchanged _
  | createTable name columns =>
    obtain rfl : a' = (a.createTable name (Schema.new columns)).2 :=
      (congrArg Prod.snd (Option.some.inj he)).symm
    cases hn : a.names name with
    | none => exact .create hn
    | some oid =>
      have hsame : (a.createTable name (Schema.new columns)).2 = a := by
        unfold createTable
        rw [hn]
      rw [hsame]
      exact .unchanged _
  | select name =>
    obtain ⟨⟨r', a₁⟩, hb, heq⟩ := Option.map_eq_some_iff.mp he
    obtain ⟨-, rfl⟩ := Prod.mk.inj heq
    cases hf : a.getTable name with
    | error e =>
      rw [hf] at hb
      cases hb
      exact .unchanged _
    | ok x =>
      rw [hf] at hb
      obtain ⟨rows, -, hb⟩ := Option.bind_eq_some_iff.mp hb
      cases hb
      exact .unchanged _
  | insert name rawValues =>
    rcases execute_insert he with rfl | ⟨oid, t, tuple, rid, h, hf, htuple, hins, rfl, -⟩
    · exact .unchanged _
    · obtain ⟨hn, ht⟩ := getTable_ok hf
      exact .insert hn ht (rowTuple_length htuple) hins
  | delete name whereColumn whereValue =>
    obtain ⟨⟨r', a₁⟩, hb, heq⟩ := Option.map_eq_some_iff.mp he
    obtain ⟨-, rfl⟩ := Prod.mk.inj heq
    cases hf : a.getTable name with
    | error e =>
      rw [hf] at hb
      cases hb
      exact .unchanged _
    | ok x =>
      obtain ⟨oid, t⟩ := x
      obtain ⟨hn, ht⟩ := getTable_ok hf
      rw [hf] at hb
      simp only at hb
      split_ifs at hb
      · cases hb
        exact .unchanged _
      all_goals
        obtain ⟨x, hx, hb⟩ := Option.bind_eq_some_iff.mp hb
        cases x with
        | error e =>
          cases hb
          exact .unchanged _
        | ok found =>
          obtain ⟨h, hd, hb⟩ := Option.bind_eq_some_iff.mp hb
          cases hb
          exact .delete hn ht (found_rows hx) hd

/-- Every statement leaves well-formed tables. -/
theorem Good.step (hg : a.Good) {stmt : Statement} (hs : a.Step stmt a') (hin : a'.InRange) :
    a'.Good := by
  cases hs with
  | unchanged => exact hg
  | @create name columns hn =>
    intro k t ht
    unfold createTable at ht
    rw [hn] at ht
    simp only at ht
    split_ifs at ht with hk
    · cases ht
      exact HeapTable.empty_good _ _
    · exact hg k t ht
  | insert hn ht hlen hins =>
    exact hg.setHeap ht ((hg _ _ ht).insert hlen hins (InRange.heap ht hin))
  | delete hn ht hrids hdel => exact hg.setHeap ht ((hg _ _ ht).deleteRows _ hrids hdel).1

theorem extends_setHeap {oid k : ℕ} {t t₀ : HeapTable} {h : HeapFile}
    (ht₀ : a.tables oid = some t₀) (hids : t₀.heap.ids <+: h.ids) (ht : a.tables k = some t) :
    ∃ t', (a.setHeap oid h).tables k = some t' ∧ t'.schema = t.schema ∧ t'.name = t.name ∧
      t.heap.ids <+: t'.heap.ids := by
  unfold setHeap
  simp only [ht, Option.map_some]
  by_cases hk : k = oid
  · subst hk
    obtain rfl := Option.some.inj (ht.symm.trans ht₀)
    exact ⟨_, rfl, by rw [if_pos rfl], by rw [if_pos rfl], by rw [if_pos rfl]; exact hids⟩
  · exact ⟨t, by rw [if_neg hk], rfl, rfl, List.prefix_rfl⟩

/-- No statement drops a table or a page of one. -/
theorem Step.extends {stmt : Statement} (hs : a.Step stmt a') (hg : a.Good)
    (hfresh : a.tables a.nextOid = none) {k : ℕ} {t : HeapTable} (ht : a.tables k = some t) :
    ∃ t', a'.tables k = some t' ∧ t'.schema = t.schema ∧ t'.name = t.name ∧
      t.heap.ids <+: t'.heap.ids := by
  cases hs with
  | unchanged => exact ⟨t, ht, rfl, rfl, List.prefix_rfl⟩
  | @create name columns hn =>
    have hk : k ≠ a.nextOid := by
      rintro rfl
      rw [hfresh] at ht
      cases ht
    refine ⟨t, ?_, rfl, rfl, List.prefix_rfl⟩
    unfold createTable
    simp only [hn, if_neg hk, ht]
  | insert hn ht₀ hlen hins => exact extends_setHeap ht₀ ((hg _ _ ht₀).insert_ids hins) ht
  | delete hn ht₀ hrids hdel =>
    obtain ⟨-, hids, -⟩ := (hg _ _ ht₀).deleteRows _ hrids hdel
    exact extends_setHeap ht₀ (by rw [hids]) ht

end HeapDatabase
end PragmaticDB
