import PragmaticDB.Storage.InsertPlacement
import PragmaticDB.Query.InsertTruth

/-!
The order of rows in a table that is never deleted from. Rows of one length leave no gaps, so a
page that was too full for one of them stays too full for all others, and each row goes behind
the last one.
-/
namespace PragmaticDB
open PageDataManager CallMachine Executor Throwing

/-- The tuples of the page take up everything above its free space. -/
def Tight (d : PageData) : Prop :=
  freeSpaceOffset d + 1 + lengthBefore d (slotCount d) = 4096

theorem Appends.tight {d d' : PageData} {bytes : List UInt8} (ha : Appends d bytes d')
    (ht : Tight d) : Tight d' := by
  have hfree := ha.free
  have hold : lengthBefore d' (slotCount d) = lengthBefore d (slotCount d) := by
    apply Finset.sum_congr rfl
    intro i hi
    rw [ha.old i (Finset.mem_range.mp hi)]
  have hnew : (slot d' (slotCount d)).length = bytes.length := by rw [ha.new]
  unfold Tight at ht ⊢
  rw [ha.count, lengthBefore_succ, hold, hnew]
  omega

theorem Compacted.tight {d d' : PageData} (hc : Compacted d d') : Tight d' := by
  unfold Tight
  rw [hc.count, hc.lengthBefore_eq le_rfl]
  exact hc.free

/-- A compaction of a tight page frees nothing. -/
theorem Tight.fitsCompacted {p : ℤ} {d : PageData} (ht : Tight d) (hf : Formatted p d) {k : ℕ}
    (hk : k < 65532) : HeapFile.fitsCompacted d k = hasEnoughSpace d k := by
  unfold Tight at ht
  rw [Bool.eq_iff_iff, hf.hasEnoughSpace_iff hk, HeapFile.fitsCompacted, decide_eq_true_iff]
  omega

theorem initializePage_tight (p : ℤ) : Tight (initializePage zeroPage p) := by
  unfold Tight
  rw [freeSpaceOffset_initializePage, slotCount_initializePage]
  rfl

namespace HeapFile
variable {h h' : HeapFile} {bytes : List UInt8} {rid : RecordId} {k : ℕ}

/-- The heap after rows of `k` bytes were inserted and none was deleted. -/
structure Grown (k : ℕ) (h : HeapFile) : Prop where
  tight : ∀ p ∈ h.ids, Tight (h.page p)
  full : ∀ p ∈ h.ids.dropLast, hasEnoughSpace (h.page p) k = false

theorem empty_grown (k : ℕ) : Grown k HeapFile.empty := ⟨nofun, nofun⟩

/-- The rows of a page whose last slot is `i`. -/
theorem pageRows_snoc {p : ℤ} {i : ℕ} (hcount : slotCount (h'.page p) = i + 1)
    (hnew : h'.record ⟨p, i⟩ = some bytes)
    (hold : ∀ j < i, h'.record ⟨p, j⟩ = h.record ⟨p, j⟩) :
    h'.pageRows p = h.slotRows p 0 i ++ [(⟨p, i⟩, bytes)] := by
  have hrange : List.range' 0 (i + 1) = List.range' 0 i ++ [i] := by
    rw [List.range'_1_concat, Nat.zero_add]
  unfold pageRows slotRows
  rw [hcount, hrange, List.filterMap_append]
  congr 1
  · apply List.filterMap_congr
    intro j hj
    have hlt : j < 0 + i := (List.mem_range'_1.mp hj).2
    rw [hold j (by omega)]
  · simp [hnew]

/-- The records of `h'` are those of `h`, and `bytes` at `rid`. -/
def Adds (h : HeapFile) (rid : RecordId) (bytes : List UInt8) (h' : HeapFile) : Prop :=
  ∀ p ∈ h'.ids, ∀ i, h'.record ⟨p, i⟩ = if (⟨p, i⟩ : RecordId) = rid then some bytes
    else if p ∈ h.ids then h.record ⟨p, i⟩ else none

theorem Adds.pageRows_eq (ha : h.Adds rid bytes h') {p : ℤ} (hp' : p ∈ h'.ids) (hp : p ∈ h.ids)
    (hne : p ≠ rid.pageId) : h'.pageRows p = h.pageRows p := by
  apply pageRows_congr
  intro i
  have hrid : (⟨p, i⟩ : RecordId) ≠ rid := fun heq => hne (congrArg RecordId.pageId heq)
  rw [ha p hp' i, if_neg hrid, if_pos hp]

/-- The new record is the last one of the last page, which had the slots before it. -/
theorem Adds.rows_eq (ha : h.Adds rid bytes h') {ids : List ℤ}
    (hids : h'.ids = ids ++ [rid.pageId]) (hold : ∀ p ∈ ids, p ∈ h.ids) (hnot : rid.pageId ∉ ids)
    (hcount : slotCount (h'.page rid.pageId) = rid.slotId + 1)
    (hslots : rid.slotId = 0 ∨ rid.pageId ∈ h.ids) : h'.rows =
      ids.flatMap h.pageRows ++ h.slotRows rid.pageId 0 rid.slotId ++ [(rid, bytes)] := by
  have hlast : rid.pageId ∈ h'.ids := by simp [hids]
  have hrows : h'.pageRows rid.pageId =
      h.slotRows rid.pageId 0 rid.slotId ++ [(rid, bytes)] := by
    apply pageRows_snoc hcount
    · rw [ha _ hlast, if_pos rfl]
    · intro j hj
      have hne : (⟨rid.pageId, j⟩ : RecordId) ≠ rid := by
        intro heq
        exact hj.ne (congrArg RecordId.slotId heq)
      have hmem : rid.pageId ∈ h.ids := hslots.resolve_left (Nat.ne_zero_of_lt hj)
      rw [ha _ hlast, if_neg hne, if_pos hmem]
  have hbefore : ids.flatMap h'.pageRows = ids.flatMap h.pageRows := by
    apply List.flatMap_congr
    intro p hp
    exact ha.pageRows_eq (by simp [hids, hp]) (hold p hp) (ne_of_mem_of_not_mem hp hnot)
  unfold rows
  rw [hids, List.flatMap_append, List.flatMap_singleton, hbefore, hrows, List.append_assoc]

/-- Only the last page has room for one more row. -/
theorem Grown.room_last (hgr : h.Grown k) {p : ℤ} (hp : p ∈ h.ids)
    (hroom : hasEnoughSpace (h.page p) k = true) :
    p ∉ h.ids.dropLast ∧ h.ids = h.ids.dropLast ++ [p] := by
  have hlast : p ∉ h.ids.dropLast := by
    intro hmem
    rw [hgr.full p hmem] at hroom
    cases hroom
  refine ⟨hlast, ?_⟩
  have hsplit := List.dropLast_append_getLast (List.ne_nil_of_mem hp)
  rw [← hsplit] at hp
  rcases List.mem_append.mp hp with hmem | hmem
  · exact absurd hmem hlast
  · rw [List.mem_singleton.mp hmem]
    exact hsplit.symm

theorem Grown.append (hgr : h.Grown k) {p : ℤ} {page : ℤ → PageData} (hp : p ∈ h.ids)
    (hlast : p ∉ h.ids.dropLast) (happ : Appends (h.page p) bytes (page p))
    (hother : ∀ q, q ≠ p → page q = h.page q) : Grown k { h with page } := by
  constructor
  · intro q hq
    change Tight (page q)
    by_cases hqp : q = p
    · rw [hqp]
      exact happ.tight (hgr.tight p hp)
    · rw [hother q hqp]
      exact hgr.tight q hq
  · intro q hq
    change hasEnoughSpace (page q) k = false
    rw [hother q (ne_of_mem_of_not_mem hq hlast)]
    exact hgr.full q hq

/-- A tuple goes behind all the others, on the last page or on one more. -/
theorem Inserts.grown (hg : h.Good) (hd : ∀ p ∈ h.ids, Descending (h.page p))
    (hgr : h.Grown bytes.length) (h0 : 0 < bytes.length) (hle : bytes.length ≤ 4084)
    (hins : h.Inserts bytes rid h') :
    h'.Grown bytes.length ∧ h'.rows = h.rows ++ [(rid, bytes)] := by
  have hup := hg.compactsUpwards hd bytes.length
  have hlt : bytes.length < 65532 := by omega
  have hadds : h.Adds rid bytes h' := fun p hp i => hins.records hg h0 hup hp
  cases hins with
  | @firstFit p page hp happ hf hother =>
    have hroom : hasEnoughSpace (h.page p) bytes.length = true := by
      rw [hg.hasEnoughSpace_eq hp hlt]
      exact decide_eq_true (happ.hadRoom hf)
    obtain ⟨hlast, hids⟩ := hgr.room_last hp hroom
    refine ⟨hgr.append hp hlast happ hother, ?_⟩
    have hrows : h.rows = h.ids.dropLast.flatMap h.pageRows ++ h.pageRows p := by
      unfold rows
      conv_lhs => rw [hids, List.flatMap_append, List.flatMap_singleton]
    rw [hrows]
    exact hadds.rows_eq hids (fun q hq => List.mem_of_mem_dropLast hq) hlast happ.count (.inr hp)
  | @compacted pre post p d page hfull hids hpre hfit hc happ hf hother =>
    have hp : p ∈ h.ids := hids ▸ by simp
    rw [(hgr.tight p hp).fitsCompacted (hg.formatted p hp) hlt, hfull p hp] at hfit
    cases hfit
  | @newPage page hfull hlen hall happ hf =>
    refine ⟨⟨fun q hq => ?_, fun q hq => ?_⟩, ?_⟩
    · rcases List.mem_append.mp hq with hq | hq
      · exact (hall q hq).1.tight
      · rw [List.mem_singleton.mp hq]
        exact happ.tight (initializePage_tight h.next)
    · rw [List.dropLast_concat] at hq
      obtain ⟨hc, hno⟩ := hall q hq
      rwa [← Compacted.hasEnoughSpace_iff (hg.formatted q hq) hc hlt] at hno
    · have hcount : slotCount (page h.next) = 0 + 1 := by
        rw [happ.count, slotCount_initializePage]
      have hnone : h.slotRows h.next 0 0 = [] := rfl
      rw [hadds.rows_eq rfl (fun q hq => hq) hg.fresh hcount (.inl rfl)]
      simp only [hnone, List.append_nil]
      rfl
  | tooLong hfull hlong => exact absurd hle (not_le.mpr hlong)

end HeapFile

namespace HeapDatabase
variable {a a' : HeapDatabase} {name : List UInt8} {oid : ℕ} {t : HeapTable} {stmt : Statement}

/-- The statement writes to no table that has the id of `name`. -/
def Elsewhere (a : HeapDatabase) (name : List UInt8) : Statement → Prop
  | .insert other _ => a.names other ≠ a.names name
  | .delete other _ _ => a.names other ≠ a.names name
  | .createTable _ _ => a.names name ≠ some a.nextOid
  | .select _ => True
  | .commit => True

theorem Step.elsewhere (hs : a.Step stmt a') (hf : a.getTable name = .ok (oid, t))
    (he : a.Elsewhere name stmt) : a'.getTable name = .ok (oid, t) := by
  obtain ⟨hname, ht⟩ := getTable_ok hf
  have hset : ∀ {other : List UInt8} {k : ℕ} (h : HeapFile), a.names other = some k →
      a.names other ≠ a.names name → (a.setHeap k h).getTable name = .ok (oid, t) := by
    intro other k h hn hne
    have hk : oid ≠ k := by
      rintro rfl
      exact hne (hn.trans hname.symm)
    have hget := getTable_setHeap hf k h
    rwa [if_neg hk] at hget
  cases hs with
  | unchanged => exact hf
  | insert hn ht₀ hlen hins => exact hset _ hn he
  | delete hn ht₀ hrids hdel => exact hset _ hn he
  | @create other columns hn =>
    have hne : name ≠ other := by
      rintro rfl
      rw [hn] at hname
      cases hname
    have hoid : oid ≠ a.nextOid := by
      rintro rfl
      exact he hname
    apply getTable_of
    · unfold createTable
      simp only [hn, if_neg hne, hname]
    · unfold createTable
      simp only [hn, if_neg hoid, ht]

end HeapDatabase

namespace Database
variable {db db₀ db' : Database} {a : HeapDatabase} {name : List UInt8} {columns : List Column}

/-- Accepted rows go into table `name`, and nothing else is done to it but reading. -/
def OnlyGrows (name : List UInt8) (columns : List Column) (db : Database) : Statement → Prop
  | .insert other raws =>
    if other = name then Accepted columns raws
    else db.catalog.tableNames.lookup other ≠ db.catalog.tableNames.lookup name
  | .delete other _ _ =>
    db.catalog.tableNames.lookup other ≠ db.catalog.tableNames.lookup name
  | .createTable _ _ => db.catalog.tableNames.lookup name ≠ some db.catalog.nextTableOid
  | .select _ => True
  | .commit => True

instance (stmt : Statement) : Decidable (OnlyGrows name columns db stmt) :=
  match stmt with
  | .insert other raws => inferInstanceAs (Decidable (if other = name then Accepted columns raws
      else db.catalog.tableNames.lookup other ≠ db.catalog.tableNames.lookup name))
  | .delete other _ _ => inferInstanceAs (Decidable
      (db.catalog.tableNames.lookup other ≠ db.catalog.tableNames.lookup name))
  | .createTable _ _ => inferInstanceAs (Decidable
      (db.catalog.tableNames.lookup name ≠ some db.catalog.nextTableOid))
  | .select _ => isTrue trivial
  | .commit => isTrue trivial

def growMachine (name : List UInt8) (columns : List Column) :
    Machine Database Statement QueryResult :=
  pagedMachine.restrict (OnlyGrows name columns)

instance (h : List (Statement × QueryResult)) (stmt : Statement) :
    Decidable ((growMachine name columns).Allowed h db stmt) :=
  inferInstanceAs (Decidable (pagedMachine.Allowed h db stmt ∧ OnlyGrows name columns db stmt))

/-- The values of the `INSERT`s into table `name`, the first one in front. -/
def insertedRows (name : List UInt8) :
    List (Statement × QueryResult) → List (List (List UInt8))
  | [] => []
  | (.insert other raws, _) :: h =>
    if other = name then insertedRows name h ++ [raws] else insertedRows name h
  | _ :: h => insertedRows name h

/-- The table shows these rows in this order, and the next one will come last. -/
structure Shows (db : Database) (a : HeapDatabase) (name : List UInt8) (columns : List Column)
    (rows : List (List (List UInt8))) (oid : ℕ) (t : HeapTable) : Prop where
  refines : db.Refines (fun _ => RecordManager.Refines) a
  good : a.Good
  table : a.getTable name = .ok (oid, t)
  schema : t.schema = Schema.new columns
  grown : t.heap.Grown (columns.map Column.getLength).sum
  shown : t.shown = rows.map (canonicalRow columns)

variable {rows : List (List (List UInt8))} {raws : List (List UInt8)} {oid : ℕ} {t : HeapTable}

theorem Shows.elsewhere (hs : Shows db a name columns rows oid t) {stmt : Statement}
    {r : QueryResult} (he : a.Elsewhere name stmt) (hans : db.answer stmt = some (r, db'))
    (hin : ∀ r db', Executor.execute db stmt = some (r, db') → db'.InRange) :
    ∃ a', Shows db' a' name columns rows oid t := by
  have hexec := answer_eq_some.mp hans
  obtain ⟨a', -, hr', hstep, hg'⟩ := hs.refines.executed (fun _ => refines_layer) hs.good
    (fun _ => RecordManager.new_refines) hexec (hin _ _ hexec)
  exact ⟨a', hr', hg', hstep.elsewhere hs.table he, hs.schema, hs.grown, hs.shown⟩

/-- An accepted row is inserted behind all others. -/
theorem Shows.insert (hs : Shows db a name columns rows oid t)
    (hlo : 1 ≤ (columns.map Column.getLength).sum)
    (hhi : (columns.map Column.getLength).sum ≤ 4084) (hacc : Accepted columns raws)
    (hin : ∀ r db', Executor.execute db (.insert name raws) = some (r, db') → db'.InRange) :
    ∃ db' a' t', db.answer (.insert name raws) = some (⟨true, str "1 row inserted.", []⟩, db') ∧
      Shows db' a' name columns (rows ++ [raws]) oid t' := by
  have ht := hs.good oid t (HeapDatabase.getTable_ok hs.table).2
  have hcols : t.schema.columns = columns := by rw [hs.schema]; rfl
  have hfits : HeapDatabase.RowFits t.schema.columns raws := by
    rw [hcols]
    exact ⟨hacc, by omega⟩
  have htuple := rowTuple_eq hfits
  have htexts := textsOf_eq hfits
  have hlen : ((List.zipWith valueOf t.schema.columns raws).flatMap Value.bytes).length =
      (columns.map Column.getLength).sum := by
    rw [Typed.length_bytes (Accepted.typed hfits.typed), hcols]
  generalize (List.zipWith valueOf t.schema.columns raws).flatMap Value.bytes = tuple at *
  have h0 : 0 < tuple.length := by omega
  obtain ⟨rid, h, hins, hcase⟩ := ht.heap.insert_cases h0 (by omega)
  obtain ⟨db', hans, hr', hg', -⟩ := hs.refines.insert_answered hs.good hs.table htuple hins hin
  obtain ⟨hgrown, hrows⟩ := hcase.grown ht.heap ht.descending (hlen ▸ hs.grown) (by omega)
    (by omega)
  have hget := HeapDatabase.getTable_setHeap hs.table oid h
  rw [if_pos rfl] at hget
  refine ⟨db', _, _, hans, hr', hg', hget, hs.schema, hlen ▸ hgrown, ?_⟩
  have hshown := hs.shown
  unfold HeapTable.shown at hshown ⊢
  simp only [hrows]
  rw [List.map_append, List.map_append, hshown, List.map_singleton, List.map_singleton, htexts,
    hcols]

theorem Shows.returns (hs : Shows db a name columns rows oid t)
    (hcols : ∀ c ∈ columns, c.typeId = .integer ∨ c.typeId = .boolean)
    (hhi : (columns.map Column.getLength).sum ≤ 4084) :
    Returns db name (rows.map (canonicalRow columns)) := by
  have hplain : t.schema.Plain := by
    rw [hs.schema]
    exact ⟨hcols, by change (columns.map Column.getLength).sum < 65532; omega⟩
  rw [← hs.shown]
  exact hs.refines.shows hs.good hs.table fun _ _ _ => hplain

/-- A table that was just created has no rows. -/
theorem Reached.created (hr : Reached db) {r : QueryResult}
    (hans : db.answer (.createTable name columns) = some (r, db₀)) (hok : r.success = true) :
    ∃ a oid t, Shows db₀ a name columns [] oid t := by
  obtain ⟨a, href, hgood⟩ := hr.refines
  cases hn : a.names name with
  | some k =>
    have hrun : a.execute (.createTable name columns) = some (.ok ⟨false,
        str "Error: Table '" ++ name ++ str "' already exists in catalog.", []⟩, a) := by
      change a.executeCreate name columns = _
      unfold HeapDatabase.executeCreate HeapDatabase.createTable
      simp only [hn]
      rfl
    obtain ⟨db₁, he, -⟩ := href.executes hgood hrun
    have hboth := (answer_eq_some.mp hans).symm.trans he
    obtain ⟨hr, -⟩ := Prod.mk.inj (Option.some.inj hboth)
    rw [Except.ok.inj hr] at hok
    cases hok
  | none =>
    have hrun : a.execute (.createTable name columns) = some (.ok ⟨true,
        str "Table '" ++ name ++ str "' created.", []⟩,
        (a.createTable name (Schema.new columns)).2) := by
      change a.executeCreate name columns = _
      unfold HeapDatabase.executeCreate HeapDatabase.createTable
      simp only [hn]
      rfl
    obtain ⟨db₁, he, hrange⟩ := href.executes hgood hrun
    have hexec := answer_eq_some.mp hans
    obtain ⟨-, rfl⟩ := Prod.mk.inj (Option.some.inj (hexec.symm.trans he))
    have htable : (a.createTable name (Schema.new columns)).2.tables a.nextOid =
        some ⟨Schema.new columns, name, HeapFile.empty⟩ := by
      unfold HeapDatabase.createTable
      simp only [hn, if_true]
    have hname : (a.createTable name (Schema.new columns)).2.names name = some a.nextOid := by
      unfold HeapDatabase.createTable
      simp only [hn, if_true]
    have hin : (a.createTable name (Schema.new columns)).2.InRange := by
      intro k t ht
      by_cases hk : k = a.nextOid
      · subst hk
        obtain rfl := Option.some.inj (ht.symm.trans htable)
        exact (by decide : (0 : ℤ) ≤ 524288)
      · unfold HeapDatabase.createTable at ht
        simp only [hn, if_neg hk] at ht
        exact (hgood k t ht).heap.next_le
    obtain ⟨a', ha', hr', -, hg'⟩ := href.executed (fun _ => refines_layer) hgood
      (fun _ => RecordManager.new_refines) he (hrange.mpr hin)
    obtain ⟨-, rfl⟩ := Prod.mk.inj (Option.some.inj (hrun.symm.trans ha'))
    exact ⟨_, _, _, hr', hg', HeapDatabase.getTable_of hname htable, rfl,
      HeapFile.empty_grown _, rfl⟩

theorem growMachine_preserves (hlo : 1 ≤ (columns.map Column.getLength).sum)
    (hhi : (columns.map Column.getLength).sum ≤ 4084) :
    (growMachine name columns).Preserves fun h db =>
      ∃ a oid t, Shows db a name columns (insertedRows name h) oid t := by
  rintro h db stmt r db' ⟨a, oid, t, hs⟩ ⟨hin, hgrow⟩ hans
  have hlook := hs.refines.names
  cases stmt with
  | insert other raws =>
    unfold insertedRows
    by_cases hname : other = name
    · subst hname
      rw [if_pos rfl]
      have hacc : Accepted columns raws := (if_pos rfl : _ = Accepted columns raws) ▸ hgrow
      obtain ⟨db₁, a', t', hans', hs'⟩ := hs.insert hlo hhi hacc hin
      obtain ⟨-, rfl⟩ := Prod.mk.inj (Option.some.inj (hans'.symm.trans hans))
      exact ⟨a', oid, t', hs'⟩
    · rw [if_neg hname]
      have he : a.Elsewhere name (.insert other raws) := by
        change a.names other ≠ a.names name
        have hne : db.catalog.tableNames.lookup other ≠ db.catalog.tableNames.lookup name :=
          (if_neg hname : _ = (_ ≠ _)) ▸ hgrow
        rwa [hlook, hlook] at hne
      obtain ⟨a', hs'⟩ := hs.elsewhere he hans hin
      exact ⟨a', oid, t, hs'⟩
  | delete other column value =>
    have he : a.Elsewhere name (.delete other column value) := by
      change a.names other ≠ a.names name
      have hne : db.catalog.tableNames.lookup other ≠ db.catalog.tableNames.lookup name := hgrow
      rwa [hlook, hlook] at hne
    obtain ⟨a', hs'⟩ := hs.elsewhere he hans hin
    exact ⟨a', oid, t, hs'⟩
  | createTable other cs =>
    have he : a.Elsewhere name (.createTable other cs) := by
      change a.names name ≠ some a.nextOid
      have hne : db.catalog.tableNames.lookup name ≠ some db.catalog.nextTableOid := hgrow
      rwa [hlook, hs.refines.next] at hne
    obtain ⟨a', hs'⟩ := hs.elsewhere he hans hin
    exact ⟨a', oid, t, hs'⟩
  | select other =>
    have he : a.Elsewhere name (.select other) := trivial
    obtain ⟨a', hs'⟩ := hs.elsewhere he hans hin
    exact ⟨a', oid, t, hs'⟩
  | commit =>
    have he : a.Elsewhere name .commit := trivial
    obtain ⟨a', hs'⟩ := hs.elsewhere he hans hin
    exact ⟨a', oid, t, hs'⟩

/-- Rows that are inserted into a new table, and none deleted, are shown in the order of the
`INSERT`s, each of which is answered. -/
theorem scan_in_insertion_order {r : QueryResult} {h : List (Statement × QueryResult)}
    (hr : Reached db) (hans : db.answer (.createTable name columns) = some (r, db₀))
    (hok : r.success = true)
    (hcols : ∀ c ∈ columns, c.typeId = .integer ∨ c.typeId = .boolean)
    (hlo : 1 ≤ (columns.map Column.getLength).sum)
    (hhi : (columns.map Column.getLength).sum ≤ 4084)
    (hrun : (growMachine name columns).Run db₀ h db') :
    Returns db' name ((insertedRows name h).map (canonicalRow columns)) ∧
      ∀ raws, (growMachine name columns).Allowed h db' (.insert name raws) →
        ∃ db'', db'.answer (.insert name raws) =
          some (⟨true, str "1 row inserted.", []⟩, db'') := by
  obtain ⟨a, oid, t, hs⟩ := hrun.preserved (growMachine_preserves hlo hhi) (hr.created hans hok)
  refine ⟨hs.returns hcols hhi, fun raws hallow => ?_⟩
  have hacc : Accepted columns raws := (if_pos rfl : _ = Accepted columns raws) ▸ hallow.2
  obtain ⟨db'', a', t', hans', -⟩ := hs.insert hlo hhi hacc hallow.1
  exact ⟨db'', hans'⟩

theorem two_rows_in_order : ∃ db', Returns db' (str "t")
    ([[str "8"], [str "7"]].map (canonicalRow [⟨str "x", .integer⟩])) := by
  have heval : ((growMachine (str "t") [⟨str "x", .integer⟩]).play
      [.insert (str "t") [str "8"], .select (str "t"), .insert (str "t") [str "7"], .commit] []
      (withTable [⟨str "x", .integer⟩])).map (fun x => insertedRows (str "t") x.1) =
        some [[str "8"], [str "7"]] := by
    decide +kernel
  obtain ⟨⟨h, db⟩, hplay, hrows⟩ := Option.map_eq_some_iff.mp heval
  have hstart : Reached Database.empty := .inl ⟨[], .start⟩
  have hcreate : Database.empty.answer (.createTable (str "t") [⟨str "x", .integer⟩]) =
      some (⟨true, str "Table '" ++ str "t" ++ str "' created.", []⟩,
        withTable [⟨str "x", .integer⟩]) := rfl
  have hreturns := (scan_in_insertion_order hstart hcreate rfl (by simp) (by decide) (by decide)
    (Machine.Run.start.play hplay)).1
  rw [hrows] at hreturns
  exact ⟨db, hreturns⟩

end Database
end PragmaticDB
