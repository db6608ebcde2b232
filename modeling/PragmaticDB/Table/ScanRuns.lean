import PragmaticDB.Table.Scan
import PragmaticDB.Lib.Machine

/-!
Runs of a table under inserts, deletes and scans. Tables that are never updated keep their
tuples in slot order on every page, so no compaction writes over one of them.
-/
namespace PragmaticDB
open CallMachine

inductive TableCall where
  | insert (tuple : List UInt8)
  | delete (rid : RecordId)
  | scan

inductive TableReply where
  | rid (rid : RecordId)
  | ok (ok : Bool)
  | rows (rows : List (RecordId × List UInt8))
  deriving DecidableEq

/-- Newest call first. -/
abbrev TableHistory := List (TableCall × TableReply)

namespace TableManager

/-- The position of the iterator and what `*it` gives there. -/
def visitRow (it : TableIterator) (rm : RecordManager) :
    Option (Except Empty (RecordId × List UInt8) × RecordManager) := do
  let (bytes, rm) ← it.deref rm
  some (.ok (it.rid, bytes), rm)

/-- The loop from `Begin` to `End`. -/
def scanAll (t : TableManager) : Option (List (RecordId × List UInt8) × TableManager) := do
  let (rows, t) ← scan visitRow t
  match rows with
  | .ok rows => some (rows, t)

def answer (t : TableManager) : TableCall → Option (TableReply × TableManager)
  | .insert tuple => (t.insertTuple tuple).map fun x => (.rid x.1, x.2)
  | .delete rid => (t.deleteTuple rid).map fun x => (.ok x.1, x.2)
  | .scan => t.scanAll.map fun x => (.rows x.1, x.2)

end TableManager

/-- The id was returned by an insert of the run. -/
def Issued (h : TableHistory) (rid : RecordId) : Prop :=
  ∃ tuple, (.insert tuple, .rid rid) ∈ h

/-- Tuples of 1 to 4084 bytes, page ids below `2 ^ 19`. -/
def tableMachine : Machine TableManager TableCall TableReply where
  step := TableManager.answer
  Allowed h t c :=
    match c with
    | .insert tuple => 0 < tuple.length ∧ tuple.length ≤ 4084 ∧
        ∀ rid t', t.insertTuple tuple = some (rid, t') → t'.getNextPageId ≤ 524288
    | .delete rid => Issued h rid
    | .scan => True

/-- The tuple inserted under an id that has not been deleted. -/
def stored : TableHistory → RecordId → Option (List UInt8)
  | [], _ => none
  | (.insert tuple, .rid r) :: h, rid => if rid = r then some tuple else stored h rid
  | (.delete r, _) :: h, rid => if rid = r then none else stored h rid
  | _ :: h, rid => stored h rid

/-- `r` comes before `s` in page order and slot order. -/
def Before (ids : List ℤ) (r s : RecordId) : Prop :=
  ids.idxOf r.pageId < ids.idxOf s.pageId ∨ (r.pageId = s.pageId ∧ r.slotId < s.slotId)

theorem rows_pairwise {h : HeapFile} (hg : h.Good) :
    h.rows.Pairwise fun a b => Before h.ids a.1 b.1 := by
  have hpage : ∀ p, ∀ x ∈ h.pageRows p, x.1.pageId = p := by
    intro p x hx
    obtain ⟨j, -, hj⟩ := List.mem_filterMap.mp hx
    obtain ⟨b, -, rfl⟩ := Option.map_eq_some_iff.mp hj
    rfl
  unfold HeapFile.rows
  rw [List.pairwise_flatMap]
  constructor
  · intro p _
    unfold HeapFile.pageRows HeapFile.slotRows
    rw [List.pairwise_filterMap]
    refine List.Pairwise.imp ?_ List.pairwise_lt_range'
    intro i j hij x hx y hy
    obtain ⟨b, -, rfl⟩ := Option.map_eq_some_iff.mp hx
    obtain ⟨b', -, rfl⟩ := Option.map_eq_some_iff.mp hy
    exact .inr ⟨rfl, hij⟩
  · rw [List.pairwise_iff_getElem]
    intro i j hi hj hij x hx y hy
    refine .inl ?_
    rw [hpage _ x hx, hpage _ y hy, hg.nodup.idxOf_getElem, hg.nodup.idxOf_getElem]
    exact hij

namespace TableManager
variable {hist : TableHistory} {t : TableManager} {h : HeapFile}

/-- The invariant of every run. -/
structure Filled (hist : TableHistory) (t : TableManager) (h : HeapFile) : Prop where
  refines : t.recordManager.Refines h
  good : h.Good
  descending : ∀ p ∈ h.ids, Descending (h.page p)
  lookup : ∀ rid, h.lookup rid = stored hist rid
  issued : ∀ rid, Issued hist rid → h.HasSlot rid

theorem new_filled {dm : DiskManager} (hdm : dm.plan = []) : Filled [] (new dm) HeapFile.empty :=
  ⟨RecordManager.new_refines hdm, HeapFile.empty_good, nofun, fun _ => if_neg List.not_mem_nil,
    by simp [Issued]⟩

/-- An insert always finds a place, and its id is new. -/
theorem Filled.insert (hf : Filled hist t h) {tuple : List UInt8}
    (ha : tableMachine.Allowed hist t (.insert tuple)) : ∃ rid t' h',
      t.insertTuple tuple = some (rid, t') ∧ rid ≠ invalidRecordId ∧ ¬ Issued hist rid ∧
      Filled ((.insert tuple, .rid rid) :: hist) t' h' := by
  obtain ⟨h0, hlen, hbound⟩ := ha
  obtain ⟨rid, h', he, hins⟩ := hf.good.insert_cases h0 (show tuple.length < 65532 by omega)
  have hrel := hf.refines.insert tuple
  rw [he] at hrel
  obtain ⟨rm', hx, hnext, hr'⟩ := RecordManager.some_of_agree hrel
  have hins' : t.insertTuple tuple = some (rid, ⟨rm'⟩) := by simp [insertTuple, hx]
  have hle : h'.next ≤ 524288 := hnext ▸ hbound _ _ hins'
  have hup := hf.good.compactsUpwards hf.descending tuple.length
  obtain ⟨hvalid, hslot⟩ : rid ≠ invalidRecordId ∧ h'.HasSlot rid := by
    rcases hins.rid_cases hf.good with ⟨-, hlong⟩ | ⟨-, hp, hs, -⟩
    · omega
    · exact ⟨fun hinv => absurd (hins.nonneg hf.good hp) (by rw [hinv]; decide), hp, hs⟩
  refine ⟨rid, ⟨rm'⟩, h', hins', hvalid, fun hi => hins.fresh hf.good (hf.issued rid hi),
    hr' hle, hins.good hf.good hle, hins.descending hf.good hf.descending, fun r => ?_, ?_⟩
  · rw [hins.lookup hf.good h0 hup, hf.lookup]
    simp only [stored, hvalid, ne_eq, not_false_eq_true, and_true]
  · rintro r ⟨bytes, hmem⟩
    rcases List.mem_cons.mp hmem with heq | hmem
    · simp only [Prod.mk.injEq, TableReply.rid.injEq] at heq
      rw [heq.2]
      exact hslot
    · obtain ⟨hp, hs⟩ := hf.issued r ⟨bytes, hmem⟩
      exact ⟨hins.extends_ids.subset hp, hs.trans_le (hins.count_le hf.good hp)⟩

theorem Filled.delete (hf : Filled hist t h) {rid : RecordId} (hi : Issued hist rid) :
    ∃ t' h', t.deleteTuple rid = some (true, t') ∧
      Filled ((.delete rid, .ok true) :: hist) t' h' := by
  obtain ⟨hp, hs⟩ := hf.issued rid hi
  obtain ⟨h', he, hg', hids, -, hcount, hdesc, hrec⟩ := hf.good.delete hp
  have hrel := hf.refines.delete hp
  rw [he, decide_eq_true hs] at hrel
  obtain ⟨rm', hx, hr'⟩ := RecordManager.some_of_rel hrel
  refine ⟨⟨rm'⟩, h', by simp [deleteTuple, hx], hr', hg', fun p hp' => ?_, fun r => ?_, ?_⟩
  · exact hdesc p (hf.descending p (hids ▸ hp'))
  · have hlook := hf.lookup r
    unfold HeapFile.lookup at hlook ⊢
    rw [hids, hrec]
    simp only [stored]
    split_ifs with h1 h2 h2
    · rfl
    · rw [← hlook, if_pos h1]
    · rfl
    · rw [← hlook, if_neg h1]
  · rintro r ⟨bytes, hmem⟩
    obtain ⟨hp', hs'⟩ := hf.issued r ⟨bytes, by simpa using hmem⟩
    exact ⟨hids ▸ hp', hcount _ ▸ hs'⟩

/-- A scan shows the rows of the heap. -/
theorem scanAll_rows {I : RecordManager → Prop} (hI : Reading h I) (h0 : ∀ p ∈ h.ids, 0 ≤ p)
    (hr : I t.recordManager) :
    ∃ t', t.scanAll = some (h.rows, t') ∧ I t'.recordManager := by
  have hbody : ∀ it (rm : RecordManager) bytes, I rm → it.rid.pageId ∈ h.ids →
      h.record it.rid = some bytes →
      Option.Rel (fun x y => x.1 = y ∧ I x.2) (visitRow it rm)
        (pure (it.rid, bytes) : ExceptT Empty Option _).run := by
    intro it rm bytes hr hp hrec
    obtain ⟨rm', he, hr'⟩ := hI.get rm it.rid hr hp
    simp only [visitRow, TableIterator.deref, he, hrec]
    exact .some ⟨rfl, hr'⟩
  have hs := scan_rows hI h0 (f := fun r => pure r) hbody hr
  have hmap : (h.rows.mapM fun r => (pure r : ExceptT Empty Option _)).run = some (.ok h.rows) := by
    rw [List.mapM_pure, List.map_id']
    rfl
  rw [hmap] at hs
  unfold scanAll
  cases hscan : TableManager.scan visitRow t with
  | none =>
    rw [hscan] at hs
    cases hs
  | some x =>
    rw [hscan] at hs
    cases hs with
    | some hx =>
      obtain ⟨x, t'⟩ := x
      obtain ⟨rfl, hr'⟩ := hx
      exact ⟨t', rfl, hr'⟩

theorem Filled.scan (hf : Filled hist t h) : ∃ t', t.scanAll = some (h.rows, t') ∧
    t'.recordManager.Refines h :=
  scanAll_rows (refines_reading hf.good) hf.good.nonneg hf.refines

theorem Filled.afterScan (hf : Filled hist t h) {t' : TableManager}
    (hr' : t'.recordManager.Refines h) : Filled ((.scan, .rows h.rows) :: hist) t' h := by
  refine ⟨hr', hf.good, hf.descending, hf.lookup, ?_⟩
  rintro r ⟨bytes, hmem⟩
  exact hf.issued r ⟨bytes, by simpa using hmem⟩

theorem tableMachine_keeps : tableMachine.Keeps fun hist t => ∃ h, Filled hist t h := by
  rintro hist t c ⟨h, hf⟩ ha
  cases c with
  | insert tuple =>
    obtain ⟨rid, t', h', he, -, -, hf'⟩ := hf.insert ha
    exact ⟨.rid rid, t', by simp [tableMachine, answer, he], h', hf'⟩
  | delete rid =>
    obtain ⟨t', h', he, hf'⟩ := hf.delete ha
    exact ⟨.ok true, t', by simp [tableMachine, answer, he], h', hf'⟩
  | scan =>
    obtain ⟨t', he, hr'⟩ := hf.scan
    exact ⟨.rows h.rows, t', by simp [tableMachine, answer, he], h, hf.afterScan hr'⟩

/-- In every state of a run an insert succeeds with an id not returned before, and a scan ends
and shows the tuples inserted and not deleted, each once and in page and slot order. -/
theorem scan_shows_stored {dm : DiskManager} (hdm : dm.plan = [])
    (hr : tableMachine.Run (new dm) hist t) :
    (∀ tuple, tableMachine.Allowed hist t (.insert tuple) → ∃ rid t',
      t.insertTuple tuple = some (rid, t') ∧ rid ≠ invalidRecordId ∧ ¬ Issued hist rid) ∧
    ∃ rows t', t.scanAll = some (rows, t') ∧
      (∀ rid bytes, (rid, bytes) ∈ rows ↔ stored hist rid = some bytes) ∧
      rows.Pairwise fun a b => Before t.getPageIds a.1 b.1 := by
  obtain ⟨h, hf⟩ := hr.invariant tableMachine_keeps ⟨_, new_filled hdm⟩
  constructor
  · intro tuple ha
    obtain ⟨rid, t', -, he, hvalid, hnew, -⟩ := hf.insert ha
    exact ⟨rid, t', he, hvalid, hnew⟩
  · obtain ⟨t', he, -⟩ := hf.scan
    refine ⟨h.rows, t', he, fun rid bytes => ?_, ?_⟩
    · rw [mem_rows, hf.lookup]
    · have hids : t.getPageIds = h.ids := hf.refines.ids
      rw [hids]
      exact rows_pairwise hf.good

/-- One tuple inserted and scanned. -/
theorem one_row_scanned : ∃ t rows t', (new ⟨[], none, []⟩).answer (.insert [7]) =
    some (.rid ⟨0, 0⟩, t) ∧ t.scanAll = some (rows, t') ∧ (⟨0, 0⟩, [7]) ∈ rows := by
  have heval : ((new ⟨[], none, []⟩).answer (.insert [7])).map
      (fun x => (x.1, x.2.getNextPageId)) = some (.rid ⟨0, 0⟩, 1) := by
    decide +kernel
  obtain ⟨⟨r, t⟩, he, heq⟩ := Option.map_eq_some_iff.mp heval
  simp only [Prod.mk.injEq] at heq
  obtain ⟨rfl, hnext⟩ := heq
  have hrun : tableMachine.Run (new ⟨[], none, []⟩) [(.insert [7], .rid ⟨0, 0⟩)] t := by
    apply Machine.Run.call .start _ he
    refine ⟨by decide, by decide, fun rid t' hins => ?_⟩
    have he' : (new ⟨[], none, []⟩).answer (.insert [7]) = some (.rid rid, t') := by
      simp only [answer, hins, Option.map_some]
    obtain ⟨-, rfl⟩ := Prod.mk.inj (Option.some.inj (he'.symm.trans he))
    omega
  obtain ⟨-, rows, t', hscan, hmem, -⟩ := scan_shows_stored rfl hrun
  exact ⟨t, rows, t', he, hscan, (hmem _ _).mpr rfl⟩

end TableManager
end PragmaticDB
