import PragmaticDB.Table.TableManager
import PragmaticDB.Storage.HeapInvariants
import PragmaticDB.Lib.Throwing

/-!
Scans against the heap of a table. The iterator stands on the first of the rows that are left;
one `++` drops that row, so the loop from `Begin` to `End` goes through all rows in order.
-/
namespace PragmaticDB

namespace HeapFile

/-- The rows in the last `k` slots of page `p`, from slot `i` on. -/
def slotRows (h : HeapFile) (p : ℤ) (i k : ℕ) : List (RecordId × List UInt8) :=
  (List.range' i k).filterMap fun j => (h.record ⟨p, j⟩).map fun bytes => (⟨p, j⟩, bytes)

def pageRows (h : HeapFile) (p : ℤ) : List (RecordId × List UInt8) :=
  h.slotRows p 0 (slotCount (h.page p))

/-- All rows of a table, in the order of its pages and of their slots. -/
def rows (h : HeapFile) : List (RecordId × List UInt8) := h.ids.flatMap h.pageRows

/-- The rows from slot `i` of the `n`-th page on. -/
def rowsFrom (h : HeapFile) (n : ℕ) (p : ℤ) (i : ℕ) : List (RecordId × List UInt8) :=
  h.slotRows p i (slotCount (h.page p) - i) ++ (h.ids.drop (n + 1)).flatMap h.pageRows

/-- `it` stands on the first of `l`, which are the rows from there on. -/
inductive At (h : HeapFile) (it : TableIterator) : List (RecordId × List UInt8) → Prop where
  | done (hend : it.rid = invalidRecordId) : At h it []
  | on {bytes : List UInt8} (hpage : h.ids[it.pageIdx]? = some it.rid.pageId)
      (hrec : h.record it.rid = some bytes) :
      At h it ((it.rid, bytes) :: h.rowsFrom it.pageIdx it.rid.pageId (it.rid.slotId + 1))

variable {h : HeapFile}

theorem slotRows_cons (h : HeapFile) (p : ℤ) (i k : ℕ) : h.slotRows p i (k + 1) =
    ((h.record ⟨p, i⟩).map fun bytes => (⟨p, i⟩, bytes)).toList ++ h.slotRows p (i + 1) k := by
  unfold slotRows
  rw [List.range'_succ, List.filterMap_cons]
  cases h.record ⟨p, i⟩ <;> rfl

theorem slotRows_none {p : ℤ} {i k : ℕ} (hn : h.record ⟨p, i⟩ = none) :
    h.slotRows p i (k + 1) = h.slotRows p (i + 1) k := by
  rw [slotRows_cons, hn]
  rfl

theorem slotRows_some {p : ℤ} {i k : ℕ} {bytes : List UInt8} (hs : h.record ⟨p, i⟩ = some bytes) :
    h.slotRows p i (k + 1) = (⟨p, i⟩, bytes) :: h.slotRows p (i + 1) k := by
  rw [slotRows_cons, hs]
  rfl

theorem slotRows_length (h : HeapFile) (p : ℤ) (i k : ℕ) : (h.slotRows p i k).length ≤ k := by
  have hle := List.length_filterMap_le
    (fun j => (h.record ⟨p, j⟩).map fun bytes => ((⟨p, j⟩ : RecordId), bytes)) (List.range' i k)
  rwa [List.length_range'] at hle

theorem rows_length (h : HeapFile) : h.rows.length ≤ h.ids.length * 65536 := by
  have hpage : ∀ p, (h.pageRows p).length ≤ 65536 := fun p =>
    (h.slotRows_length p 0 _).trans (ByteBlock.Block.get16_lt _ _).le
  unfold rows
  rw [List.length_flatMap]
  calc (h.ids.map fun p => (h.pageRows p).length).sum
      ≤ (h.ids.map fun p => (h.pageRows p).length).length * 65536 :=
        List.sum_le_card_nsmul _ _ (by simpa using fun p _ => hpage p)
    _ = h.ids.length * 65536 := by rw [List.length_map]

/-- Slots past the last one have no rows. -/
theorem pageRows_eq (h : HeapFile) {p : ℤ} {k : ℕ} (hk : slotCount (h.page p) ≤ k) :
    h.pageRows p = h.slotRows p 0 k := by
  obtain ⟨m, rfl⟩ := Nat.exists_eq_add_of_le hk
  unfold pageRows slotRows
  rw [← List.range'_append, List.filterMap_append]
  have hpast : (List.range' (0 + 1 * slotCount (h.page p)) m).filterMap (fun j =>
      (h.record ⟨p, j⟩).map fun bytes => ((⟨p, j⟩ : RecordId), bytes)) = [] := by
    rw [List.filterMap_eq_nil_iff]
    intro j hj
    obtain ⟨hj, -⟩ := List.mem_range'_1.mp hj
    have hdead : h.record ⟨p, j⟩ = none :=
      record_of_dead fun hl => absurd hl.1 (by simp only; omega)
    rw [hdead]
    rfl
  rw [hpast, List.append_nil]

/-- The rows of a page are its records. -/
theorem pageRows_congr {h h' : HeapFile} {p : ℤ}
    (hrec : ∀ i, h.record ⟨p, i⟩ = h'.record ⟨p, i⟩) : h.pageRows p = h'.pageRows p := by
  rw [h.pageRows_eq (Nat.le_max_left _ (slotCount (h'.page p))),
    h'.pageRows_eq (Nat.le_max_right (slotCount (h.page p)) _)]
  unfold slotRows
  simp only [hrec]

theorem pageRows_nil {h : HeapFile} {p : ℤ} (hrec : ∀ i, h.record ⟨p, i⟩ = none) :
    h.pageRows p = [] := by
  unfold pageRows slotRows
  simp [hrec]

/-- More pages without records do not add rows. -/
theorem rows_of_front {h h' : HeapFile} (hids : h.ids <+: h'.ids) (hnodup : h'.ids.Nodup)
    (hrec : ∀ p ∈ h'.ids, ∀ i, h'.record ⟨p, i⟩ = h.lookup ⟨p, i⟩) : h'.rows = h.rows := by
  obtain ⟨extra, heq⟩ := hids
  rw [← heq, List.nodup_append] at hnodup
  obtain ⟨-, -, hdisjoint⟩ := hnodup
  have hold : h.ids.flatMap h'.pageRows = h.ids.flatMap h.pageRows := by
    apply List.flatMap_congr
    intro p hp
    apply pageRows_congr
    intro i
    rw [hrec p (heq ▸ List.mem_append_left _ hp), HeapFile.lookup, if_pos hp]
  have hextra : extra.flatMap h'.pageRows = [] := by
    rw [List.flatMap_eq_nil_iff]
    intro p hp
    apply pageRows_nil
    intro i
    rw [hrec p (heq ▸ List.mem_append_right _ hp), HeapFile.lookup,
      if_neg fun hmem => hdisjoint p hmem p hp rfl]
  unfold rows
  rw [← heq, List.flatMap_append, hold, hextra, List.append_nil]

theorem At.valid (h0 : ∀ p ∈ h.ids, 0 ≤ p) {it : TableIterator} {r : RecordId × List UInt8}
    {l : List (RecordId × List UInt8)} (hat : h.At it (r :: l)) :
    it.rid ≠ invalidRecordId ∧ it.rid.pageId ∈ h.ids ∧ r.1 = it.rid ∧
      h.record it.rid = some r.2 := by
  cases hat with
  | on hpage hrec =>
    have hmem := List.mem_of_getElem? hpage
    refine ⟨fun he => ?_, hmem, rfl, hrec⟩
    exact ne_invalid_of_nonneg (h0 _ hmem) (congrArg RecordId.pageId he)

end HeapFile

theorem mem_rows {h : HeapFile} {rid : RecordId} {bytes : List UInt8} :
    (rid, bytes) ∈ h.rows ↔ h.lookup rid = some bytes := by
  unfold HeapFile.rows HeapFile.lookup
  simp only [List.mem_flatMap, HeapFile.pageRows, HeapFile.slotRows, List.mem_filterMap,
    List.mem_range', Option.map_eq_some_iff]
  constructor
  · rintro ⟨p, hp, j, -, b, hrec, heq⟩
    obtain ⟨rfl, rfl⟩ := Prod.mk.inj heq
    rw [if_pos hp, hrec]
  · intro hl
    split_ifs at hl with hp
    have hlive : Live (h.page rid.pageId) rid.slotId :=
      record_isSome.mp (Option.isSome_iff_exists.mpr ⟨_, hl⟩)
    exact ⟨rid.pageId, hp, rid.slotId, ⟨rid.slotId, hlive.1, by omega⟩, bytes, hl, rfl⟩

theorem mem_ids_of_mem_rows {h : HeapFile} {r : RecordId × List UInt8} (hr : r ∈ h.rows) :
    r.1.pageId ∈ h.ids := by
  have hl := mem_rows.mp hr
  unfold HeapFile.lookup at hl
  split_ifs at hl with hp
  exact hp

open HeapFile TableIterator TableManager CallMachine Throwing
variable {h : HeapFile} {rm : RecordManager}

/-- What holds of a record manager, `I`, is kept while the pages of `h` are only read. -/
structure Reading (h : HeapFile) (I : RecordManager → Prop) : Prop where
  ids : ∀ rm, I rm → rm.pageIds = h.ids
  get : ∀ rm (rid : RecordId), I rm → rid.pageId ∈ h.ids →
    ∃ rm', rm.get rid = some (h.record rid, rm') ∧ I rm'
  getSlotCount : ∀ rm p, I rm → p ∈ h.ids →
    ∃ rm', rm.getSlotCount p = some (slotCount (h.page p), rm') ∧ I rm'

theorem refines_reading (hg : h.Good) : Reading h (·.Refines h) where
  ids _ hr := hr.ids
  get rm rid hr hp := by
    have hrel := hr.get hp
    rw [hg.get hp] at hrel
    exact RecordManager.some_of_rel hrel
  getSlotCount rm p hr hp := by
    have hrel := hr.getSlotCount hp
    rw [getSlotCount_eq] at hrel
    exact RecordManager.some_of_rel hrel

variable {I : RecordManager → Prop}

theorem findSlot_rows (hI : Reading h I) {p : ℤ} (hp : p ∈ h.ids) (k i : ℕ) (hr : I rm) :
    ∃ found rm', findSlot k ⟨p, i⟩ rm = some (found, rm') ∧ I rm' ∧
      ((found = none ∧ h.slotRows p i k = []) ∨ ∃ j bytes, i ≤ j ∧ j < i + k ∧
        found = some ⟨p, j⟩ ∧ h.record ⟨p, j⟩ = some bytes ∧
        h.slotRows p i k = (⟨p, j⟩, bytes) :: h.slotRows p (j + 1) (i + k - (j + 1))) := by
  induction k generalizing i rm with
  | zero => exact ⟨none, rm, rfl, hr, .inl ⟨rfl, rfl⟩⟩
  | succ k ih =>
    obtain ⟨rm₁, he, hr₁⟩ := hI.get rm ⟨p, i⟩ hr hp
    unfold findSlot
    rw [he]
    cases hrec : h.record ⟨p, i⟩ with
    | some bytes =>
      refine ⟨some ⟨p, i⟩, rm₁, rfl, hr₁, .inr ⟨i, bytes, le_rfl, by omega, rfl, hrec, ?_⟩⟩
      rw [slotRows_some hrec, show i + (k + 1) - (i + 1) = k by omega]
    | none =>
      obtain ⟨found, rm', he', hr', hcases⟩ := ih (i + 1) hr₁
      refine ⟨found, rm', he', hr', ?_⟩
      rw [slotRows_none hrec]
      rcases hcases with hnone | ⟨j, bytes, hij, hjk, hf, hrecj, hrows⟩
      · exact .inl hnone
      · refine .inr ⟨j, bytes, by omega, by omega, hf, hrecj, ?_⟩
        rw [hrows, show i + 1 + k - (j + 1) = i + (k + 1) - (j + 1) by omega]

/-- From slot `i` of the `n`-th page the iterator comes to the next row. -/
theorem advance_rows (hI : Reading h I) {fuel n i : ℕ} {p : ℤ} (hr : I rm)
    (hn : h.ids[n]? = some p) (hfuel : h.ids.length < n + fuel) :
    ∃ it rm', advance fuel ⟨⟨p, i⟩, n⟩ rm = some (it, rm') ∧ I rm' ∧
      h.At it (h.rowsFrom n p i) := by
  induction fuel generalizing n i p rm with
  | zero =>
    obtain ⟨hlt, -⟩ := List.getElem?_eq_some_iff.mp hn
    omega
  | succ fuel ih =>
    have hp := List.mem_of_getElem? hn
    obtain ⟨rm₁, hc, hr₁⟩ := hI.getSlotCount rm p hr hp
    obtain ⟨found, rm₂, hf, hr₂, hcases⟩ :=
      findSlot_rows hI hp (slotCount (h.page p) - i) i hr₁
    unfold advance
    simp only [hc, hf, Option.bind_eq_bind, Option.bind_some]
    rcases hcases with ⟨rfl, hrows⟩ | ⟨j, bytes, hij, hjk, rfl, hrec, hrows⟩
    · simp only [hI.ids rm₂ hr₂]
      unfold rowsFrom
      rw [hrows, List.nil_append]
      cases hnext : h.ids[n + 1]? with
      | none =>
        refine ⟨_, rm₂, rfl, hr₂, ?_⟩
        rw [List.drop_eq_nil_of_le (List.getElem?_eq_none_iff.mp hnext)]
        exact .done rfl
      | some q =>
        obtain ⟨it, rm', he, hr', hat⟩ := ih (i := 0) hr₂ hnext (by omega)
        refine ⟨it, rm', he, hr', ?_⟩
        obtain ⟨hlt, hq⟩ := List.getElem?_eq_some_iff.mp hnext
        rw [List.drop_eq_getElem_cons hlt, hq, List.flatMap_cons]
        exact hat
    · refine ⟨_, rm₂, rfl, hr₂, ?_⟩
      unfold rowsFrom
      rw [hrows, List.cons_append, show i + (slotCount (h.page p) - i) - (j + 1) =
        slotCount (h.page p) - (j + 1) by omega]
      exact .on hn hrec

theorem next_rows (hI : Reading h I) (hr : I rm) {it : TableIterator}
    {r : RecordId × List UInt8} {l : List (RecordId × List UInt8)} (hat : h.At it (r :: l)) :
    ∃ it' rm', it.next rm = some (it', rm') ∧ I rm' ∧ h.At it' l := by
  cases hat with
  | on hpage hrec =>
    have hlive : Live (h.page it.rid.pageId) it.rid.slotId :=
      record_isSome.mp (Option.isSome_iff_exists.mpr ⟨_, hrec⟩)
    have hlt := ByteBlock.Block.get16_lt (h.page it.rid.pageId) 6
    have hslot : (it.rid.slotId + 1) % 65536 = it.rid.slotId + 1 := by
      have := hlive.1
      unfold slotCount at this
      omega
    unfold TableIterator.next
    rw [hslot, hI.ids rm hr]
    exact advance_rows hI hr hpage (by omega)

theorem begin_rows (hI : Reading h I) (hr : I rm) :
    ∃ it rm', begin rm = some (it, rm') ∧ I rm' ∧ h.At it h.rows := by
  have hids := hI.ids rm hr
  unfold TableManager.begin
  cases hl : h.ids with
  | nil =>
    rw [hids, hl]
    refine ⟨_, rm, rfl, hr, ?_⟩
    unfold rows
    rw [hl]
    exact .done rfl
  | cons p ps =>
    have hpage : h.ids[0]? = some p := by rw [hl]; rfl
    have hp : p ∈ h.ids := List.mem_of_getElem? hpage
    obtain ⟨rm₁, he, hr₁⟩ := hI.get rm ⟨p, 0⟩ hr hp
    have hrows : h.rows = h.rowsFrom 0 p 0 := by
      unfold rows rowsFrom
      rw [hl]
      rfl
    rw [hids, hl]
    simp only [he, Option.bind_eq_bind, Option.bind_some]
    cases hrec : h.record ⟨p, 0⟩ with
    | some bytes =>
      refine ⟨_, rm₁, rfl, hr₁, ?_⟩
      have hlive : Live (h.page p) 0 := record_isSome.mp (Option.isSome_iff_exists.mpr ⟨_, hrec⟩)
      have hcount := hlive.1
      rw [hrows]
      unfold rowsFrom
      rw [show slotCount (h.page p) - 0 = slotCount (h.page p) - 1 + 1 by omega,
        slotRows_some hrec]
      exact .on hpage hrec
    | none =>
      have hzero : h.slotRows p 0 (slotCount (h.page p) - 0) =
          h.slotRows p 1 (slotCount (h.page p) - 1) := by
        rcases Nat.eq_zero_or_pos (slotCount (h.page p)) with h0 | hpos
        · rw [h0]
          rfl
        · rw [show slotCount (h.page p) - 0 = slotCount (h.page p) - 1 + 1 by omega,
            slotRows_none hrec]
      rw [hrows]
      unfold rowsFrom TableIterator.next
      rw [hzero, hI.ids rm₁ hr₁]
      exact advance_rows hI hr₁ hpage (by omega)

/-- The loop over a table whose body maps each row by `f`, up to the first row that stops it. -/
theorem scanFrom_rows {ε β : Type} (hI : Reading h I) (h0 : ∀ p ∈ h.ids, 0 ≤ p)
    {f : RecordId × List UInt8 → ExceptT ε Option β}
    {body : TableIterator → RecordManager → Option (Except ε β × RecordManager)}
    (hbody : ∀ it rm bytes, I rm → it.rid.pageId ∈ h.ids → h.record it.rid = some bytes →
      Option.Rel (fun x y => x.1 = y ∧ I x.2) (body it rm) (f (it.rid, bytes)).run)
    {fuel : ℕ} {it : TableIterator} {l : List (RecordId × List UInt8)} (hr : I rm)
    (hat : h.At it l) (hfuel : l.length < fuel) :
    Option.Rel (fun x y => x.1 = y ∧ I x.2) (scanFrom body fuel it rm) (l.mapM f).run := by
  induction fuel generalizing it l rm with
  | zero => exact absurd hfuel (Nat.not_lt_zero _)
  | succ fuel ih =>
    unfold scanFrom
    cases l with
    | nil =>
      cases hat with
      | done hend =>
        rw [if_pos hend]
        exact .some ⟨rfl, hr⟩
    | cons r l =>
      obtain ⟨hne, hp, hrid, hrec⟩ := hat.valid h0
      have hb := hbody it rm r.2 hr hp hrec
      have hpair : (it.rid, r.2) = r := by rw [← hrid]
      rw [hpair] at hb
      rw [if_neg hne, run_mapM_cons]
      refine rel_bind hb fun x y hxy => ?_
      obtain ⟨x, rm₁⟩ := x
      obtain ⟨rfl, hr₁⟩ := hxy
      cases x with
      | error e => exact .some ⟨rfl, hr₁⟩
      | ok row =>
        obtain ⟨it', rm₂, hnx, hr₂, hat'⟩ := next_rows hI hr₁ hat
        simp only [hnx, Option.bind_eq_bind, Option.bind_some, Option.map_eq_bind]
        refine rel_bind (ih hr₂ hat' (by simpa using hfuel)) fun x y hxy => ?_
        obtain ⟨x, rm₃⟩ := x
        obtain ⟨rfl, hr₃⟩ := hxy
        exact .some ⟨rfl, hr₃⟩

/-- A scan goes through the rows of the heap. -/
theorem scan_rows {ε β : Type} (hI : Reading h I) (h0 : ∀ p ∈ h.ids, 0 ≤ p)
    {f : RecordId × List UInt8 → ExceptT ε Option β}
    {body : TableIterator → RecordManager → Option (Except ε β × RecordManager)}
    (hbody : ∀ it rm bytes, I rm → it.rid.pageId ∈ h.ids → h.record it.rid = some bytes →
      Option.Rel (fun x y => x.1 = y ∧ I x.2) (body it rm) (f (it.rid, bytes)).run)
    {t : TableManager} (hr : I t.recordManager) :
    Option.Rel (fun x y => x.1 = y ∧ I x.2.recordManager) (scan body t)
      (h.rows.mapM f).run := by
  obtain ⟨it, rm₁, hb, hr₁, hat⟩ := begin_rows hI hr
  have hlen := h.rows_length
  have hids : t.getPageIds = h.ids := hI.ids _ hr
  have hs := scanFrom_rows hI h0 hbody hr₁ hat
    (show h.rows.length < t.getPageIds.length * 65536 + 1 by
      rw [hids]
      omega)
  unfold scan
  rw [hb, Option.bind_eq_bind, Option.bind_some]
  exact rel_then hs fun _ _ hxy => hxy

end PragmaticDB
