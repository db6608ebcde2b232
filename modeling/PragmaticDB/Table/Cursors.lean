import PragmaticDB.Lib.Sweep
import PragmaticDB.Storage.InsertLimits
import PragmaticDB.Storage.RecordMap
import PragmaticDB.Table.Scan

/-!
Iterators over a table that changes while they are under way. Rows are passed in the order of
their record ids, so an iterator meets each row at most once, and misses none that stays.
-/
namespace PragmaticDB
open CallMachine

/-- By page, then by slot. -/
instance : PartialOrder RecordId where
  le r r' := r.pageId < r'.pageId ∨ r.pageId = r'.pageId ∧ r.slotId ≤ r'.slotId
  lt r r' := r.pageId < r'.pageId ∨ r.pageId = r'.pageId ∧ r.slotId < r'.slotId
  le_refl r := .inr ⟨rfl, le_rfl⟩
  le_trans r₁ r₂ r₃ h h' := by omega
  lt_iff_le_not_ge r r' := by omega
  le_antisymm := by
    rintro ⟨p, i⟩ ⟨q, j⟩ h h'
    simp only at h h'
    obtain rfl : p = q := by omega
    obtain rfl : i = j := by omega
    rfl

theorem RecordId.lt_iff {r r' : RecordId} :
    r < r' ↔ r.pageId < r'.pageId ∨ r.pageId = r'.pageId ∧ r.slotId < r'.slotId := Iff.rfl

theorem RecordId.le_iff {r r' : RecordId} :
    r ≤ r' ↔ r.pageId < r'.pageId ∨ r.pageId = r'.pageId ∧ r.slotId ≤ r'.slotId := Iff.rfl

/-! Rows in order. -/

namespace HeapFile
variable {h h' : HeapFile} {n i : ℕ} {p : ℤ} {it : TableIterator}

/-- Page ids in the order in which they were given out. -/
def Ascending (h : HeapFile) : Prop := h.ids.Pairwise (· < ·)

theorem mem_slotRows {k : ℕ} {r : RecordId × List UInt8} : r ∈ h.slotRows p i k ↔
    r.1.pageId = p ∧ i ≤ r.1.slotId ∧ r.1.slotId < i + k ∧ h.record r.1 = some r.2 := by
  unfold slotRows
  simp only [List.mem_filterMap, List.mem_range'_1, Option.map_eq_some_iff]
  constructor
  · rintro ⟨j, ⟨hij, hjk⟩, bytes, hrec, rfl⟩
    exact ⟨rfl, hij, hjk, hrec⟩
  · obtain ⟨⟨q, j⟩, bytes⟩ := r
    rintro ⟨rfl, hij, hjk, hrec⟩
    exact ⟨j, ⟨hij, hjk⟩, bytes, hrec, rfl⟩

theorem slotRows_sorted (h : HeapFile) (p : ℤ) (i k : ℕ) :
    (h.slotRows p i k).Pairwise fun x y => x.1 < y.1 := by
  unfold slotRows
  rw [List.pairwise_filterMap]
  apply (List.pairwise_lt_range' ..).imp
  rintro j j' hlt x hx y hy
  obtain ⟨bytes, -, rfl⟩ := Option.map_eq_some_iff.mp hx
  obtain ⟨bytes', -, rfl⟩ := Option.map_eq_some_iff.mp hy
  exact RecordId.lt_iff.mpr (.inr ⟨rfl, hlt⟩)

theorem mem_pageRows {r : RecordId × List UInt8} :
    r ∈ h.pageRows p ↔ r.1.pageId = p ∧ h.record r.1 = some r.2 := by
  unfold pageRows
  rw [mem_slotRows]
  constructor
  · rintro ⟨hp, -, -, hrec⟩
    exact ⟨hp, hrec⟩
  · rintro ⟨rfl, hrec⟩
    have hlive : Live (h.page r.1.pageId) r.1.slotId :=
      record_isSome.mp (Option.isSome_iff_exists.mpr ⟨_, hrec⟩)
    exact ⟨rfl, Nat.zero_le _, by rw [Nat.zero_add]; exact hlive.1, hrec⟩

/-- The pages after the `n`-th one. -/
theorem Ascending.split (ha : h.Ascending) (hn : h.ids[n]? = some p) {q : ℤ} :
    q ∈ h.ids.drop (n + 1) ↔ q ∈ h.ids ∧ p < q := by
  obtain ⟨hlt, rfl⟩ := List.getElem?_eq_some_iff.mp hn
  have hids : h.ids = h.ids.take n ++ h.ids[n] :: h.ids.drop (n + 1) := by
    rw [← List.drop_eq_getElem_cons hlt, List.take_append_drop]
  have hsorted : (h.ids.take n ++ h.ids[n] :: h.ids.drop (n + 1)).Pairwise (· < ·) := hids ▸ ha
  obtain ⟨-, hback, hfront⟩ := List.pairwise_append.mp hsorted
  constructor
  · intro hq
    exact ⟨List.mem_of_mem_drop hq, (List.pairwise_cons.mp hback).1 q hq⟩
  · rintro ⟨hq, hpq⟩
    rw [hids] at hq
    rcases List.mem_append.mp hq with hq | hq
    · exact absurd (hfront q hq _ List.mem_cons_self) hpq.le.not_gt
    · rcases List.mem_cons.mp hq with rfl | hq
      · exact absurd hpq (lt_irrefl _)
      · exact hq

/-- The rows from a slot on are those whose ids are not below it. -/
theorem mem_rowsFrom (ha : h.Ascending) (hn : h.ids[n]? = some p) {r : RecordId × List UInt8} :
    r ∈ h.rowsFrom n p i ↔ h.lookup r.1 = some r.2 ∧ ⟨p, i⟩ ≤ r.1 := by
  have hp := List.mem_of_getElem? hn
  unfold rowsFrom
  rw [List.mem_append, mem_slotRows, List.mem_flatMap, RecordId.le_iff]
  constructor
  · rintro (⟨hpage, hi, -, hrec⟩ | ⟨q, hq, hr⟩)
    · refine ⟨?_, .inr ⟨hpage.symm, hi⟩⟩
      rw [lookup, if_pos (hpage ▸ hp), hrec]
    · obtain ⟨hids, hlt⟩ := (ha.split hn).mp hq
      obtain ⟨hpage, hrec⟩ := mem_pageRows.mp hr
      refine ⟨?_, .inl (hpage ▸ hlt)⟩
      rw [lookup, if_pos (hpage ▸ hids), hrec]
  · rintro ⟨hl, hle⟩
    have hrow := mem_rows.mpr hl
    have hids : r.1.pageId ∈ h.ids := mem_ids_of_mem_rows hrow
    rw [lookup, if_pos hids] at hl
    rcases hle with hlt | ⟨hpage, hi⟩
    · exact .inr ⟨_, (ha.split hn).mpr ⟨hids, hlt⟩, mem_pageRows.mpr ⟨rfl, hl⟩⟩
    · have hlive : Live (h.page r.1.pageId) r.1.slotId :=
        record_isSome.mp (Option.isSome_iff_exists.mpr ⟨_, hl⟩)
      have hcount := hlive.1
      simp only at hpage hi
      rw [← hpage] at hcount
      exact .inl ⟨hpage.symm, hi, by omega, hl⟩

theorem pages_sorted (h : HeapFile) {ps : List ℤ} (hps : ps.Pairwise (· < ·)) :
    (ps.flatMap h.pageRows).Pairwise fun x y => x.1 < y.1 := by
  refine List.pairwise_flatMap.mpr ⟨fun q _ => h.slotRows_sorted q 0 _, ?_⟩
  apply hps.imp
  intro q q' hlt x hx y hy
  rw [RecordId.lt_iff, (mem_pageRows.mp hx).1, (mem_pageRows.mp hy).1]
  exact .inl hlt

theorem rowsFrom_sorted (ha : h.Ascending) (hn : h.ids[n]? = some p) :
    (h.rowsFrom n p i).Pairwise fun x y => x.1 < y.1 := by
  unfold rowsFrom
  refine List.pairwise_append.mpr ⟨h.slotRows_sorted p i _,
    h.pages_sorted (ha.sublist (List.drop_sublist _ _)), fun x hx y hy => ?_⟩
  obtain ⟨q, hq, hy⟩ := List.mem_flatMap.mp hy
  rw [RecordId.lt_iff, (mem_slotRows.mp hx).1, (mem_pageRows.mp hy).1]
  exact .inl ((ha.split hn).mp hq).2

/-- The record ids of the rows. -/
def live (h : HeapFile) : Set RecordId := {rid | (h.lookup rid).isSome}

end HeapFile

/-- The record id an iterator stands on, if it is not `End`. -/
def RecordId.valid? (rid : RecordId) : Option RecordId :=
  if rid = invalidRecordId then none else some rid

namespace HeapFile
variable {h h' : HeapFile} {n i : ℕ} {p : ℤ} {it : TableIterator}

/-- `it` is `End`, or on a slot of the page it counts as the current one. -/
def Stands (h : HeapFile) (it : TableIterator) : Prop :=
  it.rid = invalidRecordId ∨ h.ids[it.pageIdx]? = some it.rid.pageId ∧
    it.rid.slotId < slotCount (h.page it.rid.pageId)

theorem At.stands {l : List (RecordId × List UInt8)} (hat : h.At it l) : h.Stands it := by
  cases hat with
  | done hend => exact .inl hend
  | on hpage hrec =>
    have hlive : Live (h.page it.rid.pageId) it.rid.slotId :=
      record_isSome.mp (Option.isSome_iff_exists.mpr ⟨_, hrec⟩)
    exact .inr ⟨hpage, hlive.1⟩

theorem At.position (h0 : ∀ p ∈ h.ids, 0 ≤ p) {l : List (RecordId × List UInt8)}
    (hat : h.At it l) : it.rid.valid? = (l.map Prod.fst).head? := by
  unfold RecordId.valid?
  cases l with
  | nil =>
    cases hat with
    | done hend =>
      rw [if_pos hend]
      rfl
  | cons r l =>
    obtain ⟨hne, -, hrid, -⟩ := hat.valid h0
    rw [if_neg hne, ← hrid]
    rfl

/-- An iterator before rows in order stands on the least of their ids. -/
theorem At.first (h0 : ∀ p ∈ h.ids, 0 ≤ p) {l : List (RecordId × List UInt8)} (hat : h.At it l)
    (hl : l.Pairwise fun x y => x.1 < y.1) {S : Set RecordId}
    (hS : ∀ rid, rid ∈ S ↔ ∃ bytes, (rid, bytes) ∈ l) : Sweep.First S it.rid.valid? := by
  have hids : S = {rid | rid ∈ l.map Prod.fst} := by
    ext rid
    rw [hS]
    simp
  rw [hat.position h0, hids]
  exact Sweep.first_head (List.pairwise_map.mpr hl)

variable {rm : RecordManager} {I : RecordManager → Prop}

theorem begin_first (hI : Reading h I) (h0 : ∀ p ∈ h.ids, 0 ≤ p) (ha : h.Ascending) (hr : I rm) :
    ∃ it rm', TableManager.begin rm = some (it, rm') ∧ I rm' ∧ h.Stands it ∧
      Sweep.First h.live it.rid.valid? := by
  obtain ⟨it, rm', he, hr', hat⟩ := begin_rows hI hr
  refine ⟨it, rm', he, hr', hat.stands, hat.first h0 (h.pages_sorted ha) fun rid => ?_⟩
  simp only [mem_rows]
  exact Option.isSome_iff_exists

/-- `++` goes to the least id above, whether or not there is still a row under the iterator. -/
theorem next_first (hI : Reading h I) (h0 : ∀ p ∈ h.ids, 0 ≤ p) (ha : h.Ascending) (hr : I rm)
    (hst : h.Stands it) (hne : it.rid ≠ invalidRecordId) :
    ∃ it' rm', it.next rm = some (it', rm') ∧ I rm' ∧ h.Stands it' ∧
      Sweep.First (h.live ∩ Set.Ioi it.rid) it'.rid.valid? := by
  obtain hend | ⟨hpage, hlt⟩ := hst
  · exact absurd hend hne
  · have hbound := ByteBlock.Block.get16_lt (h.page it.rid.pageId) 6
    have hslot : (it.rid.slotId + 1) % 65536 = it.rid.slotId + 1 := by
      unfold slotCount at hlt
      omega
    have hfuel : h.ids.length < it.pageIdx + (h.ids.length + 1) := by omega
    obtain ⟨it', rm', he, hr', hat⟩ := advance_rows (i := it.rid.slotId + 1) hI hr hpage hfuel
    refine ⟨it', rm', ?_, hr', hat.stands, hat.first h0 (rowsFrom_sorted ha hpage) fun rid => ?_⟩
    · unfold TableIterator.next
      rw [hslot, hI.ids rm hr]
      exact he
    · simp only [mem_rowsFrom ha hpage, exists_and_right]
      refine and_congr Option.isSome_iff_exists ?_
      rw [Set.mem_Ioi, RecordId.lt_iff, RecordId.le_iff]
      simp only [Nat.succ_le_iff]

end HeapFile

/-! Changes of the table. -/

section
variable {h h' : HeapFile} {c : RecordCall} {r : RecordReply}

theorem Effect.extends_ids (he : Effect h c r h') : h.ids <+: h'.ids := by
  cases he with
  | insert h0 hins => exact hins.extends_ids
  | update hp hne h0 hids => exact hids ▸ List.prefix_rfl
  | delete hp hids => exact hids ▸ List.prefix_rfl
  | insertEmpty | notUpdated | notDeleted | get | notGot | getSlotCount | flush =>
    exact List.prefix_rfl

theorem Effect.ascending (hg : h.Good) (he : Effect h c r h') (ha : h.Ascending) :
    h'.Ascending := by
  cases he with
  | insert h0 hins =>
    cases hins with
    | newPage =>
      refine List.pairwise_append.mpr ⟨ha, List.pairwise_singleton _ _, fun p hp q hq => ?_⟩
      rw [List.mem_singleton.mp hq]
      exact (hg.range p hp).2
    | firstFit | compacted | tooLong => exact ha
  | update hp hne h0 hids =>
    unfold HeapFile.Ascending
    rwa [hids]
  | delete hp hids =>
    unfold HeapFile.Ascending
    rwa [hids]
  | insertEmpty | notUpdated | notDeleted | get | notGot | getSlotCount | flush => exact ha

/-- Slots stay, so iterators do. -/
theorem Effect.stands (hg : h.Good) (he : Effect h c r h') {it : TableIterator}
    (hst : h.Stands it) : h'.Stands it := by
  obtain hend | ⟨hpage, hlt⟩ := hst
  · exact .inl hend
  · have hslot : h'.HasSlot it.rid := he.hasSlot hg ⟨List.mem_of_getElem? hpage, hlt⟩
    refine .inr ⟨?_, hslot.2⟩
    obtain ⟨more, hids⟩ := he.extends_ids
    obtain ⟨hn, -⟩ := List.getElem?_eq_some_iff.mp hpage
    rw [← hids, List.getElem?_append_left hn, hpage]

end
end PragmaticDB
