import PragmaticDB.Storage.RecordEdits

/-!
Tables that are filled and emptied but never updated: which `Insert` fails and what it leaves
behind, and which one takes a page more. Compaction gives back the bytes of deleted tuples, but
a page keeps the slot of every tuple it ever held.
-/
namespace PragmaticDB
open CallMachine PageDataManager

/-- `Insert` of up to 65531 bytes, and `Delete`. -/
def NoUpdate : RecordCall → Prop
  | .insert bytes => bytes.length ≤ 65531
  | .delete _ => True
  | _ => False

instance : DecidablePred NoUpdate := fun c =>
  match c with
  | .insert bytes => inferInstanceAs (Decidable (bytes.length ≤ 65531))
  | .delete _ => isTrue trivial
  | .update _ _ | .get _ | .getSlotCount _ | .flush => isFalse id

theorem Effect.descending {h h' : HeapFile} (hg : h.Good) {c : RecordCall} {r : RecordReply}
    (hc : NoUpdate c) (he : Effect h c r h') (hd : ∀ p ∈ h.ids, Descending (h.page p)) :
    ∀ p ∈ h'.ids, Descending (h'.page p) := by
  cases he with
  | insert h0 hins => exact hins.descending hg hd
  | delete hp hids hcount hdesc hrec => exact fun p hmem => hdesc p (hd p (hids ▸ hmem))
  | insertEmpty | notDeleted => exact hd
  | update | notUpdated | get | notGot | getSlotCount | flush => exact hc.elim

namespace RecordManager
variable {hist : RecordHistory} {rm : RecordManager} {h : HeapFile} {bytes : List UInt8}

/-- The invariant of these runs: what is kept, with the tuples of each page in slot order. -/
structure Ordered (hist : RecordHistory) (rm : RecordManager) (h : HeapFile) : Prop
    extends Kept hist rm h where
  descending : ∀ p ∈ h.ids, Descending (h.page p)

theorem new_ordered {dm : DiskManager} (hdm : dm.plan = []) :
    Ordered [] (new dm) HeapFile.empty :=
  ⟨new_kept hdm, fun _ hp => absurd hp List.not_mem_nil⟩

def fillMachine : Machine RecordManager RecordCall RecordReply :=
  (editMachine NoUpdate).restrict StaysAddressable

instance (h : RecordHistory) (rm : RecordManager) (c : RecordCall) :
    Decidable (fillMachine.Allowed h rm c) :=
  inferInstanceAs (Decidable (((editMachine NoUpdate).restrict StaysAddressable).Allowed h rm c))

theorem fillMachine_allowed {c : RecordCall} (ha : fillMachine.Allowed hist rm c) :
    recordMachine.Allowed hist rm c := by
  exact editMachine_allowed (fun _ hle => hle) ha

theorem Ordered.answer (ho : Ordered hist rm h) {c : RecordCall}
    (ha : fillMachine.Allowed hist rm c) : ∃ r rm' h', rm.answer c = some (r, rm') ∧
      Ordered ((c, r) :: hist) rm' h' ∧ Effect h c r h' := by
  obtain ⟨r, rm', h', he, hk, heff⟩ := ho.toKept.answer (fillMachine_allowed ha)
  exact ⟨r, rm', h', he, ⟨hk, heff.descending ho.good ha.1.1 ho.descending⟩, heff⟩

theorem fillMachine_keeps : fillMachine.Keeps fun hist rm => ∃ h, Ordered hist rm h := by
  rintro hist rm c ⟨h, ho⟩ ha
  obtain ⟨r, rm', h', he, ho', -⟩ := ho.answer ha
  exact ⟨r, rm', he, h', ho'⟩

/-! Inserts that fail. -/

/-- If this `Insert` gives the invalid id, it has changed nothing a caller can see. -/
def FailsCleanly (rm : RecordManager) (bytes : List UInt8) : Prop :=
  ∀ rid rm', rm.insert bytes = some (rid, rm') → rid.pageId = invalidPageId →
    rm'.pageIds = rm.pageIds ∧ rm'.pool.nextPageId = rm.pool.nextPageId ∧
    ∀ r, rm'.found r = rm.found r

/-- An `Insert` of 1 to 4084 bytes gives a valid id. -/
theorem Kept.insert_valid (hk : Kept hist rm h) (h0 : 0 < bytes.length)
    (hle : bytes.length ≤ 4084) : ∃ rid rm' h', rm.insert bytes = some (rid, rm') ∧
      rid.pageId ≠ invalidPageId ∧ h.Inserts bytes rid h' ∧
      rm'.pool.nextPageId = h'.next ∧ (h'.next ≤ 524288 → rm'.Refines h') := by
  obtain ⟨rid, h', he, hins⟩ := hk.good.insert_cases h0 (by omega)
  have hrel := hk.refines.insert bytes
  rw [he] at hrel
  obtain ⟨rm', hx, hnext, hr'⟩ := some_of_agree hrel
  refine ⟨rid, rm', h', hx, ?_, hins, hnext, hr'⟩
  rcases hins.rid_cases hk.good with ⟨-, hlong⟩ | ⟨-, hp, -⟩
  · omega
  · exact ne_invalid_of_nonneg (hins.nonneg hk.good hp)

/-- A tuple that no page can hold costs a page id. -/
theorem Kept.insert_tooLong (hk : Kept hist rm h) (hlo : 4084 < bytes.length)
    (hhi : bytes.length ≤ 65531) : ∃ rm' h', rm.insert bytes = some (invalidRecordId, rm') ∧
      h.Inserts bytes invalidRecordId h' ∧ h'.ids = h.ids ∧ h'.next = h.next + 1 ∧
      rm'.pool.nextPageId = h'.next ∧ (h'.next ≤ 524288 → rm'.Refines h') := by
  obtain ⟨rid, h', he, hins⟩ := hk.good.insert_cases (by omega) (Nat.lt_succ_of_le hhi)
  have hrel := hk.refines.insert bytes
  rw [he] at hrel
  obtain ⟨rm', hx, hnext, hr'⟩ := some_of_agree hrel
  rcases hins.rid_cases hk.good with ⟨rfl, -⟩ | ⟨hshort, -⟩
  · have hsame : h'.ids = h.ids ∧ h'.next = h.next + 1 := hins.invalid_cases hk.good rfl
    exact ⟨rm', h', hx, hins, hsame.1, hsame.2, hnext, hr'⟩
  · omega

/-- An `Insert` fails without a trace exactly if its tuple is empty or fits an empty page, where
it does not fail. What a longer tuple leaves behind is a page id less. -/
theorem failsCleanly_iff {dm : DiskManager} (hdm : dm.plan = [])
    (hr : fillMachine.Run (new dm) hist rm) (hle : bytes.length ≤ 65531) :
    (FailsCleanly rm bytes ↔ bytes.length ≤ 4084) ∧
    (4084 < bytes.length → rm.pool.nextPageId < 524288 →
      ∃ rm', rm.insert bytes = some (invalidRecordId, rm') ∧ rm'.pageIds = rm.pageIds ∧
        rm'.pool.nextPageId = rm.pool.nextPageId + 1 ∧
        ∀ r, r.pageId ∈ rm.pageIds → rm'.found r = rm.found r) := by
  obtain ⟨h, ho⟩ := hr.invariant fillMachine_keeps ⟨_, new_ordered hdm⟩
  have href := ho.refines
  constructor
  · constructor
    · intro hclean
      by_contra hlong
      obtain ⟨rm', h', he, -, -, hstep, hnext, -⟩ := ho.insert_tooLong (not_le.mp hlong) hle
      have hsame := (hclean _ rm' he rfl).2.1
      have hnow := href.next
      omega
    · intro hshort rid rm' he hinv
      rcases Nat.eq_zero_or_pos bytes.length with h0 | h0
      · have hnone : rm.insert bytes = some (invalidRecordId, rm) := if_pos (.inl h0)
        obtain ⟨-, rfl⟩ := Prod.mk.inj (Option.some.inj (he.symm.trans hnone))
        exact ⟨rfl, rfl, fun _ => rfl⟩
      · obtain ⟨rid', rm₁, h', he', hvalid, -⟩ := ho.insert_valid h0 hshort
        obtain ⟨rfl, -⟩ := Prod.mk.inj (Option.some.inj (he.symm.trans he'))
        exact absurd hinv hvalid
  · intro hlong hbound
    obtain ⟨rm', h', he, hins, hids, hstep, hnext, hr'⟩ := ho.insert_tooLong hlong hle
    have hbound' : h'.next ≤ 524288 := by
      have hnow := href.next
      omega
    have href' := hr' hbound'
    have hgood' := hins.good ho.good hbound'
    refine ⟨rm', he, ?_, ?_, fun r hmem => ?_⟩
    · rw [href'.ids, href.ids, hids]
    · rw [href'.next, href.next, hstep]
    · have hmem : r.pageId ∈ h.ids := href.ids ▸ hmem
      have hmem' : r.pageId ∈ h'.ids := hids ▸ hmem
      have hne : r ≠ invalidRecordId := by
        rintro rfl
        exact ne_invalid_of_nonneg (ho.good.range _ hmem).1 rfl
      have hup := ho.good.compactsUpwards ho.descending bytes.length
      rw [href'.found hgood' hmem', href.found ho.good hmem,
        hins.records ho.good (by omega) hup hmem', if_neg hne, if_pos hmem]

/-- In a table with a record the empty tuple fails without a trace; 4085 bytes take a page id. -/
theorem failures_keep_record : ∃ hist rm, fillMachine.Run (new ⟨[], none, []⟩) hist rm ∧
    hist.map Prod.fst = [.insert [2], .insert [1]] ∧ rm.pageIds = [0] ∧
    rm.found ⟨0, 1⟩ = some (some [2]) ∧ rm.insert [] = some (invalidRecordId, rm) ∧
    FailsCleanly rm [] ∧
    ∃ rm', rm.insert (List.replicate 4085 7) = some (invalidRecordId, rm') ∧
      rm'.pageIds = [0] ∧ rm'.pool.nextPageId = 2 ∧ rm'.found ⟨0, 1⟩ = some (some [2]) := by
  have heval : (fillMachine.play [.insert [1], .insert [2]] [] (new ⟨[], none, []⟩)).map
      (fun x => (x.2.pageIds, x.2.pool.nextPageId, x.2.found ⟨0, 1⟩)) =
      some ([0], 1, some (some [2])) := by
    decide +kernel
  obtain ⟨⟨hist, rm⟩, hplay, heq⟩ := Option.map_eq_some_iff.mp heval
  simp only [Prod.mk.injEq] at heq
  obtain ⟨hids, hnext, hfound⟩ := heq
  have hrun := Machine.Run.start.play hplay
  have hempty : ([] : List UInt8).length ≤ 65531 := Nat.zero_le _
  have hshort := (failsCleanly_iff rfl hrun hempty).1.mpr (Nat.zero_le _)
  have hlen := List.length_replicate (n := 4085) (a := (7 : UInt8))
  obtain ⟨rm', he, hids', hnext', hfound'⟩ :=
    (failsCleanly_iff rfl hrun (hlen.le.trans (by norm_num))).2 (by omega) (by omega)
  refine ⟨hist, rm, hrun, Machine.play_calls hplay, hids, hfound, if_pos (.inl rfl), hshort, rm',
    he, hids'.trans hids, by omega, ?_⟩
  rw [hfound' ⟨0, 1⟩ (hids ▸ List.mem_singleton_self 0)]
  exact hfound

/-- An `Insert` of 4085 bytes into a new table fails and takes a page id. -/
theorem long_tuple_takes_id :
    ¬ ∀ (hist : RecordHistory) (rm : RecordManager) (bytes : List UInt8),
      fillMachine.Run (new ⟨[], none, []⟩) hist rm → bytes.length ≤ 65531 →
      FailsCleanly rm bytes := by
  intro hall
  have hlen := List.length_replicate (n := 4085) (a := (7 : UInt8))
  generalize List.replicate 4085 (7 : UInt8) = bytes at hlen
  have hclean := hall [] (new ⟨[], none, []⟩) bytes .start (by omega)
  have hlong : 4084 < bytes.length ∧ bytes.length ≤ 65531 := by omega
  have hnew : Kept [] (new ⟨[], none, []⟩) HeapFile.empty := new_kept rfl
  obtain ⟨rm', h', he, -, -, hstep, hnext, -⟩ := hnew.insert_tooLong hlong.1 hlong.2
  have hsame := (hclean _ rm' he rfl).2.1
  have hnow := hnew.refines.next
  omega

end RecordManager

/-! Slots that stay. -/

/-- No slot of the page holds a tuple. -/
def NoTuple (d : PageData) : Prop := ∀ i, ¬ Live d i

theorem NoTuple.lengthBefore {d : PageData} (hd : NoTuple d) :
    lengthBefore d (slotCount d) = 0 := by
  apply Finset.sum_eq_zero
  intro i hi
  by_contra h0
  exact hd i ⟨Finset.mem_range.mp hi, Nat.pos_of_ne_zero h0⟩

def liveCount (d : PageData) : ℕ := ((Finset.range (slotCount d)).filter (Live d)).card

theorem noTuple_iff {d : PageData} : NoTuple d ↔ liveCount d = 0 := by
  unfold liveCount NoTuple
  rw [Finset.card_eq_zero, Finset.filter_eq_empty_iff]
  exact ⟨fun h i _ => h i, fun h i hi => h (Finset.mem_range.mpr hi.1) hi⟩

/-- A page without tuples takes what its directory leaves room for. -/
theorem NoTuple.fitsCompacted {d : PageData} (hd : NoTuple d) (k : ℕ) :
    HeapFile.fitsCompacted d k = decide (8 + 4 * slotCount d + 4 + k ≤ 4096) := by
  unfold HeapFile.fitsCompacted
  rw [hd.lengthBefore, Nat.add_zero]

namespace HeapFile
variable {h h' : HeapFile} {bytes : List UInt8} {rid : RecordId}

/-- A page that does not have to grow the table. -/
theorem Inserts.no_new_page (hins : h.Inserts bytes rid h') (hle : bytes.length ≤ 4084)
    {p : ℤ} (hp : p ∈ h.ids) (hfit : fitsCompacted (h.page p) bytes.length = true) :
    h'.ids = h.ids ∧ h'.next = h.next := by
  cases hins with
  | firstFit | compacted => exact ⟨rfl, rfl⟩
  | newPage hfull hlen hall =>
    rw [(hall p hp).2] at hfit
    cases hfit
  | tooLong hfull hlong => omega

/-- The tuples in the pages of the table. -/
def liveRows (h : HeapFile) : ℕ := ∑ p ∈ h.ids.toFinset, liveCount (h.page p)

/-- The slots in the pages of the table, in use or not. -/
def slots (h : HeapFile) : ℕ := ∑ p ∈ h.ids.toFinset, slotCount (h.page p)

/-- One slot more. -/
theorem Inserts.slots_le (hg : h.Good) (hins : h.Inserts bytes rid h') :
    h'.slots ≤ h.slots + 1 := by
  have hold : ∑ p ∈ h.ids.toFinset, slotCount (h'.page p) ≤
      ∑ p ∈ h.ids.toFinset, (slotCount (h.page p) + if p = rid.pageId then 1 else 0) := by
    apply Finset.sum_le_sum
    intro p hp
    rcases hins.page_cases hg (List.mem_toFinset.mp hp) with
      ⟨he, -⟩ | ⟨hc, -⟩ | ⟨hrid, ha, -⟩ | ⟨d, hrid, hc, ha, -⟩
    · rw [he]
      exact Nat.le_add_right _ _
    · rw [hc.count]
      exact Nat.le_add_right _ _
    · rw [ha.count, if_pos (by rw [hrid])]
    · rw [ha.count, hc.count, if_pos (by rw [hrid])]
  rw [Finset.sum_add_distrib, Finset.sum_ite_eq'] at hold
  unfold slots
  cases hins with
  | firstFit hp =>
    rw [if_pos (List.mem_toFinset.mpr hp)] at hold
    exact hold
  | compacted hfull hids =>
    rw [if_pos (by simp [hids])] at hold
    exact hold
  | @newPage page hfull hlen hall happ =>
    have hfresh : h.next ∉ h.ids.toFinset := fun hmem => hg.fresh (List.mem_toFinset.mp hmem)
    have hone := happ.count
    rw [slotCount_initializePage] at hone
    rw [if_neg hfresh] at hold
    change ∑ p ∈ (h.ids ++ [h.next]).toFinset, slotCount (page p) ≤ _
    rw [List.toFinset_append, List.toFinset_cons, List.toFinset_nil, insert_empty_eq,
      Finset.union_singleton, Finset.sum_insert hfresh, hone, Nat.add_comm]
    exact Nat.add_le_add_right hold 1
  | tooLong =>
    split_ifs at hold
    · exact hold
    · exact hold.trans (Nat.le_succ _)

/-- Where an `Insert` of at most `s` bytes has to take a new page, each page without tuples has
used up its directory. -/
theorem Inserts.ids_le (hg : h.Good) (hins : h.Inserts bytes rid h') {s : ℕ}
    (hs : bytes.length ≤ s) (hle : s ≤ 4084) :
    h'.ids = h.ids ∨ h'.ids.length ≤ h.liveRows + h.slots / ((4084 - s) / 4 + 1) + 1 := by
  cases hins with
  | firstFit | compacted | tooLong => exact .inl rfl
  | newPage hfull hlen hall =>
    refine .inr ?_
    have hcard : h.ids.length = h.ids.toFinset.card := (List.toFinset_card_of_nodup hg.nodup).symm
    have hsplit := Finset.card_filter_add_card_filter_not (s := h.ids.toFinset)
      fun p => 0 < liveCount (h.page p)
    have hlive : (h.ids.toFinset.filter fun p => 0 < liveCount (h.page p)).card * 1 ≤
        h.liveRows := Ranges.card_filter_mul_le _ _ _ fun p _ hpos => hpos
    have hslots : (h.ids.toFinset.filter fun p => ¬ 0 < liveCount (h.page p)).card *
        ((4084 - s) / 4 + 1) ≤ h.slots := by
      apply Ranges.card_filter_mul_le
      intro p hmem hzero
      have hnone := noTuple_iff.mpr (Nat.eq_zero_of_not_pos hzero)
      have hno := (hall p (List.mem_toFinset.mp hmem)).2
      rw [hnone.fitsCompacted, decide_eq_false_iff_not] at hno
      omega
    have hdiv : (h.ids.toFinset.filter fun p => ¬ 0 < liveCount (h.page p)).card ≤
        h.slots / ((4084 - s) / 4 + 1) := (Nat.le_div_iff_mul_le (Nat.succ_pos _)).mpr hslots
    simp only [List.length_append, List.length_singleton]
    omega

end HeapFile
/-- The `Insert` calls of a history. -/
def inserts : RecordHistory → ℕ
  | [] => 0
  | (.insert _, _) :: h => inserts h + 1
  | _ :: h => inserts h

namespace RecordManager
variable {hist : RecordHistory} {rm : RecordManager} {h h' : HeapFile} {bytes : List UInt8}

/-- Sizes of at most `s`, and at most `B` tuples in the table whenever a call is made. -/
def Bounded (s B : ℕ) (rm : RecordManager) (c : RecordCall) : Prop :=
  rm.heap.liveRows ≤ B ∧ ∀ bytes, c = .insert bytes → bytes.length ≤ s

instance (s B : ℕ) (rm : RecordManager) (c : RecordCall) : Decidable (rm.Bounded s B c) :=
  match c with
  | .insert bytes => decidable_of_iff (rm.heap.liveRows ≤ B ∧ bytes.length ≤ s)
      (and_congr_right fun _ => ⟨fun h bytes' he => by cases he; exact h, fun h => h bytes rfl⟩)
  | .update _ _ | .delete _ | .get _ | .getSlotCount _ | .flush =>
    decidable_of_iff (rm.heap.liveRows ≤ B) (iff_self_and.mpr fun _ _ he => by cases he)

instance (s B : ℕ) (h : RecordHistory) (rm : RecordManager) (c : RecordCall) :
    Decidable ((fillMachine.restrict (Bounded s B)).Allowed h rm c) :=
  inferInstanceAs (Decidable (fillMachine.Allowed h rm c ∧ rm.Bounded s B c))

theorem Refines.liveRows (hr : rm.Refines h) : rm.heap.liveRows = h.liveRows := by
  have hids : rm.heap.ids = h.ids := hr.ids
  unfold HeapFile.liveRows
  rw [hids]
  apply Finset.sum_congr rfl
  intro p hp
  exact congrArg liveCount (hr.current (List.mem_toFinset.mp hp))

/-- What a bounded run has used. -/
structure Uses (s B : ℕ) (hist : RecordHistory) (h : HeapFile) : Prop where
  slots : h.slots ≤ inserts hist
  pages : h.ids.length ≤ B + inserts hist / ((4084 - s) / 4 + 1) + 1

theorem Uses.step {s B : ℕ} (hu : Uses s B hist h) (hg : h.Good) (hs : s ≤ 4084)
    (hlive : h.liveRows ≤ B) {c : RecordCall} {r : RecordReply} (hc : NoUpdate c)
    (hsize : ∀ bytes, c = .insert bytes → bytes.length ≤ s) (he : Effect h c r h') :
    Uses s B ((c, r) :: hist) h' := by
  have hmono : ∀ k l, k ≤ l → k / ((4084 - s) / 4 + 1) ≤ l / ((4084 - s) / 4 + 1) :=
    fun _ _ hkl => Nat.div_le_div_right hkl
  have hslots := hu.slots
  have hpages := hu.pages
  cases he with
  | @insert bytes rid _ h0 hins =>
    have hcount : inserts ((.insert bytes, .rid rid) :: hist) = inserts hist + 1 := rfl
    have hmore := hmono (inserts hist) (inserts hist + 1) (Nat.le_succ _)
    refine ⟨(hins.slots_le hg).trans (Nat.succ_le_succ hslots), ?_⟩
    rw [hcount]
    rcases hins.ids_le hg (hsize bytes rfl) hs with hids | hnew
    · rw [hids]
      omega
    · have hused := hmono h.slots (inserts hist) hslots
      omega
  | insertEmpty =>
    have hmore := hmono (inserts hist) (inserts hist + 1) (Nat.le_succ _)
    have hcount : inserts ((.insert [], .rid invalidRecordId) :: hist) = inserts hist + 1 := rfl
    exact ⟨hslots.trans (Nat.le_succ _), by rw [hcount]; omega⟩
  | delete hp hids hcount hdesc hrec =>
    have hsame : h'.slots = h.slots := by
      unfold HeapFile.slots
      rw [hids]
      exact Finset.sum_congr rfl fun p _ => hcount p
    exact ⟨hsame.trans_le hslots, hids ▸ hpages⟩
  | notDeleted => exact ⟨hslots, hpages⟩
  | update | notUpdated | get | notGot | getSlotCount | flush => exact hc.elim

theorem bounded_keeps {s B : ℕ} (hs : s ≤ 4084) : (fillMachine.restrict (Bounded s B)).Keeps
    fun hist rm => ∃ h, Ordered hist rm h ∧ Uses s B hist h := by
  rintro hist rm c ⟨h, ho, hu⟩ ⟨ha, hlive, hsize⟩
  obtain ⟨r, rm', h', he, ho', heff⟩ := ho.answer ha
  rw [ho.refines.liveRows] at hlive
  exact ⟨r, rm', he, h', ho', hu.step ho.good hs hlive ha.1.1 hsize heff⟩

/-- An `Insert` succeeds, and takes no new page where a page without tuples has room for it behind
the slots it has; so the pages of a table are bounded by its rows and by the slots left behind. -/
theorem emptied_pages_reused {dm : DiskManager} (hdm : dm.plan = [])
    (hr : fillMachine.Run (new dm) hist rm) (h0 : 0 < bytes.length) (hle : bytes.length ≤ 4084) :
    (∃ rid rm', rm.insert bytes = some (rid, rm') ∧ rid.pageId ≠ invalidPageId ∧
      ((∃ p ∈ rm.pageIds, NoTuple (rm.pool.current p) ∧
        bytes.length + 4 ≤ 4096 - 8 - 4 * slotCount (rm.pool.current p)) →
        rm'.pageIds = rm.pageIds ∧ rm'.pool.nextPageId = rm.pool.nextPageId)) ∧
    ∀ s B, s ≤ 4084 → (fillMachine.restrict (Bounded s B)).Run (new dm) hist rm →
      rm.pageIds.length ≤ B + inserts hist / ((4084 - s) / 4 + 1) + 1 := by
  constructor
  · obtain ⟨h, ho⟩ := hr.invariant fillMachine_keeps ⟨_, new_ordered hdm⟩
    have href := ho.refines
    obtain ⟨rid, rm', h', he, hvalid, hins, hnext, hr'⟩ := ho.insert_valid h0 hle
    refine ⟨rid, rm', he, hvalid, ?_⟩
    rintro ⟨p, hp, hnone, hroom⟩
    have hmem : p ∈ h.ids := href.ids ▸ hp
    rw [href.current hmem] at hnone hroom
    have hfit : HeapFile.fitsCompacted (h.page p) bytes.length = true := by
      rw [hnone.fitsCompacted, decide_eq_true_iff]
      omega
    obtain ⟨hids, hsame⟩ := hins.no_new_page hle hmem hfit
    have href' := hr' (hsame ▸ ho.good.next_le)
    rw [href'.ids, href.ids, href'.next, href.next]
    exact ⟨hids, hsame⟩
  · intro s B hs hrun
    have hstart : Uses s B [] HeapFile.empty := ⟨le_rfl, Nat.zero_le _⟩
    obtain ⟨h, ho, hu⟩ := hrun.invariant (bounded_keeps hs) ⟨_, new_ordered hdm, hstart⟩
    rw [ho.refines.ids]
    exact hu.pages

/-- A page that is emptied takes 4080 bytes, and after one insertion the bound is two pages. -/
theorem emptied_page_reused : ∃ hist rm,
    (fillMachine.restrict (Bounded 4000 1)).Run (new ⟨[], none, []⟩) hist rm ∧
    hist.map Prod.fst = [.delete ⟨0, 0⟩, .insert (List.replicate 4000 1)] ∧
    rm.pageIds = [0] ∧ NoTuple (rm.pool.current 0) ∧
    (∃ rid rm', rm.insert (List.replicate 4080 7) = some (rid, rm') ∧
      rid.pageId ≠ invalidPageId ∧ rm'.pageIds = [0]) ∧ rm.pageIds.length ≤ 2 := by
  have heval : ((fillMachine.restrict (Bounded 4000 1)).play
      [.insert (List.replicate 4000 1), .delete ⟨0, 0⟩] [] (new ⟨[], none, []⟩)).map (fun x =>
        (x.2.pageIds, liveCount (x.2.pool.current 0), slotCount (x.2.pool.current 0),
          inserts x.1)) = some ([0], 0, 1, 1) := by
    decide +kernel
  obtain ⟨⟨hist, rm⟩, hplay, heq⟩ := Option.map_eq_some_iff.mp heval
  simp only [Prod.mk.injEq] at heq
  obtain ⟨hids, hlive, hslots, hcount⟩ := heq
  have hrun := Machine.Run.start.play hplay
  have hfill := hrun.mono fillMachine rfl fun _ _ _ ha => ha.1
  have hnone : NoTuple (rm.pool.current 0) := noTuple_iff.mpr hlive
  have hlen := List.length_replicate (n := 4080) (a := (7 : UInt8))
  have hpos : 0 < (List.replicate 4080 (7 : UInt8)).length := by omega
  obtain ⟨⟨rid, rm', he, hvalid, hsame⟩, hbound⟩ :=
    emptied_pages_reused rfl hfill hpos (hlen.le.trans (by norm_num))
  obtain ⟨hids', -⟩ := hsame ⟨0, hids ▸ List.mem_singleton_self 0, hnone, by omega⟩
  have hpages := hbound 4000 1 (by norm_num) hrun
  rw [hcount] at hpages
  exact ⟨hist, rm, hrun, Machine.play_calls hplay, hids, hnone, ⟨rid, rm', he, hvalid,
    hids'.trans hids⟩, hpages⟩

theorem fillMachine_insert {s rm' : RecordManager} {rid : RecordId} (hr : fillMachine.Run s hist rm)
    (hle : bytes.length ≤ 65531) (he : rm.answer (.insert bytes) = some (.rid rid, rm'))
    (hnext : rm'.pool.nextPageId ≤ 524288) :
    fillMachine.Run s ((.insert bytes, .rid rid) :: hist) rm' := by
  refine hr.call ⟨⟨hle, trivial⟩, fun r rm'' hins => ?_⟩ he
  have he' : rm.answer (.insert bytes) = some (.rid r, rm'') := by
    simp only [answer, hins, Option.map_some]
  obtain ⟨-, rfl⟩ := Prod.mk.inj (Option.some.inj (he'.symm.trans he))
  exact hnext

/-- The slot of the one tuple ever stored stays behind, so 4084 bytes need another page. -/
theorem emptied_page_too_small : ∃ hist rm rm' rid bytes,
    fillMachine.Run (new ⟨[], none, []⟩) hist rm ∧ rm.pageIds = [0] ∧
    NoTuple (rm.pool.current 0) ∧ bytes.length = 4084 ∧
    rm.insert bytes = some (rid, rm') ∧ rm'.pageIds = [0, 1] := by
  have heval : (do
      let x₁ ← (new ⟨[], none, []⟩).answer (.insert [1])
      let x₂ ← x₁.2.answer (.delete ⟨0, 0⟩)
      let x₃ ← x₂.2.insert (List.replicate 4084 0)
      some ([x₁.1, x₂.1], liveCount (x₂.2.pool.current 0), [x₂.2.pageIds, x₃.2.pageIds],
        x₁.2.pool.nextPageId)) =
      some ([.rid ⟨0, 0⟩, .ok true], 0, [[0], [0, 1]], 1) := by
    decide +kernel
  obtain ⟨⟨r₁, rm₁⟩, he₁, heval⟩ := Option.bind_eq_some_iff.mp heval
  obtain ⟨⟨r₂, rm₂⟩, he₂, heval⟩ := Option.bind_eq_some_iff.mp heval
  obtain ⟨⟨rid, rm₃⟩, he₃, heval⟩ := Option.bind_eq_some_iff.mp heval
  simp only [Option.some.injEq, Prod.mk.injEq, List.cons.injEq, and_true] at heval
  obtain ⟨⟨rfl, rfl⟩, hlive, ⟨hids₂, hids₃⟩, hnext⟩ := heval
  have hrun₁ := fillMachine_insert .start (by decide) he₁ (by omega)
  have hrun₂ := hrun₁.call (show fillMachine.Allowed _ rm₁ (.delete ⟨0, 0⟩) from
    ⟨⟨trivial, [1], by simp⟩, trivial⟩) he₂
  have hlen := List.length_replicate (n := 4084) (a := (0 : UInt8))
  generalize List.replicate 4084 (0 : UInt8) = long at he₃ hlen
  exact ⟨_, rm₂, rm₃, rid, long, hrun₂, hids₂, noTuple_iff.mpr hlive, hlen, he₃, hids₃⟩

end RecordManager
end PragmaticDB
