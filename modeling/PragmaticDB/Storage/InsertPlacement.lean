import PragmaticDB.Storage.FullTables
import PragmaticDB.Storage.InsertChecks

/-!
On which page `Insert` puts a tuple: two passes over the pages of the table, the first for room
as it is, the second for room after a compaction, and a page more if both fail.
-/
namespace PragmaticDB
open ByteBlock CallMachine PageDataManager

/-- The lengths of the live slots. -/
def liveBytes (d : PageData) : ℕ :=
  ∑ i ∈ (Finset.range (slotCount d)).filter (Live d), (slot d i).length

/-- The free space of the page once it is compacted. -/
def reclaimable (d : PageData) : ℕ := 4096 - 8 - 4 * slotCount d - liveBytes d

theorem liveBytes_eq (d : PageData) : liveBytes d = lengthBefore d (slotCount d) := by
  apply Finset.sum_filter_of_ne
  intro i hi h0
  exact ⟨Finset.mem_range.mp hi, Nat.pos_of_ne_zero h0⟩

theorem fitsCompacted_eq (d : PageData) (k : ℕ) :
    HeapFile.fitsCompacted d k = decide (k + 4 ≤ reclaimable d) := by
  unfold HeapFile.fitsCompacted reclaimable
  rw [liveBytes_eq]
  apply decide_eq_decide.mpr
  omega

/-- Room there is now is there after a compaction. -/
theorem Formatted.freeBytes_le {p : ℤ} {d : PageData} (hf : Formatted p d) :
    freeBytes d ≤ reclaimable d := by
  have hsum := hf.lengthBefore_le
  have hroom := hf.room
  unfold freeBytes reclaimable
  rw [liveBytes_eq]
  omega

theorem Appends.hadRoom {p : ℤ} {d d' : PageData} {bytes : List UInt8} (ha : Appends d bytes d')
    (hf' : Formatted p d') : bytes.length + 4 ≤ freeBytes d := by
  have hfree := ha.free
  have hcount := ha.count
  have hroom := hf'.room
  unfold freeBytes
  omega

namespace HeapFile
variable {h h' : HeapFile} {bytes : List UInt8} {rid : RecordId}

/-- The first page that has room for `k` bytes now, or else the first that has it once it is
compacted. -/
def place (h : HeapFile) (k : ℕ) : Option ℤ :=
  (h.ids.find? fun p => k + 4 ≤ freeBytes (h.page p)).or
    (h.ids.find? fun p => k + 4 ≤ reclaimable (h.page p))

theorem Good.hasEnoughSpace_eq (hg : h.Good) {p : ℤ} (hp : p ∈ h.ids) {k : ℕ} (hk : k < 65532) :
    hasEnoughSpace (h.page p) k = decide (k + 4 ≤ freeBytes (h.page p)) := by
  have hf := hg.formatted p hp
  exact hasEnoughSpace_narrow hf.room (by have := hf.top; omega) (by omega)

/-- The first loop of `Insert` stops at the first page with room. -/
theorem Good.first_loop (hg : h.Good) (hlt : bytes.length < 65532) : ∃ x h',
    tryPages (insertVisit bytes) h.ids h = some (x, h') ∧
    x.map RecordId.pageId = h.ids.find? fun p => bytes.length + 4 ≤ freeBytes (h.page p) := by
  have hcases := tryPages_cases (insertVisit bytes)
    (N := fun _ d _ => hasEnoughSpace d bytes.length = false)
    (S := fun _ d _ _ => hasEnoughSpace d bytes.length = true)
    hg.nodup h fun p hp => by
      obtain ⟨v, hv, ⟨hno, -, hr⟩ | ⟨hyes, -, hr, -⟩⟩ := (hg.formatted p hp).insertVisit hlt
      · exact ⟨v, hv, .inl ⟨hno, hr⟩⟩
      · exact ⟨v, hv, .inr ⟨_, hyes, hr⟩⟩
  rcases hcases with ⟨page, he, hall, -⟩ | ⟨pre, p, post, i, page, hids, he, hpre, hp, -⟩
  · refine ⟨none, _, he, (List.find?_eq_none.mpr fun p hp => ?_).symm⟩
    rw [← hg.hasEnoughSpace_eq hp hlt, hall p hp]
    exact Bool.false_ne_true
  · refine ⟨some ⟨p, i⟩, _, he, (List.find?_eq_some_iff_append.mpr ⟨?_, pre, post, hids, ?_⟩).symm⟩
    · rw [← hg.hasEnoughSpace_eq (hids ▸ by simp) hlt, hp]
    · intro q hq
      rw [← hg.hasEnoughSpace_eq (hids ▸ by simp [hq]) hlt, hpre q hq]
      rfl

/-- Where an `Insert` puts its tuple. -/
theorem Good.insert_place (hg : h.Good) (h0 : 0 < bytes.length) (hlt : bytes.length < 65532)
    (he : h.insert bytes = some (rid, h')) (hins : h.Inserts bytes rid h') :
    h.place bytes.length = if rid.pageId ∈ h.ids then some rid.pageId else none := by
  obtain ⟨x, h₁, hx, hfind⟩ := hg.first_loop hlt
  unfold place
  cases x with
  | some r =>
    have hmem : r.pageId ∈ h.ids := List.mem_of_find?_eq_some hfind.symm
    have hrid : h.insert bytes = some (r, h₁) := by
      unfold HeapFile.insert
      rw [if_neg (by omega), hx]
      rfl
    obtain ⟨rfl, -⟩ := Prod.mk.inj (Option.some.inj (he.symm.trans hrid))
    rw [← hfind, if_pos hmem]
    rfl
  | none =>
    have hnone : ∀ p ∈ h.ids, ¬ bytes.length + 4 ≤ freeBytes (h.page p) := by
      intro p hp
      simpa using List.find?_eq_none.mp hfind.symm p hp
    rw [← hfind, Option.map_none, Option.none_or]
    cases hins with
    | firstFit hp happ hf hsame => exact absurd (happ.hadRoom hf) (hnone _ hp)
    | @compacted pre post p d page hfull hids hpre hfit hc happ hf hsame =>
      have hmem : p ∈ h.ids := hids ▸ by simp
      rw [if_pos hmem]
      refine List.find?_eq_some_iff_append.mpr ⟨?_, pre, post, hids, fun q hq => ?_⟩
      · rw [← fitsCompacted_eq, hfit]
      · rw [← fitsCompacted_eq, (hpre q hq).2]
        rfl
    | newPage hfull hlen hall =>
      rw [if_neg hg.fresh]
      refine List.find?_eq_none.mpr fun q hq => ?_
      rw [← fitsCompacted_eq, (hall q hq).2]
      exact Bool.false_ne_true
    | tooLong hfull hlong hall =>
      have hno : invalidRecordId.pageId ∉ h.ids :=
        fun hmem => ne_invalid_of_nonneg (hg.range _ hmem).1 rfl
      rw [if_neg hno]
      refine List.find?_eq_none.mpr fun q hq => ?_
      rw [← fitsCompacted_eq, (hall q hq).2]
      exact Bool.false_ne_true

theorem place_none {k : ℕ} : h.place k = none ↔
    ∀ p ∈ h.ids, freeBytes (h.page p) < k + 4 ∧ reclaimable (h.page p) < k + 4 := by
  simp [place, Option.or_eq_none_iff, forall_and]

/-- A tuple on a page of the table leaves the list of pages as it is. -/
theorem Inserts.on_page (hg : h.Good) (h0 : 0 < bytes.length)
    (hins : h.Inserts bytes rid h') (hmem : rid.pageId ∈ h.ids) :
    h'.ids = h.ids ∧ h'.next = h.next ∧ h'.record rid = some bytes := by
  cases hins with
  | @firstFit p page hp happ hf hsame =>
    refine ⟨rfl, rfl, ?_⟩
    have hrec := happ.records (hg.formatted p hp) h0 (slotCount (h.page p))
    rwa [if_pos rfl] at hrec
  | @compacted pre post p d page hfull hids hpre hfit hc happ hf hsame =>
    refine ⟨rfl, rfl, ?_⟩
    have hrec := happ.records (hc.formatted (hg.formatted p hmem)) h0 (slotCount d)
    rwa [if_pos rfl, hc.count] at hrec
  | newPage => exact absurd hmem hg.fresh
  | tooLong => exact absurd (hg.range _ hmem).1 (by decide)

/-- Otherwise it is on the page that comes next. -/
theorem Inserts.off_page (hins : h.Inserts bytes rid h')
    (hle : bytes.length ≤ 4084) (hno : rid.pageId ∉ h.ids) : rid.pageId = h.next := by
  cases hins with
  | firstFit hp => exact absurd hp hno
  | compacted hfull hids => exact absurd (hids ▸ by simp) hno
  | newPage => rfl
  | tooLong hfull hlong => exact absurd hle (not_le.mpr hlong)

end HeapFile
namespace RecordManager
variable {hist : RecordHistory} {rm rm' : RecordManager} {h : HeapFile} {bytes : List UInt8}
  {rid : RecordId}

theorem visit_pageIds {α : Type} {p : ℤ} {absent a : α} {act : PageData → Option (Visit α)}
    (he : rm.visit p absent act = some (a, rm')) : rm'.pageIds = rm.pageIds := by
  unfold visit at he
  split at he
  · cases he
    rfl
  · obtain ⟨v, -, hv⟩ := Option.bind_eq_some_iff.mp he
    cases hv
    rfl

theorem tryPages_pageIds {act : PageData → Option (Visit (Option ℕ))} {ps : List ℤ}
    {x : Option RecordId} (he : tryPages act ps rm = some (x, rm')) :
    rm'.pageIds = rm.pageIds ∧ ∀ r, x = some r → r.pageId ∈ ps := by
  induction ps generalizing rm with
  | nil =>
    cases he
    exact ⟨rfl, nofun⟩
  | cons p ps ih =>
    obtain ⟨⟨slotId, rm₁⟩, hv, he⟩ := Option.bind_eq_some_iff.mp he
    have hids := visit_pageIds hv
    cases slotId with
    | some i =>
      cases he
      exact ⟨hids, fun r hr => by cases hr; simp⟩
    | none =>
      obtain ⟨hids₁, hmem⟩ := ih he
      exact ⟨hids₁.trans hids, fun r hr => List.mem_cons_of_mem _ (hmem r hr)⟩

/-- A valid record id is on a page of the table, or on the page the table grew by. -/
theorem insert_pageIds (he : rm.insert bytes = some (rid, rm')) (hvalid : rid ≠ invalidRecordId) :
    rid.pageId ∈ rm.pageIds ∧ rm'.pageIds = rm.pageIds ∨
      rm'.pageIds = rm.pageIds ++ [rid.pageId] := by
  unfold insert at he
  split_ifs at he
  · cases he
    exact absurd rfl hvalid
  · obtain ⟨⟨x, rm₁⟩, h₁, he⟩ := Option.bind_eq_some_iff.mp he
    obtain ⟨hids₁, hmem₁⟩ := tryPages_pageIds h₁
    cases x with
    | some r =>
      cases he
      exact .inl ⟨hmem₁ _ rfl, hids₁⟩
    | none =>
      obtain ⟨⟨x, rm₂⟩, h₂, he⟩ := Option.bind_eq_some_iff.mp he
      obtain ⟨hids₂, hmem₂⟩ := tryPages_pageIds h₂
      have hids := hids₂.trans hids₁
      cases x with
      | some r =>
        cases he
        exact .inl ⟨hids₁ ▸ hmem₂ _ rfl, hids⟩
      | none =>
        simp only [insertNew] at he
        split at he
        · cases he
          exact absurd rfl hvalid
        · obtain ⟨⟨slotId, d⟩, -, he⟩ := Option.bind_eq_some_iff.mp he
          cases slotId with
          | some i =>
            cases he
            exact .inr (congrArg (· ++ _) hids)
          | none =>
            cases he
            exact absurd rfl hvalid

/-- `Insert` takes a page more exactly if no page of the table has room for the tuple and its
slot, compacted or not; otherwise the tuple goes to its place and the table does not grow. -/
def PlacesByRule (rm : RecordManager) (bytes : List UInt8) : Prop :=
  ∃ rid rm', rm.insert bytes = some (rid, rm') ∧
    (rm'.pageIds = rm.pageIds ++ [rm.pool.nextPageId] ↔
      ∀ p ∈ rm.pageIds, reclaimable (rm.pool.current p) < bytes.length + 4) ∧
    ∀ p, rm.heap.place bytes.length = some p → rid.pageId = p ∧ rm'.pageIds = rm.pageIds ∧
      rm'.pool.nextPageId = rm.pool.nextPageId ∧ rm'.found rid = some (some bytes)

theorem Refines.place (hr : rm.Refines h) (k : ℕ) : rm.heap.place k = h.place k := by
  have hids : rm.heap.ids = h.ids := hr.ids
  have hpage : ∀ p ∈ h.ids, rm.heap.page p = h.page p := fun p hp => hr.current hp
  unfold HeapFile.place
  have hnow : h.ids.find? (fun p => k + 4 ≤ freeBytes (rm.heap.page p)) =
      h.ids.find? fun p => k + 4 ≤ freeBytes (h.page p) :=
    List.find?_congr fun p hp => by rw [hpage p hp]
  have hafter : h.ids.find? (fun p => k + 4 ≤ reclaimable (rm.heap.page p)) =
      h.ids.find? fun p => k + 4 ≤ reclaimable (h.page p) :=
    List.find?_congr fun p hp => by rw [hpage p hp]
  rw [hids, hnow, hafter]

/-- The invariant of sized runs gives the rule for the next `Insert`. -/
theorem Kept.placesByRule (hk : Kept hist rm h) (h0 : 0 < bytes.length)
    (hle : bytes.length ≤ 4084) : rm.PlacesByRule bytes := by
  have hr := hk.refines
  have hg := hk.good
  have hlt : bytes.length < 65532 := by omega
  obtain ⟨rid, h', he, hins⟩ := hg.insert_cases h0 hlt
  have hplace := hg.insert_place h0 hlt he hins
  have hrel := hr.insert bytes
  rw [he] at hrel
  obtain ⟨rm', hx, hnext, hr'⟩ := some_of_agree hrel
  have hreclaim : (∀ p ∈ rm.pageIds, reclaimable (rm.pool.current p) < bytes.length + 4) ↔
      ∀ p ∈ h.ids, reclaimable (h.page p) < bytes.length + 4 := by
    rw [hr.ids]
    exact forall₂_congr fun p hp => by rw [hr.current hp]
  refine ⟨rid, rm', hx, ?_⟩
  rw [hreclaim, hr.place, hplace, hr.next, hr.ids]
  by_cases hmem : rid.pageId ∈ h.ids
  · obtain ⟨hids, hsame, hrec⟩ := hins.on_page hg h0 hmem
    have hbound : h'.next ≤ 524288 := hsame ▸ hg.next_le
    have hr' := hr' hbound
    have hmem' : rid.pageId ∈ h'.ids := hids ▸ hmem
    rw [if_pos hmem] at hplace ⊢
    rw [hr'.ids, hids]
    refine ⟨⟨fun hgrow => ?_, fun hnone => ?_⟩, fun p hp => ?_⟩
    · simp at hgrow
    · have hno : h.place bytes.length = none :=
        HeapFile.place_none.mpr fun p hp => ⟨(hg.formatted p hp).freeBytes_le.trans_lt
          (hnone p hp), hnone p hp⟩
      rw [hno] at hplace
      cases hplace
    · refine ⟨Option.some.inj hp, rfl, hnext.trans hsame, ?_⟩
      rw [hr'.found (hins.good hg hbound) hmem', hrec]
  · rw [if_neg hmem] at hplace ⊢
    have hvalid : rid ≠ invalidRecordId := by
      rintro rfl
      exact ne_invalid_of_nonneg hg.next_nonneg (hins.off_page hle hmem).symm
    have hgrow := (insert_pageIds hx hvalid).resolve_left fun hon => hmem (hr.ids ▸ hon.1)
    rw [hr.ids, hins.off_page hle hmem] at hgrow
    exact ⟨⟨fun _ p hp => (HeapFile.place_none.mp hplace p hp).2, fun _ => hgrow⟩, nofun⟩

/-- In every state of a run whose page ids stay below `2 ^ 19` the rule says where the next
tuple goes. -/
theorem placed_by_rule {dm : DiskManager} (hdm : dm.plan = [])
    (hr : ((editMachine SizedCall).restrict StaysAddressable).Run (new dm) hist rm)
    (h0 : 0 < bytes.length) (hle : bytes.length ≤ 4084) : rm.PlacesByRule bytes := by
  have hsized : ∀ bytes, SizedCall (.insert bytes) → bytes.length ≤ 65531 :=
    fun _ hs => hs.2.trans (by norm_num)
  obtain ⟨h, hk⟩ := editMachine_kept hsized hdm hr
  exact hk.placesByRule h0 hle

/-- A page whose tuple has shrunk: 80 bytes go behind its slot at once, 81 once it is compacted. -/
theorem placed_on_old_page : ∃ hist rm,
    ((editMachine SizedCall).restrict StaysAddressable).Run (new ⟨[], none, []⟩) hist rm ∧
    hist.map Prod.fst = [.update ⟨0, 0⟩ [1], .insert (List.replicate 4000 1)] ∧
    rm.pageIds = [0] ∧ freeBytes (rm.pool.current 0) = 84 ∧
    ∀ k ∈ [80, 81], rm.heap.place k = some 0 ∧ rm.PlacesByRule (List.replicate k 7) := by
  have heval : (((editMachine SizedCall).restrict StaysAddressable).play
      [.insert (List.replicate 4000 1), .update ⟨0, 0⟩ [1]] [] (new ⟨[], none, []⟩)).map (fun x =>
        (x.2.pageIds, freeBytes (x.2.pool.current 0), [80, 81].map x.2.heap.place)) =
      some ([0], 84, [some 0, some 0]) := by
    decide +kernel
  obtain ⟨⟨hist, rm⟩, hplay, heq⟩ := Option.map_eq_some_iff.mp heval
  simp only [Prod.mk.injEq] at heq
  obtain ⟨hids, hfree, hplaces⟩ := heq
  have hrun := Machine.Run.start.play hplay
  refine ⟨hist, rm, hrun, Machine.play_calls hplay, hids, hfree, fun k hk => ⟨?_, ?_⟩⟩
  · have hmem := List.mem_map_of_mem (f := rm.heap.place) hk
    rw [hplaces] at hmem
    simpa using hmem
  · have hlen := List.length_replicate (n := k) (a := (7 : UInt8))
    have hsize : 80 ≤ k ∧ k ≤ 81 := by
      simp only [List.mem_cons, List.not_mem_nil, or_false] at hk
      omega
    exact placed_by_rule rfl hrun (by omega) (by omega)

/-! Past the addressable pages. -/

theorem tryPages_append {act : PageData → Option (Visit (Option ℕ))} {ps : List ℤ}
    {rm₁ : RecordManager} (he : tryPages act ps rm = some (none, rm₁)) (qs : List ℤ) :
    tryPages act (ps ++ qs) rm = tryPages act qs rm₁ := by
  induction ps generalizing rm with
  | nil =>
    cases he
    rfl
  | cons p ps ih =>
    obtain ⟨⟨slotId, rm₂⟩, hv, he⟩ := Option.bind_eq_some_iff.mp he
    cases slotId with
    | some i => cases he
    | none =>
      rw [List.cons_append]
      simp only [tryPages, hv, Option.bind_eq_bind, Option.bind_some]
      exact ih he

/-- A loop of `Insert` over `2 ^ 19` full pages and the one after them, which it finds full. -/
theorem tryPages_lost {act : PageData → Option (Visit (Option ℕ))} (hw : FullWork act none)
    (hh : Honest act) (hp : Packed 524288 rm.pool) (hnext : 524288 < rm.pool.nextPageId) :
    ∃ rm', tryPages act (firstIds 524288 ++ [524288]) rm = some (none, rm') ∧
      rm'.pageIds = rm.pageIds ∧ rm'.pool.nextPageId = rm.pool.nextPageId ∧
      Packed 524288 rm'.pool := by
  have hrange : ∀ p ∈ firstIds 524288, (0 : ℤ) ≤ p ∧ p < 524288 := fun p hp => by
    exact_mod_cast mem_firstIds.mp hp
  obtain ⟨rm₁, he₁, hids₁, hnext₁, hp₁, ht₁⟩ :=
    tryPages_packed hw hh hp hrange (firstIds_nodup _)
  have hset := ht₁.resolve_left fun hfew => by
    have hlen := hfew.2
    rw [firstIds_length] at hlen
    omega
  obtain ⟨rm₂, he₂, hids₂, hnext₂, hp₂⟩ := visit_lost hp₁ hset (hnext₁.symm ▸ hnext) hw none
  refine ⟨rm₂, ?_, hids₂.trans hids₁, hnext₂.trans hnext₁, hp₂⟩
  rw [tryPages_append he₁]
  simp only [tryPages, he₂, Option.bind_eq_bind, Option.bind_some]

/-- With page `2 ^ 19` in use for one byte, an `Insert` of one byte takes page `2 ^ 19 + 1`. -/
theorem page_with_room_passed : ¬ ∀ (hist : RecordHistory) (rm : RecordManager)
    (bytes : List UInt8), (editMachine SizedCall).Run (new ⟨[], none, []⟩) hist rm →
      0 < bytes.length → bytes.length ≤ 4084 → rm.PlacesByRule bytes := by
  intro hall
  have hone : 0 < [(1 : UInt8)].length ∧ [(1 : UInt8)].length ≤ 4084 ∧
      [(1 : UInt8)].length < 65532 := by decide
  obtain ⟨hist, rm₀, hrun, ht, -⟩ := full_table 524288 le_rfl
  obtain ⟨rm, d, f, he, hids, hnext, hp, happ, hf, hlook, hdata, -⟩ := ht.insert hone.1 hone.2.1
  have hans : rm₀.answer (.insert [1]) = some (.rid ⟨(524288 : ℕ), 0⟩, rm) := by
    simp only [answer, he, Option.map_some]
  have hallowed : (editMachine SizedCall).Allowed hist rm₀ (.insert [1]) :=
    ⟨⟨hone.1, hone.2.1⟩, trivial⟩
  obtain ⟨rid, rm', hins, hiff, -⟩ := hall _ rm [1] (hrun.call hallowed hans) hone.1 hone.2.1
  have hnext : rm.pool.nextPageId = 524289 := by
    rw [hnext]
    norm_num
  have hids : rm.pageIds = firstIds 524288 ++ [524288] := by
    rw [hids, firstIds_succ, Nat.cast_ofNat]
  have hp : Packed 524288 rm.pool := by exact_mod_cast hp
  -- both loops find no room, on that page either
  obtain ⟨rm₁, he₁, hids₁, hnext₁, hp₁⟩ := tryPages_lost (insertVisit_full hone.2.2)
    (insertVisit_honest [1]) hp (by omega)
  obtain ⟨rm₂, he₂, hids₂, hnext₂, hp₂⟩ := tryPages_lost (compactVisit_full hone.2.2)
    (compactVisit_honest [1]) hp₁ (by omega)
  obtain ⟨rm₃, -, -, hnew, hpages, -⟩ :=
    insertNew_packed hp₂ (hnext₂.trans (hnext₁.trans hnext)) (by norm_num) hone.2.1
  have hins' : rm.insert [1] = some (⟨524289, 0⟩, rm₃) := by
    unfold insert
    rw [if_neg (by decide), hids, he₁]
    simp only [Option.bind_eq_bind, Option.bind_some, hids₁, hids, he₂, hnew]
  obtain ⟨-, rfl⟩ := Prod.mk.inj (Option.some.inj (hins.symm.trans hins'))
  have hgrown : rm'.pageIds = rm.pageIds ++ [rm.pool.nextPageId] := by
    rw [hpages, hids₂, hids₁, hnext]
  have hfull := hiff.mp hgrown 524288 (by simp [hids])
  -- but there is room for 4083 bytes
  have hcurrent : rm.pool.current 524288 = d := by
    have hlook : rm.pool.pageTable.lookup 524288 = some f := by exact_mod_cast hlook
    simp only [BufferPoolManager.current, hlook, hdata]
  have hc0 := slotCount_initializePage zeroPage (524288 : ℕ)
  have hcount := happ.count
  have hslot := happ.new
  rw [hc0] at hcount hslot
  rw [hcurrent, reclaimable, liveBytes_eq, hcount, zero_add, lengthBefore_succ, hslot] at hfull
  simp [lengthBefore] at hfull

end RecordManager
end PragmaticDB
