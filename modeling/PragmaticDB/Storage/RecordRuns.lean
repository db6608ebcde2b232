import PragmaticDB.Storage.HeapInvariants
import PragmaticDB.Storage.PageExact

/-!
Runs of a record manager. What each call does is said once, on the heap it refines; the layout
of all pages along every run follows.
-/
namespace PragmaticDB
open CallMachine PageDataManager

inductive RecordCall where
  | insert (bytes : List UInt8)
  | update (rid : RecordId) (bytes : List UInt8)
  | delete (rid : RecordId)
  | get (rid : RecordId)
  | getSlotCount (p : ℤ)
  | flush

inductive RecordReply where
  | rid (rid : RecordId)
  | ok (ok : Bool)
  | bytes (bytes : Option (List UInt8))
  | count (k : ℕ)
  | unit
  deriving DecidableEq

/-- Newest call first. -/
abbrev RecordHistory := List (RecordCall × RecordReply)

def Returned (h : RecordHistory) (rid : RecordId) : Prop :=
  ∃ bytes, (.insert bytes, .rid rid) ∈ h

/-- The record id that a call of `Insert` returned. -/
def givenId : RecordCall × RecordReply → Option RecordId
  | (.insert _, .rid rid) => some rid
  | _ => none

theorem returned_iff {h : RecordHistory} {rid : RecordId} :
    Returned h rid ↔ some rid ∈ h.map givenId := by
  rw [List.mem_map]
  constructor
  · rintro ⟨bytes, hmem⟩
    exact ⟨_, hmem, rfl⟩
  · rintro ⟨⟨c, r⟩, hmem, he⟩
    unfold givenId at he
    split at he
    next bytes rid' heq =>
      cases heq
      cases he
      exact ⟨bytes, hmem⟩
    next => cases he

instance (h : RecordHistory) (rid : RecordId) : Decidable (Returned h rid) :=
  decidable_of_iff _ returned_iff.symm

namespace RecordManager

def answer (rm : RecordManager) : RecordCall → Option (RecordReply × RecordManager)
  | .insert bytes => (rm.insert bytes).map fun x => (.rid x.1, x.2)
  | .update rid bytes => (rm.update rid bytes).map fun x => (.ok x.1, x.2)
  | .delete rid => (rm.delete rid).map fun x => (.ok x.1, x.2)
  | .get rid => (rm.get rid).map fun x => (.bytes x.1, x.2)
  | .getSlotCount p => (rm.getSlotCount p).map fun x => (.count x.1, x.2)
  | .flush => some (.unit, rm.flush)

end RecordManager

/-- Callers that use the record ids they were given. Sizes up to 65531, page ids below
`2 ^ 19`. -/
def recordMachine : Machine RecordManager RecordCall RecordReply where
  step := RecordManager.answer
  Allowed h rm c :=
    match c with
    | .insert bytes => bytes.length ≤ 65531 ∧
        ∀ rid rm', rm.insert bytes = some (rid, rm') → rm'.pool.nextPageId ≤ 524288
    | .update rid _ => Returned h rid
    | .delete rid => Returned h rid
    | .get rid => Returned h rid
    | .getSlotCount p => p ∈ rm.pageIds
    | .flush => True

instance (h : RecordHistory) (rm : RecordManager) (c : RecordCall) :
    Decidable (recordMachine.Allowed h rm c) :=
  match c with
  | .insert bytes => decidable_of_iff (bytes.length ≤ 65531 ∧
      ∀ x ∈ rm.insert bytes, x.2.pool.nextPageId ≤ 524288)
      (and_congr_right fun _ => ⟨fun h rid rm' he => h (rid, rm') he, fun h x hx => h x.1 x.2 hx⟩)
  | .update rid _ => inferInstanceAs (Decidable (Returned h rid))
  | .delete rid => inferInstanceAs (Decidable (Returned h rid))
  | .get rid => inferInstanceAs (Decidable (Returned h rid))
  | .getSlotCount p => inferInstanceAs (Decidable (p ∈ rm.pageIds))
  | .flush => isTrue trivial

/-- What a call does to the heap. -/
inductive Effect (h : HeapFile) : RecordCall → RecordReply → HeapFile → Prop where
  | insert {bytes : List UInt8} {rid : RecordId} {h' : HeapFile} (h0 : 0 < bytes.length)
      (hins : h.Inserts bytes rid h') : Effect h (.insert bytes) (.rid rid) h'
  | insertEmpty : Effect h (.insert []) (.rid invalidRecordId) h
  | update {rid : RecordId} {bytes : List UInt8} {h' : HeapFile} (hp : rid.pageId ∈ h.ids)
      (hrid : h.record rid ≠ none) (h0 : 0 < bytes.length) (hids : h'.ids = h.ids)
      (hcount : ∀ p, slotCount (h'.page p) = slotCount (h.page p))
      (hrec : ∀ r, h'.record r = if r = rid then some bytes else h.record r) :
      Effect h (.update rid bytes) (.ok true) h'
  | notUpdated {rid : RecordId} {bytes : List UInt8} : Effect h (.update rid bytes) (.ok false) h
  | delete {rid : RecordId} {h' : HeapFile} (hp : rid.pageId ∈ h.ids) (hids : h'.ids = h.ids)
      (hcount : ∀ p, slotCount (h'.page p) = slotCount (h.page p))
      (hdesc : ∀ p, Descending (h.page p) → Descending (h'.page p))
      (hrec : ∀ r, h'.record r = if r = rid then none else h.record r) :
      Effect h (.delete rid) (.ok true) h'
  | notDeleted : Effect h (.delete invalidRecordId) (.ok false) h
  | get {rid : RecordId} (hp : rid.pageId ∈ h.ids) :
      Effect h (.get rid) (.bytes (h.record rid)) h
  | notGot : Effect h (.get invalidRecordId) (.bytes none) h
  | getSlotCount {p : ℤ} : Effect h (.getSlotCount p) (.count (slotCount (h.page p))) h
  | flush : Effect h .flush .unit h

namespace RecordManager
variable {rm : RecordManager} {h : HeapFile}

/-- Every allowed call is answered, and does to the heap what `Effect` says. -/
theorem Refines.answer (hr : rm.Refines h) (hg : h.Good) {hist : RecordHistory}
    (hknown : ∀ rid, Returned hist rid → rid = invalidRecordId ∨ h.HasSlot rid) {c : RecordCall}
    (ha : recordMachine.Allowed hist rm c) :
    ∃ r rm' h', rm.answer c = some (r, rm') ∧ rm'.Refines h' ∧ h'.Good ∧ Effect h c r h' := by
  cases c with
  | insert bytes =>
    obtain ⟨hlt, hbound⟩ := ha
    rcases Nat.eq_zero_or_pos bytes.length with h0 | h0
    · obtain rfl := List.length_eq_zero_iff.mp h0
      exact ⟨_, rm, h, by simp [RecordManager.answer, RecordManager.insert], hr, hg, .insertEmpty⟩
    · obtain ⟨rid, h', he, hins⟩ := hg.insert_cases h0 (Nat.lt_succ_of_le hlt)
      have hrel := hr.insert bytes
      rw [he] at hrel
      obtain ⟨rm', hx, hnext, hr'⟩ := some_of_agree hrel
      have hle : h'.next ≤ 524288 := hnext ▸ hbound _ _ hx
      exact ⟨_, rm', h', by simp [RecordManager.answer, hx], hr' hle, hins.good hg hle,
        .insert h0 hins⟩
  | update rid bytes =>
    rcases hknown rid ha with rfl | ⟨hp, -⟩
    · exact ⟨_, rm, h, by simp [RecordManager.answer, RecordManager.update, invalidRecordId], hr,
        hg, .notUpdated⟩
    · obtain ⟨ok, h', he, hg', hids, -, hcount, hno, hyes⟩ := hg.update hp bytes
      have hrel := hr.update hp bytes
      rw [he] at hrel
      obtain ⟨rm', hx, hr'⟩ := some_of_rel hrel
      refine ⟨.ok ok, rm', h', by simp [RecordManager.answer, hx], hr', hg', ?_⟩
      cases ok with
      | false =>
        rw [hno rfl]
        exact .notUpdated
      | true =>
        obtain ⟨hne, h0, hrec⟩ := hyes rfl
        exact .update hp hne h0 hids hcount hrec
  | delete rid =>
    rcases hknown rid ha with rfl | ⟨hp, hs⟩
    · exact ⟨_, rm, h, by simp [RecordManager.answer, RecordManager.delete, invalidRecordId], hr,
        hg, .notDeleted⟩
    · obtain ⟨h', he, hg', hids, -, hcount, hdesc, hrec⟩ := hg.delete hp
      have hrel := hr.delete hp
      rw [he, decide_eq_true hs] at hrel
      obtain ⟨rm', hx, hr'⟩ := some_of_rel hrel
      exact ⟨_, rm', h', by simp [RecordManager.answer, hx], hr', hg',
        .delete hp hids hcount hdesc hrec⟩
  | get rid =>
    rcases hknown rid ha with rfl | ⟨hp, -⟩
    · exact ⟨_, rm, h, by simp [RecordManager.answer, RecordManager.get, invalidRecordId], hr, hg,
        .notGot⟩
    · have hrel := hr.get hp
      rw [hg.get hp] at hrel
      obtain ⟨rm', hx, hr'⟩ := some_of_rel hrel
      exact ⟨_, rm', h, by simp [RecordManager.answer, hx], hr', hg, .get hp⟩
  | getSlotCount p =>
    have hp : p ∈ h.ids := hr.ids ▸ ha
    have hrel := hr.getSlotCount hp
    rw [HeapFile.getSlotCount_eq] at hrel
    obtain ⟨rm', hx, hr'⟩ := some_of_rel hrel
    exact ⟨_, rm', h, by simp [RecordManager.answer, hx], hr', hg, .getSlotCount⟩
  | flush => exact ⟨_, _, h, rfl, hr.flush, hg, .flush⟩

end RecordManager

variable {h h' : HeapFile}

theorem Effect.hasSlot (hg : h.Good) {c : RecordCall} {r : RecordReply} (he : Effect h c r h')
    {rid : RecordId} (hs : h.HasSlot rid) : h'.HasSlot rid := by
  obtain ⟨hp, hlt⟩ := hs
  have hsame : ∀ {h'' : HeapFile}, h''.ids = h.ids →
      (∀ p, slotCount (h''.page p) = slotCount (h.page p)) → h''.HasSlot rid :=
    fun hids hcount => ⟨hids ▸ hp, hcount _ ▸ hlt⟩
  cases he with
  | insert h0 hins => exact ⟨hins.extends_ids.subset hp, hlt.trans_le (hins.count_le hg hp)⟩
  | update hp hne h0 hids hcount hrec => exact hsame hids hcount
  | delete hp hids hcount hdesc hrec => exact hsame hids hcount
  | insertEmpty | notUpdated | notDeleted | get | notGot | getSlotCount | flush => exact ⟨hp, hlt⟩

/-- The ids returned so far are the invalid one or have a slot. -/
theorem Effect.known (hg : h.Good) {hist : RecordHistory} {c : RecordCall} {r : RecordReply}
    (he : Effect h c r h')
    (hknown : ∀ rid, Returned hist rid → rid = invalidRecordId ∨ h.HasSlot rid) (rid : RecordId)
    (hret : Returned ((c, r) :: hist) rid) : rid = invalidRecordId ∨ h'.HasSlot rid := by
  obtain ⟨bytes, hmem⟩ := hret
  rcases List.mem_cons.mp hmem with heq | hmem
  · obtain ⟨rfl, rfl⟩ := Prod.mk.inj heq.symm
    cases he with
    | insert h0 hins =>
      rcases hins.rid_cases hg with ⟨hinv, -⟩ | ⟨-, hp, hs, -⟩
      · exact .inl hinv
      · exact .inr ⟨hp, hs⟩
    | insertEmpty => exact .inl rfl
  · exact (hknown rid ⟨bytes, hmem⟩).imp id fun hs => he.hasSlot hg hs

namespace RecordManager

/-- The pages of a table as its record manager holds them now. -/
def heap (rm : RecordManager) : HeapFile := ⟨rm.pageIds, rm.pool.current, rm.pool.nextPageId⟩

theorem Refines.current {rm : RecordManager} (hr : rm.Refines h) {p : ℤ} (hp : p ∈ h.ids) :
    rm.pool.current p = h.page p := (hr.has p hp).current

/-- The invariant of every run. -/
structure Kept (hist : RecordHistory) (rm : RecordManager) (h : HeapFile) : Prop where
  refines : rm.Refines h
  good : h.Good
  known : ∀ rid, Returned hist rid → rid = invalidRecordId ∨ h.HasSlot rid

theorem new_kept {dm : DiskManager} (hdm : dm.plan = []) : Kept [] (new dm) HeapFile.empty :=
  ⟨new_refines hdm, HeapFile.empty_good, by simp [Returned]⟩

theorem Kept.answer {hist : RecordHistory} {rm : RecordManager} (hk : Kept hist rm h)
    {c : RecordCall} (ha : recordMachine.Allowed hist rm c) :
    ∃ r rm' h', rm.answer c = some (r, rm') ∧ Kept ((c, r) :: hist) rm' h' ∧ Effect h c r h' := by
  obtain ⟨r, rm', h', he, hr', hg', heff⟩ := hk.refines.answer hk.good hk.known ha
  exact ⟨r, rm', h', he, ⟨hr', hg', heff.known hk.good hk.known⟩, heff⟩

theorem recordMachine_keeps : recordMachine.Keeps fun hist rm => ∃ h, Kept hist rm h := by
  rintro hist rm c ⟨h, hk⟩ ha
  obtain ⟨r, rm', h', he, hk', -⟩ := hk.answer ha
  exact ⟨r, rm', he, h', hk'⟩

/-- Work on a page whose conversions to `uint16_t` lose nothing and whose copies stay in the
page: it is what the checked work gives, and that is defined. -/
structure ExactWork (d : PageData) : Prop where
  insert : ∀ bytes, bytes.length ≤ 65531 →
    insertVisit bytes d = insertVisit? bytes d ∧ (insertVisit? bytes d).isSome = true
  compact : ∀ bytes, bytes.length ≤ 65531 →
    compactVisit bytes d = compactVisit? bytes d ∧ (compactVisit? bytes d).isSome = true
  update : ∀ i bytes, 0 < bytes.length →
    updateVisit i bytes d = updateVisit? i bytes d ∧ (updateVisit? i bytes d).isSome = true

theorem Formatted.exactWork {p : ℤ} {d : PageData} (hf : Formatted p d) : ExactWork d := by
  constructor
  · intro bytes hle
    obtain ⟨v, hv, -⟩ := hf.insertVisit (Nat.lt_succ_of_le hle)
    rw [hf.insertVisit?_eq (Nat.lt_succ_of_le hle), hv]
    exact ⟨rfl, rfl⟩
  · intro bytes hle
    obtain ⟨d₁, v, -, hv, -⟩ := hf.compactVisit (Nat.lt_succ_of_le hle)
    rw [hf.compactVisit?_eq (Nat.lt_succ_of_le hle), hv]
    exact ⟨rfl, rfl⟩
  · intro i bytes h0
    obtain ⟨v, hv, -⟩ := hf.updateVisit i h0
    rw [hf.updateVisit?_eq, hv]
    exact ⟨rfl, rfl⟩

/-- In every state of a run each page of the table is formatted, wherever it is, and so is the
page that comes next; all arithmetic on them is exact, and no call is undefined. -/
theorem pages_formatted {dm : DiskManager} {hist : RecordHistory} {rm : RecordManager}
    (hdm : dm.plan = []) (hr : recordMachine.Run (new dm) hist rm) :
    rm.pageIds.Nodup ∧ (∀ p ∈ rm.pageIds, 0 ≤ p ∧ p < rm.pool.nextPageId) ∧
    (∀ p ∈ rm.pageIds, Formatted p (rm.pool.current p) ∧ ExactWork (rm.pool.current p)) ∧
    ExactWork (initializePage zeroPage rm.pool.nextPageId) ∧
    ∀ c, recordMachine.Allowed hist rm c → (rm.answer c).isSome = true := by
  obtain ⟨h, hk⟩ := hr.invariant recordMachine_keeps ⟨_, new_kept hdm⟩
  have href := hk.refines
  have hg := hk.good
  rw [href.ids, href.next]
  refine ⟨hg.nodup, hg.range, fun p hp => ?_, ?_, fun c ha => ?_⟩
  · rw [href.current hp]
    exact ⟨hg.formatted p hp, Formatted.exactWork (hg.formatted p hp)⟩
  · have hle := hg.next_le
    exact Formatted.exactWork (initializePage_formatted hg.next_nonneg (by omega) _)
  · obtain ⟨r, rm', h', he, -⟩ := hk.answer ha
    rw [he]
    rfl

/-- One record on one page. -/
theorem first_page_formatted : ∃ rm, (new ⟨[], none, []⟩).answer (.insert [7]) =
    some (.rid ⟨0, 0⟩, rm) ∧ rm.pageIds = [0] ∧ Formatted 0 (rm.pool.current 0) := by
  have heval : ((new ⟨[], none, []⟩).answer (.insert [7])).map
      (fun x => (x.1, x.2.pageIds, x.2.pool.nextPageId)) = some (.rid ⟨0, 0⟩, [0], 1) := by
    decide +kernel
  obtain ⟨⟨r, rm⟩, he, heq⟩ := Option.map_eq_some_iff.mp heval
  simp only [Prod.mk.injEq] at heq
  obtain ⟨rfl, hids, hnext⟩ := heq
  have hrun : recordMachine.Run (new ⟨[], none, []⟩) [(.insert [7], .rid ⟨0, 0⟩)] rm := by
    apply Machine.Run.call .start _ he
    refine ⟨by decide, fun rid rm' hins => ?_⟩
    have he' : (new ⟨[], none, []⟩).answer (.insert [7]) = some (.rid rid, rm') := by
      simp only [answer, hins, Option.map_some]
    obtain ⟨-, rfl⟩ := Prod.mk.inj (Option.some.inj (he'.symm.trans he))
    omega
  exact ⟨rm, he, hids, ((pages_formatted rfl hrun).2.2.1 0 (by simp [hids])).1⟩

end RecordManager
end PragmaticDB
