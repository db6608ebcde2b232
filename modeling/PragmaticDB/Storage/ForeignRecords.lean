import PragmaticDB.Storage.PinBalance
import PragmaticDB.Storage.RecordMap

/-!
Record ids that no `Insert` returned. On the pages of the table they name slots past the slot
count, and nothing comes of them; on other pages the record manager does not turn them away.
-/
namespace PragmaticDB
open CallMachine PageDataManager

variable {hist : RecordHistory} {h h' : HeapFile} {c : RecordCall} {r : RecordReply}

/-- Answers of calls that found nothing to do. -/
inductive Unanswered : RecordCall → RecordReply → Prop where
  | insert (bytes : List UInt8) : Unanswered (.insert bytes) (.rid invalidRecordId)
  | update (rid : RecordId) (bytes : List UInt8) : Unanswered (.update rid bytes) (.ok false)
  | delete (rid : RecordId) : Unanswered (.delete rid) (.ok false)
  | get (rid : RecordId) : Unanswered (.get rid) (.bytes none)

theorem Unanswered.lastBytes (hu : Unanswered c r) (rid : RecordId) :
    lastBytes ((c, r) :: hist) rid = lastBytes hist rid := by
  cases hu with
  | insert => simp [PragmaticDB.lastBytes]
  | update | delete | get => rfl

theorem Unanswered.returned (hu : Unanswered c r) {rid : RecordId}
    (hret : Returned ((c, r) :: hist) rid) : rid = invalidRecordId ∨ Returned hist rid := by
  obtain ⟨bytes, hmem⟩ := hret
  rcases List.mem_cons.mp hmem with heq | hmem
  · obtain ⟨rfl, rfl⟩ := Prod.mk.inj heq
    cases hu
    exact .inl rfl
  · exact .inr ⟨bytes, hmem⟩

theorem Returned.cons {rid : RecordId} (hret : Returned hist rid) (x : RecordCall × RecordReply) :
    Returned (x :: hist) rid := by
  obtain ⟨bytes, hmem⟩ := hret
  exact ⟨bytes, List.mem_cons_of_mem _ hmem⟩

namespace HeapFile
variable {bytes : List UInt8} {rid s : RecordId}

/-- An `Insert` adds no slot but the one it returns. -/
theorem Inserts.hasSlot (hg : h.Good) (hins : h.Inserts bytes rid h') (hs : h'.HasSlot s) :
    h.HasSlot s ∨ s = rid := by
  obtain ⟨hp, hlt⟩ := hs
  have hold : s.pageId ∈ h.ids → h.HasSlot s ∨ s = rid := by
    intro hmem
    -- the page of `s` has at most one slot more, and then it is that of `rid`
    have hlast : rid = ⟨s.pageId, slotCount (h.page s.pageId)⟩ →
        slotCount (h'.page s.pageId) = slotCount (h.page s.pageId) + 1 →
        h.HasSlot s ∨ s = rid := by
      rintro rfl hcount
      rcases Nat.lt_or_ge s.slotId (slotCount (h.page s.pageId)) with hslot | hslot
      · exact .inl ⟨hmem, hslot⟩
      · have hslot' : s.slotId = slotCount (h.page s.pageId) := by omega
        exact .inr (by rw [← hslot'])
    rcases hins.page_cases hg hmem with ⟨he, -⟩ | ⟨hc, -⟩ | ⟨hrid, ha, -⟩ | ⟨d, hrid, hc, ha, -⟩
    · exact .inl ⟨hmem, he ▸ hlt⟩
    · exact .inl ⟨hmem, hc.count ▸ hlt⟩
    · exact hlast hrid ha.count
    · exact hlast hrid (by rw [ha.count, hc.count])
  cases hins with
  | firstFit => exact hold hp
  | compacted => exact hold hp
  | newPage hfull hlen hall happ hf =>
    rcases List.mem_append.mp hp with hp | hp
    · exact hold hp
    · have hpage := List.mem_singleton.mp hp
      have hcount := happ.count
      rw [slotCount_initializePage] at hcount
      simp only [hpage, hcount] at hlt
      have hslot : s.slotId = 0 := by omega
      exact .inr (by rw [← hpage, ← hslot])
  | tooLong => exact hold hp

theorem Inserts.next_le_succ (hins : h.Inserts bytes rid h') : h'.next ≤ h.next + 1 := by
  cases hins <;> simp

/-- Work on a page that leaves its bytes alone leaves the heap alone. -/
theorem visit_same {α : Type} {p : ℤ} {a : α} {dirty : Bool} {act : PageData → Option (Visit α)}
    (hv : act (h.page p) = some ⟨a, h.page p, dirty⟩) : h.visit p act = some (a, h) := by
  simp [HeapFile.visit, hv]

theorem get_noSlot (hs : slotCount (h.page rid.pageId) ≤ rid.slotId) :
    h.get rid = some (none, h) := by
  have hv : getVisit rid.slotId (h.page rid.pageId) = some ⟨none, h.page rid.pageId, false⟩ := by
    unfold getVisit
    rw [if_pos hs]
  exact visit_same hv

theorem update_noSlot (hs : slotCount (h.page rid.pageId) ≤ rid.slotId) (bytes : List UInt8) :
    h.update rid bytes = some (false, h) := by
  have hv : updateVisit rid.slotId bytes (h.page rid.pageId) =
      some ⟨false, h.page rid.pageId, false⟩ := by
    unfold updateVisit
    rw [if_pos hs]
  unfold HeapFile.update
  split_ifs
  · rfl
  · exact visit_same hv

theorem delete_noSlot (hs : slotCount (h.page rid.pageId) ≤ rid.slotId) :
    h.delete rid = some (false, h) := by
  have hv : deleteVisit rid.slotId (h.page rid.pageId) =
      some ⟨false, h.page rid.pageId, false⟩ := by
    unfold deleteVisit deleteTuple
    rw [if_pos hs]
    rfl
  exact visit_same hv

end HeapFile

/-- The slots of the heap after a call were there before or are what the call returned. -/
theorem Effect.slots (hg : h.Good) (he : Effect h c r h')
    (hslots : ∀ rid, h.HasSlot rid → Returned hist rid) (rid : RecordId) (hs : h'.HasSlot rid) :
    Returned ((c, r) :: hist) rid := by
  have hsame : h'.ids = h.ids → (∀ p, slotCount (h'.page p) = slotCount (h.page p)) →
      Returned ((c, r) :: hist) rid := by
    intro hids hcount
    have hs' : h.HasSlot rid := ⟨hids ▸ hs.1, hcount rid.pageId ▸ hs.2⟩
    exact (hslots rid hs').cons _
  cases he with
  | @insert bytes new _ h0 hins =>
    rcases hins.hasSlot hg hs with hs | rfl
    · exact (hslots rid hs).cons _
    · exact ⟨bytes, List.mem_cons_self⟩
  | update hp hne h0 hids hcount hrec => exact hsame hids hcount
  | delete hp hids hcount hdesc hrec => exact hsame hids hcount
  | insertEmpty | notUpdated | notDeleted | get | notGot | getSlotCount | flush =>
    exact hsame rfl fun _ => rfl

namespace RecordManager
variable {rm : RecordManager} {rid : RecordId}

/-- The page of `rid` is one of the table, or none at all. -/
def OwnPage (rm : RecordManager) (rid : RecordId) : Prop :=
  rid.pageId = invalidPageId ∨ rid.pageId ∈ rm.pageIds

theorem Refines.get_foreign (hr : rm.Refines h) (hown : rm.OwnPage rid) (hno : ¬ h.HasSlot rid) :
    ∃ rm', rm.get rid = some (none, rm') ∧ rm'.Refines h := by
  rcases hown with hinv | hmem
  · refine ⟨rm, ?_, hr⟩
    unfold RecordManager.get
    rw [if_pos hinv]
  · have hp : rid.pageId ∈ h.ids := hr.ids ▸ hmem
    have hrel := hr.get hp
    rw [HeapFile.get_noSlot (not_lt.mp fun hlt => hno ⟨hp, hlt⟩)] at hrel
    exact some_of_rel hrel

theorem Refines.update_foreign (hr : rm.Refines h) (hown : rm.OwnPage rid)
    (hno : ¬ h.HasSlot rid) (bytes : List UInt8) :
    ∃ rm', rm.update rid bytes = some (false, rm') ∧ rm'.Refines h := by
  rcases hown with hinv | hmem
  · refine ⟨rm, ?_, hr⟩
    unfold RecordManager.update
    rw [if_pos (.inl hinv)]
  · have hp : rid.pageId ∈ h.ids := hr.ids ▸ hmem
    have hrel := hr.update hp bytes
    rw [HeapFile.update_noSlot (not_lt.mp fun hlt => hno ⟨hp, hlt⟩)] at hrel
    exact some_of_rel hrel

theorem Refines.delete_foreign (hr : rm.Refines h) (hown : rm.OwnPage rid)
    (hno : ¬ h.HasSlot rid) : ∃ rm', rm.delete rid = some (false, rm') ∧ rm'.Refines h := by
  rcases hown with hinv | hmem
  · refine ⟨rm, ?_, hr⟩
    unfold RecordManager.delete
    rw [if_pos hinv]
  · have hp : rid.pageId ∈ h.ids := hr.ids ▸ hmem
    have hrel := hr.delete hp
    rw [HeapFile.delete_noSlot (not_lt.mp fun hlt => hno ⟨hp, hlt⟩)] at hrel
    exact some_of_rel hrel

/-- What keeps stored records safe: record ids on pages of the table, sizes the page arithmetic
can hold, page ids below `2 ^ 19`, and compactions that go upwards. -/
def Safe (rm : RecordManager) : RecordCall → Prop
  | .insert bytes => 65535 < bytes.length ∨ (bytes.length ≤ 65531 ∧
      rm.pool.nextPageId < 524288 ∧ rm.heap.CompactsUpwards bytes.length)
  | .update rid _ | .delete rid | .get rid => rm.OwnPage rid
  | .getSlotCount p => p ∈ rm.pageIds
  | .flush => True

/-- The invariant of safe runs: the slots are the ids returned, and hold the bytes last given. -/
structure Tracks (hist : RecordHistory) (rm : RecordManager) (h : HeapFile) : Prop
    extends Kept hist rm h where
  slots : ∀ rid, h.HasSlot rid → Returned hist rid
  map : ∀ rid, h.lookup rid = lastBytes hist rid

theorem new_tracks {dm : DiskManager} (hdm : dm.plan = []) :
    Tracks [] (new dm) HeapFile.empty where
  toKept := new_kept hdm
  slots _ hs := absurd hs.1 List.not_mem_nil
  map _ := if_neg List.not_mem_nil

theorem Tracks.unanswered {rm' : RecordManager} (ht : Tracks hist rm h) (hu : Unanswered c r)
    (hr : rm'.Refines h) : Tracks ((c, r) :: hist) rm' h where
  refines := hr
  good := ht.good
  known rid hret := (hu.returned hret).elim .inl fun hret => ht.known rid hret
  slots rid hs := (ht.slots rid hs).cons _
  map rid := (ht.map rid).trans (hu.lastBytes rid).symm

theorem Tracks.allowed (ht : Tracks hist rm h) (ha : recordMachine.Allowed hist rm c)
    (hup : ∀ bytes, c = .insert bytes → rm.heap.CompactsUpwards bytes.length) :
    ∃ r rm' h', rm.answer c = some (r, rm') ∧ Tracks ((c, r) :: hist) rm' h' := by
  obtain ⟨r, rm', h', he, hk, heff⟩ := ht.toKept.answer ha
  refine ⟨r, rm', h', he, hk, heff.slots ht.good ht.slots, ?_⟩
  apply lookup_step ht.good heff ht.map
  intro bytes hc
  exact HeapFile.compactsUpwards_congr ht.refines.ids
    (fun p hp => ht.refines.current (ht.refines.ids ▸ hp)) (hup bytes hc)

/-- An `Insert` takes one page id at most. -/
theorem Tracks.insert_next {bytes : List UInt8} {rm' : RecordManager} (ht : Tracks hist rm h)
    (hle : bytes.length ≤ 65531) (he : rm.insert bytes = some (rid, rm')) :
    rm'.pool.nextPageId ≤ rm.pool.nextPageId + 1 := by
  rcases Nat.eq_zero_or_pos bytes.length with h0 | h0
  · unfold RecordManager.insert at he
    rw [if_pos (.inl h0)] at he
    cases he
    exact Int.le.intro 1 rfl
  · obtain ⟨rid', h', hins, hcases⟩ := ht.good.insert_cases h0 (Nat.lt_succ_of_le hle)
    have hrel := ht.refines.insert bytes
    rw [hins] at hrel
    obtain ⟨rm₁, hx, hnext, -⟩ := some_of_agree hrel
    obtain ⟨-, rfl⟩ := Prod.mk.inj (Option.some.inj (he.symm.trans hx))
    rw [hnext, ht.refines.next]
    exact hcases.next_le_succ

/-- Every safe call is answered; one with a foreign record id finds nothing. -/
theorem Tracks.answer (ht : Tracks hist rm h) (hc : Safe rm c) :
    ∃ r rm' h', rm.answer c = some (r, rm') ∧ Tracks ((c, r) :: hist) rm' h' := by
  cases c with
  | insert bytes =>
    rcases hc with hlong | ⟨hle, hnext, hup⟩
    · have he : rm.answer (.insert bytes) = some (.rid invalidRecordId, rm) := by
        simp [RecordManager.answer, RecordManager.insert, hlong]
      exact ⟨_, rm, h, he, ht.unanswered (.insert bytes) ht.refines⟩
    · apply ht.allowed
      · refine ⟨hle, fun rid rm' he => ?_⟩
        have hstep := ht.insert_next hle he
        omega
      · rintro b hb
        cases hb
        exact hup
  | update rid bytes =>
    by_cases hs : h.HasSlot rid
    · exact ht.allowed (ht.slots rid hs) fun b hb => by cases hb
    · obtain ⟨rm', he, hr⟩ := ht.refines.update_foreign hc hs bytes
      exact ⟨.ok false, rm', h, by simp [RecordManager.answer, he],
        ht.unanswered (.update rid bytes) hr⟩
  | delete rid =>
    by_cases hs : h.HasSlot rid
    · exact ht.allowed (ht.slots rid hs) fun b hb => by cases hb
    · obtain ⟨rm', he, hr⟩ := ht.refines.delete_foreign hc hs
      exact ⟨.ok false, rm', h, by simp [RecordManager.answer, he],
        ht.unanswered (.delete rid) hr⟩
  | get rid =>
    by_cases hs : h.HasSlot rid
    · exact ht.allowed (ht.slots rid hs) fun b hb => by cases hb
    · obtain ⟨rm', he, hr⟩ := ht.refines.get_foreign hc hs
      exact ⟨.bytes none, rm', h, by simp [RecordManager.answer, he],
        ht.unanswered (.get rid) hr⟩
  | getSlotCount p => exact ht.allowed hc fun b hb => by cases hb
  | flush => exact ht.allowed trivial fun b hb => by cases hb

theorem tracks_preserved : (anyCallMachine.restrict Safe).Preserves fun hist rm =>
    ∃ h, Tracks hist rm h := by
  rintro hist rm c r rm' ⟨h, ht⟩ ⟨-, hc⟩ hstep
  obtain ⟨r', rm₁, h', he, ht'⟩ := ht.answer hc
  obtain ⟨rfl, rfl⟩ := Prod.mk.inj (Option.some.inj (hstep.symm.trans he))
  exact ⟨h', ht'⟩

/-- Along a safe run an id that no `Insert` returned gives nothing on the pages of the table, and
every id returned gives the bytes last put under it. -/
theorem foreign_harmless {dm : DiskManager} (hdm : dm.plan = [])
    (hr : (anyCallMachine.restrict Safe).Run (new dm) hist rm) :
    (∀ rid, ¬ Returned hist rid → rm.OwnPage rid →
      (∃ rm', rm.get rid = some (none, rm')) ∧
      (∀ bytes, ∃ rm', rm.update rid bytes = some (false, rm')) ∧
      ∃ rm', rm.delete rid = some (false, rm')) ∧
    ∀ rid, Returned hist rid → ∃ rm', rm.get rid = some (lastBytes hist rid, rm') := by
  obtain ⟨h, ht⟩ := hr.preserved tracks_preserved ⟨_, new_tracks hdm⟩
  constructor
  · intro rid hforeign hown
    have hno : ¬ h.HasSlot rid := fun hs => hforeign (ht.slots rid hs)
    refine ⟨?_, fun bytes => ?_, ?_⟩
    · obtain ⟨rm', he, -⟩ := ht.refines.get_foreign hown hno
      exact ⟨rm', he⟩
    · obtain ⟨rm', he, -⟩ := ht.refines.update_foreign hown hno bytes
      exact ⟨rm', he⟩
    · obtain ⟨rm', he, -⟩ := ht.refines.delete_foreign hown hno
      exact ⟨rm', he⟩
  · intro rid hret
    exact ht.toKept.get_returned ht.map hret

/-- A slot past the only one of a page. -/
theorem past_slots_nothing : ∃ rm rm', (new ⟨[], none, []⟩).answer (.insert [7]) =
    some (.rid ⟨0, 0⟩, rm) ∧ rm.get ⟨0, 5⟩ = some (none, rm') := by
  have heval : ((new ⟨[], none, []⟩).answer (.insert [7])).map
      (fun x => (x.1, x.2.pageIds)) = some (.rid ⟨0, 0⟩, [0]) := by
    decide +kernel
  obtain ⟨⟨r, rm⟩, he, heq⟩ := Option.map_eq_some_iff.mp heval
  obtain ⟨rfl, hids⟩ := Prod.mk.inj heq
  have hrun : (anyCallMachine.restrict Safe).Run (new ⟨[], none, []⟩)
      [(.insert [7], .rid ⟨0, 0⟩)] rm := by
    apply Machine.Run.call .start _ he
    refine ⟨trivial, .inr ⟨by decide, by decide, fun p hp => ?_⟩⟩
    cases hp
  have hforeign : ¬ Returned [(.insert [7], .rid ⟨0, 0⟩)] ⟨0, 5⟩ := by
    simp [Returned]
  have hids : rm.pageIds = [0] := hids
  have hown : rm.OwnPage ⟨0, 5⟩ := .inr (by simp [hids])
  obtain ⟨rm', hget⟩ := ((foreign_harmless rfl hrun).1 ⟨0, 5⟩ hforeign hown).1
  exact ⟨rm, rm', he, hget⟩

/-- Nine pages that do not exist fill the pool; the tenth takes the frame of the only page the
table has, and shows its bytes. -/
theorem foreign_page_shows_record : ∃ hist rm rm',
    anyCallMachine.Run (new ⟨[], none, []⟩) hist rm ∧ ¬ Returned hist ⟨10, 0⟩ ∧
    rm.get ⟨10, 0⟩ = some (some [7], rm') := by
  have heval : (anyCallMachine.play (.insert [7] :: (List.range 9).map fun i : ℕ =>
      .get ⟨i + 1, 0⟩) [] (new ⟨[], none, []⟩)).bind
        (fun x => (x.2.get ⟨10, 0⟩).map fun y => (x.1.map Prod.snd, y.1)) =
      some (List.replicate 9 (.bytes none) ++ [.rid ⟨0, 0⟩], some [7]) := by
    decide +kernel
  obtain ⟨⟨hist, rm⟩, hplay, heval⟩ := Option.bind_eq_some_iff.mp heval
  obtain ⟨⟨bytes, rm'⟩, hget, heq⟩ := Option.map_eq_some_iff.mp heval
  obtain ⟨hreplies, rfl⟩ := Prod.mk.inj heq
  refine ⟨hist, rm, rm', Machine.Run.play .start hplay, ?_, hget⟩
  rintro ⟨bytes, hmem⟩
  have hreply : RecordReply.rid ⟨10, 0⟩ ∈ hist.map Prod.snd := List.mem_map_of_mem hmem
  simp only at hreplies
  rw [hreplies] at hreply
  revert hreply
  decide

end RecordManager
end PragmaticDB
