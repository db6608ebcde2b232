import PragmaticDB.Storage.ForeignRecords

/-!
Runs of `Insert`, `Update` and `Delete` calls, with no bound on the number of pages, and what
`Get` shows between the calls. `Get`, `Update` and `Delete` each decide for themselves whether
there is a record in a slot.
-/
namespace PragmaticDB
open CallMachine PageDataManager

/-- Callers that make the calls of `S`, with record ids they were given. -/
def editMachine (S : RecordCall → Prop) : Machine RecordManager RecordCall RecordReply where
  step := RecordManager.answer
  Allowed h _ c := S c ∧
    match c with
    | .insert _ => True
    | .update rid _ => Returned h rid
    | .delete rid => Returned h rid
    | _ => False

instance (S : RecordCall → Prop) [DecidablePred S] (h : RecordHistory) (rm : RecordManager)
    (c : RecordCall) : Decidable ((editMachine S).Allowed h rm c) :=
  match c with
  | .insert bytes => inferInstanceAs (Decidable (S (.insert bytes) ∧ True))
  | .update rid bytes => inferInstanceAs (Decidable (S (.update rid bytes) ∧ Returned h rid))
  | .delete rid => inferInstanceAs (Decidable (S (.delete rid) ∧ Returned h rid))
  | .get _ | .getSlotCount _ | .flush => isFalse fun h => h.2

namespace RecordManager
variable {hist : RecordHistory} {rm : RecordManager} {h : HeapFile} {rid : RecordId}

/-- An `Insert` after which fewer than `2 ^ 19` page ids, or exactly that many, are given out. -/
def StaysAddressable (rm : RecordManager) : RecordCall → Prop
  | .insert bytes => ∀ rid rm', rm.insert bytes = some (rid, rm') → rm'.pool.nextPageId ≤ 524288
  | _ => True

instance (rm : RecordManager) (c : RecordCall) : Decidable (rm.StaysAddressable c) :=
  match c with
  | .insert bytes => decidable_of_iff (∀ x ∈ rm.insert bytes, x.2.pool.nextPageId ≤ 524288)
      ⟨fun h rid rm' he => h (rid, rm') he, fun h x hx => h x.1 x.2 hx⟩
  | .update _ _ | .delete _ | .get _ | .getSlotCount _ | .flush => isTrue trivial

instance (S : RecordCall → Prop) [DecidablePred S] (h : RecordHistory) (rm : RecordManager)
    (c : RecordCall) : Decidable (((editMachine S).restrict StaysAddressable).Allowed h rm c) :=
  inferInstanceAs (Decidable ((editMachine S).Allowed h rm c ∧ rm.StaysAddressable c))

/-- What `Get` answers now. -/
def found (rm : RecordManager) (rid : RecordId) : Option (Option (List UInt8)) :=
  (rm.get rid).map Prod.fst

theorem Refines.found (hr : rm.Refines h) (hg : h.Good) (hp : rid.pageId ∈ h.ids) :
    rm.found rid = some (h.record rid) := by
  have hrel := hr.get hp
  rw [hg.get hp] at hrel
  obtain ⟨rm', hx, -⟩ := some_of_rel hrel
  unfold RecordManager.found
  rw [hx]
  rfl

theorem editMachine_allowed {S : RecordCall → Prop}
    (hS : ∀ bytes, S (.insert bytes) → bytes.length ≤ 65531) {c : RecordCall}
    (ha : ((editMachine S).restrict StaysAddressable).Allowed hist rm c) :
    recordMachine.Allowed hist rm c := by
  obtain ⟨⟨hs, ha⟩, hstays⟩ := ha
  cases c with
  | insert bytes => exact ⟨hS bytes hs, hstays⟩
  | update | delete => exact ha
  | get | getSlotCount | flush => exact ha.elim

/-- The invariant of all runs that stay addressable. -/
theorem editMachine_kept {S : RecordCall → Prop}
    (hS : ∀ bytes, S (.insert bytes) → bytes.length ≤ 65531) {dm : DiskManager}
    (hdm : dm.plan = []) (hr : ((editMachine S).restrict StaysAddressable).Run (new dm) hist rm) :
    ∃ h, Kept hist rm h := by
  have hrun := hr.mono recordMachine rfl fun hist rm c => editMachine_allowed hS
  exact hrun.invariant recordMachine_keeps ⟨_, new_kept hdm⟩

end RecordManager

/-! Which records exist. -/

/-- A slot of the directory that has no tuple: it was deleted. -/
def EmptySlot (d : PageData) (i : ℕ) : Prop :=
  i < slotCount d ∧ slotAddr i + 4 ≤ 4096 ∧ (slot d i).length = 0

/-- Work on one page, whatever its bytes: an empty slot is the one case in which the three
calls tell different stories. -/
theorem visits_agree_iff (d : PageData) (i : ℕ) (b : UInt8) :
    (∀ x y z, deleteVisit i d = some x → getVisit i d = some y → updateVisit i [b] d = some z →
      (x.answer = true ↔ y.answer.isSome = true) ∧ (x.answer = true ↔ z.answer = true)) ↔
    ¬ EmptySlot d i := by
  rcases Nat.lt_or_ge i (slotCount d) with hi | hi
  · have hcount : ¬ slotCount d ≤ i := not_le.mpr hi
    by_cases haddr : slotAddr i + 4 ≤ 4096
    · have hslot : slot? d i = some (slot d i) := if_pos haddr
      rcases Nat.eq_zero_or_pos (slot d i).length with h0 | hpos
      · -- `DeleteTuple` does not look at the length
        have hdel : deleteVisit i d = some ⟨true, d.set16 (slotAddr i + 2) 0, true⟩ := by
          simp [deleteVisit, deleteTuple, hcount, hslot]
        have hget : getVisit i d = some ⟨none, d, false⟩ := by
          simp [getVisit, hcount, hslot, h0]
        have hupd : updateVisit i [b] d = some ⟨false, d, false⟩ := by
          simp [updateVisit, hcount, hslot, h0]
        refine ⟨fun h => ?_, fun h => absurd ⟨hi, haddr, h0⟩ h⟩
        have hsome := (h _ _ _ hdel hget hupd).1.mp rfl
        cases hsome
      · refine ⟨fun _ h => absurd h.2.2 hpos.ne', fun _ x y z hx hy hz => ?_⟩
        have hx' : x.answer = true := by
          simp only [deleteVisit, deleteTuple, if_neg hcount, hslot, Option.bind_eq_bind,
            Option.bind_some, Option.pure_def, Option.some.injEq] at hx
          rw [← hx]
        have hy' : y.answer.isSome = true := by
          simp only [getVisit, getTuple, if_neg hcount, hslot, if_neg hpos.ne',
            Option.bind_eq_bind, Option.bind_some] at hy
          obtain ⟨w, hw, he⟩ := Option.bind_eq_some_iff.mp hy
          obtain ⟨bytes, -, hb⟩ := Option.bind_eq_some_iff.mp hw
          cases hb
          cases he
          rfl
        have hz' : z.answer = true := by
          have hone : [b].length ≤ (slot d i).length := hpos
          simp only [updateVisit, if_neg hcount, hslot, if_neg hpos.ne', if_pos hone,
            Option.bind_eq_bind, Option.bind_some] at hz
          obtain ⟨d', -, he⟩ := Option.bind_eq_some_iff.mp hz
          cases he
          rfl
        rw [hx', hy', hz']
        exact ⟨Iff.rfl, Iff.rfl⟩
    · refine ⟨fun _ h => haddr h.2.1, fun _ x y z hx => ?_⟩
      simp [deleteVisit, deleteTuple, hcount, slot?, haddr] at hx
  · refine ⟨fun _ h => absurd h.1 (not_lt.mpr hi), fun _ x y z hx hy hz => ?_⟩
    simp only [deleteVisit, deleteTuple, if_pos hi, Option.bind_eq_bind, Option.bind_some,
      Option.some.injEq] at hx
    simp only [getVisit, if_pos hi, Option.some.injEq] at hy
    simp only [updateVisit, if_pos hi, Option.some.injEq] at hz
    simp [← hx, ← hy, ← hz]

namespace RecordManager
variable {hist : RecordHistory} {rm : RecordManager} {h : HeapFile} {rid : RecordId}

/-- The page `FetchPage` shows now. -/
def shown (rm : RecordManager) (p : ℤ) : Option PageData :=
  (rm.pool.fetchPage p).1.map fun f => ((rm.pool.fetchPage p).2.pages f).data

/-- A call on one page answers what its work on that page says. -/
theorem visit_answer {α : Type} (rm : RecordManager) (p : ℤ) (absent : α)
    (act : PageData → Option (Visit α)) : (rm.visit p absent act).map Prod.fst =
      (rm.shown p).elim (some absent) fun d => (act d).map Visit.answer := by
  unfold visit shown
  rcases rm.pool.fetchPage p with ⟨_ | f, pool⟩
  · rfl
  · simp only [Option.map_some, Option.elim_some]
    cases act (pool.pages f).data <;> rfl

/-- `Delete`, `Get` and `Update` by one byte, each called now, tell alike whether there is a
record `rid`. -/
def AgreeOn (rm : RecordManager) (rid : RecordId) (b : UInt8) : Prop :=
  ∀ deleted got updated rm₁ rm₂ rm₃, rm.delete rid = some (deleted, rm₁) →
    rm.get rid = some (got, rm₂) → rm.update rid [b] = some (updated, rm₃) →
    (deleted = true ↔ got.isSome = true) ∧ (deleted = true ↔ updated = true)

/-- On the page of `rid`, as it is fetched now, the slot is empty. -/
def Emptied (rm : RecordManager) (rid : RecordId) : Prop :=
  rid.pageId ≠ invalidPageId ∧ ∃ d, rm.shown rid.pageId = some d ∧ EmptySlot d rid.slotId

theorem agreeOn_iff_emptied (rm : RecordManager) (rid : RecordId) (b : UInt8) :
    rm.AgreeOn rid b ↔ ¬ rm.Emptied rid := by
  by_cases hinv : rid.pageId = invalidPageId
  · refine ⟨fun _ h => h.1 hinv, fun _ deleted got updated rm₁ rm₂ rm₃ hd hg hu => ?_⟩
    simp only [delete, if_pos hinv, Option.some.injEq, Prod.mk.injEq] at hd
    simp only [get, if_pos hinv, Option.some.injEq, Prod.mk.injEq] at hg
    simp only [update, hinv, true_or, if_true, Option.some.injEq, Prod.mk.injEq] at hu
    simp [← hd.1, ← hg.1, ← hu.1]
  · have hdel : rm.delete rid = rm.visit rid.pageId false (deleteVisit rid.slotId) :=
      if_neg hinv
    have hget : rm.get rid = rm.visit rid.pageId none (getVisit rid.slotId) := if_neg hinv
    have hupd : rm.update rid [b] = rm.visit rid.pageId false (updateVisit rid.slotId [b]) :=
      if_neg (by simp [hinv])
    have hd := rm.visit_answer rid.pageId false (deleteVisit rid.slotId)
    have hg := rm.visit_answer rid.pageId none (getVisit rid.slotId)
    have hu := rm.visit_answer rid.pageId false (updateVisit rid.slotId [b])
    rw [← hdel] at hd
    rw [← hget] at hg
    rw [← hupd] at hu
    cases hs : rm.shown rid.pageId with
    | none =>
      simp only [hs, Option.elim_none] at hd hg hu
      refine ⟨fun _ h => ?_, fun _ deleted got updated rm₁ rm₂ rm₃ hd' hg' hu' => ?_⟩
      · obtain ⟨-, d, hd, -⟩ := h
        rw [hs] at hd
        cases hd
      · rw [hd'] at hd
        rw [hg'] at hg
        rw [hu'] at hu
        cases hd
        cases hg
        cases hu
        simp
    | some d =>
      simp only [hs, Option.elim_some] at hd hg hu
      have hiff := visits_agree_iff d rid.slotId b
      have hempty : rm.Emptied rid ↔ EmptySlot d rid.slotId := by
        unfold Emptied
        simp [hinv, hs]
      rw [hempty, ← hiff]
      constructor
      · intro h x y z hx hy hz
        rw [hx] at hd
        rw [hy] at hg
        rw [hz] at hu
        obtain ⟨⟨deleted, rm₁⟩, hd', rfl⟩ := Option.map_eq_some_iff.mp hd
        obtain ⟨⟨got, rm₂⟩, hg', rfl⟩ := Option.map_eq_some_iff.mp hg
        obtain ⟨⟨updated, rm₃⟩, hu', rfl⟩ := Option.map_eq_some_iff.mp hu
        exact h _ _ _ rm₁ rm₂ rm₃ hd' hg' hu'
      · intro h deleted got updated rm₁ rm₂ rm₃ hd' hg' hu'
        rw [hd'] at hd
        rw [hg'] at hg
        rw [hu'] at hu
        obtain ⟨x, hx, rfl⟩ := Option.map_eq_some_iff.mp hd.symm
        obtain ⟨y, hy, rfl⟩ := Option.map_eq_some_iff.mp hg.symm
        obtain ⟨z, hz, rfl⟩ := Option.map_eq_some_iff.mp hu.symm
        exact h x y z hx hy hz

/-- Calls that stay on the pages of the table, with sizes and page ids its arithmetic can hold. -/
def OnOwnPages (rm : RecordManager) : RecordCall → Prop
  | .insert bytes => 65535 < bytes.length ∨
      (bytes.length ≤ 65531 ∧ rm.pool.nextPageId < 524288)
  | .update rid _ | .delete rid | .get rid => rm.OwnPage rid
  | .getSlotCount p => p ∈ rm.pageIds
  | .flush => True

theorem Refines.update_own (hr : rm.Refines h) (hg : h.Good) (hown : rm.OwnPage rid)
    (bytes : List UInt8) :
    ∃ ok rm' h', rm.update rid bytes = some (ok, rm') ∧ rm'.Refines h' ∧ h'.Good := by
  rcases hown with hinv | hmem
  · exact ⟨false, rm, h, if_pos (.inl hinv), hr, hg⟩
  · have hp : rid.pageId ∈ h.ids := hr.ids ▸ hmem
    obtain ⟨ok, h', he, hg', -⟩ := hg.update hp bytes
    have hrel := hr.update hp bytes
    rw [he] at hrel
    obtain ⟨rm', hx, hr'⟩ := some_of_rel hrel
    exact ⟨ok, rm', h', hx, hr', hg'⟩

theorem Refines.delete_own (hr : rm.Refines h) (hg : h.Good) (hown : rm.OwnPage rid) :
    ∃ ok rm' h', rm.delete rid = some (ok, rm') ∧ rm'.Refines h' ∧ h'.Good := by
  rcases hown with hinv | hmem
  · exact ⟨false, rm, h, if_pos hinv, hr, hg⟩
  · have hp : rid.pageId ∈ h.ids := hr.ids ▸ hmem
    obtain ⟨h', he, hg', -⟩ := hg.delete hp
    have hrel := hr.delete hp
    rw [he] at hrel
    obtain ⟨rm', hx, hr'⟩ := some_of_rel hrel
    exact ⟨_, rm', h', hx, hr', hg'⟩

theorem Refines.get_own (hr : rm.Refines h) (hg : h.Good) (hown : rm.OwnPage rid) :
    ∃ bytes rm', rm.get rid = some (bytes, rm') ∧ rm'.Refines h := by
  rcases hown with hinv | hmem
  · exact ⟨none, rm, if_pos hinv, hr⟩
  · have hp : rid.pageId ∈ h.ids := hr.ids ▸ hmem
    have hrel := hr.get hp
    rw [hg.get hp] at hrel
    obtain ⟨rm', hx, hr'⟩ := some_of_rel hrel
    exact ⟨_, rm', hx, hr'⟩

/-- Such a call is answered, and leaves formatted pages. -/
theorem Refines.answer_own (hr : rm.Refines h) (hg : h.Good) {c : RecordCall}
    (hc : OnOwnPages rm c) :
    ∃ r rm' h', rm.answer c = some (r, rm') ∧ rm'.Refines h' ∧ h'.Good := by
  cases c with
  | insert bytes =>
    by_cases hno : bytes.length = 0 ∨ 65535 < bytes.length
    · have he : rm.insert bytes = some (invalidRecordId, rm) := if_pos hno
      exact ⟨.rid invalidRecordId, rm, h, by simp [RecordManager.answer, he], hr, hg⟩
    · obtain ⟨hle, hnext⟩ := hc.resolve_left fun hlong => hno (.inr hlong)
      obtain ⟨new, h', he, hins⟩ :=
        hg.insert_cases (Nat.pos_of_ne_zero fun h0 => hno (.inl h0)) (Nat.lt_succ_of_le hle)
      have hrel := hr.insert bytes
      rw [he] at hrel
      obtain ⟨rm', hx, -, hr'⟩ := some_of_agree hrel
      have hbound : h'.next ≤ 524288 := by
        have hstep := hins.next_le_succ
        have hsame := hr.next
        omega
      exact ⟨.rid new, rm', h', by simp [RecordManager.answer, hx], hr' hbound,
        hins.good hg hbound⟩
  | update rid bytes =>
    obtain ⟨ok, rm', h', he, hr', hg'⟩ := hr.update_own hg hc bytes
    exact ⟨.ok ok, rm', h', by simp [RecordManager.answer, he], hr', hg'⟩
  | delete rid =>
    obtain ⟨ok, rm', h', he, hr', hg'⟩ := hr.delete_own hg hc
    exact ⟨.ok ok, rm', h', by simp [RecordManager.answer, he], hr', hg'⟩
  | get rid =>
    obtain ⟨bytes, rm', he, hr'⟩ := hr.get_own hg hc
    exact ⟨.bytes bytes, rm', h, by simp [RecordManager.answer, he], hr', hg⟩
  | getSlotCount p =>
    have hp : p ∈ rm.pageIds := hc
    have hrel := hr.getSlotCount (hr.ids ▸ hp)
    rw [HeapFile.getSlotCount_eq] at hrel
    obtain ⟨rm', hx, hr'⟩ := some_of_rel hrel
    exact ⟨.count (slotCount (h.page p)), rm', h, by simp [RecordManager.answer, hx], hr', hg⟩
  | flush => exact ⟨_, _, h, rfl, hr.flush, hg⟩

theorem onOwnPages_keeps : (anyCallMachine.restrict OnOwnPages).Keeps fun _ rm =>
    ∃ h, rm.Refines h ∧ h.Good := by
  rintro hist rm c ⟨h, hr, hg⟩ ⟨-, hc⟩
  obtain ⟨r, rm', h', he, hr', hg'⟩ := hr.answer_own hg hc
  exact ⟨r, rm', he, h', hr', hg'⟩

/-- In every state, reachable or not, the three calls agree on `rid` exactly if its slot is not
one that was emptied; and where all calls so far kept to the pages of the table, each of the three
has an answer. -/
theorem agreeOn_iff (rm : RecordManager) (rid : RecordId) (b : UInt8) :
    (rm.AgreeOn rid b ↔ ¬ rm.Emptied rid) ∧
    ∀ dm hist, dm.plan = [] → (anyCallMachine.restrict OnOwnPages).Run (new dm) hist rm →
      rm.OwnPage rid → (rm.delete rid).isSome = true ∧ (rm.get rid).isSome = true ∧
        (rm.update rid [b]).isSome = true := by
  refine ⟨agreeOn_iff_emptied rm rid b, fun dm hist hdm hrun hown => ?_⟩
  obtain ⟨h, hr, hg⟩ :=
    hrun.invariant onOwnPages_keeps ⟨_, new_refines hdm, HeapFile.empty_good⟩
  obtain ⟨deleted, rm₁, h₁, hd, -⟩ := hr.delete_own hg hown
  obtain ⟨got, rm₂, hget, -⟩ := hr.get_own hg hown
  obtain ⟨updated, rm₃, h₃, hu, -⟩ := hr.update_own hg hown [b]
  simp [hd, hget, hu]

/-- A record that is there. -/
theorem agree_on_new_record : ∃ rm, (new ⟨[], none, []⟩).answer (.insert [7]) =
    some (.rid ⟨0, 0⟩, rm) ∧ rm.AgreeOn ⟨0, 0⟩ 8 := by
  have heval : ((new ⟨[], none, []⟩).answer (.insert [7])).map
      (fun x => (x.1, (x.2.shown 0).map fun d => (slot d 0).length)) =
        some (.rid ⟨0, 0⟩, some 1) := by
    decide +kernel
  obtain ⟨⟨r, rm⟩, he, heq⟩ := Option.map_eq_some_iff.mp heval
  obtain ⟨rfl, hshown⟩ := Prod.mk.inj heq
  refine ⟨rm, he, (agreeOn_iff rm ⟨0, 0⟩ 8).1.mpr ?_⟩
  rintro ⟨-, d, hd, hempty⟩
  simp only at hshown hd
  rw [hd] at hshown
  have hone := Option.some.inj hshown
  have hzero := hempty.2.2
  simp only at hone hzero
  omega

/-- `Delete` of a record that was deleted already returns true, where `Get` returns false. -/
theorem deleted_twice : ∃ hist rm, anyCallMachine.Run (new ⟨[], none, []⟩) hist rm ∧
    rm.pageIds = [0] ∧ ¬ rm.AgreeOn ⟨0, 0⟩ 8 := by
  have heval : (anyCallMachine.play [.insert [7], .delete ⟨0, 0⟩] [] (new ⟨[], none, []⟩)).bind
      (fun x => (x.2.delete ⟨0, 0⟩).bind fun y => (x.2.get ⟨0, 0⟩).bind fun z =>
        (x.2.update ⟨0, 0⟩ [8]).map fun w => (x.2.pageIds, y.1, z.1, w.1)) =
      some ([0], true, none, false) := by
    decide +kernel
  obtain ⟨⟨hist, rm⟩, hplay, heval⟩ := Option.bind_eq_some_iff.mp heval
  obtain ⟨⟨deleted, rm₁⟩, hd, heval⟩ := Option.bind_eq_some_iff.mp heval
  obtain ⟨⟨got, rm₂⟩, hg, heval⟩ := Option.bind_eq_some_iff.mp heval
  obtain ⟨⟨updated, rm₃⟩, hu, heq⟩ := Option.map_eq_some_iff.mp heval
  simp only [Prod.mk.injEq] at heq
  obtain ⟨hids, rfl, rfl, rfl⟩ := heq
  refine ⟨hist, rm, Machine.Run.play .start hplay, hids, fun h => ?_⟩
  have hsome := (h _ _ _ rm₁ rm₂ rm₃ hd hg hu).1.mp rfl
  cases hsome

end RecordManager
end PragmaticDB
