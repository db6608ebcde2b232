import PragmaticDB.Storage.RecordManager
import PragmaticDB.Storage.BufferPoolStore
import PragmaticDB.Lib.Machine

/-!
A table's pages without the pool: what each page holds, wherever it is. The record manager
refines it call by call, undefined behaviour included, whatever the pool evicts on the way.
-/
namespace PragmaticDB
open ByteBlock PageDataManager CallMachine

/-- The pages of a table in the order of `page_ids_`, and the id the next one gets. -/
structure HeapFile where
  ids : List ℤ
  page : ℤ → PageData
  next : ℤ

namespace HeapFile

def empty : HeapFile := ⟨[], fun _ => zeroPage, 0⟩

def visit {α : Type} (h : HeapFile) (p : ℤ) (act : PageData → Option (Visit α)) :
    Option (α × HeapFile) := do
  let v ← act (h.page p)
  some (v.answer, { h with page := Function.update h.page p v.data })

def get (h : HeapFile) (rid : RecordId) : Option (Option (List UInt8) × HeapFile) :=
  h.visit rid.pageId (getVisit rid.slotId)

def delete (h : HeapFile) (rid : RecordId) : Option (Bool × HeapFile) :=
  h.visit rid.pageId (deleteVisit rid.slotId)

def update (h : HeapFile) (rid : RecordId) (bytes : List UInt8) : Option (Bool × HeapFile) :=
  if bytes.length = 0 ∨ 65535 < bytes.length then some (false, h)
  else h.visit rid.pageId (updateVisit rid.slotId bytes)

def getSlotCount (h : HeapFile) (p : ℤ) : Option (ℕ × HeapFile) := h.visit p slotCountVisit

def tryPages (act : PageData → Option (Visit (Option ℕ))) :
    List ℤ → HeapFile → Option (Option RecordId × HeapFile)
  | [], h => some (none, h)
  | p :: ps, h => do
    let (slotId, h) ← h.visit p act
    match slotId with
    | some i => some (some ⟨p, i⟩, h)
    | none => tryPages act ps h

def insertNew (h : HeapFile) (bytes : List UInt8) : Option (RecordId × HeapFile) := do
  let (slotId, d) ← insertTuple (initializePage zeroPage h.next) bytes
  match slotId with
  | some i =>
    some (⟨h.next, i⟩, ⟨h.ids ++ [h.next], Function.update h.page h.next d, h.next + 1⟩)
  | none => some (invalidRecordId, { h with next := h.next + 1 })

def insert (h : HeapFile) (bytes : List UInt8) : Option (RecordId × HeapFile) :=
  if bytes.length = 0 ∨ 65535 < bytes.length then some (invalidRecordId, h)
  else do
    let (rid, h) ← tryPages (insertVisit bytes) h.ids h
    match rid with
    | some rid => some (rid, h)
    | none => do
      let (rid, h) ← tryPages (compactVisit bytes) h.ids h
      match rid with
      | some rid => some (rid, h)
      | none => h.insertNew bytes

@[simp] theorem visit_ids {α : Type} {h h' : HeapFile} {p : ℤ} {a : α}
    {act : PageData → Option (Visit α)} (he : h.visit p act = some (a, h')) :
    h'.ids = h.ids ∧ h'.next = h.next := by
  simp only [visit, Option.bind_eq_bind, Option.bind_eq_some_iff, Option.some.injEq,
    Prod.mk.injEq] at he
  obtain ⟨v, -, -, rfl⟩ := he
  exact ⟨rfl, rfl⟩

end HeapFile

/-- Work that leaves the page clean leaves it unchanged. -/
def Honest {α : Type} (act : PageData → Option (Visit α)) : Prop :=
  ∀ d v, act d = some v → v.dirty = true ∨ v.data = d

theorem getVisit_honest (i : ℕ) : Honest (getVisit i) := by
  intro d v h
  unfold getVisit at h
  split_ifs at h
  · cases h
    exact .inr rfl
  · cases hs : slot? d i with
    | none => simp [hs] at h
    | some s =>
      simp only [hs, Option.bind_eq_bind, Option.bind_some] at h
      split_ifs at h
      · cases h
        exact .inr rfl
      · cases hg : getTuple d i with
        | none => simp [hg] at h
        | some bytes =>
          simp only [hg, Option.bind_some, Option.some.injEq] at h
          exact .inr (h ▸ rfl)

theorem slotCountVisit_honest : Honest slotCountVisit := by
  intro d v h
  cases h
  exact .inr rfl

theorem deleteVisit_honest (i : ℕ) : Honest (deleteVisit i) := by
  intro d v h
  unfold deleteVisit deleteTuple at h
  split_ifs at h
  · cases h
    exact .inr rfl
  · cases hs : slot? d i with
    | none => simp [hs] at h
    | some s =>
      simp only [hs, Option.bind_eq_bind, Option.bind_some, Option.pure_def,
        Option.some.injEq] at h
      exact .inl (h ▸ rfl)

theorem updateVisit_honest (i : ℕ) (bytes : List UInt8) : Honest (updateVisit i bytes) := by
  intro d v h
  unfold updateVisit at h
  rcases Nat.lt_or_ge i (slotCount d) with hi | hi
  · rw [if_neg (not_le.mpr hi)] at h
    obtain ⟨s, -, h⟩ := Option.bind_eq_some_iff.mp h
    split_ifs at h
    · cases h
      exact .inr rfl
    · obtain ⟨e, -, he⟩ := Option.bind_eq_some_iff.mp h
      cases he
      exact .inl rfl
    · cases h
      exact .inr rfl
    · obtain ⟨e, -, he⟩ := Option.bind_eq_some_iff.mp h
      cases he
      exact .inl rfl
  · rw [if_pos hi] at h
    cases h
    exact .inr rfl

/-- `InsertTuple` without room does not touch the page. -/
theorem insertTuple_none {d d' : PageData} {bytes : List UInt8}
    (h : insertTuple d bytes = some (none, d')) : d' = d := by
  unfold insertTuple at h
  split_ifs at h
  · simp [Option.bind_eq_some_iff] at h
  · cases h
    rfl

theorem insertVisit_honest (bytes : List UInt8) : Honest (insertVisit bytes) := by
  intro d v h
  unfold insertVisit at h
  split_ifs at h
  · obtain ⟨⟨slotId, d'⟩, hi, he⟩ := Option.bind_eq_some_iff.mp h
    cases he
    cases slotId with
    | none => exact .inr (insertTuple_none hi)
    | some i => exact .inl rfl
  · cases h
    exact .inr rfl

/-- With room `InsertTuple` does not report failure. -/
theorem insertTuple_some {d d' : PageData} {bytes : List UInt8} {slotId : Option ℕ}
    (h : insertTuple d bytes = some (slotId, d')) (hr : hasEnoughSpace d bytes.length = true) :
    slotId.isSome = true := by
  unfold insertTuple at h
  rw [if_pos hr] at h
  obtain ⟨_, -, h⟩ := Option.bind_eq_some_iff.mp h
  obtain ⟨_, -, h⟩ := Option.bind_eq_some_iff.mp h
  cases h
  rfl

theorem compactVisit_honest (bytes : List UInt8) : Honest (compactVisit bytes) := by
  intro d v h
  obtain ⟨e, -, h⟩ := Option.bind_eq_some_iff.mp h
  split_ifs at h with hr
  · obtain ⟨⟨slotId, d'⟩, hi, he⟩ := Option.bind_eq_some_iff.mp h
    cases he
    exact .inl (insertTuple_some hi hr)
  · cases h
    exact .inl rfl

namespace RecordManager

/-- Between calls: the pool holds, in frames or on disk, exactly the pages of `h`. -/
structure Refines (rm : RecordManager) (h : HeapFile) : Prop where
  quiet : rm.pool.Quiet
  ids : rm.pageIds = h.ids
  next : rm.pool.nextPageId = h.next
  range : ∀ p ∈ h.ids, 0 ≤ p ∧ p < h.next
  has : ∀ p ∈ h.ids, rm.pool.Has p (h.page p)

/-- Equal answers, and afterwards the same pages unless an id beyond the addressable ones
was given out. -/
def Agree {α : Type} (x : α × RecordManager) (y : α × HeapFile) : Prop :=
  x.1 = y.1 ∧ x.2.pool.nextPageId = y.2.next ∧ (y.2.next ≤ 524288 → x.2.Refines y.2)

variable {rm : RecordManager} {h : HeapFile}

theorem some_of_rel {α : Type} {P : RecordManager → HeapFile → Prop}
    {x : Option (α × RecordManager)} {a : α} {h' : HeapFile}
    (hrel : Option.Rel (fun x y => x.1 = y.1 ∧ P x.2 y.2) x (some (a, h'))) :
    ∃ rm', x = some (a, rm') ∧ P rm' h' := by
  cases hrel with
  | @some x _ hR =>
    obtain ⟨a, rm'⟩ := x
    obtain ⟨rfl, hr'⟩ := hR
    exact ⟨rm', rfl, hr'⟩

theorem some_of_agree {α : Type} {x : Option (α × RecordManager)} {a : α} {h' : HeapFile}
    (hrel : Option.Rel Agree x (some (a, h'))) : ∃ rm', x = some (a, rm') ∧
      rm'.pool.nextPageId = h'.next ∧ (h'.next ≤ 524288 → rm'.Refines h') := by
  cases hrel with
  | @some x _ hR =>
    obtain ⟨a, rm'⟩ := x
    obtain ⟨rfl, hr'⟩ := hR
    exact ⟨rm', rfl, hr'⟩

theorem Refines.agree {α : Type} (hr : rm.Refines h) (a : α) : Agree (a, rm) (a, h) :=
  ⟨rfl, hr.next, fun _ => hr⟩

theorem new_refines {dm : DiskManager} (hp : dm.plan = []) :
    (new dm).Refines HeapFile.empty where
  quiet := ⟨BufferPoolManager.new_sound 10 hp, fun _ => rfl⟩
  ids := rfl
  next := rfl
  range := nofun
  has := nofun

theorem Refines.visit {α : Type} (hr : rm.Refines h) {p : ℤ} (hp : p ∈ h.ids) (absent : α)
    {act : PageData → Option (Visit α)} (ha : Honest act) :
    Option.Rel (fun x y => x.1 = y.1 ∧ x.2.Refines y.2) (rm.visit p absent act)
      (h.visit p act) := by
  obtain ⟨h0, hlt⟩ := hr.range p hp
  obtain ⟨f, b, he, hv, hnext, hhas⟩ :=
    hr.quiet.fetchPage (by norm_num) h0 (hr.next.symm ▸ hlt)
  have hd : (b.pages f).data = h.page p := (hhas p _ (hr.has p hp)).frame f hv.look
  simp only [RecordManager.visit, he, HeapFile.visit, hd]
  cases hact : act (h.page p) with
  | none => exact .none
  | some v =>
    obtain ⟨hq, hn, hown, hother⟩ := hv.leave v.data v.dirty
    refine .some ⟨rfl, hq, hr.ids, hn.trans (hnext.trans hr.next), hr.range, fun q hq' => ?_⟩
    by_cases hqp : q = p
    · subst hqp
      simp only [Function.update_self]
      refine hown ((ha _ v hact).imp id fun hdata => ?_)
      rw [hdata]
      exact hhas q _ (hr.has q hp)
    · simp only [Function.update_of_ne hqp]
      exact hother q _ hqp (hhas q _ (hr.has q hq'))

theorem Refines.get (hr : rm.Refines h) {rid : RecordId} (hp : rid.pageId ∈ h.ids) :
    Option.Rel (fun x y => x.1 = y.1 ∧ x.2.Refines y.2) (rm.get rid) (h.get rid) := by
  unfold RecordManager.get
  rw [if_neg (ne_invalid_of_nonneg (hr.range _ hp).1)]
  exact hr.visit hp none (getVisit_honest _)

theorem Refines.delete (hr : rm.Refines h) {rid : RecordId} (hp : rid.pageId ∈ h.ids) :
    Option.Rel (fun x y => x.1 = y.1 ∧ x.2.Refines y.2) (rm.delete rid) (h.delete rid) := by
  unfold RecordManager.delete
  rw [if_neg (ne_invalid_of_nonneg (hr.range _ hp).1)]
  exact hr.visit hp false (deleteVisit_honest _)

theorem Refines.update (hr : rm.Refines h) {rid : RecordId} (hp : rid.pageId ∈ h.ids)
    (bytes : List UInt8) : Option.Rel (fun x y => x.1 = y.1 ∧ x.2.Refines y.2)
      (rm.update rid bytes) (h.update rid bytes) := by
  have hne := ne_invalid_of_nonneg (hr.range _ hp).1
  unfold RecordManager.update HeapFile.update
  simp only [hne, false_or]
  split_ifs
  · exact .some ⟨rfl, hr⟩
  · exact hr.visit hp false (updateVisit_honest _ _)

theorem Refines.getSlotCount (hr : rm.Refines h) {p : ℤ} (hp : p ∈ h.ids) :
    Option.Rel (fun x y => x.1 = y.1 ∧ x.2.Refines y.2) (rm.getSlotCount p)
      (h.getSlotCount p) := hr.visit hp 0 slotCountVisit_honest

theorem Refines.tryPages {act : PageData → Option (Visit (Option ℕ))} (ha : Honest act)
    (ps : List ℤ) (hr : rm.Refines h) (hps : ∀ p ∈ ps, p ∈ h.ids) :
    Option.Rel (fun x y => x.1 = y.1 ∧ x.2.Refines y.2) (RecordManager.tryPages act ps rm)
      (HeapFile.tryPages act ps h) := by
  induction ps generalizing rm h with
  | nil => exact .some ⟨rfl, hr⟩
  | cons p ps ih =>
    have hv := hr.visit (hps p (by simp)) none ha
    have hids : ∀ y h', h.visit p act = some (y, h') → h'.ids = h.ids :=
      fun _ _ hy => (HeapFile.visit_ids hy).1
    unfold RecordManager.tryPages HeapFile.tryPages
    refine rel_bind_mem hv fun x y hy hxy => ?_
    obtain ⟨x, rm'⟩ := x
    obtain ⟨y, h'⟩ := y
    obtain ⟨rfl, hr'⟩ := hxy
    cases x with
    | some i => exact .some ⟨rfl, hr'⟩
    | none =>
      refine ih hr' fun q hq => ?_
      rw [hids _ _ hy]
      exact hps q (by simp [hq])

/-- A page more, with the id the heap gives it. -/
theorem Refines.insertNew (hr : rm.Refines h) (bytes : List UInt8) :
    Option.Rel Agree (rm.insertNew bytes) (h.insertNew bytes) := by
  obtain ⟨f, b, he, hnext, hzero⟩ := hr.quiet.newPage_next (by norm_num)
  unfold RecordManager.insertNew HeapFile.insertNew
  simp only [he, hzero, hr.next]
  cases hi : insertTuple (initializePage zeroPage h.next) bytes with
  | none => exact .none
  | some x =>
    obtain ⟨slotId, d⟩ := x
    have hnext' : ((b.setData f d).unpinPage h.next slotId.isSome).2.nextPageId = h.next + 1 := by
      rw [BufferPoolManager.unpinPage_next]
      exact hr.next ▸ hnext
    -- within the addressable ids the pool keeps every other page
    have hin : h.next < 524288 → ((b.setData f d).unpinPage h.next slotId.isSome).2.Quiet ∧
        (slotId.isSome = true →
          ((b.setData f d).unpinPage h.next slotId.isSome).2.Has h.next d) ∧
        ∀ q ∈ h.ids, ((b.setData f d).unpinPage h.next slotId.isSome).2.Has q (h.page q) := by
      intro hlt
      obtain ⟨g, b', he', hv, -, -, hhas⟩ := hr.quiet.newPage (by norm_num) (hr.next ▸ hlt)
      obtain ⟨hfg, rfl⟩ := Prod.mk.inj (he.symm.trans he')
      obtain rfl : f = g := by simpa using hfg
      rw [hr.next] at hv hhas
      obtain ⟨hq, -, hown, hother⟩ := hv.leave d slotId.isSome
      refine ⟨hq, fun hx => hown (.inl hx), fun q hq' => ?_⟩
      have hne : q ≠ h.next := by
        have := (hr.range q hq').2
        omega
      exact hother q _ hne (hhas q _ hne (hr.has q hq'))
    cases slotId with
    | some i =>
      refine .some ⟨rfl, hnext', fun hle => ?_⟩
      obtain ⟨hq, hown, hother⟩ := hin (by simp only at hle; omega)
      have h0 : 0 ≤ h.next := hr.next ▸ hr.quiet.next_nonneg
      refine ⟨hq, by simp only [hr.ids], hnext', fun q hq' => ?_, fun q hq' => ?_⟩
      · rcases List.mem_append.mp hq' with hq' | hq'
        · have := hr.range q hq'
          simp only
          omega
        · rw [List.mem_singleton.mp hq']
          simp only
          omega
      · rcases List.mem_append.mp hq' with hq' | hq'
        · have hne : q ≠ h.next := by
            have := (hr.range q hq').2
            omega
          simp only [Function.update_of_ne hne]
          exact hother q hq'
        · rw [List.mem_singleton.mp hq']
          simp only [Function.update_self]
          exact hown rfl
    | none =>
      refine .some ⟨rfl, hnext', fun hle => ?_⟩
      obtain ⟨hq, -, hother⟩ := hin (by simp only at hle; omega)
      refine ⟨hq, hr.ids, hnext', fun q hq' => ?_, hother⟩
      have := hr.range q hq'
      simp only
      omega

theorem Refines.insert (hr : rm.Refines h) (bytes : List UInt8) :
    Option.Rel Agree (rm.insert bytes) (h.insert bytes) := by
  unfold RecordManager.insert HeapFile.insert
  split_ifs
  · exact .some (hr.agree _)
  · have h₁ := hr.tryPages (insertVisit_honest bytes) h.ids fun _ hp => hp
    rw [hr.ids]
    refine rel_bind h₁ fun x y hxy => ?_
    obtain ⟨x, rm₁⟩ := x
    obtain ⟨y, h'⟩ := y
    obtain ⟨rfl, hr₁⟩ := hxy
    cases x with
    | some rid => exact .some (hr₁.agree rid)
    | none =>
      have hr₁ : rm₁.Refines h' := hr₁
      have h₂ := hr₁.tryPages (compactVisit_honest bytes) h'.ids fun _ hp => hp
      simp only [hr₁.ids]
      refine rel_bind h₂ fun x y hxy => ?_
      obtain ⟨x, rm₂⟩ := x
      obtain ⟨y, h''⟩ := y
      obtain ⟨rfl, hr₂⟩ := hxy
      cases x with
      | some rid => exact .some (hr₂.agree rid)
      | none => exact hr₂.insertNew bytes

theorem Refines.flush (hr : rm.Refines h) : rm.flush.Refines h where
  quiet := hr.quiet.flushAllPages
  ids := hr.ids
  next := hr.quiet.flushAllPages_next.trans hr.next
  range := hr.range
  has p hp := (hr.has p hp).flushAllPages hr.quiet.toSound

end RecordManager
end PragmaticDB
