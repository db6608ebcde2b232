import PragmaticDB.Storage.BufferPoolShape
import PragmaticDB.Storage.RecordRuns

/-!
Pins of the record layer. Whatever record and page ids a caller makes up, every call unpins the
one page it pinned, so between calls each frame can be taken and no fetch comes back empty.
-/
namespace PragmaticDB
open CallMachine

namespace BufferPoolManager
variable {n : ℕ} {b b' : BufferPoolManager n} {p : ℤ} {f : Fin n}

/-- No frame is pinned, and each is on one of the lists. -/
structure Idle (b : BufferPoolManager n) : Prop where
  unpinned : ∀ f, (b.pages f).pinCount = 0
  listed : ∀ f, f ∈ b.freeList ∨ f ∈ b.lru.toList

/-- The same, but for frame `f`, which has one pin for page `p`. -/
structure Holding (b : BufferPoolManager n) (p : ℤ) (f : Fin n) : Prop where
  mapped : b.pageTable.lookup p = some f
  pinned : (b.pages f).pinCount = 1
  unpinned : ∀ g, g ≠ f → (b.pages g).pinCount = 0
  listed : ∀ g, g ≠ f → g ∈ b.freeList ∨ g ∈ b.lru.toList

theorem new_idle (n : ℕ) (dm : DiskManager) : (new n dm).Idle :=
  ⟨fun _ => rfl, fun f => .inl (List.mem_finRange f)⟩

/-- A frame to take: the rest stays on the lists. -/
theorem Idle.victim (hi : b.Idle) (hn : 0 < n) :
    ∃ f b', b.getFreeFrameOrVictim = some (f, b') ∧ b'.pages = b.pages ∧
      b'.nextPageId = b.nextPageId ∧ ∀ g, g ≠ f → g ∈ b'.freeList ∨ g ∈ b'.lru.toList := by
  unfold getFreeFrameOrVictim
  cases hfree : b.freeList with
  | cons f free =>
    refine ⟨f, _, rfl, rfl, rfl, fun g hg => ?_⟩
    rcases hi.listed g with h | h
    · rw [hfree] at h
      exact .inl ((List.mem_cons.mp h).resolve_left hg)
    · exact .inr h
  | nil =>
    have hlru : ∀ g, g ∈ b.lru.toList := fun g => (hi.listed g).resolve_left (by simp [hfree])
    cases hpop : b.lru.popFront with
    | none =>
      have hempty := HandleList.popFront_none.mp hpop
      have hmem := hlru ⟨0, hn⟩
      rw [hempty] at hmem
      cases hmem
    | some x =>
      obtain ⟨f, lru⟩ := x
      refine ⟨f, _, rfl, rfl, rfl, fun g hg => .inr ?_⟩
      have hmem := hlru g
      rw [HandleList.popFront_some hpop] at hmem
      exact (List.mem_cons.mp hmem).resolve_left hg

theorem takeOver_holding (hpins : ∀ g, g ≠ f → (b.pages g).pinCount = 0)
    (hlist : ∀ g, g ≠ f → g ∈ b.freeList ∨ g ∈ b.lru.toList) : (b.takeOver f p).Holding p f := by
  obtain ⟨hpages, hfree, hlru, -⟩ := evict_same b f
  constructor
  · exact AList.lookup_insert _
  · simp [takeOver, pinFrame, setPage]
  · intro g hg
    simp [takeOver, pinFrame, setPage, Function.update_of_ne hg, hpages, hpins g hg]
  · intro g hg
    change g ∈ (b.evict f).freeList ∨ g ∈ ((b.evict f).lru.erase f).toList
    rw [hfree, hlru, HandleList.mem_toList_erase]
    exact (hlist g hg).imp_right fun h => ⟨h, hg⟩

theorem Holding.setData (hh : b.Holding p f) (g : Fin n) (d : PageData) :
    (b.setData g d).Holding p f := by
  have hpins : ∀ k, ((b.setData g d).pages k).pinCount = (b.pages k).pinCount := by
    exact (setData_same b g d).pinCount
  exact ⟨hh.mapped, (hpins f).trans hh.pinned, fun k hk => (hpins k).trans (hh.unpinned k hk),
    hh.listed⟩

theorem Idle.fetchPage (hi : b.Idle) (hn : 0 < n) (p : ℤ) :
    ∃ f, (b.fetchPage p).1 = some f ∧ (b.fetchPage p).2.Holding p f := by
  unfold BufferPoolManager.fetchPage
  cases hl : b.pageTable.lookup p with
  | some f =>
    refine ⟨f, rfl, hl, ?_, fun g hg => ?_, fun g hg => ?_⟩
    · simp [pinFrame, setPage, hi.unpinned f]
    · simp [pinFrame, setPage, Function.update_of_ne hg, hi.unpinned g]
    · change g ∈ b.freeList ∨ g ∈ (b.lru.erase f).toList
      rw [HandleList.mem_toList_erase]
      exact (hi.listed g).imp_right fun h => ⟨h, hg⟩
  | none =>
    obtain ⟨f, b', hv, hpages, -, hlist⟩ := hi.victim hn
    have hpins : ∀ g, g ≠ f → (b'.pages g).pinCount = 0 := fun g _ => by
      rw [hpages, hi.unpinned g]
    simp only [hv]
    exact ⟨f, rfl, (takeOver_holding hpins hlist).setData _ _⟩

theorem Idle.newPage (hi : b.Idle) (hn : 0 < n) :
    ∃ f, b.newPage.1 = some (b.nextPageId, f) ∧ b.newPage.2.Holding b.nextPageId f := by
  obtain ⟨f, b', hv, hpages, hnext, hlist⟩ := hi.victim hn
  have hpins : ∀ g, g ≠ f → (b'.pages g).pinCount = 0 := fun g _ => by
    rw [hpages, hi.unpinned g]
  have hhold : (BufferPoolManager.takeOver { b' with nextPageId := b.nextPageId + 1 } f
      b.nextPageId).Holding b.nextPageId f := takeOver_holding hpins hlist
  unfold BufferPoolManager.newPage
  simp only [hv, hnext]
  exact ⟨f, rfl, hhold.setData _ _⟩

theorem Holding.unpinPage (hh : b.Holding p f) (d : Bool) : (b.unpinPage p d).2.Idle := by
  rcases unpinPage_cases b p d with ⟨-, hzero⟩ | ⟨g, hl, -, he⟩
  · have h0 := hzero f hh.mapped
    rw [hh.pinned] at h0
    cases h0
  · obtain rfl := Option.some.inj (hh.mapped.symm.trans hl)
    rw [he]
    constructor
    · intro g
      by_cases hg : g = f
      · subst hg
        simp [unpinFrame, setPage, hh.pinned]
      · simp [unpinFrame, setPage, Function.update_of_ne hg, hh.unpinned g hg]
    · intro g
      change g ∈ b.freeList ∨ g ∈ (b.lru.pushBack f).toList
      rw [HandleList.mem_toList_pushBack]
      by_cases hg : g = f
      · exact .inr (.inr hg)
      · exact (hh.listed g hg).imp_right .inl

theorem Idle.same (hi : b.Idle) (hs : SamePlaces b b') : b'.Idle := by
  constructor
  · intro g
    exact (hs.pinCount g).trans (hi.unpinned g)
  · intro g
    rw [hs.free, hs.lru]
    exact hi.listed g

theorem Idle.flushAllPages (hi : b.Idle) : b.flushAllPages.Idle :=
  hi.same (flushAllPages_same b)

end BufferPoolManager

namespace RecordManager

/-! The calls, undefined where `FetchPage` or `NewPage` gives no page. -/
namespace Paged

def visit {α : Type} (rm : RecordManager) (p : ℤ) (act : PageData → Option (Visit α)) :
    Option (α × RecordManager) :=
  match rm.pool.fetchPage p with
  | (none, _) => none
  | (some f, pool) => do
    let v ← act (pool.pages f).data
    some (v.answer, { rm with pool := ((pool.setData f v.data).unpinPage p v.dirty).2 })

def tryPages (act : PageData → Option (Visit (Option ℕ))) :
    List ℤ → RecordManager → Option (Option RecordId × RecordManager)
  | [], rm => some (none, rm)
  | p :: ps, rm => do
    let (slotId, rm) ← visit rm p act
    match slotId with
    | some i => some (some ⟨p, i⟩, rm)
    | none => tryPages act ps rm

def insertNew (rm : RecordManager) (bytes : List UInt8) : Option (RecordId × RecordManager) :=
  match rm.pool.newPage with
  | (none, _) => none
  | (some _, _) => rm.insertNew bytes

def insert (rm : RecordManager) (bytes : List UInt8) : Option (RecordId × RecordManager) :=
  if bytes.length = 0 ∨ 65535 < bytes.length then some (invalidRecordId, rm)
  else do
    let (rid, rm) ← tryPages (insertVisit bytes) rm.pageIds rm
    match rid with
    | some rid => some (rid, rm)
    | none => do
      let (rid, rm) ← tryPages (compactVisit bytes) rm.pageIds rm
      match rid with
      | some rid => some (rid, rm)
      | none => insertNew rm bytes

def answer (rm : RecordManager) : RecordCall → Option (RecordReply × RecordManager)
  | .insert bytes => (insert rm bytes).map fun x => (.rid x.1, x.2)
  | .update rid bytes =>
    if rid.pageId = invalidPageId ∨ bytes.length = 0 ∨ 65535 < bytes.length then
      some (.ok false, rm)
    else (visit rm rid.pageId (updateVisit rid.slotId bytes)).map fun x => (.ok x.1, x.2)
  | .delete rid =>
    if rid.pageId = invalidPageId then some (.ok false, rm)
    else (visit rm rid.pageId (deleteVisit rid.slotId)).map fun x => (.ok x.1, x.2)
  | .get rid =>
    if rid.pageId = invalidPageId then some (.bytes none, rm)
    else (visit rm rid.pageId (getVisit rid.slotId)).map fun x => (.bytes x.1, x.2)
  | .getSlotCount p => (visit rm p slotCountVisit).map fun x => (.count x.1, x.2)
  | .flush => some (.unit, rm.flush)

end Paged

variable {rm : RecordManager}

/-- A visit gets its page, and unpins it. -/
theorem visit_idle {α : Type} (hi : rm.pool.Idle) (p : ℤ) (absent : α)
    (act : PageData → Option (Visit α)) :
    rm.visit p absent act = Paged.visit rm p act ∧
      ∀ a rm', rm.visit p absent act = some (a, rm') → rm'.pool.Idle := by
  obtain ⟨f, hf, hh⟩ := hi.fetchPage (by decide) p
  have he : rm.pool.fetchPage p = (some f, (rm.pool.fetchPage p).2) := Prod.ext hf rfl
  unfold RecordManager.visit Paged.visit
  rw [he]
  refine ⟨rfl, fun a rm' hx => ?_⟩
  obtain ⟨v, -, hx⟩ := Option.bind_eq_some_iff.mp hx
  cases hx
  exact (hh.setData f v.data).unpinPage v.dirty

theorem tryPages_idle (act : PageData → Option (Visit (Option ℕ))) (ps : List ℤ)
    (hi : rm.pool.Idle) : tryPages act ps rm = Paged.tryPages act ps rm ∧
      ∀ rid rm', tryPages act ps rm = some (rid, rm') → rm'.pool.Idle := by
  induction ps generalizing rm with
  | nil =>
    refine ⟨rfl, fun rid rm' h => ?_⟩
    cases h
    exact hi
  | cons p ps ih =>
    obtain ⟨heq, hvis⟩ := visit_idle hi p none act
    unfold tryPages Paged.tryPages
    rw [← heq]
    cases hv : rm.visit p none act with
    | none =>
      refine ⟨rfl, fun rid rm' h => ?_⟩
      cases h
    | some x =>
      obtain ⟨slotId, rm₁⟩ := x
      have hi₁ := hvis _ _ hv
      cases slotId with
      | some i =>
        refine ⟨rfl, fun rid rm' h => ?_⟩
        cases h
        exact hi₁
      | none => exact ih hi₁

theorem insertNew_idle (hi : rm.pool.Idle) (bytes : List UInt8) :
    rm.insertNew bytes = Paged.insertNew rm bytes ∧
      ∀ rid rm', rm.insertNew bytes = some (rid, rm') → rm'.pool.Idle := by
  obtain ⟨f, hf, hh⟩ := hi.newPage (by decide)
  have he : rm.pool.newPage = (some (rm.pool.nextPageId, f), rm.pool.newPage.2) :=
    Prod.ext hf rfl
  constructor
  · unfold Paged.insertNew
    rw [he]
  · intro rid rm' hx
    unfold insertNew at hx
    rw [he] at hx
    obtain ⟨⟨slotId, d⟩, -, hx⟩ := Option.bind_eq_some_iff.mp hx
    have hi' := (hh.setData f d).unpinPage slotId.isSome
    cases slotId with
    | some i =>
      cases hx
      exact hi'
    | none =>
      cases hx
      exact hi'

theorem insert_idle (hi : rm.pool.Idle) (bytes : List UInt8) :
    rm.insert bytes = Paged.insert rm bytes ∧
      ∀ rid rm', rm.insert bytes = some (rid, rm') → rm'.pool.Idle := by
  unfold RecordManager.insert Paged.insert
  split_ifs with hsize
  · refine ⟨rfl, fun rid rm' h => ?_⟩
    cases h
    exact hi
  · obtain ⟨heq, hkeep⟩ := tryPages_idle (insertVisit bytes) rm.pageIds hi
    rw [← heq]
    cases h1 : tryPages (insertVisit bytes) rm.pageIds rm with
    | none =>
      refine ⟨rfl, fun rid rm' h => ?_⟩
      cases h
    | some x =>
      obtain ⟨rid₁, rm₁⟩ := x
      have hi₁ := hkeep _ _ h1
      cases rid₁ with
      | some rid₁ =>
        refine ⟨rfl, fun rid rm' h => ?_⟩
        cases h
        exact hi₁
      | none =>
        obtain ⟨heq₁, hkeep₁⟩ := tryPages_idle (compactVisit bytes) rm₁.pageIds hi₁
        simp only [Option.bind_some, Option.bind_eq_bind]
        rw [← heq₁]
        cases h2 : tryPages (compactVisit bytes) rm₁.pageIds rm₁ with
        | none =>
          refine ⟨rfl, fun rid rm' h => ?_⟩
          cases h
        | some y =>
          obtain ⟨rid₂, rm₂⟩ := y
          have hi₂ := hkeep₁ _ _ h2
          cases rid₂ with
          | some rid₂ =>
            refine ⟨rfl, fun rid rm' h => ?_⟩
            cases h
            exact hi₂
          | none => exact insertNew_idle hi₂ bytes

theorem map_idle {α : Type} {x : Option (α × RecordManager)} {reply : α → RecordReply}
    (hkeep : ∀ a rm', x = some (a, rm') → rm'.pool.Idle) {r : RecordReply} {rm' : RecordManager}
    (h : (x.map fun y => (reply y.1, y.2)) = some (r, rm')) : rm'.pool.Idle := by
  obtain ⟨⟨a, rm₁⟩, hx, he⟩ := Option.map_eq_some_iff.mp h
  cases he
  exact hkeep a rm₁ hx

/-- A call that is refused, or visits a page. -/
theorem guarded_idle {α : Type} {P : Prop} [Decidable P] (hi : rm.pool.Idle) (p : ℤ) (absent : α)
    (act : PageData → Option (Visit α)) (reply : α → RecordReply) :
    (if P then some (absent, rm) else rm.visit p absent act).map (fun x => (reply x.1, x.2)) =
        (if P then some (reply absent, rm)
          else (Paged.visit rm p act).map fun x => (reply x.1, x.2)) ∧
      ∀ r rm', (if P then some (absent, rm) else rm.visit p absent act).map
        (fun x => (reply x.1, x.2)) = some (r, rm') → rm'.pool.Idle := by
  obtain ⟨heq, hkeep⟩ := visit_idle hi p absent act
  split_ifs with hbad
  · refine ⟨rfl, fun r rm' h => ?_⟩
    cases h
    exact hi
  · exact ⟨congrArg (Option.map _) heq, fun r rm' h => map_idle hkeep h⟩

/-- A call on idle frames is the call that always gets its pages, and leaves idle frames. -/
theorem answer_idle (hi : rm.pool.Idle) (c : RecordCall) : rm.answer c = Paged.answer rm c ∧
    ∀ r rm', rm.answer c = some (r, rm') → rm'.pool.Idle := by
  cases c with
  | insert bytes =>
    obtain ⟨heq, hkeep⟩ := insert_idle hi bytes
    exact ⟨congrArg (Option.map _) heq, fun r rm' h => map_idle hkeep h⟩
  | update rid bytes => exact guarded_idle hi rid.pageId false (updateVisit rid.slotId bytes) .ok
  | delete rid => exact guarded_idle hi rid.pageId false (deleteVisit rid.slotId) .ok
  | get rid => exact guarded_idle hi rid.pageId none (getVisit rid.slotId) .bytes
  | getSlotCount p =>
    obtain ⟨heq, hkeep⟩ := visit_idle hi p 0 slotCountVisit
    exact ⟨congrArg (Option.map _) heq, fun r rm' h => map_idle hkeep h⟩
  | flush =>
    refine ⟨rfl, fun r rm' h => ?_⟩
    cases h
    exact hi.flushAllPages

end RecordManager

/-- Callers that use any ids and sizes. -/
def anyCallMachine : Machine RecordManager RecordCall RecordReply where
  step := RecordManager.answer
  Allowed _ _ _ := True

instance (h : RecordHistory) (rm : RecordManager) (c : RecordCall) :
    Decidable (anyCallMachine.Allowed h rm c) := .isTrue trivial

namespace RecordManager

theorem anyCallMachine_preserves : anyCallMachine.Preserves fun _ rm => rm.pool.Idle :=
  fun _ _ c _ _ hi _ hstep => (answer_idle hi c).2 _ _ hstep

/-- After every call no frame is pinned and each is on a list, so no call misses a page. -/
theorem pins_balanced {dm : DiskManager} {hist : RecordHistory} {rm : RecordManager}
    (hr : anyCallMachine.Run (new dm) hist rm) :
    (∀ f, (rm.pool.pages f).pinCount = 0) ∧
    (∀ f, f ∈ rm.pool.freeList ∨ f ∈ rm.pool.lru.toList) ∧
    ∀ c, rm.answer c = Paged.answer rm c := by
  have hi := hr.preserved anyCallMachine_preserves (BufferPoolManager.new_idle 10 dm)
  exact ⟨hi.unpinned, hi.listed, fun c => (answer_idle hi c).1⟩

/-- A tuple that no page holds, a record, an update of one that is not there, and pages that were
never allocated: all of them are fetched and given back. -/
theorem foreign_pages_unpinned : ∃ hist rm, anyCallMachine.Run (new ⟨[], none, []⟩) hist rm ∧
    hist.map Prod.fst = [.delete ⟨8, 3⟩, .get ⟨7, 0⟩, .update ⟨1, 5⟩ [2], .insert [1],
      .insert (List.replicate 4085 0)] ∧ rm.pageIds = [1] ∧
    (∀ f, (rm.pool.pages f).pinCount = 0) ∧ (rm.pool.pages 3).pageId = 8 := by
  have heval : (anyCallMachine.play [.insert (List.replicate 4085 0), .insert [1],
      .update ⟨1, 5⟩ [2], .get ⟨7, 0⟩, .delete ⟨8, 3⟩] [] (new ⟨[], none, []⟩)).map (fun x =>
        (x.2.pageIds, (x.2.pool.pages 3).pageId)) = some ([1], 8) := by
    decide +kernel
  obtain ⟨⟨hist, rm⟩, hplay, heq⟩ := Option.map_eq_some_iff.mp heval
  obtain ⟨hids, hlast⟩ := Prod.mk.inj heq
  have hrun := Machine.Run.start.play hplay
  exact ⟨hist, rm, hrun, Machine.play_calls hplay, hids, (pins_balanced hrun).1, hlast⟩

end RecordManager
end PragmaticDB
