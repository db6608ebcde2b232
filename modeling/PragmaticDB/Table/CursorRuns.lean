import PragmaticDB.Table.Cursors

/-!
Runs of a table and any number of iterators, in any order. An iterator goes on through whatever
rows there are by then, so it is to the rows that stay that it owes something.
-/
namespace PragmaticDB
open CallMachine

/-- A table, and the iterators that its users have, by number. -/
structure Cursors where
  table : TableManager
  iterators : ℕ → Option TableIterator

inductive CursorCall where
  | insertTuple (tuple : List UInt8)
  | deleteTuple (rid : RecordId)
  | getTuple (rid : RecordId)
  | flush
  | begin (k : ℕ)
  | next (k : ℕ)
  | deref (k : ℕ)
  deriving DecidableEq

/-- `begin` and `next` answer with the `GetRid` of the iterator they leave. -/
inductive CursorReply where
  | rid (rid : RecordId)
  | ok (ok : Bool)
  | tuple (bytes : List UInt8)
  | unit
  deriving DecidableEq

/-- Newest call first. -/
abbrev CursorHistory := List (CursorCall × CursorReply)

namespace Cursors

def new (dm : DiskManager) : Cursors := ⟨TableManager.new dm, fun _ => none⟩

def setIterator (s : Cursors) (k : ℕ) (it : TableIterator) (rm : RecordManager) : Cursors :=
  ⟨⟨rm⟩, Function.update s.iterators k (some it)⟩

def answer (s : Cursors) : CursorCall → Option (CursorReply × Cursors)
  | .insertTuple tuple =>
    (s.table.insertTuple tuple).map fun x => (.rid x.1, { s with table := x.2 })
  | .deleteTuple rid => (s.table.deleteTuple rid).map fun x => (.ok x.1, { s with table := x.2 })
  | .getTuple rid => (s.table.getTuple rid).map fun x => (.tuple x.1, { s with table := x.2 })
  | .flush => some (.unit, { s with table := s.table.flush })
  | .begin k =>
    (TableManager.begin s.table.recordManager).map fun x => (.rid x.1.rid, s.setIterator k x.1 x.2)
  | .next k => do
    let it ← s.iterators k
    (it.next s.table.recordManager).map fun x => (.rid x.1.rid, s.setIterator k x.1 x.2)
  | .deref k => do
    let it ← s.iterators k
    (it.deref s.table.recordManager).map fun x => (.tuple x.1, { s with table := ⟨x.2⟩ })

end Cursors

/-- What the calls are to the record manager, but for those that only read. -/
def asRecord : CursorCall × CursorReply → Option (RecordCall × RecordReply)
  | (.insertTuple tuple, .rid rid) => some (.insert tuple, .rid rid)
  | (.deleteTuple rid, .ok ok) => some (.delete rid, .ok ok)
  | _ => none

def records (h : CursorHistory) : RecordHistory := h.filterMap asRecord

/-- The tuple of a row, if there is one. -/
def rowOf (h : CursorHistory) (rid : RecordId) : Option (List UInt8) := lastBytes (records h) rid

/-- Users that use the record ids they were given, and their iterators up to `End`. -/
def cursorMachine : Machine Cursors CursorCall CursorReply where
  step := Cursors.answer
  Allowed h s c :=
    match c with
    | .insertTuple tuple => tuple.length ≤ 65531 ∧
        ∀ rid t, s.table.insertTuple tuple = some (rid, t) → t.getNextPageId ≤ 524288
    | .deleteTuple rid => Returned (records h) rid
    | .getTuple rid => Returned (records h) rid
    | .flush => True
    | .begin _ => True
    | .next k => ∃ it, s.iterators k = some it ∧ it.rid ≠ invalidRecordId
    | .deref k => ∃ it, s.iterators k = some it ∧ it.rid ≠ invalidRecordId

/-- The record id that this call returned. -/
def returned? : RecordCall × RecordReply → Option RecordId
  | (.insert _, .rid rid) => some rid
  | _ => none

instance (h : RecordHistory) (rid : RecordId) : Decidable (Returned h rid) :=
  decidable_of_iff (∃ x ∈ h, returned? x = some rid) <| by
    constructor
    · rintro ⟨⟨c, r⟩, hx, he⟩
      unfold returned? at he
      split at he
      · rename_i bytes r' heq
        cases he
        cases heq
        exact ⟨bytes, hx⟩
      · cases he
    · rintro ⟨bytes, hx⟩
      exact ⟨_, hx, rfl⟩

instance (h : CursorHistory) (s : Cursors) (c : CursorCall) :
    Decidable (cursorMachine.Allowed h s c) :=
  match c with
  | .insertTuple tuple => decidable_of_iff (tuple.length ≤ 65531 ∧
      ∀ x ∈ s.table.insertTuple tuple, x.2.getNextPageId ≤ 524288)
      (and_congr_right fun _ => ⟨fun hx rid t he => hx (rid, t) he, fun hx x he => hx x.1 x.2 he⟩)
  | .deleteTuple rid => inferInstanceAs (Decidable (Returned (records h) rid))
  | .getTuple rid => inferInstanceAs (Decidable (Returned (records h) rid))
  | .flush => isTrue trivial
  | .begin _ => isTrue trivial
  | .next k => inferInstanceAs (Decidable (∃ it ∈ s.iterators k, it.rid ≠ invalidRecordId))
  | .deref k => inferInstanceAs (Decidable (∃ it ∈ s.iterators k, it.rid ≠ invalidRecordId))

/-! Iterators in the history. -/

/-- The walk of iterator `k` since it was `Begin`. -/
def sweep : CursorHistory → ℕ → Sweep RecordId
  | [], _ => ⟨[], true⟩
  | (.begin j, .rid rid) :: h, k => if j = k then Sweep.start rid.valid? else sweep h k
  | (.next j, .rid rid) :: h, k => if j = k then (sweep h k).next rid.valid? else sweep h k
  | _ :: h, k => sweep h k

/-- There was such a row when iterator `k` was `Begin`, and it has not been deleted. -/
def steady : CursorHistory → ℕ → RecordId → Bool
  | [], _, _ => false
  | (.begin j, _) :: h, k, rid => if j = k then (rowOf h rid).isSome else steady h k rid
  | (.deleteTuple r, .ok true) :: h, k, rid => rid ≠ r && steady h k rid
  | _ :: h, k, rid => steady h k rid

/-- What those who read are told. -/
def Sees (h : CursorHistory) : CursorCall → CursorReply → Prop
  | .getTuple rid, o => o = .tuple ((rowOf h rid).getD [])
  | .deref k, o => ∃ rid, (sweep h k).position = some rid ∧ o = .tuple ((rowOf h rid).getD [])
  | .begin _, o => ∃ rid, o = .rid rid ∧ ∀ r ∈ rid.valid?, (rowOf h r).isSome
  | .next _, o => ∃ rid, o = .rid rid ∧ ∀ r ∈ rid.valid?, (rowOf h r).isSome
  | _, _ => True

/-! The invariant. -/

structure Swept (hist : CursorHistory) (s : Cursors) (h : HeapFile) : Prop where
  ordered : RecordManager.Ordered (records hist) s.table.recordManager h
  rows : ∀ rid, h.lookup rid = rowOf hist rid
  ascending : h.Ascending
  stands : ∀ k it, s.iterators k = some it → h.Stands it
  position : ∀ k it, s.iterators k = some it → (sweep hist k).position = it.rid.valid?
  covers : ∀ k, (sweep hist k).Covers {rid | steady hist k rid = true}
  live : ∀ k rid, steady hist k rid = true → rid ∈ h.live

variable {hist : CursorHistory} {s s' : Cursors} {h h' : HeapFile}

theorem new_swept {dm : DiskManager} (hdm : dm.plan = []) :
    Swept [] (Cursors.new dm) HeapFile.empty where
  ordered := RecordManager.new_ordered hdm
  rows _ := if_neg List.not_mem_nil
  ascending := .nil
  stands := nofun
  position := nofun
  covers _ := ⟨.nil, nofun⟩
  live := nofun

namespace Swept

/-- A call that only reads, of a table that stays as it is. -/
theorem read (hw : Swept hist s h) {rm : RecordManager} (hr : rm.Refines h)
    (hs : s' = { s with table := ⟨rm⟩ }) {c : CursorCall} {o : CursorReply}
    (hrecords : records ((c, o) :: hist) = records hist)
    (hsweep : sweep ((c, o) :: hist) = sweep hist)
    (hsteady : steady ((c, o) :: hist) = steady hist) : Swept ((c, o) :: hist) s' h := by
  subst hs
  refine ⟨?_, fun rid => ?_, hw.ascending, hw.stands, ?_, ?_, ?_⟩
  · rw [hrecords]
    exact { hw.ordered with refines := hr }
  · unfold rowOf
    rw [hrecords]
    exact hw.rows rid
  · rw [hsweep]
    exact hw.position
  · rw [hsweep, hsteady]
    exact hw.covers
  · rw [hsteady]
    exact hw.live

/-- An `InsertTuple` or a `DeleteTuple`. -/
theorem edit (hw : Swept hist s h) {rm : RecordManager} {c : RecordCall} {r : RecordReply}
    (ho : RecordManager.Ordered ((c, r) :: records hist) rm h') (he : Effect h c r h')
    (hs : s' = { s with table := ⟨rm⟩ }) {t : CursorCall} {o : CursorReply}
    (hrecords : records ((t, o) :: hist) = (c, r) :: records hist)
    (hsweep : sweep ((t, o) :: hist) = sweep hist)
    (hsteady : ∀ k rid, steady ((t, o) :: hist) k rid = true → steady hist k rid = true ∧
      ((rowOf hist rid).isSome → (rowOf ((t, o) :: hist) rid).isSome)) :
    Swept ((t, o) :: hist) s' h' := by
  subst hs
  have hg := hw.ordered.good
  have hrows : ∀ rid, h'.lookup rid = rowOf ((t, o) :: hist) rid := by
    intro rid
    unfold rowOf
    rw [hrecords]
    exact RecordManager.lookup_step hg he hw.rows
      (fun bytes _ => hg.compactsUpwards hw.ordered.descending bytes.length) rid
  refine ⟨hrecords ▸ ho, hrows, he.ascending hg hw.ascending,
    fun k it hk => he.stands hg (hw.stands k it hk), ?_, fun k => ?_, fun k rid hk => ?_⟩
  · rw [hsweep]
    exact hw.position
  · rw [hsweep]
    exact (hw.covers k).mono fun rid hk => (hsteady k rid hk).1
  · obtain ⟨hold, hstill⟩ := hsteady k rid hk
    have hlive := hw.live k rid hold
    simp only [HeapFile.live, Set.mem_ofPred_eq, hw.rows, hrows] at hlive ⊢
    exact hstill hlive

/-- An iterator is set, and has its place in the history. -/
theorem moved (hw : Swept hist s h) {rm : RecordManager} (hr : rm.Refines h) {j : ℕ}
    {it : TableIterator} (hst : h.Stands it) {c : CursorCall} {o : CursorReply}
    (hrecords : records ((c, o) :: hist) = records hist)
    (hsweep : ∀ k, k ≠ j → sweep ((c, o) :: hist) k = sweep hist k)
    (hsteady : ∀ k, k ≠ j → steady ((c, o) :: hist) k = steady hist k)
    (hposition : (sweep ((c, o) :: hist) j).position = it.rid.valid?)
    (hcovers : (sweep ((c, o) :: hist) j).Covers {rid | steady ((c, o) :: hist) j rid = true})
    (hlive : ∀ rid, steady ((c, o) :: hist) j rid = true → rid ∈ h.live) :
    Swept ((c, o) :: hist) (s.setIterator j it rm) h := by
  have hset : ∀ k it', (s.setIterator j it rm).iterators k = some it' →
      k = j ∧ it' = it ∨ k ≠ j ∧ s.iterators k = some it' := by
    intro k it' hk
    by_cases hkj : k = j
    · subst hkj
      simp only [Cursors.setIterator, Function.update_self, Option.some.injEq] at hk
      exact .inl ⟨rfl, hk.symm⟩
    · simp only [Cursors.setIterator, Function.update_of_ne hkj] at hk
      exact .inr ⟨hkj, hk⟩
  refine ⟨?_, fun rid => ?_, hw.ascending, fun k it' hk => ?_, fun k it' hk => ?_, fun k => ?_,
    fun k => ?_⟩
  · rw [hrecords]
    exact { hw.ordered with refines := hr }
  · unfold rowOf
    rw [hrecords]
    exact hw.rows rid
  · rcases hset k it' hk with ⟨rfl, rfl⟩ | ⟨-, hk⟩
    · exact hst
    · exact hw.stands k it' hk
  · rcases hset k it' hk with ⟨rfl, rfl⟩ | ⟨hkj, hk⟩
    · exact hposition
    · rw [hsweep k hkj]
      exact hw.position k it' hk
  · by_cases hkj : k = j
    · exact hkj ▸ hcovers
    · rw [hsweep k hkj, hsteady k hkj]
      exact hw.covers k
  · by_cases hkj : k = j
    · exact hkj ▸ hlive
    · rw [hsteady k hkj]
      exact hw.live k

theorem live_eq (hw : Swept hist s h) : h.live = {rid | (rowOf hist rid).isSome} := by
  unfold HeapFile.live
  simp only [hw.rows]

theorem begin (hw : Swept hist s h) (j : ℕ) : ∃ o s', s.answer (.begin j) = some (o, s') ∧
    Swept ((.begin j, o) :: hist) s' h ∧ Sees hist (.begin j) o := by
  have hg := hw.ordered.good
  obtain ⟨it, rm, he, hr, hst, hf⟩ :=
    HeapFile.begin_first (refines_reading hg) hg.nonneg hw.ascending hw.ordered.refines
  refine ⟨.rid it.rid, s.setIterator j it rm, by simp only [Cursors.answer, he]; rfl, ?_,
    it.rid, rfl, fun r hmem => ?_⟩
  · have hsweep : sweep ((.begin j, .rid it.rid) :: hist) j = Sweep.start it.rid.valid? :=
      if_pos rfl
    have hsteady : {rid | steady ((.begin j, .rid it.rid) :: hist) j rid = true} = h.live := by
      rw [hw.live_eq]
      ext rid
      simp [steady]
    refine hw.moved hr hst rfl (fun k hk => if_neg hk.symm) (fun k hk => ?_) ?_ ?_ fun rid hl => ?_
    · funext rid
      exact if_neg hk.symm
    · rw [hsweep]
      exact Sweep.position_moved _ _
    · rw [hsweep]
      exact .start hf hsteady.subset
    · exact hsteady.subset hl
  · have hlive := hf.mem r hmem
    rwa [hw.live_eq] at hlive

theorem next (hw : Swept hist s h) {j : ℕ} {it : TableIterator} (hk : s.iterators j = some it)
    (hne : it.rid ≠ invalidRecordId) : ∃ o s', s.answer (.next j) = some (o, s') ∧
      Swept ((.next j, o) :: hist) s' h ∧ Sees hist (.next j) o := by
  have hg := hw.ordered.good
  obtain ⟨it', rm, he, hr, hst, hf⟩ := HeapFile.next_first (refines_reading hg) hg.nonneg
    hw.ascending hw.ordered.refines (hw.stands j it hk) hne
  refine ⟨.rid it'.rid, s.setIterator j it' rm, ?_, ?_, it'.rid, rfl, fun r hmem => ?_⟩
  · simp only [Cursors.answer, hk, Option.bind_eq_bind, Option.bind_some, he]
    rfl
  · have hsweep : sweep ((.next j, .rid it'.rid) :: hist) j =
        (sweep hist j).next it'.rid.valid? := if_pos rfl
    have hposition := hw.position j it hk
    unfold RecordId.valid? at hposition
    rw [if_neg hne] at hposition
    obtain ⟨l, hpassed⟩ := Sweep.passed_of_position hposition
    refine hw.moved hr hst rfl (fun k hk => if_neg hk.symm) (fun k hk => rfl) ?_ ?_ (hw.live j)
    · rw [hsweep]
      exact Sweep.position_moved _ _
    · rw [hsweep]
      exact (hw.covers j).next hpassed hf (hw.live j)
  · have hlive := (hf.mem r hmem).1
    rwa [hw.live_eq] at hlive

/-- Reading the row of an id. -/
theorem get (hw : Swept hist s h) {rid : RecordId}
    (hrid : rid = invalidRecordId ∨ rid.pageId ∈ h.ids) :
    ∃ rm, s.table.recordManager.get rid = some (rowOf hist rid, rm) ∧ rm.Refines h := by
  rcases hrid with rfl | hp
  · have hnone : rowOf hist invalidRecordId = none := by
      rw [← hw.rows]
      exact if_neg fun hm => absurd (hw.ordered.good.range _ hm).1 (by decide)
    refine ⟨s.table.recordManager, ?_, hw.ordered.refines⟩
    rw [hnone]
    simp [RecordManager.get, invalidRecordId]
  · obtain ⟨rm, he, hr⟩ :=
      (refines_reading hw.ordered.good).get _ rid hw.ordered.refines hp
    refine ⟨rm, ?_, hr⟩
    rw [he, ← hw.rows, HeapFile.lookup, if_pos hp]

/-- Every allowed call is answered, and those who read are told what is there. -/
theorem answer (hw : Swept hist s h) {c : CursorCall} (ha : cursorMachine.Allowed hist s c) :
    ∃ o s' h', s.answer c = some (o, s') ∧ Swept ((c, o) :: hist) s' h' ∧ Sees hist c o := by
  have hknown := hw.ordered.known
  cases c with
  | insertTuple tuple =>
    have hins : recordMachine.Allowed (records hist) s.table.recordManager (.insert tuple) :=
      ⟨ha.1, fun rid rm hrm => ha.2 rid ⟨rm⟩ (by rw [TableManager.insertTuple, hrm]; rfl)⟩
    obtain ⟨r, rm, h', he, hk, heff⟩ := hw.ordered.toKept.answer hins
    obtain ⟨⟨rid, rm'⟩, hx, heq⟩ := Option.map_eq_some_iff.mp he
    cases heq
    have hc : NoUpdate (.insert tuple) := ha.1
    have hedit := hw.edit ⟨hk, heff.descending hw.ordered.good hc hw.ordered.descending⟩ heff
      rfl (t := .insertTuple tuple) (o := .rid rid) rfl rfl fun k r hr => ⟨hr, fun hrow => ?_⟩
    · refine ⟨.rid rid, _, h', ?_, hedit, trivial⟩
      simp only [Cursors.answer, TableManager.insertTuple, hx, Option.bind_eq_bind,
        Option.bind_some, Option.map_some]
    · change (if r = rid ∧ rid ≠ invalidRecordId then some tuple else rowOf hist r).isSome = true
      split_ifs
      · rfl
      · exact hrow
  | deleteTuple rid =>
    have hdel : recordMachine.Allowed (records hist) s.table.recordManager (.delete rid) := ha
    obtain ⟨r, rm, h', he, hk, heff⟩ := hw.ordered.toKept.answer hdel
    obtain ⟨⟨ok, rm'⟩, hx, heq⟩ := Option.map_eq_some_iff.mp he
    cases heq
    have hc : NoUpdate (.delete rid) := trivial
    have hedit := hw.edit ⟨hk, heff.descending hw.ordered.good hc hw.ordered.descending⟩ heff
      rfl (t := .deleteTuple rid) (o := .ok ok) rfl rfl fun k r hr => ?_
    · refine ⟨.ok ok, _, h', ?_, hedit, trivial⟩
      simp only [Cursors.answer, TableManager.deleteTuple, hx, Option.bind_eq_bind,
        Option.bind_some, Option.map_some]
    · cases ok with
      | false => exact ⟨hr, id⟩
      | true =>
        obtain ⟨hne, hr⟩ := Bool.and_eq_true_iff.mp hr
        refine ⟨hr, fun hrow => ?_⟩
        change (if r = rid then none else rowOf hist r).isSome = true
        rwa [if_neg (of_decide_eq_true hne)]
  | getTuple rid =>
    obtain ⟨rm, he, hr⟩ := hw.get ((hknown rid ha).imp_right And.left)
    refine ⟨.tuple _, _, h, ?_, hw.read hr rfl rfl rfl rfl, rfl⟩
    simp only [Cursors.answer, TableManager.getTuple, he, Option.bind_eq_bind, Option.bind_some,
      Option.map_some]
  | flush => exact ⟨.unit, _, h, rfl, hw.read hw.ordered.refines.flush rfl rfl rfl rfl, trivial⟩
  | begin k =>
    obtain ⟨o, s', he, hw', hsees⟩ := hw.begin k
    exact ⟨o, s', h, he, hw', hsees⟩
  | next k =>
    obtain ⟨it, hk, hne⟩ := ha
    obtain ⟨o, s', he, hw', hsees⟩ := hw.next hk hne
    exact ⟨o, s', h, he, hw', hsees⟩
  | deref k =>
    obtain ⟨it, hk, hne⟩ := ha
    have hp : it.rid.pageId ∈ h.ids := by
      obtain hend | ⟨hpage, -⟩ := hw.stands k it hk
      · exact absurd hend hne
      · exact List.mem_of_getElem? hpage
    obtain ⟨rm, he, hr⟩ := hw.get (.inr hp)
    refine ⟨.tuple _, _, h, ?_, hw.read hr rfl rfl rfl rfl, it.rid, ?_, rfl⟩
    · simp only [Cursors.answer, hk, TableIterator.deref, he, Option.bind_eq_bind,
        Option.bind_some, Option.map_some]
    · rw [hw.position k it hk, RecordId.valid?, if_neg hne]

end Swept

theorem cursorMachine_keeps : cursorMachine.Keeps fun hist s => ∃ h, Swept hist s h := by
  rintro hist s c ⟨h, hw⟩ ha
  obtain ⟨o, s', h', he, hw', -⟩ := hw.answer ha
  exact ⟨o, s', he, h', hw'⟩

/-- Whatever is inserted, deleted and read in between, by whichever iterators, an iterator passes
record ids in increasing order, rows that are there when it comes to them, and when it is at `End`
it has passed every row that it found at its `Begin` and that has not been deleted since. -/
theorem iterators_pass_rows {dm : DiskManager} (hdm : dm.plan = [])
    (hr : cursorMachine.Run (Cursors.new dm) hist s) (k : ℕ) :
    ((sweep hist k).passed.Pairwise fun a b => b < a) ∧
    ((sweep hist k).ended = true → ∀ rid, steady hist k rid = true → rid ∈ (sweep hist k).passed) ∧
    ∀ c, cursorMachine.Allowed hist s c → ∃ o s', s.answer c = some (o, s') ∧ Sees hist c o := by
  obtain ⟨h, hw⟩ := hr.invariant cursorMachine_keeps ⟨_, new_swept hdm⟩
  refine ⟨(hw.covers k).sorted, fun he rid hk => (hw.covers k).complete he hk, fun c ha => ?_⟩
  obtain ⟨o, s', h', he, -, hsees⟩ := hw.answer ha
  exact ⟨o, s', he, hsees⟩

/-- The first row is deleted under an iterator, and one is inserted before it comes to the end. -/
theorem rows_passed_meanwhile : ∃ hist s, cursorMachine.Run (Cursors.new ⟨[], none, []⟩) hist s ∧
    hist = [(.next 0, .rid invalidRecordId), (.next 0, .rid ⟨0, 2⟩), (.begin 1, .rid ⟨0, 1⟩),
      (.next 0, .rid ⟨0, 1⟩), (.insertTuple [4], .rid ⟨0, 2⟩), (.deleteTuple ⟨0, 0⟩, .ok true),
      (.begin 0, .rid ⟨0, 0⟩), (.insertTuple [2], .rid ⟨0, 1⟩),
      (.insertTuple [1], .rid ⟨0, 0⟩)] ∧
    (sweep hist 0).ended = true ∧ steady hist 0 ⟨0, 1⟩ = true ∧ steady hist 0 ⟨0, 0⟩ = false ∧
    (⟨0, 1⟩ : RecordId) ∈ (sweep hist 0).passed := by
  have heval : (cursorMachine.play [.insertTuple [1], .insertTuple [2], .begin 0,
      .deleteTuple ⟨0, 0⟩, .insertTuple [4], .next 0, .begin 1, .next 0, .next 0] []
        (Cursors.new ⟨[], none, []⟩)).map Prod.fst =
      some [(.next 0, .rid invalidRecordId), (.next 0, .rid ⟨0, 2⟩), (.begin 1, .rid ⟨0, 1⟩),
        (.next 0, .rid ⟨0, 1⟩), (.insertTuple [4], .rid ⟨0, 2⟩), (.deleteTuple ⟨0, 0⟩, .ok true),
        (.begin 0, .rid ⟨0, 0⟩), (.insertTuple [2], .rid ⟨0, 1⟩),
        (.insertTuple [1], .rid ⟨0, 0⟩)] := by
    decide +kernel
  obtain ⟨⟨hist, s⟩, hplay, heq⟩ := Option.map_eq_some_iff.mp heval
  simp only at heq
  have hrun := Machine.Run.start.play hplay
  obtain ⟨-, hcomplete, -⟩ := iterators_pass_rows rfl hrun 0
  have hended : (sweep hist 0).ended = true := by
    rw [heq]
    decide
  have hsteady : steady hist 0 ⟨0, 1⟩ = true ∧ steady hist 0 ⟨0, 0⟩ = false := by
    rw [heq]
    decide
  exact ⟨hist, s, hrun, heq, hended, hsteady.1, hsteady.2, hcomplete hended _ hsteady.1⟩

end PragmaticDB
