import PragmaticDB.Storage.FullTables
import PragmaticDB.Storage.InsertChecks

/-!
One `Update`: in place, to the free space, or refused. It changes one record or nothing, as long
as every page of the table has its place in the file.
-/
namespace PragmaticDB
open CallMachine PageDataManager

/-- A live tuple is updated where its slot or the free space has room for the new bytes. -/
theorem Formatted.updateVisit_true {p : ℤ} {d : PageData} (hf : Formatted p d) {i : ℕ}
    (hl : Live d i) {bytes : List UInt8} {v : Visit Bool}
    (he : PragmaticDB.updateVisit i bytes d = some v)
    (hroom : bytes.length ≤ (slot d i).length ∨ bytes.length ≤ freeBytes d) :
    v.answer = true := by
  have hfree : availableSpace d = freeBytes d :=
    availableSpace_eq_freeBytes hf.room (by have := hf.top; omega)
  unfold PragmaticDB.updateVisit at he
  rw [if_neg (not_le.mpr hl.1)] at he
  simp only [hf.slot?_eq hl.1, Option.bind_eq_bind, Option.bind_some, if_neg hl.2.ne'] at he
  split_ifs at he with hle hfull
  · obtain ⟨e, -, he⟩ := Option.bind_eq_some_iff.mp he
    cases he
    rfl
  · omega
  · obtain ⟨e, -, he⟩ := Option.bind_eq_some_iff.mp he
    cases he
    rfl

namespace RecordManager
variable {hist : RecordHistory} {rm rm' : RecordManager} {h : HeapFile} {bytes : List UInt8}
  {rid : RecordId}

/-- A slot with a tuple, on a page of the table. -/
def IsLive (rm : RecordManager) (rid : RecordId) : Prop :=
  rid.pageId ∈ rm.pageIds ∧ Live (rm.pool.current rid.pageId) rid.slotId

/-- An `Update` that changes one live record, or none and no page; it does not refuse a tuple
that its slot or the free space of its page has room for. -/
structure UpdatesOne (rm : RecordManager) (rid : RecordId) (bytes : List UInt8) (ok : Bool)
    (rm' : RecordManager) : Prop where
  pageIds : rm'.pageIds = rm.pageIds
  slotCount : ∀ p ∈ rm.pageIds,
    slotCount (rm'.pool.current p) = PragmaticDB.slotCount (rm.pool.current p)
  live : ok = true → rm.IsLive rid
  updated : ok = true → rm'.found rid = some (some bytes)
  others : ∀ r, r.pageId ∈ rm.pageIds → r ≠ rid → rm'.found r = rm.found r
  refused : ok = false → ∀ p ∈ rm.pageIds, rm'.pool.current p = rm.pool.current p
  accepted : rm.IsLive rid →
    (bytes.length ≤ (slot (rm.pool.current rid.pageId) rid.slotId).length ∨
      bytes.length ≤ freeBytes (rm.pool.current rid.pageId)) → ok = true

theorem Refines.isLive (hr : rm.Refines h) (hp : rid.pageId ∈ h.ids) :
    rm.IsLive rid ↔ Live (h.page rid.pageId) rid.slotId := by
  unfold IsLive
  rw [hr.current hp]
  exact ⟨fun hl => hl.2, fun hl => ⟨hr.ids ▸ hp, hl⟩⟩

theorem Kept.updatesOne (hk : Kept hist rm h) (hret : Returned hist rid)
    (h0 : 0 < bytes.length) (hle : bytes.length ≤ 65535) :
    ∃ ok rm', rm.update rid bytes = some (ok, rm') ∧ rm.UpdatesOne rid bytes ok rm' := by
  have hr := hk.refines
  have hg := hk.good
  rcases hk.known rid hret with rfl | ⟨hp, -⟩
  · have hno : ¬ rm.IsLive invalidRecordId := fun hl =>
      ne_invalid_of_nonneg (hg.range _ (hr.ids ▸ hl.1)).1 rfl
    exact ⟨false, rm, if_pos (.inl rfl), rfl, fun _ _ => rfl, nofun, nofun, fun _ _ _ => rfl,
      fun _ _ _ => rfl, fun hl => absurd hl hno⟩
  · obtain ⟨v, hv, hf, hcount, hlive, hsame, hrec⟩ :=
      (hg.formatted _ hp).updateVisit rid.slotId h0
    obtain ⟨ok, h', he, hg', hids, hnext, hcount, hno, hyes⟩ := hg.update hp bytes
    have hrel := hr.update hp bytes
    rw [he] at hrel
    obtain ⟨rm', hx, hr'⟩ := some_of_rel hrel
    have hok : ok = v.answer := by
      simp only [HeapFile.update, HeapFile.visit, hv, if_neg (show ¬ (bytes.length = 0 ∨
        65535 < bytes.length) by omega), Option.bind_eq_bind, Option.bind_some,
        Option.some.injEq, Prod.mk.injEq] at he
      exact he.1.symm
    have hcurrent : ∀ q ∈ rm.pageIds, rm.pool.current q = h.page q ∧
        rm'.pool.current q = h'.page q := fun q hq =>
      ⟨hr.current (hr.ids ▸ hq), hr'.current (hids ▸ hr.ids ▸ hq)⟩
    have hp' : rid.pageId ∈ h'.ids := hids ▸ hp
    refine ⟨ok, rm', hx, ?_, fun q hq => ?_, fun hok' => ?_, fun hok' => ?_, fun r hq hne => ?_,
      fun hok' q hq => ?_, fun hl hroom => ?_⟩
    · rw [hr'.ids, hids, hr.ids]
    · rw [(hcurrent q hq).1, (hcurrent q hq).2, hcount]
    · exact (hr.isLive hp).mpr (hlive (hok ▸ hok'))
    · rw [hr'.found hg' hp', (hyes hok').2.2, if_pos rfl]
    · have hq : r.pageId ∈ h.ids := hr.ids ▸ hq
      rw [hr'.found hg' (hids ▸ hq), hr.found hg hq]
      cases ok with
      | false => rw [hno rfl]
      | true => rw [(hyes rfl).2.2, if_neg hne]
    · rw [(hcurrent q hq).1, (hcurrent q hq).2, hno hok']
    · rw [hr.current hp] at hroom
      rw [hok]
      exact (hg.formatted _ hp).updateVisit_true ((hr.isLive hp).mp hl) hv hroom

/-- In every state of a run whose page ids stay below `2 ^ 19` an `Update` of a record id that
was returned changes that record or nothing. -/
theorem updates_one {dm : DiskManager} (hdm : dm.plan = [])
    (hr : ((editMachine SizedCall).restrict StaysAddressable).Run (new dm) hist rm)
    (hret : Returned hist rid) (h0 : 0 < bytes.length) (hle : bytes.length ≤ 65535) :
    ∃ ok rm', rm.update rid bytes = some (ok, rm') ∧ rm.UpdatesOne rid bytes ok rm' := by
  have hsized : ∀ bytes, SizedCall (.insert bytes) → bytes.length ≤ 65531 :=
    fun _ hs => hs.2.trans (by norm_num)
  obtain ⟨h, hk⟩ := editMachine_kept hsized hdm hr
  exact hk.updatesOne hret h0 hle

/-- The first of two records grows, out of its place. -/
theorem grown_record_updated : ∃ hist rm,
    ((editMachine SizedCall).restrict StaysAddressable).Run (new ⟨[], none, []⟩) hist rm ∧
    hist.map Prod.fst = [.insert [2], .insert [1]] ∧ rm.IsLive ⟨0, 0⟩ ∧ rm.IsLive ⟨0, 1⟩ ∧
    ∃ ok rm', rm.update ⟨0, 0⟩ [3, 4] = some (ok, rm') ∧ rm.UpdatesOne ⟨0, 0⟩ [3, 4] ok rm' := by
  have heval : (((editMachine SizedCall).restrict StaysAddressable).play
      [.insert [1], .insert [2]] [] (new ⟨[], none, []⟩)).map (fun x =>
        (x.2.pageIds, decide (Live (x.2.pool.current 0) 0), decide (Live (x.2.pool.current 0) 1),
          decide (Returned x.1 ⟨0, 0⟩))) = some ([0], true, true, true) := by
    decide +kernel
  obtain ⟨⟨hist, rm⟩, hplay, heq⟩ := Option.map_eq_some_iff.mp heval
  simp only [Prod.mk.injEq, decide_eq_true_eq] at heq
  obtain ⟨hids, hfirst, hsecond, hret⟩ := heq
  have hmem : (0 : ℤ) ∈ rm.pageIds := hids ▸ List.mem_singleton_self 0
  have hlen : 0 < [(3 : UInt8), 4].length ∧ [(3 : UInt8), 4].length ≤ 65535 := by decide
  have hrun := Machine.Run.start.play hplay
  exact ⟨hist, rm, hrun, Machine.play_calls hplay, ⟨hmem, hfirst⟩, ⟨hmem, hsecond⟩,
    updates_one rfl hrun hret hlen.1 hlen.2⟩

/-! Past the addressable pages. -/

theorem updateVisit_full : FullWork (updateVisit 0 fullTuple) true := by
  intro d hd
  obtain ⟨p, hf⟩ := hd.formatted
  have hl := (record_eq_some hd.tuple).1
  have hlen : 0 < fullTuple.length := fullTuple_length ▸ by norm_num
  obtain ⟨v, hv, hf', hcount, -, -, hrec⟩ := hf.updateVisit 0 hlen
  have hfits : fullTuple.length ≤ (slot d 0).length := by rw [hd.length, fullTuple_length]
  have hyes := hf.updateVisit_true hl hv (.inl hfits)
  refine ⟨v, hv, hyes, ⟨p, hf'⟩, hcount.trans hd.count, ?_⟩
  rw [hrec hyes, if_pos rfl]

/-- A table of `2 ^ 19` full pages and one page more, whose record is found with the byte 1. The
`j` pages visited last are the first ones. -/
structure Beyond (j : ℕ) (hist : RecordHistory) (rm : RecordManager) : Prop
    extends Packed 524288 rm.pool where
  run : (editMachine SizedCall).Run (new ⟨[], none, []⟩) hist rm
  last : (524288 : ℤ) ∈ rm.pageIds
  next : 524288 < rm.pool.nextPageId
  returned : ∀ i < 524288, Returned hist ⟨(i : ℕ), 0⟩
  turned : Turned 524288 rm.pool (firstIds j)
  found : rm.found ⟨524288, 0⟩ = some (some [1])

theorem beyond : ∃ hist rm, Beyond 0 hist rm := by
  have hone : 0 < [(1 : UInt8)].length ∧ [(1 : UInt8)].length ≤ 4084 := by decide
  obtain ⟨hist, rm₀, hrun, ht, hret⟩ := full_table 524288 le_rfl
  obtain ⟨rm, d, f, he, hids, hnext, hp, happ, hf, hlook, hdata, -⟩ := ht.insert hone.1 hone.2
  have hans : rm₀.answer (.insert [1]) = some (.rid ⟨(524288 : ℕ), 0⟩, rm) := by
    simp only [answer, he, Option.map_some]
  have hallowed : (editMachine SizedCall).Allowed hist rm₀ (.insert [1]) := ⟨hone, trivial⟩
  have hstart : Turned 524288 rm.pool (firstIds 0) := by
    rw [show firstIds 0 = [] by simp [firstIds]]
    exact .inl ⟨BufferPoolManager.recent_nil _, by norm_num⟩
  refine ⟨_, rm, by exact_mod_cast hp, hrun.call hallowed hans, ?_, ?_, fun i hi => ?_, hstart, ?_⟩
  · rw [hids]
    exact mem_firstIds.mpr ⟨by norm_num, by norm_num⟩
  · rw [hnext]
    norm_num
  · obtain ⟨bytes, hmem⟩ := hret i hi
    exact ⟨bytes, List.mem_cons_of_mem _ hmem⟩
  · have hlook : rm.pool.pageTable.lookup 524288 = some f := by exact_mod_cast hlook
    have hinit := initializePage_formatted (show (0 : ℤ) ≤ (524288 : ℕ) by norm_num)
      (by norm_num) zeroPage
    have hc0 := slotCount_initializePage zeroPage (524288 : ℕ)
    have hrec := happ.records hinit hone.1 0
    rw [hc0, if_pos rfl] at hrec
    have hget : getVisit 0 ((rm.pool.setPage f { rm.pool.pages f with
        pinCount := (rm.pool.pages f).pinCount + 1 }).pinFrame f |>.pages f).data =
        some ⟨some [1], d, false⟩ := by
      rw [← hrec, ← hf.getVisit 0]
      simp [BufferPoolManager.setPage, BufferPoolManager.pinFrame, hdata]
    have hne : (524288 : ℤ) ≠ invalidPageId := by decide
    unfold RecordManager.found get
    rw [if_neg hne]
    simp only [visit, BufferPoolManager.fetchPage, hlook, hget, Option.bind_eq_bind,
      Option.bind_some, Option.map_some]

/-- Updates of `j` records leave the last one as it was, if they change no other record. -/
theorem beyond_step (hall : ∀ (hist : RecordHistory) (rm : RecordManager) (rid : RecordId)
    (bytes : List UInt8), (editMachine SizedCall).Run (new ⟨[], none, []⟩) hist rm →
      Returned hist rid → 0 < bytes.length → bytes.length ≤ 65535 →
      ∃ ok rm', rm.update rid bytes = some (ok, rm') ∧ rm.UpdatesOne rid bytes ok rm')
    (j : ℕ) (hj : j ≤ 10) : ∃ hist rm, Beyond j hist rm := by
  induction j with
  | zero => exact beyond
  | succ j ih =>
    obtain ⟨hist, rm, hb⟩ := ih (by omega)
    have hsize : 0 < fullTuple.length ∧ fullTuple.length ≤ 4084 := by simp [fullTuple_length]
    obtain ⟨f, d, rm', he, hids, hnext, hp, hv⟩ := visit_packed hb.toPacked
      (show (0 : ℤ) ≤ j by omega) (by omega) updateVisit_full (updateVisit_honest _ _) false
    have hupd : rm.update ⟨j, 0⟩ fullTuple = some (true, rm') := by
      unfold update
      rw [if_neg (by simp [fullTuple_length, invalidPageId])]
      exact he
    have hans : rm.answer (.update ⟨j, 0⟩ fullTuple) = some (.ok true, rm') := by
      simp only [answer, hupd, Option.map_some]
    obtain ⟨ok, rm₁, he₁, hone⟩ := hall hist rm ⟨j, 0⟩ fullTuple hb.run
      (hb.returned j (by omega)) hsize.1 (hsize.2.trans (by norm_num))
    obtain ⟨-, rfl⟩ := Prod.mk.inj (Option.some.inj (hupd.symm.trans he₁))
    have hallowed : (editMachine SizedCall).Allowed hist rm (.update ⟨j, 0⟩ fullTuple) :=
      ⟨hsize, hb.returned j (by omega)⟩
    have hturned := hb.turned.visited hb.toReady hv (by omega) (by omega)
      (fun v hv => by have := mem_firstIds.mp hv; omega)
      (fun hmem => by have := mem_firstIds.mp hmem; omega)
    have hne : (⟨524288, 0⟩ : RecordId) ≠ ⟨j, 0⟩ := by
      intro heq
      have hpage := congrArg RecordId.pageId heq
      simp only at hpage
      omega
    refine ⟨_, rm', hp, hb.run.call hallowed hans, hids ▸ hb.last, hnext ▸ hb.next, fun i hi => ?_,
      firstIds_succ j ▸ hturned, (hone.others _ hb.last hne).trans hb.found⟩
    obtain ⟨bytes, hmem⟩ := hb.returned i hi
    exact ⟨bytes, List.mem_cons_of_mem _ hmem⟩

/-- With page `2 ^ 19` in use, one of ten updates on other pages changes its record too. -/
theorem update_changes_other : ¬ ∀ (hist : RecordHistory) (rm : RecordManager) (rid : RecordId)
    (bytes : List UInt8), (editMachine SizedCall).Run (new ⟨[], none, []⟩) hist rm →
      Returned hist rid → 0 < bytes.length → bytes.length ≤ 65535 →
      ∃ ok rm', rm.update rid bytes = some (ok, rm') ∧ rm.UpdatesOne rid bytes ok rm' := by
  intro hall
  obtain ⟨hist, rm, hb⟩ := beyond_step hall 10 le_rfl
  have hset := hb.turned.resolve_left fun hfew => by
    have hlen := hfew.2
    rw [firstIds_length] at hlen
    omega
  obtain ⟨rm', he, -⟩ := visit_lost hb.toPacked hset hb.next getVisit_full none
  have hne : (524288 : ℤ) ≠ invalidPageId := by decide
  have hfound : rm.found ⟨524288, 0⟩ = some (some fullTuple) := by
    unfold found get
    rw [if_neg hne, he]
    rfl
  have hlen := congrArg List.length
    (Option.some.inj (Option.some.inj (hb.found.symm.trans hfound)))
  rw [fullTuple_length] at hlen
  simp at hlen

end RecordManager
end PragmaticDB
