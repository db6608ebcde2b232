import PragmaticDB.Storage.DiskAddressing
import PragmaticDB.Storage.LeastRecent
import PragmaticDB.Storage.RecordEdits

/-!
Tables as full as they can be. Up to `2 ^ 19` pages hold one tuple each and have no room left;
the page that comes next has a negative file offset, and once ten other pages were visited its
frame is gone and its bytes with it.
-/
namespace PragmaticDB
open ByteBlock CallMachine PageDataManager BufferPoolManager DiskManager

/-- A tuple as long as an empty page has room for. -/
@[irreducible] def fullTuple : List UInt8 := List.replicate 4084 7

theorem fullTuple_length : fullTuple.length = 4084 := by
  unfold fullTuple
  exact List.length_replicate

/-- One tuple has the whole page. -/
structure FullPage (d : PageData) : Prop where
  formatted : ∃ p, Formatted p d
  count : slotCount d = 1
  tuple : record d 0 = some fullTuple

theorem FullPage.length {d : PageData} (hd : FullPage d) : (slot d 0).length = 4084 := by
  have hlen := congrArg List.length (record_eq_some hd.tuple).2
  rwa [fullTuple_length, PragmaticDB.tuple, Block.load_length] at hlen

theorem FullPage.noRoom {d : PageData} (hd : FullPage d) {k : ℕ} (hk : k < 65532) :
    hasEnoughSpace d k = false := by
  obtain ⟨p, hf⟩ := hd.formatted
  have hin := hf.inside 0 (record_eq_some hd.tuple).1
  have hlen := hd.length
  have hcount := hd.count
  rw [Bool.eq_false_iff, ne_eq, hf.hasEnoughSpace_iff hk]
  omega

/-- Work that answers `a` on full pages and leaves them full. -/
def FullWork {α : Type} (act : PageData → Option (Visit α)) (a : α) : Prop :=
  ∀ d, FullPage d → ∃ v, act d = some v ∧ v.answer = a ∧ FullPage v.data

theorem insertVisit_full {bytes : List UInt8} (hlt : bytes.length < 65532) :
    FullWork (insertVisit bytes) none := by
  intro d hd
  obtain ⟨p, hf⟩ := hd.formatted
  obtain ⟨v, hv, ⟨hno, hsame, -⟩ | ⟨-, -, hr, -⟩⟩ := hf.insertVisit hlt
  · exact ⟨v, hv, hno, hsame ▸ hd⟩
  · rw [hd.noRoom hlt] at hr
    cases hr

theorem compactVisit_full {bytes : List UInt8} (hlt : bytes.length < 65532) :
    FullWork (compactVisit bytes) none := by
  intro d hd
  obtain ⟨p, hf⟩ := hd.formatted
  have hin := hf.inside 0 (record_eq_some hd.tuple).1
  obtain ⟨d₁, v, hc, hv, hcases⟩ := hf.compactVisit hlt
  have hd₁ : FullPage d₁ := by
    refine ⟨⟨p, hc.formatted hf⟩, hc.count.trans hd.count, ?_⟩
    rw [hc.record_eq fun _ => by simp [MovesUp, lengthBefore, hin.2], hd.tuple]
  rcases hcases with ⟨hno, hsame, -⟩ | ⟨-, -, hr, -⟩
  · exact ⟨v, hv, hno, hsame ▸ hd₁⟩
  · rw [hd₁.noRoom hlt] at hr
    cases hr

theorem getVisit_full : FullWork (getVisit 0) (some fullTuple) := by
  intro d hd
  obtain ⟨p, hf⟩ := hd.formatted
  exact ⟨_, hf.getVisit 0, hd.tuple, hd⟩

/-- The pages below `k` are full, and no page is in use. -/
structure Packed (k : ℤ) (b : BufferPoolManager 10) : Prop extends Ready b where
  full : ∀ q, 0 ≤ q → q < k → ∃ d, b.Has q d ∧ FullPage d
  bounds : 0 ≤ k ∧ k ≤ 524288 ∧ k ≤ b.nextPageId

namespace RecordManager
variable {rm : RecordManager} {k p : ℤ} {vs : List ℤ} {α : Type} {a : α}
  {act : PageData → Option (Visit α)}

/-- A visit of one of the full pages. -/
theorem visit_packed (hp : Packed k rm.pool) (h0 : 0 ≤ p) (hlt : p < k) (hw : FullWork act a)
    (hh : Honest act) (absent : α) : ∃ f d rm', rm.visit p absent act = some (a, rm') ∧
      rm'.pageIds = rm.pageIds ∧ rm'.pool.nextPageId = rm.pool.nextPageId ∧
      Packed k rm'.pool ∧ rm.pool.Visited p f d rm'.pool := by
  obtain ⟨e, he, hfull⟩ := hp.full p h0 hlt
  obtain ⟨f, b, hfetch, hb, hhas⟩ :=
    hp.toReady.fetchPage (by norm_num) h0 (hlt.trans_le hp.bounds.2.2)
  have hdata : (b.pages f).data = e := (hhas p e he).frame f hb.look
  obtain ⟨v, hv, rfl, hd⟩ := hw e hfull
  obtain ⟨hready, hsame, hown, hothers⟩ := hb.leave v.data v.dirty
  have hnext : ((b.setData f v.data).unpinPage p v.dirty).2.nextPageId = rm.pool.nextPageId := by
    have hfirst := hp.fetchPage_next p
    rw [hfetch] at hfirst
    exact hsame.trans hfirst
  refine ⟨f, v.data, ⟨((b.setData f v.data).unpinPage p v.dirty).2, rm.pageIds⟩, ?_, rfl, hnext,
    ⟨hready, fun q hq0 hqlt => ?_, hp.bounds.1, hp.bounds.2.1, hnext ▸ hp.bounds.2.2⟩,
    hp.toReady.visited hfetch hb v.data v.dirty⟩
  · simp only [visit, hfetch, hdata, hv, Option.bind_eq_bind, Option.bind_some]
  · rcases eq_or_ne q p with rfl | hqp
    · have haddr : Addressable q := ⟨h0, hlt.trans_le hp.bounds.2.1⟩
      refine ⟨v.data, hown haddr ((hh e v hv).imp id fun heq => ?_), hd⟩
      rw [heq]
      exact hhas q e he
    · obtain ⟨e', he', hfull'⟩ := hp.full q hq0 hqlt
      exact ⟨e', hothers q e' hqp (hhas q e' he'), hfull'⟩

/-- Fewer than ten pages were visited last, or the full pages have all frames. -/
def Turned (k : ℤ) (b : BufferPoolManager 10) (vs : List ℤ) : Prop :=
  (b.Recent vs ∧ vs.length < 10) ∨ ∀ f, 0 ≤ (b.pages f).pageId ∧ (b.pages f).pageId < k

theorem Turned.visited {b b' : BufferPoolManager 10} {f : Fin 10} {d : PageData}
    (ht : Turned k b vs) (hb : b.Ready) (hv : b.Visited p f d b') (h0 : 0 ≤ p) (hlt : p < k)
    (hvs : ∀ v ∈ vs, 0 ≤ v ∧ v < k) (hp : p ∉ vs) : Turned k b' (vs ++ [p]) := by
  rcases ht with ⟨hr, hlen⟩ | hset
  · have hr' := hr.visited hb h0 hv hp hlen
    rcases Nat.lt_or_ge (vs ++ [p]).length 10 with hfew | hmany
    · exact .inl ⟨hr', hfew⟩
    · have hten : (vs ++ [p]).length = 10 := by
        rw [List.length_append, List.length_singleton] at hmany ⊢
        omega
      refine .inr fun g => ?_
      rcases List.mem_append.mp (hr'.all hten g) with hg | hg
      · exact hvs _ hg
      · rw [List.mem_singleton.mp hg]
        exact ⟨h0, hlt⟩
  · refine .inr fun g => ?_
    rcases eq_or_ne g f with rfl | hg
    · rw [hv.pageId]
      exact ⟨h0, hlt⟩
    · rw [hv.others g hg]
      exact hset g

/-- A loop of `Insert` over full pages. -/
theorem tryPages_turned {act : PageData → Option (Visit (Option ℕ))} (hw : FullWork act none)
    (hh : Honest act) (ps : List ℤ) (hp : Packed k rm.pool) (ht : Turned k rm.pool vs)
    (hvs : ∀ v ∈ vs ++ ps, 0 ≤ v ∧ v < k) (hnd : (vs ++ ps).Nodup) :
    ∃ rm', tryPages act ps rm = some (none, rm') ∧ rm'.pageIds = rm.pageIds ∧
      rm'.pool.nextPageId = rm.pool.nextPageId ∧ Packed k rm'.pool ∧
      Turned k rm'.pool (vs ++ ps) := by
  induction ps generalizing rm vs with
  | nil => exact ⟨rm, rfl, rfl, rfl, hp, by rwa [List.append_nil]⟩
  | cons p ps ih =>
    obtain ⟨h0, hlt⟩ := hvs p (by simp)
    obtain ⟨f, d, rm₁, he, hids, hnext, hp₁, hv⟩ := visit_packed hp h0 hlt hw hh none
    have happ : vs ++ p :: ps = (vs ++ [p]) ++ ps := by simp
    have hfresh : p ∉ vs := by
      rintro hmem
      exact (List.nodup_append.mp hnd).2.2 p hmem p (by simp) rfl
    have ht₁ := ht.visited hp.toReady hv h0 hlt (fun v hv => hvs v (by simp [hv])) hfresh
    rw [happ] at hvs hnd ⊢
    obtain ⟨rm', he', hids', hnext', hp', ht'⟩ := ih hp₁ ht₁ hvs hnd
    refine ⟨rm', ?_, hids'.trans hids, hnext'.trans hnext, hp', ht'⟩
    simp only [tryPages, he, Option.bind_eq_bind, Option.bind_some]
    exact he'

theorem tryPages_packed {act : PageData → Option (Visit (Option ℕ))} (hw : FullWork act none)
    (hh : Honest act) {ps : List ℤ} (hp : Packed k rm.pool) (hps : ∀ p ∈ ps, 0 ≤ p ∧ p < k)
    (hnd : ps.Nodup) : ∃ rm', tryPages act ps rm = some (none, rm') ∧
      rm'.pageIds = rm.pageIds ∧ rm'.pool.nextPageId = rm.pool.nextPageId ∧
      Packed k rm'.pool ∧ Turned k rm'.pool ps := by
  have hstart : Turned k rm.pool [] := .inl ⟨recent_nil _, by norm_num⟩
  rw [← List.nil_append ps] at hps hnd
  have hrun := tryPages_turned hw hh ps hp hstart hps hnd
  rwa [List.nil_append] at hrun

/-- The ids `0`, ..., `k - 1`. -/
@[irreducible] def firstIds (k : ℕ) : List ℤ := (List.range k).map Nat.cast

theorem mem_firstIds {k : ℕ} {p : ℤ} : p ∈ firstIds k ↔ 0 ≤ p ∧ p < k := by
  unfold firstIds
  rw [List.mem_map]
  constructor
  · rintro ⟨i, hi, rfl⟩
    have hi := List.mem_range.mp hi
    omega
  · rintro ⟨h0, hlt⟩
    exact ⟨p.toNat, List.mem_range.mpr (by omega), by omega⟩

theorem firstIds_nodup (k : ℕ) : (firstIds k).Nodup := by
  unfold firstIds
  exact List.nodup_range.map Nat.cast_injective

theorem firstIds_length (k : ℕ) : (firstIds k).length = k := by simp [firstIds]

theorem firstIds_succ (k : ℕ) : firstIds (k + 1) = firstIds k ++ [(k : ℤ)] := by
  simp [firstIds, List.range_succ]

/-- A table of the pages below `k`, all of them full. -/
structure FullTable (k : ℕ) (rm : RecordManager) : Prop extends Packed k rm.pool where
  ids : rm.pageIds = firstIds k
  next : rm.pool.nextPageId = k

/-- A page more for a tuple, with or without an addressable id left. -/
theorem insertNew_packed (hp : Packed k rm.pool) {p : ℤ} (hnext : rm.pool.nextPageId = p)
    (hlt : p < 1048576) {bytes : List UInt8} (hle : bytes.length ≤ 4084) :
    ∃ rm' d, ∃ f : Fin 10, rm.insertNew bytes = some (⟨p, 0⟩, rm') ∧
      rm'.pageIds = rm.pageIds ++ [p] ∧ rm'.pool.nextPageId = p + 1 ∧ Packed k rm'.pool ∧
      Appends (initializePage zeroPage p) bytes d ∧ Formatted p d ∧
      rm'.pool.pageTable.lookup p = some f ∧ (rm'.pool.pages f).data = d ∧
      (Addressable p → rm'.pool.Has p d) := by
  subst hnext
  obtain ⟨hk0, hk, hkp⟩ := hp.bounds
  obtain ⟨f, b, hnew, hb, hgrown, hzero, hhas⟩ := hp.toReady.newPage (by norm_num) hlt
  have hinit := initializePage_formatted (hk0.trans hkp) (by omega) zeroPage
  have hc0 := slotCount_initializePage zeroPage rm.pool.nextPageId
  have hfree0 := freeSpaceOffset_initializePage zeroPage rm.pool.nextPageId
  have hroom : 8 + 4 * slotCount (initializePage zeroPage rm.pool.nextPageId) + 4 +
      bytes.length ≤ freeSpaceOffset (initializePage zeroPage rm.pool.nextPageId) + 1 := by omega
  obtain ⟨d, hd, happ⟩ := hinit.insertTuple hroom
  obtain ⟨hready, hsame, hown, hothers⟩ := hb.leave d true
  obtain ⟨hlook, hdata⟩ := hb.left d true
  have hgrown := hsame.trans hgrown
  refine ⟨⟨_, rm.pageIds ++ [rm.pool.nextPageId]⟩, d, f, ?_, rfl, hgrown,
    ⟨hready, fun q hq0 hqlt => ?_, hk0, hk, ?_⟩, happ, happ.formatted hinit hroom, hlook, hdata,
    fun haddr => hown haddr (.inl rfl)⟩
  · simp only [insertNew, hnew, hzero, hd, hc0, Option.bind_eq_bind, Option.bind_some,
      Option.isSome_some]
  · obtain ⟨e, he, hfull⟩ := hp.full q hq0 hqlt
    have hne : q ≠ rm.pool.nextPageId := (hqlt.trans_le hkp).ne
    exact ⟨e, hothers q e hne (hhas q e hne he), hfull⟩
  · exact (hkp.trans (lt_add_one _).le).trans_eq hgrown.symm

/-- The next tuple takes the next page, the one with id `2 ^ 19` included. -/
theorem FullTable.insert {k : ℕ} (ht : FullTable k rm) {bytes : List UInt8}
    (h0 : 0 < bytes.length) (hle : bytes.length ≤ 4084) : ∃ rm' d, ∃ f : Fin 10,
      rm.insert bytes = some (⟨k, 0⟩, rm') ∧ rm'.pageIds = firstIds (k + 1) ∧
      rm'.pool.nextPageId = k + 1 ∧ Packed k rm'.pool ∧
      Appends (initializePage zeroPage k) bytes d ∧ Formatted k d ∧
      rm'.pool.pageTable.lookup (k : ℤ) = some f ∧ (rm'.pool.pages f).data = d ∧
      (Addressable k → rm'.pool.Has k d) := by
  have hlt : bytes.length < 65532 := by omega
  have hps : ∀ p ∈ rm.pageIds, (0 : ℤ) ≤ p ∧ p < k := fun p hp => mem_firstIds.mp (ht.ids ▸ hp)
  have hnd : rm.pageIds.Nodup := ht.ids ▸ firstIds_nodup k
  -- no page has room, compacted or not
  obtain ⟨rm₁, he₁, hids₁, hnext₁, hp₁, -⟩ := tryPages_packed (insertVisit_full hlt)
    (insertVisit_honest bytes) ht.toPacked hps hnd
  obtain ⟨rm₂, he₂, hids₂, hnext₂, hp₂, -⟩ := tryPages_packed (compactVisit_full hlt)
    (compactVisit_honest bytes) hp₁ hps hnd
  have hnext : rm₂.pool.nextPageId = k := (hnext₂.trans hnext₁).trans ht.next
  have hk := hp₂.bounds.2.1
  obtain ⟨rm', d, f, hnew, hpages, hrest⟩ := insertNew_packed hp₂ hnext (by omega) hle
  refine ⟨rm', d, f, ?_, ?_, hrest⟩
  · unfold RecordManager.insert
    rw [if_neg (by omega), he₁]
    simp only [Option.bind_eq_bind, Option.bind_some, hids₁, he₂]
    exact hnew
  · rw [hpages, hids₂, hids₁, ht.ids, firstIds_succ]

theorem initial_full {k : ℕ} {d : PageData} (happ : Appends (initializePage zeroPage k) fullTuple d)
    (hf : Formatted k d) (hk : k ≤ 524288) : FullPage d := by
  have hinit := initializePage_formatted (show (0 : ℤ) ≤ k by omega) (by omega) zeroPage
  have hc0 := slotCount_initializePage zeroPage k
  have hlen : 0 < fullTuple.length := fullTuple_length ▸ by norm_num
  have hrec := happ.records hinit hlen 0
  have hcount := happ.count
  rw [hc0] at hrec hcount
  exact ⟨⟨k, hf⟩, hcount, hrec⟩

/-- `k` inserts of a full tuple fill the pages below `k`. -/
theorem full_table (k : ℕ) (hk : k ≤ 524288) : ∃ hist rm,
    (editMachine SizedCall).Run (new ⟨[], none, []⟩) hist rm ∧ FullTable k rm ∧
      ∀ i < k, Returned hist ⟨i, 0⟩ := by
  induction k with
  | zero =>
    have hnew : (new ⟨[], none, []⟩).pool.Quiet :=
      ⟨BufferPoolManager.new_sound 10 rfl, fun _ => rfl⟩
    exact ⟨[], new ⟨[], none, []⟩, .start, ⟨⟨hnew.ready, fun q h0 hlt => by omega,
      le_rfl, by norm_num, le_rfl⟩, by simp [firstIds, new], rfl⟩,
    fun i hi => absurd hi (Nat.not_lt_zero i)⟩
  | succ k ih =>
    obtain ⟨hist, rm, hrun, ht, hret⟩ := ih (by omega)
    have hsize : 0 < fullTuple.length ∧ fullTuple.length ≤ 4084 := by simp [fullTuple_length]
    obtain ⟨rm', d, f, he, hids, hnext, hp, happ, hf, -, -, hhas⟩ := ht.insert hsize.1 hsize.2
    have hans : rm.answer (.insert fullTuple) = some (.rid ⟨k, 0⟩, rm') := by
      simp only [answer, he, Option.map_some]
    have hallowed : (editMachine SizedCall).Allowed hist rm (.insert fullTuple) := ⟨hsize, trivial⟩
    refine ⟨_, rm', hrun.call hallowed hans, ⟨⟨hp.toReady, fun q h0 hlt => ?_, ?_⟩, hids,
      by rw [hnext]; push_cast; rfl⟩, fun i hi => ?_⟩
    · rcases eq_or_ne q k with rfl | hne
      · exact ⟨d, hhas ⟨by omega, by omega⟩, initial_full happ hf (by omega)⟩
      · exact hp.full q h0 (by push_cast at hlt; omega)
    · push_cast
      omega
    · rcases Nat.lt_succ_iff_lt_or_eq.mp hi with hi | rfl
      · obtain ⟨bytes, hmem⟩ := hret i hi
        exact ⟨bytes, List.mem_cons_of_mem _ hmem⟩
      · exact ⟨fullTuple, List.mem_cons_self⟩

/-- The page of a negative offset is not where it was put: in a pool that has only full pages it
is another full page. -/
theorem visit_lost (hp : Packed 524288 rm.pool)
    (hset : ∀ f, 0 ≤ (rm.pool.pages f).pageId ∧ (rm.pool.pages f).pageId < 524288)
    (hnext : 524288 < rm.pool.nextPageId) (hw : FullWork act a) (absent : α) :
    ∃ rm', rm.visit 524288 absent act = some (a, rm') ∧ rm'.pageIds = rm.pageIds ∧
      rm'.pool.nextPageId = rm.pool.nextPageId ∧ Packed 524288 rm'.pool := by
  have hneg : pageOffset 524288 < 0 := by decide
  obtain ⟨f, b, hfetch, hb, hhas⟩ := hp.toReady.fetchPage (by norm_num) (by norm_num) hnext
  have hsame := hp.fetchPage_next 524288
  rw [hfetch] at hsame
  have hfull : FullPage (b.pages f).data := by
    rcases hp.fetch_cases 524288 with ⟨g, hl, -⟩ | ⟨-, hall, -⟩ | ⟨-, g, b', ht, -, he⟩
    · exact absurd ((hp.mapped _ g).mp hl).2 (hset g).2.ne
    · exact absurd hall (hp.toReady.frame (by norm_num))
    · rw [hfetch] at he
      obtain ⟨hg, rfl⟩ := Prod.mk.inj he
      obtain rfl := Option.some.inj hg
      obtain ⟨h0, hlt⟩ := hset f
      obtain ⟨e, hhase, hfulle⟩ := hp.full _ h0 hlt
      have hl := hp.lookup_frame (ne_invalid_of_nonneg h0)
      have hdata : ((b'.setData f (b'.diskManager.readPage 524288
          (rm.pool.pages f).data)).pages f).data = e := by
        simpa [BufferPoolManager.setData, setPage, readPage_of_neg _ hneg] using hhase.frame f hl
      rw [hdata]
      exact hfulle
  obtain ⟨v, hv, rfl, hd⟩ := hw _ hfull
  obtain ⟨hready, hsame', -, hothers⟩ := hb.leave v.data v.dirty
  refine ⟨⟨((b.setData f v.data).unpinPage 524288 v.dirty).2, rm.pageIds⟩, ?_, rfl,
    hsame'.trans hsame, hready, fun q h0 hlt => ?_, hp.bounds.1, hp.bounds.2.1, ?_⟩
  · simp only [visit, hfetch, hv, Option.bind_eq_bind, Option.bind_some]
  · obtain ⟨e, he, hfulle⟩ := hp.full q h0 hlt
    exact ⟨e, hothers q e hlt.ne (hhas q e he), hfulle⟩
  · exact hp.bounds.2.2.trans_eq (hsame'.trans hsame).symm

end RecordManager
end PragmaticDB
