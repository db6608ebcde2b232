import PragmaticDB.Storage.HeapFile
import PragmaticDB.Storage.PageRecords

/-!
Heaps whose pages are all formatted. No call of the record manager is undefined on them, and
each of them leaves such a heap; the cases of `Insert` are told apart by the pages it changes.
-/
namespace PragmaticDB
open ByteBlock PageDataManager
namespace HeapFile

structure Good (h : HeapFile) : Prop where
  nodup : h.ids.Nodup
  range : ∀ p ∈ h.ids, 0 ≤ p ∧ p < h.next
  next_nonneg : 0 ≤ h.next
  next_le : h.next ≤ 524288
  formatted : ∀ p ∈ h.ids, Formatted p (h.page p)

def record (h : HeapFile) (rid : RecordId) : Option (List UInt8) :=
  PragmaticDB.record (h.page rid.pageId) rid.slotId

def HasSlot (h : HeapFile) (rid : RecordId) : Prop :=
  rid.pageId ∈ h.ids ∧ rid.slotId < slotCount (h.page rid.pageId)

variable {h h' : HeapFile} {bytes : List UInt8} {rid : RecordId}

theorem empty_good : empty.Good := ⟨.nil, nofun, le_rfl, by simp [empty], nofun⟩

theorem Good.nonneg (hg : h.Good) : ∀ p ∈ h.ids, 0 ≤ p := fun p hp => (hg.range p hp).1

theorem Good.fresh (hg : h.Good) : h.next ∉ h.ids :=
  fun hn => lt_irrefl _ (hg.range _ hn).2

/-- The page of one id replaced by a formatted one. -/
theorem Good.replace (hg : h.Good) {p : ℤ} {d : PageData} (hd : p ∈ h.ids → Formatted p d) :
    Good { h with page := Function.update h.page p d } where
  nodup := hg.nodup
  range := hg.range
  next_nonneg := hg.next_nonneg
  next_le := hg.next_le
  formatted q hq := by
    simp only at hq ⊢
    rcases eq_or_ne q p with rfl | hqp
    · rw [Function.update_self]
      exact hd hq
    · rw [Function.update_of_ne hqp]
      exact hg.formatted q hq

/-- Reading a record changes nothing. -/
theorem Good.get (hg : h.Good) (hp : rid.pageId ∈ h.ids) : h.get rid = some (h.record rid, h) := by
  have hv := (hg.formatted _ hp).getVisit rid.slotId
  simp [HeapFile.get, HeapFile.visit, hv, HeapFile.record]

theorem getSlotCount_eq (h : HeapFile) (p : ℤ) :
    h.getSlotCount p = some (slotCount (h.page p), h) := by
  simp [HeapFile.getSlotCount, HeapFile.visit, slotCountVisit]

/-- Deleting removes one record, and moves no tuple. -/
theorem Good.delete (hg : h.Good) (hp : rid.pageId ∈ h.ids) :
    ∃ h', h.delete rid = some (decide (rid.slotId < slotCount (h.page rid.pageId)), h') ∧
      h'.Good ∧ h'.ids = h.ids ∧ h'.next = h.next ∧
      (∀ p, slotCount (h'.page p) = slotCount (h.page p)) ∧
      (∀ p, Descending (h.page p) → Descending (h'.page p)) ∧
      ∀ r, h'.record r = if r = rid then none else h.record r := by
  obtain ⟨d, hv, hf, hcount, hslots, hrec⟩ := (hg.formatted _ hp).deleteVisit rid.slotId
  refine ⟨{ h with page := Function.update h.page rid.pageId d }, ?_, hg.replace fun _ => hf,
    rfl, rfl, fun p => ?_, fun p hd => ?_, fun r => ?_⟩
  · simp [HeapFile.delete, HeapFile.visit, hv]
  · simp only [Function.update_apply]
    split_ifs with hpr
    · rw [hcount, hpr]
    · rfl
  · simp only [Function.update_apply]
    split_ifs with hpr
    · subst hpr
      exact hd.shorten hcount hslots
    · exact hd
  · unfold HeapFile.record
    rcases eq_or_ne r.pageId rid.pageId with heq | hne
    · simp only [heq, Function.update_self, hrec]
      rcases eq_or_ne r.slotId rid.slotId with hs | hs
      · rw [if_pos hs, if_pos (by cases r; cases rid; simp_all)]
      · rw [if_neg hs, if_neg (by rintro rfl; exact hs rfl)]
    · simp only [Function.update_of_ne hne]
      rw [if_neg (by rintro rfl; exact hne rfl)]

/-- Updating, where it succeeds, changes one record. -/
theorem Good.update (hg : h.Good) (hp : rid.pageId ∈ h.ids) (bytes : List UInt8) :
    ∃ ok h', h.update rid bytes = some (ok, h') ∧ h'.Good ∧ h'.ids = h.ids ∧
      h'.next = h.next ∧ (∀ p, slotCount (h'.page p) = slotCount (h.page p)) ∧
      (ok = false → h' = h) ∧ (ok = true → h.record rid ≠ none ∧ 0 < bytes.length ∧
        ∀ r, h'.record r = if r = rid then some bytes else h.record r) := by
  unfold HeapFile.update
  split_ifs with hsize
  · have hno : ¬ false = true := Bool.false_ne_true
    exact ⟨false, h, rfl, hg, rfl, rfl, fun _ => rfl, fun _ => rfl, fun hyes => absurd hyes hno⟩
  · have h0 : 0 < bytes.length := by omega
    obtain ⟨v, hv, hf, hcount, hlive, hsame, hrec⟩ :=
      (hg.formatted _ hp).updateVisit rid.slotId h0
    refine ⟨v.answer, { h with page := Function.update h.page rid.pageId v.data }, ?_,
      hg.replace fun _ => hf, rfl, rfl, fun p => ?_, fun hno => ?_,
      fun hyes => ⟨?_, h0, fun r => ?_⟩⟩
    · simp [HeapFile.visit, hv]
    · simp only [Function.update_apply]
      split_ifs with hpr
      · rw [hcount, hpr]
      · rfl
    · rw [hsame hno, Function.update_eq_self]
    · unfold HeapFile.record
      rw [record_of_live (hlive hyes)]
      exact Option.some_ne_none _
    · unfold HeapFile.record
      rcases eq_or_ne r.pageId rid.pageId with heq | hne
      · simp only [heq, Function.update_self, hrec hyes]
        rcases eq_or_ne r.slotId rid.slotId with hs | hs
        · rw [if_pos hs, if_pos (by cases r; cases rid; simp_all)]
        · rw [if_neg hs, if_neg (by rintro rfl; exact hs rfl)]
      · simp only [Function.update_of_ne hne]
        rw [if_neg (by rintro rfl; exact hne rfl)]

/-- One loop of `Insert`, where the work on a page either passes it on as related by `N` or
takes the tuple as related by `S`. -/
theorem tryPages_cases (act : PageData → Option (Visit (Option ℕ)))
    {N : ℤ → PageData → PageData → Prop} {S : ℤ → PageData → ℕ → PageData → Prop} {ps : List ℤ}
    (hps : ps.Nodup) (h : HeapFile) (hact : ∀ p ∈ ps, ∃ v, act (h.page p) = some v ∧
      ((v.answer = none ∧ N p (h.page p) v.data) ∨
        ∃ i, v.answer = some i ∧ S p (h.page p) i v.data)) :
    (∃ page, tryPages act ps h = some (none, { h with page }) ∧
      (∀ p ∈ ps, N p (h.page p) (page p)) ∧ ∀ p ∉ ps, page p = h.page p) ∨
    ∃ pre p post i page, ps = pre ++ p :: post ∧
      tryPages act ps h = some (some ⟨p, i⟩, { h with page }) ∧
      (∀ q ∈ pre, N q (h.page q) (page q)) ∧ S p (h.page p) i (page p) ∧
      ∀ q ∉ pre, q ≠ p → page q = h.page q := by
  induction ps generalizing h with
  | nil => exact .inl ⟨h.page, rfl, nofun, fun _ _ => rfl⟩
  | cons p ps ih =>
    obtain ⟨hp, hps⟩ := List.nodup_cons.mp hps
    obtain ⟨v, hv, hcases⟩ := hact p (by simp)
    set h₁ : HeapFile := { h with page := Function.update h.page p v.data } with hh₁
    have hvis : h.visit p act = some (v.answer, h₁) := by simp [HeapFile.visit, hv, hh₁]
    have hsame : ∀ q ≠ p, h₁.page q = h.page q := fun q hq => Function.update_of_ne hq _ _
    have hself : h₁.page p = v.data := Function.update_self ..
    rcases hcases with ⟨hno, hN⟩ | ⟨i, hyes, hS⟩
    · have hne : ∀ q ∈ ps, q ≠ p := fun q hq => ne_of_mem_of_not_mem hq hp
      have hih := ih hps h₁ fun q hq => by
        rw [hsame q (hne q hq)]
        exact hact q (by simp [hq])
      have htry : tryPages act (p :: ps) h = tryPages act ps h₁ := by
        simp only [tryPages, hvis, hno, Option.bind_eq_bind, Option.bind_some]
      rw [htry]
      rcases hih with ⟨page, he, hall, hrest⟩ | ⟨pre, q, post, i, page, rfl, he, hall, hS, hrest⟩
      · refine .inl ⟨page, he, fun q hq => ?_, fun q hq => ?_⟩
        · rcases eq_or_ne q p with rfl | hqp
          · rw [hrest q hp, hself]
            exact hN
          · rw [← hsame q hqp]
            exact hall q ((List.mem_cons.mp hq).resolve_left hqp)
        · rw [hrest q (fun hm => hq (by simp [hm])), hsame q (fun hqp => hq (by simp [hqp]))]
      · have hqp : q ≠ p := hne q (by simp)
        refine .inr ⟨p :: pre, q, post, i, page, rfl, he, fun r hr => ?_, ?_, fun r hr hrq => ?_⟩
        · rcases eq_or_ne r p with rfl | hrp
          · rw [hrest r (fun hm => hp (by simp [hm])) hqp.symm, hself]
            exact hN
          · rw [← hsame r hrp]
            exact hall r ((List.mem_cons.mp hr).resolve_left hrp)
        · rwa [hsame q hqp] at hS
        · rw [hrest r (fun hm => hr (by simp [hm])) hrq, hsame r (fun hrp => hr (by simp [hrp]))]
    · refine .inr ⟨[], p, ps, i, h₁.page, rfl, ?_, nofun, ?_, fun q _ hq => hsame q hq⟩
      · simp only [tryPages, hvis, hyes, Option.bind_eq_bind, Option.bind_some]
        rfl
      · rw [hself]
        exact hS

/-- No page has room for `k` bytes. -/
def Full (h : HeapFile) (k : ℕ) : Prop :=
  ∀ p ∈ h.ids, hasEnoughSpace (h.page p) k = false

/-- The compacted page of `d` has room for `k` bytes. -/
def fitsCompacted (d : PageData) (k : ℕ) : Bool :=
  8 + 4 * slotCount d + 4 + k + lengthBefore d (slotCount d) ≤ 4096

/-- What an `Insert` of between 1 and 65531 bytes does. -/
inductive Inserts (h : HeapFile) (bytes : List UInt8) : RecordId → HeapFile → Prop where
  | firstFit {p : ℤ} {page : ℤ → PageData} (hp : p ∈ h.ids)
      (happ : Appends (h.page p) bytes (page p)) (hf : Formatted p (page p))
      (hsame : ∀ q, q ≠ p → page q = h.page q) :
      Inserts h bytes ⟨p, slotCount (h.page p)⟩ { h with page }
  | compacted {pre post : List ℤ} {p : ℤ} {d : PageData} {page : ℤ → PageData}
      (hfull : h.Full bytes.length) (hids : h.ids = pre ++ p :: post)
      (hpre : ∀ q ∈ pre, Compacted (h.page q) (page q) ∧
        fitsCompacted (h.page q) bytes.length = false)
      (hfit : fitsCompacted (h.page p) bytes.length = true) (hc : Compacted (h.page p) d)
      (happ : Appends d bytes (page p)) (hf : Formatted p (page p))
      (hsame : ∀ q ∉ pre, q ≠ p → page q = h.page q) :
      Inserts h bytes ⟨p, slotCount (h.page p)⟩ { h with page }
  | newPage {page : ℤ → PageData} (hfull : h.Full bytes.length) (hlen : bytes.length ≤ 4084)
      (hall : ∀ q ∈ h.ids, Compacted (h.page q) (page q) ∧
        fitsCompacted (h.page q) bytes.length = false)
      (happ : Appends (initializePage zeroPage h.next) bytes (page h.next))
      (hf : Formatted h.next (page h.next)) :
      Inserts h bytes ⟨h.next, 0⟩ ⟨h.ids ++ [h.next], page, h.next + 1⟩
  | tooLong {page : ℤ → PageData} (hfull : h.Full bytes.length) (hlen : 4084 < bytes.length)
      (hall : ∀ q ∈ h.ids, Compacted (h.page q) (page q) ∧
        fitsCompacted (h.page q) bytes.length = false) :
      Inserts h bytes invalidRecordId ⟨h.ids, page, h.next + 1⟩

theorem Compacted.hasEnoughSpace_iff {p : ℤ} {d d' : PageData} (hf : Formatted p d)
    (hc : Compacted d d') {k : ℕ} (hk : k < 65532) :
    hasEnoughSpace d' k = fitsCompacted d k := by
  have hfree := hc.free
  rw [Bool.eq_iff_iff, (hc.formatted hf).hasEnoughSpace_iff hk, hc.count, fitsCompacted,
    decide_eq_true_iff]
  omega

theorem Good.insert_cases (hg : h.Good) (h0 : 0 < bytes.length) (hlt : bytes.length < 65532) :
    ∃ rid h', h.insert bytes = some (rid, h') ∧ h.Inserts bytes rid h' := by
  have hnext := hg.next_nonneg
  have hbound := hg.next_le
  unfold HeapFile.insert
  rw [if_neg (by omega)]
  have hfirst := tryPages_cases (insertVisit bytes)
    (N := fun _ d d' => d' = d ∧ hasEnoughSpace d bytes.length = false)
    (S := fun p d i d' => i = slotCount d ∧ Appends d bytes d' ∧ Formatted p d')
    hg.nodup h fun p hp => by
      obtain ⟨v, hv, ⟨hno, hd, hr⟩ | ⟨hyes, ha, -, hf⟩⟩ := (hg.formatted p hp).insertVisit hlt
      · exact ⟨v, hv, .inl ⟨hno, hd, hr⟩⟩
      · exact ⟨v, hv, .inr ⟨_, hyes, rfl, ha, hf⟩⟩
  rcases hfirst with ⟨page₁, he₁, hall₁, hrest₁⟩ |
    ⟨pre, p, post, i, page₁, hids, he₁, hpre, ⟨rfl, ha, hf⟩, hrest⟩
  · -- no page had room, and none was changed
    have hsame : page₁ = h.page := funext fun q => by
      by_cases hq : q ∈ h.ids
      · exact (hall₁ q hq).1
      · exact hrest₁ q hq
    subst hsame
    have hfull : h.Full bytes.length := fun p hp => (hall₁ p hp).2
    simp only [he₁, Option.bind_eq_bind, Option.bind_some]
    have hsecond := tryPages_cases (compactVisit bytes)
      (N := fun _ d d' => Compacted d d' ∧ fitsCompacted d bytes.length = false)
      (S := fun p d i d' => i = slotCount d ∧ fitsCompacted d bytes.length = true ∧
        (∃ d₁, Compacted d d₁ ∧ Appends d₁ bytes d') ∧ Formatted p d')
      hg.nodup h fun p hp => by
        have hfp := hg.formatted p hp
        obtain ⟨d₁, v, hc, hv, ⟨hno, rfl, hr⟩ | ⟨hyes, ha, hr, hf⟩⟩ := hfp.compactVisit hlt
        · exact ⟨v, hv, .inl ⟨hno, hc, by rw [← Compacted.hasEnoughSpace_iff hfp hc hlt, hr]⟩⟩
        · exact ⟨v, hv, .inr ⟨_, hyes, rfl, by rw [← Compacted.hasEnoughSpace_iff hfp hc hlt, hr],
            ⟨d₁, hc, ha⟩, hf⟩⟩
    rcases hsecond with ⟨page₂, he₂, hall₂, -⟩ |
      ⟨pre, p, post, i, page₂, hids, he₂, hpre, ⟨rfl, hfit, ⟨d₁, hc, ha⟩, hf⟩, hrest⟩
    · have hinit := initializePage_formatted hnext (by omega) zeroPage
      have hc0 := slotCount_initializePage zeroPage h.next
      have hfree0 := freeSpaceOffset_initializePage zeroPage h.next
      have hother : ∀ d, ∀ q ∈ h.ids, Function.update page₂ h.next d q = page₂ q :=
        fun d q hq => Function.update_of_ne (ne_of_mem_of_not_mem hq hg.fresh) _ _
      simp only [he₂, Option.bind_some, HeapFile.insertNew]
      rcases Nat.lt_or_ge 4084 bytes.length with hlong | hfit
      · have hno : hasEnoughSpace (initializePage zeroPage h.next) bytes.length = false := by
          rw [Bool.eq_false_iff]
          intro hr
          have := (hinit.hasEnoughSpace_iff hlt).mp hr
          omega
        rw [insertTuple_full hno]
        exact ⟨_, _, rfl, .tooLong hfull hlong hall₂⟩
      · have hroom : 8 + 4 * slotCount (initializePage zeroPage h.next) + 4 + bytes.length ≤
            freeSpaceOffset (initializePage zeroPage h.next) + 1 := by omega
        obtain ⟨d, hi, ha⟩ := hinit.insertTuple hroom
        have hpage : Function.update page₂ h.next d h.next = d := Function.update_self ..
        simp only [hi, hc0]
        refine ⟨_, _, rfl, .newPage hfull hfit (fun q hq => ?_) ?_ ?_⟩
        · rw [hother d q hq]
          exact hall₂ q hq
        · rw [hpage]
          exact ha
        · rw [hpage]
          exact ha.formatted hinit hroom
    · simp only [he₂, Option.bind_some]
      exact ⟨_, _, rfl, .compacted hfull hids hpre hfit hc ha hf hrest⟩
  · have hmem : p ∈ h.ids := hids ▸ by simp
    simp only [he₁, Option.bind_eq_bind, Option.bind_some]
    refine ⟨_, _, rfl, .firstFit hmem ha hf fun q hq => ?_⟩
    by_cases hqpre : q ∈ pre
    · exact (hpre q hqpre).1
    · exact hrest q hqpre hq

/-! What follows from the cases. -/

theorem Inserts.extends_ids (h₁ : h.Inserts bytes rid h') : h.ids <+: h'.ids := by
  cases h₁ with
  | firstFit => exact List.prefix_rfl
  | compacted => exact List.prefix_rfl
  | newPage => exact List.prefix_append _ _
  | tooLong => exact List.prefix_rfl

theorem Inserts.nonneg (hg : h.Good) (h₁ : h.Inserts bytes rid h') {p : ℤ} (hp : p ∈ h'.ids) :
    0 ≤ p := by
  cases h₁ with
  | firstFit => exact (hg.range p hp).1
  | compacted => exact (hg.range p hp).1
  | newPage =>
    rcases List.mem_append.mp hp with hp | hp
    · exact (hg.range p hp).1
    · rw [List.mem_singleton.mp hp]
      exact hg.next_nonneg
  | tooLong => exact (hg.range p hp).1

/-- Each old page is as it was, or compacted, or one of these with the new tuple appended. -/
theorem Inserts.page_cases (hg : h.Good) (h₁ : h.Inserts bytes rid h') {p : ℤ}
    (hp : p ∈ h.ids) : (h'.page p = h.page p ∧ p ≠ rid.pageId) ∨
      (Compacted (h.page p) (h'.page p) ∧ p ≠ rid.pageId) ∨
      (rid = ⟨p, slotCount (h.page p)⟩ ∧ Appends (h.page p) bytes (h'.page p) ∧
        Formatted p (h'.page p)) ∨
      ∃ d, rid = ⟨p, slotCount (h.page p)⟩ ∧ Compacted (h.page p) d ∧
        Appends d bytes (h'.page p) ∧ Formatted p (h'.page p) := by
  cases h₁ with
  | @firstFit q page hq happ hf hsame =>
    rcases eq_or_ne p q with rfl | hpq
    · exact .inr (.inr (.inl ⟨rfl, happ, hf⟩))
    · exact .inl ⟨hsame p hpq, hpq⟩
  | @compacted pre post q d page hfull hids hpre hfit hc happ hf hsame =>
    have hnd := hids ▸ hg.nodup
    rcases eq_or_ne p q with rfl | hpq
    · exact .inr (.inr (.inr ⟨d, rfl, hc, happ, hf⟩))
    · by_cases hmem : p ∈ pre
      · exact .inr (.inl ⟨(hpre p hmem).1, hpq⟩)
      · exact .inl ⟨hsame p hmem hpq, hpq⟩
  | newPage hfull hlen hall happ hf =>
    exact .inr (.inl ⟨(hall p hp).1, ne_of_mem_of_not_mem hp hg.fresh⟩)
  | tooLong hfull hlen hall =>
    have hne : p ≠ invalidPageId := ne_invalid_of_nonneg (hg.range p hp).1
    exact .inr (.inl ⟨(hall p hp).1, hne⟩)

/-- The record id an `Insert` returns: the invalid one for a tuple no page can hold, and
otherwise that of a slot that did not exist before. -/
theorem Inserts.rid_cases (hg : h.Good) (h₁ : h.Inserts bytes rid h') :
    (rid = invalidRecordId ∧ 4084 < bytes.length) ∨
      (bytes.length ≤ 4084 ∧ rid.pageId ∈ h'.ids ∧
        rid.slotId < slotCount (h'.page rid.pageId) ∧
        (rid.pageId ∈ h.ids → slotCount (h.page rid.pageId) ≤ rid.slotId)) := by
  have hlen : ∀ {p : ℤ} {d d' : PageData}, Formatted p d' → Appends d bytes d' →
      bytes.length ≤ 4084 := by
    intro p d d' hf ha
    have h1 := hf.top
    have h2 := hf.room
    have h3 := ha.free
    have h4 := ha.count
    have hin := Block.get16_lt d' 4
    by_contra hlong
    have hl : Live d' (slotCount d) := ⟨by omega, by rw [ha.new]; simp only; omega⟩
    have hi := hf.inside _ hl
    rw [ha.new] at hi
    simp only at hi
    omega
  cases h₁ with
  | @firstFit q page hq happ hf hsame =>
    refine .inr ⟨hlen hf happ, hq, ?_, fun _ => le_rfl⟩
    have := happ.count
    simp only
    omega
  | @compacted pre post q d page hfull hids hpre hfit hc happ hf hsame =>
    refine .inr ⟨hlen hf happ, by simp [hids], ?_, fun _ => le_rfl⟩
    have h1 := happ.count
    have h2 := hc.count
    simp only
    omega
  | newPage hfull hfit hall happ hf =>
    refine .inr ⟨hfit, by simp, ?_, fun hmem => absurd hmem hg.fresh⟩
    have := happ.count
    simp only
    omega
  | tooLong hfull hlong hall => exact .inl ⟨rfl, hlong⟩

theorem Inserts.invalid_cases (hg : h.Good) (hins : h.Inserts bytes rid h')
    (hrid : rid = invalidRecordId) :
    h'.ids = h.ids ∧ h'.next = h.next + 1 := by
  have hno : rid.pageId ∉ h.ids := by
    rintro hmem
    rw [hrid] at hmem
    exact ne_invalid_of_nonneg (hg.range _ hmem).1 rfl
  cases hins with
  | firstFit hp => exact absurd hp hno
  | compacted hfull hids => exact absurd (by simp [hids]) hno
  | newPage =>
    have hnext : h.next = invalidPageId := congrArg RecordId.pageId hrid
    exact absurd hnext (ne_invalid_of_nonneg hg.next_nonneg)
  | tooLong => exact ⟨rfl, rfl⟩

/-- A new record id differs from all that have a slot. -/
theorem Inserts.fresh (hg : h.Good) (h₁ : h.Inserts bytes rid h') : ¬ h.HasSlot rid := by
  rintro ⟨hp, hs⟩
  rcases h₁.rid_cases hg with ⟨rfl, -⟩ | ⟨-, -, -, hnew⟩
  · exact absurd (hg.range _ hp).1 (by decide)
  · exact absurd hs (not_lt.mpr (hnew hp))

theorem Inserts.good (hg : h.Good) (h₁ : h.Inserts bytes rid h') (hle : h'.next ≤ 524288) :
    h'.Good := by
  have hold : ∀ p ∈ h.ids, Formatted p (h'.page p) := by
    intro p hp
    have hf := hg.formatted p hp
    rcases h₁.page_cases hg hp with ⟨he, -⟩ | ⟨hc, -⟩ | ⟨-, -, hf'⟩ | ⟨d, -, -, -, hf'⟩
    · rwa [he]
    · exact hc.formatted hf
    · exact hf'
    · exact hf'
  have hn := hg.next_nonneg
  cases h₁ with
  | firstFit => exact ⟨hg.nodup, hg.range, hg.next_nonneg, hle, hold⟩
  | compacted => exact ⟨hg.nodup, hg.range, hg.next_nonneg, hle, hold⟩
  | newPage hfull hlen hall happ hf =>
    refine ⟨?_, fun p hp => ?_, by simp only; omega, hle, fun p hp => ?_⟩
    · rw [← List.concat_eq_append, List.nodup_concat]
      exact ⟨hg.fresh, hg.nodup⟩
    · rcases List.mem_append.mp hp with hp | hp
      · have := hg.range p hp
        simp only
        omega
      · rw [List.mem_singleton.mp hp]
        simp only
        omega
    · rcases List.mem_append.mp hp with hp | hp
      · exact hold p hp
      · rw [List.mem_singleton.mp hp]
        exact hf
  | tooLong =>
    refine ⟨hg.nodup, fun p hp => ?_, by simp only; omega, hle, hold⟩
    have := hg.range p hp
    simp only
    omega

theorem Inserts.count_le (hg : h.Good) (h₁ : h.Inserts bytes rid h') {p : ℤ} (hp : p ∈ h.ids) :
    slotCount (h.page p) ≤ slotCount (h'.page p) := by
  rcases h₁.page_cases hg hp with ⟨he, -⟩ | ⟨hc, -⟩ | ⟨-, ha, -⟩ | ⟨d, -, hc, ha, -⟩
  · rw [he]
  · exact hc.count.ge
  · exact Nat.le.intro ha.count.symm
  · rw [ha.count, hc.count]
    exact Nat.le_succ _

/-- The pages up to the first one with `P`, that one included. -/
def upTo (P : ℤ → Bool) : List ℤ → List ℤ
  | [] => []
  | p :: ps => if P p then [p] else p :: upTo P ps

theorem mem_of_mem_upTo {P : ℤ → Bool} {ps : List ℤ} {p : ℤ} (h : p ∈ upTo P ps) : p ∈ ps := by
  induction ps with
  | nil => exact h
  | cons q ps ih =>
    unfold upTo at h
    split_ifs at h
    · simp_all
    · rcases List.mem_cons.mp h with rfl | h
      · simp
      · exact List.mem_cons_of_mem _ (ih h)

theorem upTo_congr {P Q : ℤ → Bool} {ps : List ℤ} (h : ∀ p ∈ ps, P p = Q p) :
    upTo P ps = upTo Q ps := by
  induction ps with
  | nil => rfl
  | cons q ps ih => simp [upTo, h q (by simp), ih fun r hr => h r (by simp [hr])]

theorem upTo_of_none {P : ℤ → Bool} {ps : List ℤ} (h : ∀ p ∈ ps, P p = false) :
    upTo P ps = ps := by
  induction ps with
  | nil => rfl
  | cons p ps ih => simp [upTo, h p (by simp), ih fun q hq => h q (by simp [hq])]

theorem upTo_of_first {P : ℤ → Bool} {pre post : List ℤ} {p : ℤ}
    (hpre : ∀ q ∈ pre, P q = false) (hp : P p = true) :
    upTo P (pre ++ p :: post) = pre ++ [p] := by
  induction pre with
  | nil => simp [upTo, hp]
  | cons q pre ih => simp [upTo, hpre q (by simp), ih fun r hr => hpre r (by simp [hr])]

/-- The pages an `Insert` of `k` bytes compacts: none where some page has room, otherwise all
pages up to the first that has room once it is compacted. -/
def compactedPages (h : HeapFile) (k : ℕ) : List ℤ :=
  if h.ids.any fun p => hasEnoughSpace (h.page p) k then []
  else upTo (fun p => fitsCompacted (h.page p) k) h.ids

/-- Wherever an `Insert` of `k` bytes compacts, no tuple is written over before it has moved. -/
def CompactsUpwards (h : HeapFile) (k : ℕ) : Prop :=
  ∀ p ∈ h.compactedPages k, ∀ i, Live (h.page p) i → MovesUp (h.page p) i

instance (h : HeapFile) (k : ℕ) : Decidable (h.CompactsUpwards k) :=
  decidable_of_iff (∀ p ∈ h.compactedPages k, ∀ i < slotCount (h.page p),
      Live (h.page p) i → MovesUp (h.page p) i)
    (forall₂_congr fun _ _ => ⟨fun hall i hl => hall i hl.1 hl, fun hall i _ => hall i⟩)

theorem compactsUpwards_congr {k : ℕ} (hids : h.ids = h'.ids)
    (hpage : ∀ p ∈ h.ids, h.page p = h'.page p) (hup : h.CompactsUpwards k) :
    h'.CompactsUpwards k := by
  have hsame : h'.compactedPages k = h.compactedPages k := by
    unfold compactedPages
    rw [← hids]
    have hfits : upTo (fun p => fitsCompacted (h'.page p) k) h.ids =
        upTo (fun p => fitsCompacted (h.page p) k) h.ids :=
      upTo_congr fun p hp => by rw [hpage p hp]
    have hany : (h.ids.any fun p => hasEnoughSpace (h'.page p) k) =
        h.ids.any fun p => hasEnoughSpace (h.page p) k := by
      rw [Bool.eq_iff_iff, List.any_eq_true, List.any_eq_true]
      exact exists_congr fun p => and_congr_right fun hp => by rw [hpage p hp]
    rw [hfits, hany]
  intro p hp i hi
  rw [hsame] at hp
  have hmem : p ∈ h.ids := by
    unfold compactedPages at hp
    split_ifs at hp
    · cases hp
    · exact mem_of_mem_upTo hp
  rw [← hpage p hmem] at hi ⊢
  exact hup p hp i hi

theorem Full.any (hfull : h.Full bytes.length) :
    (h.ids.any fun p => hasEnoughSpace (h.page p) bytes.length) = false := by
  rw [List.any_eq_false]
  intro p hp
  rw [hfull p hp]
  exact nofun

/-- An `Insert` that compacts upwards adds one record and keeps all others. -/
theorem Inserts.records (hg : h.Good) (h0 : 0 < bytes.length) (h₁ : h.Inserts bytes rid h')
    (hup : h.CompactsUpwards bytes.length) {r : RecordId} (hr : r.pageId ∈ h'.ids) :
    h'.record r = if r = rid then some bytes
      else if r.pageId ∈ h.ids then h.record r else none := by
  have happend : ∀ {p : ℤ} {d d' : PageData}, Formatted p d → Appends d bytes d' →
      ∀ i, PragmaticDB.record d' i = if i = slotCount d then some bytes
        else PragmaticDB.record d i := fun hf ha i => ha.records hf h0 i
  obtain ⟨q, i⟩ := r
  unfold HeapFile.record
  simp only at hr ⊢
  cases h₁ with
  | @firstFit p page hp happ hf hsame =>
    have hqm : q ∈ h.ids := hr
    rw [if_pos hqm]
    rcases eq_or_ne q p with rfl | hqp
    · simp [happend (hg.formatted q hp) happ]
    · simp [hsame q hqp, hqp]
  | @compacted pre post p d page hfull hids hpre hfit hc happ hf hsame =>
    have hqm : q ∈ h.ids := hr
    have hpages : h.compactedPages bytes.length = pre ++ [p] := by
      unfold compactedPages
      rw [if_neg (by rw [hfull.any]; exact nofun), hids]
      exact upTo_of_first (fun r hr => (hpre r hr).2) hfit
    have hpm : p ∈ h.ids := hids ▸ by simp
    rw [if_pos hqm]
    rcases eq_or_ne q p with rfl | hqp
    · have hd := fun i => hc.record_eq (i := i) fun hl => hup q (by simp [hpages]) i hl
      simp [happend (hc.formatted (hg.formatted q hpm)) happ, hd, hc.count]
    · by_cases hmem : q ∈ pre
      · have hd := (hpre q hmem).1.record_eq (i := i) fun hl => hup q (by simp [hpages, hmem]) i hl
        simp [hd, hqp]
      · simp [hsame q hmem hqp, hqp]
  | @newPage page hfull hlen hall happ hf =>
    have hpages : h.compactedPages bytes.length = h.ids := by
      unfold compactedPages
      rw [if_neg (by rw [hfull.any]; exact nofun)]
      exact upTo_of_none fun r hr => (hall r hr).2
    rcases List.mem_append.mp hr with hqm | hqm
    · have hne : q ≠ h.next := ne_of_mem_of_not_mem hqm hg.fresh
      have hd := (hall q hqm).1.record_eq (i := i) fun hl => hup q (hpages ▸ hqm) i hl
      simp [hd, hqm, hne]
    · obtain rfl := List.mem_singleton.mp hqm
      have hinit := initializePage_formatted hg.next_nonneg (by have := hg.next_le; omega) zeroPage
      have hc0 := slotCount_initializePage zeroPage h.next
      have hempty : PragmaticDB.record (initializePage zeroPage h.next) i = none :=
        record_of_dead fun hl => absurd hl.1 (by omega)
      simp [happend hinit happ, hc0, hg.fresh, hempty]
  | @tooLong page hfull hlen hall =>
    have hqm : q ∈ h.ids := hr
    have hpages : h.compactedPages bytes.length = h.ids := by
      unfold compactedPages
      rw [if_neg (by rw [hfull.any]; exact nofun)]
      exact upTo_of_none fun r hr => (hall r hr).2
    have hne : (⟨q, i⟩ : RecordId) ≠ invalidRecordId := by
      intro he
      exact ne_invalid_of_nonneg (hg.range q hqm).1 (congrArg RecordId.pageId he)
    have hd := (hall q hqm).1.record_eq (i := i) fun hl => hup q (hpages ▸ hqm) i hl
    rw [if_neg hne, if_pos hqm]
    exact hd

/-- What a heap has under `rid`. -/
def lookup (h : HeapFile) (rid : RecordId) : Option (List UInt8) :=
  if rid.pageId ∈ h.ids then h.record rid else none

/-- What `Inserts.records` says of all record ids at once. -/
theorem Inserts.lookup (hg : h.Good) (h0 : 0 < bytes.length) (hins : h.Inserts bytes rid h')
    (hup : h.CompactsUpwards bytes.length) (r : RecordId) : h'.lookup r =
      if r = rid ∧ rid ≠ invalidRecordId then some bytes else h.lookup r := by
  have hsub := hins.extends_ids.subset
  by_cases hr : r.pageId ∈ h'.ids
  · have hrec := hins.records hg h0 hup hr
    have hvalid : r = rid → rid ≠ invalidRecordId := by
      rintro rfl rfl
      exact absurd (hins.nonneg hg hr) (by decide)
    unfold HeapFile.lookup
    rw [if_pos hr, hrec]
    by_cases heq : r = rid
    · rw [if_pos heq, if_pos ⟨heq, hvalid heq⟩]
    · simp only [heq, if_false, false_and]
  · have hold : r.pageId ∉ h.ids := fun hm => hr (hsub hm)
    have hno : ¬ (r = rid ∧ rid ≠ invalidRecordId) := by
      rintro ⟨rfl, hne⟩
      rcases hins.rid_cases hg with ⟨hinv, -⟩ | ⟨-, hp, -⟩
      · exact hne hinv
      · exact hr hp
    unfold HeapFile.lookup
    rw [if_neg hr, if_neg hno, if_neg hold]

theorem Inserts.descending (hg : h.Good) (h₁ : h.Inserts bytes rid h')
    (hd : ∀ p ∈ h.ids, Descending (h.page p)) : ∀ p ∈ h'.ids, Descending (h'.page p) := by
  have hold : ∀ p ∈ h.ids, Descending (h'.page p) := by
    intro p hp
    rcases h₁.page_cases hg hp with ⟨he, -⟩ | ⟨hc, -⟩ | ⟨-, ha, -⟩ | ⟨d, -, hc, ha, -⟩
    · rw [he]
      exact hd p hp
    · exact hc.descending
    · exact ha.descending (hg.formatted p hp) (hd p hp)
    · exact ha.descending (hc.formatted (hg.formatted p hp)) hc.descending
  cases h₁ with
  | firstFit => exact hold
  | compacted => exact hold
  | newPage hfull hlen hall happ hf =>
    intro p hp
    rcases List.mem_append.mp hp with hp | hp
    · exact hold p hp
    · obtain rfl := List.mem_singleton.mp hp
      have hinit := initializePage_formatted hg.next_nonneg (by have := hg.next_le; omega) zeroPage
      have hc0 := slotCount_initializePage zeroPage h.next
      exact happ.descending hinit fun i j _ hi _ => absurd hi.1 (by omega)
  | tooLong => exact hold

/-- In a heap filled in slot order every compaction goes upwards. -/
theorem Good.compactsUpwards (hg : h.Good) (hd : ∀ p ∈ h.ids, Descending (h.page p)) (k : ℕ) :
    h.CompactsUpwards k := by
  intro p hp i hi
  unfold compactedPages at hp
  split_ifs at hp
  · simp at hp
  · have hp := mem_of_mem_upTo hp
    exact (hd p hp).movesUp (hg.formatted p hp) hi

end HeapFile

/-! Tuples whose size plus that of a slot does not fit 16 bits. -/

theorem insertTuple_wide {d : PageData} {bytes : List UInt8} (hw : 4096 < bytes.length)
    (hr : hasEnoughSpace d bytes.length = true) : insertTuple d bytes = none := by
  unfold insertTuple
  rw [if_pos hr]
  apply Option.bind_eq_none_iff.mpr
  intro d' hd'
  unfold Block.store? at hd'
  split_ifs at hd' with hle
  omega

theorem insertVisit_wide {d : PageData} {bytes : List UInt8} (hw : 4096 < bytes.length)
    {v : Visit (Option ℕ)} (h : insertVisit bytes d = some v) : v.answer = none := by
  unfold insertVisit at h
  split_ifs at h with hr
  · rw [insertTuple_wide hw hr] at h
    cases h
  · cases h
    rfl

theorem compactVisit_wide {d : PageData} {bytes : List UInt8} (hw : 4096 < bytes.length)
    {v : Visit (Option ℕ)} (h : compactVisit bytes d = some v) : v.answer = none := by
  obtain ⟨e, -, h⟩ := Option.bind_eq_some_iff.mp h
  split_ifs at h with hr
  · rw [insertTuple_wide hw hr] at h
    cases h
  · cases h
    rfl

namespace HeapFile
variable {h h' : HeapFile}

theorem tryPages_none {act : PageData → Option (Visit (Option ℕ))}
    (hact : ∀ d v, act d = some v → v.answer = none) (ps : List ℤ) {x : Option RecordId}
    (he : tryPages act ps h = some (x, h')) : x = none ∧ h'.next = h.next := by
  induction ps generalizing h with
  | nil =>
    cases he
    exact ⟨rfl, rfl⟩
  | cons p ps ih =>
    obtain ⟨⟨slotId, h₁⟩, hvis, he⟩ := Option.bind_eq_some_iff.mp he
    obtain ⟨v, hv, hx⟩ := Option.bind_eq_some_iff.mp hvis
    have hno : slotId = none := (Prod.mk.inj (Option.some.inj hx)).1 ▸ hact _ v hv
    subst hno
    obtain ⟨hx', hnext⟩ := ih he
    exact ⟨hx', hnext.trans (visit_ids hvis).2⟩

/-- An `Insert` of 65532 to 65535 bytes is never defined. -/
theorem insert_wide (h : HeapFile) {bytes : List UInt8} (hlo : 65532 ≤ bytes.length)
    (hhi : bytes.length ≤ 65535) : h.insert bytes = none := by
  have hw : 4096 < bytes.length := by omega
  have hroom : hasEnoughSpace (initializePage zeroPage h.next) bytes.length = true := by
    unfold hasEnoughSpace availableSpace
    rw [freeSpaceOffset_initializePage, slotCount_initializePage]
    unfold u16 slotAddr
    simp only [decide_eq_true_eq]
    omega
  unfold HeapFile.insert
  rw [if_neg (by omega)]
  apply Option.bind_eq_none_iff.mpr
  rintro ⟨x, h₁⟩ h1
  obtain ⟨rfl, hn1⟩ := tryPages_none (fun _ _ => insertVisit_wide hw) _ h1
  apply Option.bind_eq_none_iff.mpr
  rintro ⟨x, h₂⟩ h2
  obtain ⟨rfl, hn2⟩ := tryPages_none (fun _ _ => compactVisit_wide hw) _ h2
  change h₂.insertNew bytes = none
  unfold insertNew
  rw [hn2, hn1, insertTuple_wide hw hroom]
  rfl

end HeapFile

end PragmaticDB
