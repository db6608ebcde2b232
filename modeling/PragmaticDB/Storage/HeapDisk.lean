import PragmaticDB.Storage.HeapInvariants

/-!
What the calls of a record manager do to the file: a page's copy there is replaced by nothing
but the page's current bytes, so once a formatted copy is there, a formatted copy stays.
-/
namespace PragmaticDB
open ByteBlock DiskManager CallMachine

/-- The file holds a formatted page `p`. -/
def InFile (file : Option File) (p : ℤ) : Prop := ∃ d, OnFile file p d ∧ Formatted p d

namespace BufferPoolManager
variable {n : ℕ} {b b' : BufferPoolManager n} {q : ℤ} {d : PageData}

theorem TakesOver.inFile {f : Fin n} {p : ℤ} (hs : b.Sound) (h : TakesOver b f p b')
    (hq : b.Has q d) (hf : Formatted q d) (hd : InFile b.diskManager.file q) :
    InFile b'.diskManager.file q := by
  rw [h.disk]
  split_ifs with hw
  · by_cases he : q = (b.pages f).pageId
    · have hl : b.pageTable.lookup q = some f := (hs.mapped q f).mpr ⟨hq.addr.1, he.symm⟩
      refine ⟨d, ?_, hf⟩
      rw [← he, hq.frame f hl]
      exact onDisk_writePage hs.plan hq.addr d
    · obtain ⟨e, he', hfe⟩ := hd
      have hother : b.diskManager.OnDisk q e := he'
      exact ⟨e, hother.writePage_other (hs.addressable hw.1) hq.addr (Ne.symm he), hfe⟩
  · exact hd

theorem Has.inFile_fetchPage (hs : b.Sound) (hq : b.Has q d) (hf : Formatted q d) (p : ℤ)
    (hd : InFile b.diskManager.file q) : InFile (b.fetchPage p).2.diskManager.file q := by
  rcases hs.fetch_cases p with ⟨f, -, he⟩ | ⟨-, -, he⟩ | ⟨-, f, b', ht, -, he⟩
  · rw [he]
    exact hd
  · rw [he]
    exact hd
  · rw [he]
    change InFile b'.diskManager.file q
    exact ht.inFile hs hq hf hd

theorem Has.inFile_newPage (hs : b.Sound) (hq : b.Has q d) (hf : Formatted q d)
    (hd : InFile b.diskManager.file q) : InFile b.newPage.2.diskManager.file q := by
  rcases hs.newPage_cases with ⟨-, he⟩ | ⟨f, b', ht, -, he⟩
  · rw [he]
    exact hd
  · rw [he]
    change InFile b'.diskManager.file q
    exact ht.inFile hs hq hf hd

theorem unpinPage_disk (b : BufferPoolManager n) (p : ℤ) (x : Bool) :
    (b.unpinPage p x).2.diskManager = b.diskManager := by
  rcases unpinPage_cases b p x with ⟨he, -⟩ | ⟨f, -, -, he⟩
  · rw [he]
  · rw [he]
    rfl

end BufferPoolManager

/-- Work that leaves a formatted page formatted. -/
def KeepsFormat {α : Type} (act : PageData → Option (Visit α)) : Prop :=
  ∀ p d v, Formatted p d → act d = some v → Formatted p v.data

theorem insertVisit_keepsFormat {bytes : List UInt8} (hlt : bytes.length < 65532) :
    KeepsFormat (insertVisit bytes) := by
  intro p d v hf hv
  obtain ⟨v', hv', ⟨-, hd, -⟩ | ⟨-, -, -, hf'⟩⟩ := hf.insertVisit hlt
  · obtain rfl := Option.some.inj (hv.symm.trans hv')
    rw [hd]
    exact hf
  · obtain rfl := Option.some.inj (hv.symm.trans hv')
    exact hf'

/-- What takes a tuple is formatted again. -/
theorem Formatted.insertTuple_some {p : ℤ} {d d' : PageData} (hf : Formatted p d)
    {bytes : List UInt8} (hlt : bytes.length < 65532) {i : ℕ}
    (h : PageDataManager.insertTuple d bytes = some (some i, d')) : Formatted p d' := by
  cases hroom : PageDataManager.hasEnoughSpace d bytes.length with
  | false =>
    rw [insertTuple_full hroom] at h
    cases h
  | true =>
    have hv : PragmaticDB.insertVisit bytes d = some ⟨some i, d', true⟩ := by
      unfold PragmaticDB.insertVisit
      rw [if_pos hroom, h]
      rfl
    exact insertVisit_keepsFormat hlt p d _ hf hv

theorem compactVisit_keepsFormat {bytes : List UInt8} (hlt : bytes.length < 65532) :
    KeepsFormat (compactVisit bytes) := by
  intro p d v hf hv
  obtain ⟨d₁, v', hc, hv', ⟨-, hd, -⟩ | ⟨-, -, -, hf'⟩⟩ := hf.compactVisit hlt
  · obtain rfl := Option.some.inj (hv.symm.trans hv')
    rw [hd]
    exact hc.formatted hf
  · obtain rfl := Option.some.inj (hv.symm.trans hv')
    exact hf'

theorem getVisit_keepsFormat (i : ℕ) : KeepsFormat (getVisit i) := by
  intro p d v hf hv
  obtain rfl := Option.some.inj (hv.symm.trans (hf.getVisit i))
  exact hf

theorem slotCountVisit_keepsFormat : KeepsFormat slotCountVisit := by
  intro p d v hf hv
  cases hv
  exact hf

theorem deleteVisit_keepsFormat (i : ℕ) : KeepsFormat (deleteVisit i) := by
  intro p d v hf hv
  obtain ⟨v', hv', hf', -⟩ := hf.deleteVisit i
  obtain rfl := Option.some.inj (hv.symm.trans hv')
  exact hf'

theorem KeepsFormat.visit {α : Type} {h h' : HeapFile} {p : ℤ} {a : α}
    {act : PageData → Option (Visit α)} (hact : KeepsFormat act)
    (hf : ∀ q ∈ h.ids, Formatted q (h.page q)) (he : h.visit p act = some (a, h')) :
    ∀ q ∈ h'.ids, Formatted q (h'.page q) := by
  obtain ⟨v, hv, heq⟩ := Option.bind_eq_some_iff.mp he
  cases heq
  intro q hq
  by_cases hqp : q = p
  · subst hqp
    simp only [Function.update_self]
    exact hact q _ v (hf q hq) hv
  · simp only [Function.update_of_ne hqp]
    exact hf q hq

namespace RecordManager
variable {rm rm' : RecordManager} {h : HeapFile} {J : RecordManager → HeapFile → Prop}

/-- A relation kept by each visit to a page and by a new page. -/
structure VisitCalls (J : RecordManager → HeapFile → Prop) : Prop where
  refines : ∀ {rm h}, J rm h → rm.Refines h
  visit : ∀ {α : Type} {rm h} {p : ℤ} (absent : α) {act : PageData → Option (Visit α)},
    J rm h → p ∈ h.ids → Honest act → KeepsFormat act →
    Option.Rel (fun x y => x.1 = y.1 ∧ J x.2 y.2) (rm.visit p absent act) (h.visit p act)
  insertNew : ∀ {rm h} {bytes : List UInt8}, J rm h → bytes.length < 65532 →
    Option.Rel (fun x y => x.1 = y.1 ∧ x.2.pool.nextPageId = y.2.next ∧
      (y.2.next ≤ 524288 → J x.2 y.2)) (rm.insertNew bytes) (h.insertNew bytes)

/-- A relation kept by a flush as well. -/
structure VisitRules (J : RecordManager → HeapFile → Prop) : Prop extends VisitCalls J where
  flush : ∀ {rm h}, J rm h → J rm.flush h

namespace VisitCalls

theorem get (hJ : VisitCalls J) {rid : RecordId} (hr : J rm h) (hg : h.Good)
    (hp : rid.pageId ∈ h.ids) : ∃ rm', rm.get rid = some (h.record rid, rm') ∧ J rm' h := by
  have hrel := hJ.visit none hr hp (getVisit_honest rid.slotId) (getVisit_keepsFormat rid.slotId)
  change Option.Rel _ _ (h.get rid) at hrel
  rw [hg.get hp] at hrel
  unfold RecordManager.get
  rw [if_neg (ne_invalid_of_nonneg (hg.nonneg _ hp))]
  exact some_of_rel hrel

theorem getSlotCount (hJ : VisitCalls J) {p : ℤ} (hr : J rm h) (hp : p ∈ h.ids) :
    ∃ rm', rm.getSlotCount p = some (slotCount (h.page p), rm') ∧ J rm' h := by
  have hrel := hJ.visit 0 hr hp slotCountVisit_honest slotCountVisit_keepsFormat
  change Option.Rel _ _ (h.getSlotCount p) at hrel
  rw [HeapFile.getSlotCount_eq] at hrel
  exact some_of_rel hrel

theorem delete (hJ : VisitCalls J) {rid : RecordId} (hr : J rm h) (hp : rid.pageId ∈ h.ids) :
    Option.Rel (fun x y => x.1 = y.1 ∧ J x.2 y.2) (rm.delete rid) (h.delete rid) := by
  unfold RecordManager.delete
  rw [if_neg (ne_invalid_of_nonneg ((hJ.refines hr).range _ hp).1)]
  exact hJ.visit false hr hp (deleteVisit_honest rid.slotId) (deleteVisit_keepsFormat rid.slotId)

theorem tryPages (hJ : VisitCalls J) {act : PageData → Option (Visit (Option ℕ))}
    (ha : Honest act) (hk : KeepsFormat act) (ps : List ℤ) (hr : J rm h)
    (hps : ∀ p ∈ ps, p ∈ h.ids) :
    Option.Rel (fun x y => x.1 = y.1 ∧ J x.2 y.2) (RecordManager.tryPages act ps rm)
      (HeapFile.tryPages act ps h) := by
  induction ps generalizing rm h with
  | nil => exact .some ⟨rfl, hr⟩
  | cons p ps ih =>
    have hv := hJ.visit none hr (hps p List.mem_cons_self) ha hk
    unfold RecordManager.tryPages HeapFile.tryPages
    apply rel_bind_mem hv
    intro x y hy hxy
    obtain ⟨x, rm'⟩ := x
    obtain ⟨y, h'⟩ := y
    obtain ⟨rfl, hr'⟩ := hxy
    cases x with
    | some i => exact .some ⟨rfl, hr'⟩
    | none =>
      apply ih hr'
      intro q hq
      rw [(HeapFile.visit_ids hy).1]
      exact hps q (List.mem_cons_of_mem _ hq)

/-- An `Insert` is its two loops and a page more. -/
theorem insert (hJ : VisitCalls J) (hr : J rm h) (bytes : List UInt8) :
    Option.Rel (fun x y => x.1 = y.1 ∧ x.2.pool.nextPageId = y.2.next ∧
      (y.2.next ≤ 524288 → J x.2 y.2)) (rm.insert bytes) (h.insert bytes) := by
  by_cases hsize : bytes.length = 0 ∨ 65535 < bytes.length
  · unfold RecordManager.insert HeapFile.insert
    rw [if_pos hsize, if_pos hsize]
    exact .some ⟨rfl, (hJ.refines hr).next, fun _ => hr⟩
  · rcases Nat.lt_or_ge bytes.length 65532 with hlt | hge
    · unfold RecordManager.insert HeapFile.insert
      rw [if_neg hsize, if_neg hsize, (hJ.refines hr).ids]
      apply rel_bind (hJ.tryPages (insertVisit_honest bytes) (insertVisit_keepsFormat hlt) h.ids
        hr fun _ hp => hp)
      rintro ⟨x, rm₁⟩ ⟨y, h₁⟩ ⟨rfl, hr₁⟩
      cases x with
      | some rid => exact .some ⟨rfl, (hJ.refines hr₁).next, fun _ => hr₁⟩
      | none =>
        have hids : rm₁.pageIds = h₁.ids := (hJ.refines hr₁).ids
        simp only [hids]
        apply rel_bind (hJ.tryPages (compactVisit_honest bytes) (compactVisit_keepsFormat hlt)
          h₁.ids hr₁ fun _ hp => hp)
        rintro ⟨x, rm₂⟩ ⟨y, h₂⟩ ⟨rfl, hr₂⟩
        cases x with
        | some rid => exact .some ⟨rfl, (hJ.refines hr₂).next, fun _ => hr₂⟩
        | none => exact hJ.insertNew hr₂ hlt
    · have hrel := (hJ.refines hr).insert bytes
      rw [h.insert_wide hge (by omega)] at hrel ⊢
      cases hx : rm.insert bytes with
      | none => exact .none
      | some x =>
        rw [hx] at hrel
        cases hrel

end VisitCalls

variable {K : Set ℤ}

/-- All pages are formatted, and those of `K` have formatted copies in the file. -/
structure Saves (K : Set ℤ) (rm : RecordManager) (h : HeapFile) : Prop where
  refines : rm.Refines h
  formatted : ∀ p ∈ h.ids, Formatted p (h.page p)
  listed : ∀ p ∈ K, p ∈ h.ids
  copies : ∀ p ∈ K, InFile rm.pool.diskManager.file p

/-- Of a visit only the fetch can write to the file. -/
theorem visit_disk {α : Type} {p : ℤ} {absent a : α} {act : PageData → Option (Visit α)}
    (he : rm.visit p absent act = some (a, rm')) :
    rm'.pool.diskManager = (rm.pool.fetchPage p).2.diskManager := by
  unfold RecordManager.visit at he
  rcases hf : rm.pool.fetchPage p with ⟨_ | f, pool⟩
  · rw [hf] at he
    cases he
    rfl
  · rw [hf] at he
    obtain ⟨v, -, he⟩ := Option.bind_eq_some_iff.mp he
    cases he
    exact BufferPoolManager.unpinPage_disk _ _ _

theorem Saves.visit {α : Type} (hs : Saves K rm h) {p : ℤ} (hp : p ∈ h.ids) (absent : α)
    {act : PageData → Option (Visit α)} (ha : Honest act) (hk : KeepsFormat act) :
    Option.Rel (fun x y => x.1 = y.1 ∧ Saves K x.2 y.2) (rm.visit p absent act)
      (h.visit p act) := by
  apply rel_imp_mem (hs.refines.visit hp absent ha)
  intro x y hx hy hxy
  refine ⟨hxy.1, hxy.2, hk.visit hs.formatted hy, fun q hq => ?_, fun q hq => ?_⟩
  · rw [(HeapFile.visit_ids hy).1]
    exact hs.listed q hq
  · have hq' := hs.listed q hq
    rw [visit_disk hx]
    exact (hs.refines.has q hq').inFile_fetchPage hs.refines.quiet.toSound (hs.formatted q hq') p
      (hs.copies q hq)

/-- A new page takes over a frame, which is the only write of this call. -/
theorem insertNew_disk {bytes : List UInt8} {rid : RecordId}
    (he : rm.insertNew bytes = some (rid, rm')) :
    rm'.pool.diskManager = rm.pool.newPage.2.diskManager := by
  unfold RecordManager.insertNew at he
  rcases hn : rm.pool.newPage with ⟨_ | ⟨p, f⟩, pool⟩
  · rw [hn] at he
    cases he
    rfl
  · rw [hn] at he
    obtain ⟨⟨slotId, d⟩, -, he⟩ := Option.bind_eq_some_iff.mp he
    cases slotId with
    | none =>
      cases he
      exact BufferPoolManager.unpinPage_disk _ _ _
    | some i =>
      cases he
      exact BufferPoolManager.unpinPage_disk _ _ _

/-- A new page is formatted like the others. -/
theorem Saves.insertNew (hs : Saves K rm h) {bytes : List UInt8} (hlt : bytes.length < 65532) :
    Option.Rel (fun x y => x.1 = y.1 ∧ x.2.pool.nextPageId = y.2.next ∧
      (y.2.next ≤ 524288 → Saves K x.2 y.2)) (rm.insertNew bytes) (h.insertNew bytes) := by
  apply rel_imp_mem (hs.refines.insertNew bytes)
  intro x y hx hy hxy
  have hcopies : ∀ q ∈ K, InFile x.2.pool.diskManager.file q := by
    intro q hq
    have hq' := hs.listed q hq
    rw [insertNew_disk hx]
    exact (hs.refines.has q hq').inFile_newPage hs.refines.quiet.toSound (hs.formatted q hq')
      (hs.copies q hq)
  refine ⟨hxy.1, hxy.2.1, fun hle => ?_⟩
  have hr := hxy.2.2 hle
  obtain ⟨⟨slotId, d⟩, hd, hy⟩ := Option.bind_eq_some_iff.mp hy
  cases slotId with
  | none =>
    cases hy
    exact ⟨hr, hs.formatted, hs.listed, hcopies⟩
  | some i =>
    cases hy
    have h0 : 0 ≤ h.next := (hr.range h.next (List.mem_append_right _ List.mem_cons_self)).1
    have h1 : h.next + 1 ≤ 524288 := hle
    have hnew : Formatted h.next d :=
      (initializePage_formatted h0 (by omega) zeroPage).insertTuple_some hlt hd
    refine ⟨hr, fun q hq => ?_, fun q hq => List.mem_append_left _ (hs.listed q hq), hcopies⟩
    simp only
    by_cases hqn : q = h.next
    · rw [hqn, Function.update_self]
      exact hnew
    · rw [Function.update_of_ne hqn]
      rcases List.mem_append.mp hq with hq | hq
      · exact hs.formatted q hq
      · exact absurd (List.mem_singleton.mp hq) hqn

/-- A flush leaves every page in the file as it is. -/
theorem Saves.flush (hs : Saves K rm h) : Saves K rm.flush h where
  refines := hs.refines.flush
  formatted := hs.formatted
  listed := hs.listed
  copies p hp := by
    have hp' := hs.listed p hp
    exact ⟨h.page p, (hs.refines.has p hp').onDisk_flushAllPages hs.refines.quiet.toSound,
      hs.formatted p hp'⟩

theorem saves_rules (K : Set ℤ) : VisitRules (Saves K) where
  refines hs := hs.refines
  visit absent _ hs hp ha hk := hs.visit hp absent ha hk
  insertNew hs hlt := hs.insertNew hlt
  flush hs := hs.flush

end RecordManager

/-! What no write to the file undoes. -/

/-- A property of files that survives the write of any page. -/
def WriteClosed (P : Option File → Prop) : Prop :=
  ∀ (dm : DiskManager) (p : ℤ) (d : PageData), dm.plan = [] → Addressable p → P dm.file →
    P (dm.writePage p d).file

/-- Once a page is in the file, it stays there with some bytes. -/
theorem onFile_writeClosed {p : ℤ} (h : Addressable p) :
    WriteClosed fun file => ∃ d, OnFile file p d := by
  intro dm q d hplan hq hd
  by_cases hqp : q = p
  · subst hqp
    exact ⟨d, onDisk_writePage hplan hq d⟩
  · obtain ⟨e, he⟩ := hd
    have hother : dm.OnDisk p e := he
    exact ⟨e, hother.writePage_other hq h hqp⟩

namespace WriteClosed
variable {n : ℕ} {b b' : BufferPoolManager n} {P : Option File → Prop}

theorem takesOver (hP : WriteClosed P) (hs : b.Sound) {f : Fin n} {p : ℤ}
    (h : BufferPoolManager.TakesOver b f p b') (hd : P b.diskManager.file) :
    P b'.diskManager.file := by
  rw [h.disk]
  split_ifs with hw
  · exact hP _ _ _ hs.plan (hs.addressable hw.1) hd
  · exact hd

theorem fetchPage (hP : WriteClosed P) (hs : b.Sound) (p : ℤ) (hd : P b.diskManager.file) :
    P (b.fetchPage p).2.diskManager.file := by
  rcases hs.fetch_cases p with ⟨f, -, he⟩ | ⟨-, -, he⟩ | ⟨-, f, b', ht, -, he⟩
  · rw [he]
    exact hd
  · rw [he]
    exact hd
  · rw [he]
    change P b'.diskManager.file
    exact hP.takesOver hs ht hd

theorem newPage (hP : WriteClosed P) (hs : b.Sound) (hd : P b.diskManager.file) :
    P b.newPage.2.diskManager.file := by
  rcases hs.newPage_cases with ⟨-, he⟩ | ⟨f, b', ht, -, he⟩
  · rw [he]
    exact hd
  · rw [he]
    change P b'.diskManager.file
    exact hP.takesOver hs ht hd

theorem flushPage (hP : WriteClosed P) (hs : b.Sound) (p : ℤ) (hd : P b.diskManager.file) :
    P (b.flushPage p).2.diskManager.file := by
  rcases BufferPoolManager.flushPage_cases b p with ⟨he, -⟩ | ⟨f, hl, -, he⟩
  · rw [he]
    exact hd
  · rw [he]
    have hp := ((hs.mapped p f).mp hl).2
    exact hP _ p _ hs.plan (hp ▸ hs.addressable (hs.mapped_valid hl)) hd

theorem flushAllPages (hP : WriteClosed P) (hs : b.Sound) (hd : P b.diskManager.file) :
    P b.flushAllPages.diskManager.file := by
  unfold BufferPoolManager.flushAllPages
  generalize b.pageTable.keys = ks
  induction ks generalizing b with
  | nil => exact hd
  | cons k ks ih => exact ih (hs.flushPage k) (hP.flushPage hs k hd)

end WriteClosed

namespace RecordManager

/-- The pages of `h`, over a file with the property `P`. -/
structure RefinesOver (P : Option File → Prop) (rm : RecordManager) (h : HeapFile) : Prop where
  refines : rm.Refines h
  file : P rm.pool.diskManager.file

theorem refinesOver_rules {P : Option File → Prop} (hP : WriteClosed P) :
    VisitRules (RefinesOver P) where
  refines hr := hr.refines
  visit absent act hr hp ha hk := by
    apply rel_imp_mem (hr.refines.visit hp absent ha)
    intro x y hx hy hxy
    refine ⟨hxy.1, hxy.2, ?_⟩
    rw [visit_disk hx]
    exact hP.fetchPage hr.refines.quiet.toSound _ hr.file
  insertNew hr hlt := by
    apply rel_imp_mem (hr.refines.insertNew _)
    intro x y hx hy hxy
    refine ⟨hxy.1, hxy.2.1, fun hle => ⟨hxy.2.2 hle, ?_⟩⟩
    rw [insertNew_disk hx]
    exact hP.newPage hr.refines.quiet.toSound hr.file
  flush hr := ⟨hr.refines.flush, hP.flushAllPages hr.refines.quiet.toSound hr.file⟩

end RecordManager
end PragmaticDB
