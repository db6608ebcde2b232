import PragmaticDB.Storage.PoolSizes
import PragmaticDB.Table.OpenedTable

/-!
What a table in use writes to its file. A page is written when its frame is taken for another
one, if it is dirty; whatever else the file has stays as it is.
-/
namespace PragmaticDB
open ByteBlock DiskManager CallMachine

theorem filePage_writePage_self {dm : DiskManager} (hplan : dm.plan = []) {p : ℤ}
    (hp : Addressable p) (d : PageData) : filePage (dm.writePage p d).file p = d :=
  filePage_of_onFile (onDisk_writePage hplan hp d)

/-- Behind the end of the file there are zeros. -/
theorem filePage_byte {file : Option File} {q : ℤ} (hq : Addressable q) {i : ℕ} (hi : i < 4096) :
    (filePage file q).byte i = if (4096 * q).toNat + i < (file.getD File.empty).size then
      (file.getD File.empty).byte ((4096 * q).toNat + i) else 0 := by
  have hq0 := hq.1
  have hoff := pageOffset_eq hq
  unfold filePage readPage
  cases file with
  | none => exact Block.byte_of_lt _ hi
  | some file =>
    simp only [hoff, if_neg (show ¬ 4096 * q < 0 by omega)]
    exact Block.byte_of_lt _ hi

/-- Other pages read as before, also those behind the old end of the file. -/
theorem filePage_writePage_other {dm : DiskManager} (hplan : dm.plan = []) {p q : ℤ}
    (hp : Addressable p) (hq : Addressable q) (hne : q ≠ p) (d : PageData) :
    filePage (dm.writePage p d).file q = filePage dm.file q := by
  have hoff := pageOffset_eq hp
  have hp0 := hp.1
  refine Block.eq_of_byte fun i hi => ?_
  rw [filePage_byte hq hi, filePage_byte hq hi,
    writePage_file_of_nonneg hplan (by omega), Option.getD_some]
  have hout : ¬ ((pageOffset p).toNat ≤ (4096 * q).toNat + i ∧
      (4096 * q).toNat + i < (pageOffset p).toNat + 4096) := by
    have hq0 := hq.1
    omega
  simp only [File.write, if_neg hout]
  split_ifs <;> first | rfl | omega

namespace BufferPoolManager
variable {n : ℕ} {b b' b₁ : BufferPoolManager n} {p q : ℤ} {f : Fin n} {ids : List ℤ}
  {h : UseHistory} {u : PageUse} {o : UseReply}

/-- The page that has the next frame, if it is to be written back. -/
def writtenBack (b : BufferPoolManager n) : List Page :=
  match b.getFreeFrameOrVictim with
  | none => []
  | some (f, _) =>
    if (b.pages f).pageId ≠ invalidPageId ∧ (b.pages f).isDirty = true then [b.pages f] else []

/-- The pages that a use of the pool writes to the file. -/
def writes (b : BufferPoolManager n) : PageUse → List Page
  | .fetch p _ _ => if (b.pageTable.lookup p).isSome then [] else b.writtenBack
  | .create _ _ => b.writtenBack
  | .flush => (b.pageTable.entries.map fun e => b.pages e.2).filter (·.isDirty)

theorem writes_resident (hl : b.pageTable.lookup p = some f) (d : PageData) (x : Bool) :
    b.writes (.fetch p d x) = [] := by
  simp only [writes, hl, Option.isSome_some, if_true]

theorem writes_absent (hl : b.pageTable.lookup p = none) (d : PageData) (x : Bool) :
    b.writes (.fetch p d x) = b.writtenBack := by
  simp only [writes, hl, Option.isSome_none, Bool.false_eq_true, if_false]

/-- Page `q` of the file `after` is that of the file of `b`, or one of the pages `ws`. -/
def FileFrom (b : BufferPoolManager n) (ws : List Page) (after : Option File) (q : ℤ) : Prop :=
  filePage after q = filePage b.diskManager.file q ∨
    ∃ page ∈ ws, page.pageId = q ∧ filePage after q = page.data

theorem Sound.takeOver_file (hs : b.Sound) (hv : b.getFreeFrameOrVictim = some (f, b₁)) (p k : ℤ)
    (hq : Addressable q) : b.FileFrom b.writtenBack
      ({ b₁ with nextPageId := k }.takeOver f p).diskManager.file q := by
  obtain ⟨ht, -⟩ := hs.takeOver hv p k
  unfold writtenBack FileFrom
  rw [ht.disk, hv]
  simp only
  split_ifs with hw
  · by_cases hid : (b.pages f).pageId = q
    · right
      refine ⟨_, List.mem_singleton_self _, hid, ?_⟩
      rw [hid]
      exact filePage_writePage_self hs.plan hq _
    · left
      exact filePage_writePage_other hs.plan (hs.addressable hw.1) hq (Ne.symm hid) _
  · exact .inl rfl

theorem Sound.fetchPage_file (hs : b.Sound) (p : ℤ) (d : PageData) (x : Bool)
    (hq : Addressable q) :
    b.FileFrom (b.writes (.fetch p d x)) (b.fetchPage p).2.diskManager.file q := by
  unfold BufferPoolManager.fetchPage
  cases hl : b.pageTable.lookup p with
  | some f => exact .inl rfl
  | none =>
    rw [writes_absent hl]
    cases hv : b.getFreeFrameOrVictim with
    | none => exact .inl rfl
    | some y => exact hs.takeOver_file hv p y.2.nextPageId hq

theorem Sound.newPage_file (hs : b.Sound) (d : PageData) (x : Bool) (hq : Addressable q) :
    b.FileFrom (b.writes (.create d x)) b.newPage.2.diskManager.file q := by
  unfold writes BufferPoolManager.newPage
  cases hv : b.getFreeFrameOrVictim with
  | none => exact .inl rfl
  | some y => exact hs.takeOver_file hv y.2.nextPageId (y.2.nextPageId + 1) hq

/-- Page `q` of the file `after` is that of the file of `b`, or what a dirty frame has. -/
def FlushedFrom (b : BufferPoolManager n) (after : Option File) (q : ℤ) : Prop :=
  filePage after q = filePage b.diskManager.file q ∨ ∃ f, b.pageTable.lookup q = some f ∧
    (b.pages f).isDirty = true ∧ filePage after q = (b.pages f).data

theorem Sound.flushPage_file (hs : b.Sound) (k : ℤ) (hq : Addressable q) :
    b.FlushedFrom (b.flushPage k).2.diskManager.file q := by
  rcases flushPage_cases b k with ⟨he, -⟩ | ⟨f, hl, hdirty, he⟩
  · rw [he]
    exact .inl rfl
  · rw [he]
    change b.FlushedFrom (b.diskManager.writePage k (b.pages f).data).file q
    have hid := ((hs.mapped k f).mp hl).2
    have hk : Addressable k := hid ▸ hs.addressable (hs.mapped_valid hl)
    by_cases hqk : q = k
    · subst hqk
      exact .inr ⟨f, hl, hdirty, filePage_writePage_self hs.plan hq _⟩
    · exact .inl (filePage_writePage_other hs.plan hk hq hqk _)

theorem Sound.flush_fold_file (hs : b.Sound) (ks : List ℤ) (hq : Addressable q) :
    b.FlushedFrom (ks.foldl (fun b p => (b.flushPage p).2) b).diskManager.file q := by
  induction ks generalizing b with
  | nil => exact .inl rfl
  | cons k ks ih =>
    obtain ⟨htable, -, hclean, hdata, -⟩ := b.flushPage_clean k
    rw [List.foldl_cons]
    rcases ih (hs.flushPage k) with hsame | ⟨f, hl, hdirty, hsame⟩
    · unfold FlushedFrom
      rw [hsame]
      exact hs.flushPage_file k hq
    · -- a frame that is dirty now was dirty before, with the same bytes
      refine .inr ⟨f, htable ▸ hl, ?_, hsame.trans (hdata f).2⟩
      by_contra hno
      rw [hclean f (by simpa using hno)] at hdirty
      cases hdirty

/-- A flush writes the dirty pages. -/
theorem Sound.flush_file (hs : b.Sound) (hq : Addressable q) :
    b.FileFrom (b.writes .flush) b.flushAllPages.diskManager.file q := by
  refine (hs.flush_fold_file b.pageTable.keys hq).imp_right ?_
  rintro ⟨f, hl, hdirty, hsame⟩
  refine ⟨b.pages f, List.mem_filter.mpr ⟨?_, hdirty⟩, ((hs.mapped q f).mp hl).2, hsame⟩
  exact List.mem_map.mpr ⟨⟨q, f⟩, AList.mem_lookup_iff.mp hl, rfl⟩

/-! Uses of the pool, one after the other. -/

theorem Quiet.use (hq : b.Quiet) (ha : (useMachine n).Allowed h b u)
    (hs : (useMachine n).step b u = some (o, b')) : b'.Quiet := by
  cases use_cases hs with
  | fetch he d x => exact (hq.fetch_visited ha.1 ha.2 he d x).1
  | create he d x => exact (hq.create_visited ha he d x).2.1
  | flush => exact hq.flushAllPages

/-- Each page of the file stays, or is replaced by one that the use writes. -/
theorem Sound.use_file (hsound : b.Sound) (hs : (useMachine n).step b u = some (o, b'))
    (hq : Addressable q) : b.FileFrom (b.writes u) b'.diskManager.file q := by
  cases use_cases hs with
  | @fetch p f b₁ he d x =>
    have hfile := hsound.fetchPage_file p d x hq
    rw [he] at hfile
    rw [unpinPage_disk]
    exact hfile
  | create he d x =>
    have hfile := hsound.newPage_file d x hq
    rw [he] at hfile
    rw [unpinPage_disk]
    exact hfile
  | flush => exact hsound.flush_file hq

/-- Of the pages `ids` only such are written as the file has with the same tuples. -/
def LeavesTuples (ids : List ℤ) (b : BufferPoolManager n) (u : PageUse) : Prop :=
  ∀ page ∈ b.writes u, page.pageId ∈ ids → ∀ i,
    tupleAt page.data i = tupleAt (filePage b.diskManager.file page.pageId) i

/-- Then the file shows the same tuples on these pages at the end. -/
theorem Quiet.tuples_stay (hb : b.Quiet) (hids : ∀ p ∈ ids, Addressable p)
    (hr : ((useMachine n).restrict (LeavesTuples ids)).Run b h b') :
    b'.Quiet ∧ ∀ p ∈ ids, ∀ i, tupleAt (filePage b'.diskManager.file p) i =
      tupleAt (filePage b.diskManager.file p) i := by
  have hstep : ((useMachine n).restrict (LeavesTuples ids)).Preserves fun _ b₁ => b₁.Quiet ∧
      ∀ p ∈ ids, ∀ i, tupleAt (filePage b₁.diskManager.file p) i =
        tupleAt (filePage b.diskManager.file p) i := by
    rintro h b₁ u o b₂ ⟨hq, hsame⟩ ⟨ha, hleaves⟩ hs
    refine ⟨hq.use ha hs, fun p hp i => ?_⟩
    rw [← hsame p hp i]
    rcases hq.use_file hs (hids p hp) with hfile | ⟨page, hmem, rfl, hfile⟩
    · rw [hfile]
    · rw [hfile]
      exact hleaves page hmem hp i
  exact hr.preserved hstep ⟨hb, fun _ _ _ => rfl⟩

/-! Tables that fit their pool. -/

theorem Shape.writtenBack_nil (hs : b.Shape) (hfree : b.freeList ≠ []) : b.writtenBack = [] := by
  unfold writtenBack getFreeFrameOrVictim
  cases hl : b.freeList with
  | nil => exact absurd hl hfree
  | cons f rest =>
    have hf : f ∈ b.freeList := hl ▸ List.mem_cons_self
    exact if_neg fun hw => hw.1 ((hs.free f).mp hf)

/-- With no more pages than frames nothing is written but by a flush. -/
theorem Quiet.visit_small (hq : b.Quiet) (ha : (visitMachine n).Allowed h b u)
    (hs : (visitMachine n).step b u = some (o, b')) :
    b.nextPageId ≤ b'.nextPageId ∧ (b'.nextPageId ≤ n → b.writes u = []) := by
  obtain ⟨ha, hno⟩ := ha
  cases use_cases hs with
  | flush => exact absurd rfl hno
  | @fetch p f b₁ he d x =>
    obtain ⟨-, hnext, -⟩ := hq.fetch_visited ha.1 ha.2 he d x
    refine ⟨hnext.ge, fun hsmall => ?_⟩
    cases hl : b.pageTable.lookup p with
    | some g => exact writes_resident hl d x
    | none =>
      rw [writes_absent hl]
      exact hq.writtenBack_nil (hq.free_of_absent ha.1 ha.2 (hnext ▸ hsmall) hl)
  | create he d x =>
    obtain ⟨-, -, hnext, -⟩ := hq.create_visited ha he d x
    refine ⟨by omega, fun hsmall => hq.writtenBack_nil (hq.free_of_few (by omega))⟩

theorem visitMachine_quiet : (visitMachine n).Preserves fun _ b => b.Quiet :=
  fun _ _ _ _ _ hq ha hs => hq.use ha.1 hs

/-- So no page of such a table changes in the file. -/
theorem Quiet.leavesTuples_of_small (hb : b.Quiet) (hr : (visitMachine n).Run b h b')
    (hsmall : b'.nextPageId ≤ n) (ids : List ℤ) :
    ((useMachine n).restrict (LeavesTuples ids)).Run b h b' := by
  induction hr with
  | start => exact .start
  | @call h b₁ b₂ u o hr ha hs ih =>
    have hq : b₁.Quiet := hr.preserved visitMachine_quiet hb
    obtain ⟨hle, hnone⟩ := hq.visit_small ha hs
    have hleaves : LeavesTuples ids b₁ u := by
      intro page hmem
      rw [hnone hsmall] at hmem
      cases hmem
    exact (ih (hle.trans hsmall)).call ⟨ha.1, hleaves⟩ hs

end BufferPoolManager
end PragmaticDB
