import PragmaticDB.Lib.RecentUse
import PragmaticDB.Storage.Eviction
import PragmaticDB.Storage.SmallPools

/-!
Pools of different sizes. Tables use one page at a time, and then a pool of `n` frames holds the
`n` pages used last. A larger pool holds at least what a smaller one does, and reads the disk no
more often.
-/
namespace PragmaticDB
open ByteBlock CallMachine RecentUse

/-- What a table does with its pool: it works on one page and releases it, with the bytes it then
has, or flushes all pages. -/
inductive PageUse where
  | fetch (p : ℤ) (data : PageData) (isDirty : Bool)
  | create (data : PageData) (isDirty : Bool)
  | flush

/-- The page a call uses, where `next` is the id that comes next. -/
def PageUse.page? (next : ℤ) : PageUse → Option ℤ
  | .fetch p _ _ => some p
  | .create _ _ => some next
  | .flush => none

/-- The page that was used, and whether it was in a frame before. -/
inductive UseReply where
  | page (p : ℤ) (found : Bool)
  | flushed
  deriving DecidableEq

abbrev UseHistory := List (PageUse × UseReply)

/-- The pages used, the latest first. -/
def used : UseHistory → List ℤ
  | [] => []
  | (_, .page p _) :: h => p :: used h
  | (_, .flushed) :: h => used h

/-- How often `FetchPage` had to read the page from disk. -/
def diskReads : UseHistory → ℕ
  | [] => 0
  | (.fetch _ _ _, .page _ false) :: h => diskReads h + 1
  | _ :: h => diskReads h

/-- How many pages were created. -/
def creates : UseHistory → ℕ
  | [] => 0
  | (.create _ _, _) :: h => creates h + 1
  | _ :: h => creates h

namespace BufferPoolManager
variable {m n : ℕ} {b b' b₁ : BufferPoolManager n} {p : ℤ} {f : Fin n} {d : PageData}
  {vs : List ℤ} {h : UseHistory}

/-- Page ids stay below `2 ^ 19`. -/
def useMachine (n : ℕ) : Machine (BufferPoolManager n) PageUse UseReply where
  step b u :=
    match u with
    | .fetch p d x =>
      match b.fetchPage p with
      | (none, _) => none
      | (some f, b₁) =>
        some (.page p (b.pageTable.lookup p).isSome, ((b₁.setData f d).unpinPage p x).2)
    | .create d x =>
      match b.newPage with
      | (none, _) => none
      | (some (p, f), b₁) => some (.page p false, ((b₁.setData f d).unpinPage p x).2)
    | .flush => some (.flushed, b.flushAllPages)
  Allowed _ b u :=
    match u with
    | .fetch p _ _ => 0 ≤ p ∧ p < b.nextPageId
    | .create _ _ => b.nextPageId < 524288
    | .flush => True

instance (h : UseHistory) (b : BufferPoolManager n) (u : PageUse) :
    Decidable ((useMachine n).Allowed h b u) :=
  match u with
  | .fetch p _ _ => inferInstanceAs (Decidable (0 ≤ p ∧ p < b.nextPageId))
  | .create _ _ => inferInstanceAs (Decidable (b.nextPageId < 524288))
  | .flush => isTrue trivial

/-- What a use of the pool comes to. -/
inductive Uses (b : BufferPoolManager n) : PageUse → UseReply → BufferPoolManager n → Prop where
  | fetch {p : ℤ} {f : Fin n} {b₁ : BufferPoolManager n} (he : b.fetchPage p = (some f, b₁))
      (d : PageData) (x : Bool) : Uses b (.fetch p d x)
        (.page p (b.pageTable.lookup p).isSome) ((b₁.setData f d).unpinPage p x).2
  | create {p : ℤ} {f : Fin n} {b₁ : BufferPoolManager n} (he : b.newPage = (some (p, f), b₁))
      (d : PageData) (x : Bool) : Uses b (.create d x) (.page p false)
        ((b₁.setData f d).unpinPage p x).2
  | flush : Uses b .flush .flushed b.flushAllPages

theorem use_cases {u : PageUse} {o : UseReply} (hs : (useMachine n).step b u = some (o, b')) :
    Uses b u o b' := by
  unfold useMachine at hs
  cases u with
  | fetch p d x =>
    simp only at hs
    split at hs
    next => cases hs
    next he =>
      cases hs
      exact .fetch he d x
  | create d x =>
    simp only at hs
    split at hs
    next => cases hs
    next he =>
      cases hs
      exact .create he d x
  | flush =>
    cases hs
    exact .flush

/-- Uses of single pages, and no flush. -/
def visitMachine (n : ℕ) : Machine (BufferPoolManager n) PageUse UseReply :=
  (useMachine n).restrict fun _ u => u ≠ .flush

/-- The pages on the LRU list, the last one first. -/
def recency (b : BufferPoolManager n) : List ℤ :=
  (b.lru.toList.map fun f => (b.pages f).pageId).reverse

/-- A page that was given a frame is released. -/
theorem Held.visited (hh : b₁.Held p f) (hgiven : b.pageTable.lookup p = some f ∨
      f ∈ b.freeList ∨ b.freeList = [] ∧ ∃ rest, b.lru.toList = f :: rest)
    (hlru : b₁.lru.toList = b.lru.toList.erase f) (hother : ∀ g, g ≠ f → b₁.pages g = b.pages g)
    (d : PageData) (x : Bool) : b.Visited p f d ((b₁.setData f d).unpinPage p x).2 := by
  have hid := ((hh.mapped p f).mp hh.look).2
  rcases unpinPage_cases (b₁.setData f d) p x with ⟨-, hz⟩ | ⟨g, hl, -, he⟩
  · have h0 := hz f hh.look
    simp [BufferPoolManager.setData, setPage, hh.once] at h0
  · obtain rfl : f = g := Option.some.inj (hh.look.symm.trans hl)
    rw [he]
    refine ⟨hgiven, ?_, ?_, ?_, fun g hg => ?_⟩
    · change (b₁.lru.pushBack f).toList = _
      rw [HandleList.toList_pushBack, hlru, if_neg]
      rw [b.lru.toList_nodup.mem_erase_iff]
      exact fun hf => hf.1 rfl
    · simpa [BufferPoolManager.setData, setPage, unpinFrame] using hid
    · simp [BufferPoolManager.setData, setPage, unpinFrame]
    · simpa [BufferPoolManager.setData, setPage, unpinFrame, hg] using hother g hg

/-- In a pool without pins the pages on the LRU list are the ones in frames. -/
theorem Quiet.mem_recency (hq : b.Quiet) (h0 : 0 ≤ p) :
    p ∈ b.recency ↔ (b.pageTable.lookup p).isSome := by
  unfold recency
  rw [List.mem_reverse, List.mem_map, Option.isSome_iff_exists]
  constructor
  · rintro ⟨f, -, rfl⟩
    exact ⟨f, (hq.mapped _ f).mpr ⟨h0, rfl⟩⟩
  · rintro ⟨f, hl⟩
    have hid := ((hq.mapped p f).mp hl).2
    exact ⟨f, (hq.lru f (hq.mapped_valid hl)).mpr (hq.idle f), hid⟩

theorem recency_length_le (b : BufferPoolManager n) : b.recency.length ≤ n := by
  unfold recency
  rw [List.length_reverse, List.length_map, ← List.toFinset_card_of_nodup b.lru.toList_nodup]
  exact (Finset.card_le_univ _).trans_eq (Fintype.card_fin n)

theorem Quiet.recency_erase (hq : b.Quiet)
    (hvalid : ∀ g ∈ b.lru.toList, 0 ≤ (b.pages g).pageId) (hl : b.pageTable.lookup p = some f) :
    b.recency.erase p = ((b.lru.toList.erase f).map fun g => (b.pages g).pageId).reverse := by
  have hnd := b.lru.toList_nodup
  have hsame : ∀ g ∈ b.lru.toList, ((b.pages g).pageId != p) = (g != f) := by
    intro g hg
    have hiff : (b.pages g).pageId = p ↔ g = f := by
      constructor
      · rintro rfl
        exact Option.some.inj (((hq.mapped _ g).mpr ⟨hvalid g hg, rfl⟩).symm.trans hl)
      · rintro rfl
        exact ((hq.mapped p g).mp hl).2
    rw [Bool.eq_iff_iff, bne_iff_ne, bne_iff_ne]
    exact not_congr hiff
  have hids : b.recency.Nodup := by
    unfold recency
    rw [List.nodup_reverse]
    apply hnd.map_on
    intro g hg k _ hgk
    have hg' := (hq.mapped _ g).mpr ⟨hvalid g hg, rfl⟩
    have hk' := (hq.mapped _ k).mpr ⟨hgk ▸ hvalid g hg, rfl⟩
    rw [hgk] at hg'
    exact Option.some.inj (hg'.symm.trans hk')
  rw [hids.erase_eq_filter, hnd.erase_eq_filter]
  unfold recency
  rw [List.filter_reverse, List.filter_map]
  congr 2
  exact List.filter_congr hsame

/-- The page that is used comes to the front, and one more than `n` is too many. -/
theorem Visited.recency_eq (hv : b.Visited p f d b') (hq : b.Quiet) (hq' : b'.Quiet) (h0 : 0 ≤ p)
    (hvalid : ∀ g ∈ b.lru.toList, 0 ≤ (b.pages g).pageId) :
    b'.recency = (touch p b.recency).take n := by
  have hnd := b.lru.toList_nodup
  have hnew : b'.recency =
      p :: ((b.lru.toList.erase f).map fun g => (b.pages g).pageId).reverse := by
    unfold recency
    rw [hv.lru, List.map_append, List.reverse_append, List.map_singleton, hv.pageId,
      List.reverse_singleton, List.singleton_append]
    congr 2
    apply List.map_congr_left
    intro g hg
    rw [hv.others g (hnd.mem_erase_iff.mp hg).1]
  have hlen := b'.recency_length_le
  cases hl : b.pageTable.lookup p with
  | some g =>
    -- the page has a frame, and keeps it
    have hg := (hq.mapped p g).mp hl
    have hgf : g = f := by
      by_contra hne
      have hg' := (hq'.mapped p g).mpr ⟨h0, by rw [hv.others g hne, hg.2]⟩
      have hf' := (hq'.mapped p f).mpr ⟨h0, hv.pageId⟩
      exact hne (Option.some.inj (hg'.symm.trans hf'))
    rw [← hq.recency_erase hvalid (hgf ▸ hl)] at hnew
    rw [hnew] at hlen ⊢
    exact (List.take_of_length_le hlen).symm
  | none =>
    have hnot : p ∉ b.recency := by
      rw [hq.mem_recency h0, hl]
      exact Bool.false_ne_true
    rw [touch_of_not_mem hnot]
    rcases hv.given with hl' | hfree | ⟨hfree, rest, hfront⟩
    · rw [hl] at hl'
      cases hl'
    · have hf : f ∉ b.lru.toList := by
        intro hf
        exact ne_invalid_of_nonneg (hvalid f hf) ((hq.free f).mp hfree)
      rw [List.erase_of_not_mem hf] at hnew
      rw [hnew] at hlen ⊢
      exact (List.take_of_length_le hlen).symm
    · -- all frames are on the list, and the first one is taken
      have hall : ∀ g, g ∈ b.lru.toList := by
        intro g
        have hid : (b.pages g).pageId ≠ invalidPageId := by
          rw [ne_eq, ← hq.free, hfree]
          exact List.not_mem_nil
        exact (hq.lru g hid).mpr (hq.idle g)
      have hcard : b.lru.toList.length = n := by
        rw [← List.toFinset_card_of_nodup hnd, Finset.eq_univ_of_forall fun g =>
          List.mem_toFinset.mpr (hall g), Finset.card_univ, Fintype.card_fin]
      rw [hfront, List.erase_cons_head] at hnew
      have hold : b.recency = (rest.map fun g => (b.pages g).pageId).reverse ++
          [(b.pages f).pageId] := by
        unfold recency
        rw [hfront, List.map_cons, List.reverse_cons]
      have hn : (p :: (rest.map fun g => (b.pages g).pageId).reverse).length = n := by
        rw [hfront] at hcard
        simpa using hcard
      rw [hnew, hold, ← List.cons_append]
      exact (List.take_left' hn).symm

/-- A page that is fetched, worked on and released. -/
theorem Quiet.fetch_visited (hq : b.Quiet) (h0 : 0 ≤ p) (hlt : p < b.nextPageId)
    (he : b.fetchPage p = (some f, b₁)) (d : PageData) (x : Bool) :
    let b' := ((b₁.setData f d).unpinPage p x).2
    b'.Quiet ∧ b'.nextPageId = b.nextPageId ∧ b.Visited p f d b' := by
  obtain ⟨g, b₂, he', hv, hnext, -⟩ := hq.fetchPage (Nat.zero_lt_of_lt f.isLt) h0 hlt
  obtain ⟨hg, rfl⟩ := Prod.mk.inj (he.symm.trans he')
  obtain rfl := Option.some.inj hg
  obtain ⟨hlru, hgiven⟩ := fetchPage_lru he
  obtain ⟨hq', hnext', -⟩ := hv.leave d x
  exact ⟨hq', hnext'.trans hnext,
    hv.held.visited hgiven hlru (hq.fetchPage_pages he).2 d x⟩

/-- A page that is created, worked on and released. -/
theorem Quiet.create_visited (hq : b.Quiet) (hlt : b.nextPageId < 524288)
    (he : b.newPage = (some (p, f), b₁)) (d : PageData) (x : Bool) :
    let b' := ((b₁.setData f d).unpinPage p x).2
    p = b.nextPageId ∧ b'.Quiet ∧ b'.nextPageId = b.nextPageId + 1 ∧ b.Visited p f d b' := by
  obtain ⟨g, b₂, he', hv, hnext, -⟩ := hq.newPage (Nat.zero_lt_of_lt f.isLt) hlt
  obtain ⟨hg, rfl⟩ := Prod.mk.inj (he.symm.trans he')
  obtain ⟨rfl, rfl⟩ := Prod.mk.inj (Option.some.inj hg)
  obtain ⟨hq', hnext', -⟩ := hv.leave d x
  refine ⟨rfl, hq', hnext'.trans hnext, hv.held.visited (.inr (newPage_given he)) (newPage_lru he)
    (fun k hk => ?_) d x⟩
  rcases hq.newPage_cases with ⟨-, he₁⟩ | ⟨g, b₂, ht, -, he₁⟩
  · rw [he] at he₁
    cases he₁
  · obtain ⟨hg, rfl⟩ := Prod.mk.inj (he.symm.trans he₁)
    obtain ⟨-, rfl⟩ := Prod.mk.inj (Option.some.inj hg)
    simpa [BufferPoolManager.setData, setPage, hk] using ht.others k hk

/-- The invariant of such runs. -/
structure InUse (h : UseHistory) (b : BufferPoolManager n) : Prop where
  quiet : b.Quiet
  recency : b.recency = (order (used h)).take n
  below : ∀ p ∈ used h, 0 ≤ p ∧ p < b.nextPageId
  next : b.nextPageId = creates h
  missed : misses n (used h) = diskReads h + creates h

theorem new_inUse (n : ℕ) {dm : DiskManager} (hdm : dm.plan = []) : InUse [] (new n dm) where
  quiet := ⟨new_sound n hdm, fun _ => rfl⟩
  recency := by
    rw [used, order_nil, List.take_nil]
    rfl
  below := nofun
  next := rfl
  missed := rfl

theorem InUse.visited (hi : InUse h b) (hv : b.Visited p f d b') (hq' : b'.Quiet) (h0 : 0 ≤ p) :
    b'.recency = (order (p :: used h)).take n := by
  have hvalid : ∀ g ∈ b.lru.toList, 0 ≤ (b.pages g).pageId := by
    intro g hg
    have hmem : (b.pages g).pageId ∈ b.recency :=
      List.mem_reverse.mpr (List.mem_map.mpr ⟨g, hg, rfl⟩)
    rw [hi.recency] at hmem
    exact (hi.below _ (mem_order.mp (List.mem_of_mem_take hmem))).1
  rw [hv.recency_eq hi.quiet hq' h0 hvalid, hi.recency, order_cons, ← take_touch]

theorem InUse.resident (hi : InUse h b) (p : ℤ) :
    (b.pageTable.lookup p).isSome ↔ p ∈ (order (used h)).take n := by
  by_cases h0 : 0 ≤ p
  · rw [← hi.quiet.mem_recency h0, hi.recency]
  · refine iff_of_false (fun hsome => ?_) fun hmem => ?_
    · obtain ⟨f, hl⟩ := Option.isSome_iff_exists.mp hsome
      exact h0 ((hi.quiet.mapped p f).mp hl).1
    · exact h0 (hi.below p (mem_order.mp (List.mem_of_mem_take hmem))).1

theorem InUse.step (hi : InUse h b) {u : PageUse} {o : UseReply}
    (ha : (useMachine n).Allowed h b u) (hs : (useMachine n).step b u = some (o, b')) :
    InUse ((u, o) :: h) b' ∧ used ((u, o) :: h) = (u.page? b.nextPageId).toList ++ used h := by
  cases use_cases hs with
  | @fetch p f b₁ he d x =>
    obtain ⟨h0, hlt⟩ := ha
    obtain ⟨hq', hnext, hv⟩ := hi.quiet.fetch_visited h0 hlt he d x
    refine ⟨⟨hq', hi.visited hv hq' h0, fun q hq => ?_, hnext.trans hi.next, ?_⟩, rfl⟩
    · rw [hnext]
      rcases List.mem_cons.mp hq with rfl | hq
      · exact ⟨h0, hlt⟩
      · exact hi.below q hq
    · have hmissed := hi.missed
      have hres := hi.resident p
      simp only [used, misses, creates]
      cases hfound : (b.pageTable.lookup p).isSome with
      | true =>
        rw [if_pos (hres.mp hfound)]
        exact hmissed
      | false =>
        rw [if_neg fun hmem => Bool.false_ne_true (hfound.symm.trans (hres.mpr hmem))]
        simp only [diskReads]
        omega
  | create he d x =>
    obtain ⟨rfl, hq', hnext, hv⟩ := hi.quiet.create_visited ha he d x
    have h0 := hi.quiet.next_nonneg
    refine ⟨⟨hq', hi.visited hv hq' h0, fun q hq => ?_, ?_, ?_⟩, rfl⟩
    · rw [hnext]
      rcases List.mem_cons.mp hq with rfl | hq
      · exact ⟨h0, by omega⟩
      · obtain ⟨hq0, hqlt⟩ := hi.below q hq
        exact ⟨hq0, by omega⟩
    · rw [hnext, hi.next, creates]
      exact (Nat.cast_succ _).symm
    · have hmissed := hi.missed
      have hnot : b.nextPageId ∉ (order (used h)).take n := by
        intro hmem
        exact lt_irrefl _ (hi.below _ (mem_order.mp (List.mem_of_mem_take hmem))).2
      simp only [used, misses, creates, diskReads, if_neg hnot]
      omega
  | flush =>
    have hsame := b.flushAllPages_same
    have hrec : b.flushAllPages.recency = b.recency := by
      unfold BufferPoolManager.recency
      rw [hsame.lru]
      congr 2
      exact funext hsame.pageId
    exact ⟨⟨hi.quiet.flushAllPages, hrec.trans hi.recency,
      fun q hq => hsame.next.symm ▸ hi.below q hq, hsame.next.trans hi.next, hi.missed⟩, rfl⟩

theorem useMachine_preserves : (useMachine n).Preserves InUse :=
  fun _ _ _ _ _ hi ha hs => (hi.step ha hs).1

/-- The pool has the pages that were used, each until `n` others were used after it. -/
theorem resident_iff_recent {dm : DiskManager} (hdm : dm.plan = [])
    (hr : (useMachine n).Run (new n dm) h b) (p : ℤ) :
    (b.pageTable.lookup p).isSome ↔
      p ∈ used h ∧ ((used h).takeWhile (· ≠ p)).toFinset.card < n := by
  have hi := hr.preserved useMachine_preserves (new_inUse n hdm)
  rw [hi.resident, mem_take_order]

/-- Page 0 was created first, but page 1 is the one not used since: it gives its frame to page 2. -/
theorem longest_unused_gone : ∃ (h : UseHistory) (b : BufferPoolManager 2),
    (useMachine 2).Run (new 2 ⟨[], none, []⟩) h b ∧ used h = [2, 0, 1, 0] ∧
    (b.pageTable.lookup 0).isSome ∧ (b.pageTable.lookup 2).isSome ∧
    ¬ (b.pageTable.lookup 1).isSome := by
  have heval : ((useMachine 2).play [.create zeroPage true, .create zeroPage true,
      .fetch 0 zeroPage false, .create zeroPage true] [] (new 2 ⟨[], none, []⟩)).map
        (fun x => used x.1) = some [2, 0, 1, 0] := by
    decide +kernel
  obtain ⟨⟨h, b⟩, hplay, hused⟩ := Option.map_eq_some_iff.mp heval
  simp only at hused
  have hrun := Machine.Run.start.play hplay
  have hheld := resident_iff_recent rfl hrun
  rw [hused] at hheld
  exact ⟨h, b, hrun, hused, (hheld 0).mpr (by decide), (hheld 2).mpr (by decide),
    fun hone => absurd ((hheld 1).mp hone) (by decide)⟩

/-- The same calls use the same pages in pools of all sizes. -/
theorem same_pages_used {b : BufferPoolManager m} {b' : BufferPoolManager n} {h h' : UseHistory}
    {dm dm' : DiskManager} (hdm : dm.plan = []) (hdm' : dm'.plan = [])
    (hr : (useMachine m).Run (new m dm) h b) (hr' : (useMachine n).Run (new n dm') h' b')
    (hcalls : h.map Prod.fst = h'.map Prod.fst) :
    used h = used h' ∧ creates h = creates h' := by
  induction hr generalizing h' b' with
  | start =>
    cases hr' with
    | start => exact ⟨rfl, rfl⟩
    | call => cases hcalls
  | @call h b b₁ u o hr ha hs ih =>
    cases hr' with
    | start => cases hcalls
    | @call h' b' b₁' u' o' hr' ha' hs' =>
      obtain ⟨hu, hrest⟩ := List.cons.inj hcalls
      simp only at hu
      subst hu
      obtain ⟨hused, hcreates⟩ := ih hr' hrest
      have hi := hr.preserved useMachine_preserves (new_inUse m hdm)
      have hi' := hr'.preserved useMachine_preserves (new_inUse n hdm')
      refine ⟨?_, ?_⟩
      · rw [(hi.step ha hs).2, (hi'.step ha' hs').2, hi.next, hi'.next, hused, hcreates]
      · cases u <;> simp only [creates, hcreates]

/-- With more frames the same calls read the disk no more often, and every page that a smaller
pool holds is in the larger one. -/
theorem more_frames_fewer_reads {b : BufferPoolManager m} {b' : BufferPoolManager n}
    {h h' : UseHistory} {dm dm' : DiskManager} (hmn : m ≤ n) (hdm : dm.plan = [])
    (hdm' : dm'.plan = []) (hr : (useMachine m).Run (new m dm) h b)
    (hr' : (useMachine n).Run (new n dm') h' b') (hcalls : h.map Prod.fst = h'.map Prod.fst) :
    diskReads h' ≤ diskReads h ∧
      ∀ p, (b.pageTable.lookup p).isSome → (b'.pageTable.lookup p).isSome := by
  have hi := hr.preserved useMachine_preserves (new_inUse m hdm)
  have hi' := hr'.preserved useMachine_preserves (new_inUse n hdm')
  obtain ⟨hused, hcreates⟩ := same_pages_used hdm hdm' hr hr' hcalls
  have hmissed := hi.missed
  have hmissed' := hi'.missed
  have hle := misses_antitone hmn (used h)
  rw [hused] at hle hmissed
  refine ⟨by omega, fun p hp => ?_⟩
  rw [hi.resident, hused] at hp
  rw [hi'.resident]
  exact take_order_subset hmn _ hp

/-- Two pages used in turn are read each time with one frame, and never with two. -/
theorem second_frame_saves : ∃ (h h' : UseHistory) (b : BufferPoolManager 1)
    (b' : BufferPoolManager 2), h.map Prod.fst = h'.map Prod.fst ∧ used h = [1, 0, 1, 0] ∧
    diskReads h = 2 ∧ diskReads h' ≤ diskReads h ∧
    ∀ p, (b.pageTable.lookup p).isSome → (b'.pageTable.lookup p).isSome := by
  have heval : (((useMachine 1).play [.create zeroPage true, .create zeroPage true,
      .fetch 0 zeroPage false, .fetch 1 zeroPage false] [] (new 1 ⟨[], none, []⟩)).bind fun x =>
        ((useMachine 2).play [.create zeroPage true, .create zeroPage true,
          .fetch 0 zeroPage false, .fetch 1 zeroPage false] [] (new 2 ⟨[], none, []⟩)).map fun _ =>
            (used x.1, diskReads x.1)) = some ([1, 0, 1, 0], 2) := by
    decide +kernel
  obtain ⟨⟨h, b⟩, hplay, heval⟩ := Option.bind_eq_some_iff.mp heval
  obtain ⟨⟨h', b'⟩, hplay', heval⟩ := Option.map_eq_some_iff.mp heval
  obtain ⟨hused, hreads⟩ := Prod.mk.inj heval
  have hcalls := (Machine.play_calls hplay).trans (Machine.play_calls hplay').symm
  obtain ⟨hle, hheld⟩ := more_frames_fewer_reads (by decide) rfl rfl
    (Machine.Run.start.play hplay) (Machine.Run.start.play hplay') hcalls
  exact ⟨h, h', b, b', hcalls, hused, hreads, hle, hheld⟩

end BufferPoolManager

namespace RecordManager
variable {rm rm' : RecordManager} {h : HeapFile}
open BufferPoolManager

/-- A visit is one use of the pool. -/
theorem Refines.visit_use (hr : rm.Refines h) {α : Type} {p : ℤ} (hp : p ∈ h.ids) {absent a : α}
    {act : PageData → Option (Visit α)} (he : rm.visit p absent act = some (a, rm')) :
    ∃ u o, (∀ uh, (visitMachine 10).Allowed uh rm.pool u) ∧
      (visitMachine 10).step rm.pool u = some (o, rm'.pool) := by
  obtain ⟨h0, hlt⟩ := hr.range p hp
  rw [← hr.next] at hlt
  obtain ⟨f, b, hfetch, -⟩ := hr.quiet.fetchPage (by norm_num) h0 hlt
  unfold RecordManager.visit at he
  simp only [hfetch] at he
  obtain ⟨v, -, he⟩ := Option.bind_eq_some_iff.mp he
  cases he
  have hstep : (useMachine 10).step rm.pool (.fetch p v.data v.dirty) =
      some (.page p (rm.pool.pageTable.lookup p).isSome,
        ((b.setData f v.data).unpinPage p v.dirty).2) := by
    unfold useMachine
    simp only [hfetch]
  exact ⟨.fetch p v.data v.dirty, _, fun _ => ⟨⟨h0, hlt⟩, nofun⟩, hstep⟩

/-- So is the page that an insertion adds. -/
theorem Refines.insertNew_use (hr : rm.Refines h) {bytes : List UInt8} {rid : RecordId}
    (he : rm.insertNew bytes = some (rid, rm')) (hlt : rm.pool.nextPageId < 524288) :
    ∃ u o, (∀ uh, (visitMachine 10).Allowed uh rm.pool u) ∧
      (visitMachine 10).step rm.pool u = some (o, rm'.pool) := by
  obtain ⟨f, b, hnew, -⟩ := hr.quiet.newPage (by norm_num) hlt
  unfold RecordManager.insertNew at he
  simp only [hnew] at he
  obtain ⟨⟨slotId, d⟩, -, he⟩ := Option.bind_eq_some_iff.mp he
  have hstep : (useMachine 10).step rm.pool (.create d slotId.isSome) =
      some (.page rm.pool.nextPageId false,
        ((b.setData f d).unpinPage rm.pool.nextPageId slotId.isSome).2) := by
    unfold useMachine
    simp only [hnew]
  have hpool : rm'.pool = ((b.setData f d).unpinPage rm.pool.nextPageId slotId.isSome).2 := by
    cases slotId with
    | none =>
      cases he
      rfl
    | some i =>
      cases he
      rfl
  rw [hpool]
  exact ⟨.create d slotId.isSome, _, fun _ => ⟨hlt, nofun⟩, hstep⟩

theorem insertNew_bound {y : RecordId × HeapFile} {bytes : List UInt8} (hr : rm.Refines h)
    (hy : h.insertNew bytes = some y) (hle : y.2.next ≤ 524288) :
    rm.pool.nextPageId < 524288 := by
  rw [HeapFile.insertNew_next hy] at hle
  rw [hr.next]
  omega

/-- The pages of `h`, in a pool that has `P`. -/
structure InPool (P : BufferPoolManager 10 → Prop) (rm : RecordManager) (h : HeapFile) :
    Prop where
  refines : rm.Refines h
  pool : P rm.pool

/-- What the use of a single page keeps of the pool, the calls of a table keep. -/
theorem inPool_calls {P : BufferPoolManager 10 → Prop}
    (hP : ∀ b u o b', (∀ uh, (visitMachine 10).Allowed uh b u) →
      (visitMachine 10).step b u = some (o, b') → P b → P b') : VisitCalls (InPool P) where
  refines hi := hi.refines
  visit absent act hi hp ha _ := by
    apply rel_imp_mem (hi.refines.visit hp absent ha)
    intro x y hx _ hxy
    obtain ⟨u, o, hallowed, hstep⟩ := hi.refines.visit_use hp hx
    exact ⟨hxy.1, hxy.2, hP _ u o _ hallowed hstep hi.pool⟩
  insertNew hi hlt := by
    apply rel_imp_mem (hi.refines.insertNew _)
    intro x y hx hy hxy
    refine ⟨hxy.1, hxy.2.1, fun hle => ⟨hxy.2.2 hle, ?_⟩⟩
    obtain ⟨u, o, hallowed, hstep⟩ := hi.refines.insertNew_use hx
      (insertNew_bound hi.refines hy hle)
    exact hP _ u o _ hallowed hstep hi.pool

/-- The pool `b₀`, after the use of some of its pages. -/
def VisitedFrom (b₀ b : BufferPoolManager 10) : Prop := ∃ uh, (visitMachine 10).Run b₀ uh b

theorem visitedFrom_calls (b₀ : BufferPoolManager 10) : VisitCalls (InPool (VisitedFrom b₀)) :=
  inPool_calls fun _ _ _ _ hallowed hstep ⟨uh, hrun⟩ => ⟨_, hrun.call (hallowed uh) hstep⟩

/-- A pool that was new, and has been used since. -/
def UsedSinceNew (b : BufferPoolManager 10) : Prop :=
  ∃ dm uh, dm.plan = [] ∧ (useMachine 10).Run (BufferPoolManager.new 10 dm) uh b

theorem usedSinceNew_rules : VisitRules (InPool UsedSinceNew) where
  toVisitCalls := inPool_calls fun _ _ _ _ hallowed hstep ⟨dm, uh, hdm, hrun⟩ =>
    ⟨dm, _, hdm, hrun.call (hallowed uh).1 hstep⟩
  flush hi := by
    obtain ⟨dm, uh, hdm, hrun⟩ := hi.pool
    exact ⟨hi.refines.flush, dm, _, hdm, hrun.call (i := PageUse.flush) trivial rfl⟩

end RecordManager
end PragmaticDB
