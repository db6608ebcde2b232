import PragmaticDB.Storage.RecordRuns

/-!
The record manager as a map from record ids to bytes. It is one as long as compaction finds
the tuples of each page in an order in which none is written over before it has moved.
-/
namespace PragmaticDB
open CallMachine

/-- The bytes the callers last gave record `rid`, unless they deleted it since. -/
def lastBytes : RecordHistory → RecordId → Option (List UInt8)
  | [], _ => none
  | (.insert bytes, .rid r) :: h, rid =>
    if rid = r ∧ r ≠ invalidRecordId then some bytes else lastBytes h rid
  | (.update r bytes, .ok true) :: h, rid => if rid = r then some bytes else lastBytes h rid
  | (.delete r, .ok true) :: h, rid => if rid = r then none else lastBytes h rid
  | _ :: h, rid => lastBytes h rid

/-- Sizes from 1 to 4084. -/
def SizedCall : RecordCall → Prop
  | .insert bytes => 0 < bytes.length ∧ bytes.length ≤ 4084
  | .update _ bytes => 0 < bytes.length ∧ bytes.length ≤ 4084
  | _ => True

instance : DecidablePred SizedCall := fun c =>
  match c with
  | .insert bytes | .update _ bytes =>
    inferInstanceAs (Decidable (0 < bytes.length ∧ bytes.length ≤ 4084))
  | .delete _ | .get _ | .getSlotCount _ | .flush => isTrue trivial

def mapMachine : Machine RecordManager RecordCall RecordReply :=
  recordMachine.restrict fun _ c => SizedCall c

/-- An `Insert` that has to compact finds, on every page it compacts, each tuple ending at or
below the place where the tuples of the lower slots end up. -/
def CompactsUpwards (rm : RecordManager) : RecordCall → Prop
  | .insert bytes => rm.heap.CompactsUpwards bytes.length
  | _ => True

instance (rm : RecordManager) (c : RecordCall) : Decidable (CompactsUpwards rm c) :=
  match c with
  | .insert bytes => inferInstanceAs (Decidable (rm.heap.CompactsUpwards bytes.length))
  | .update _ _ | .delete _ | .get _ | .getSlotCount _ | .flush => isTrue trivial

namespace RecordManager
variable {hist : RecordHistory} {rm : RecordManager} {h h' : HeapFile}

/-- One call keeps the map. -/
theorem lookup_step (hg : h.Good) {c : RecordCall} {r : RecordReply} (he : Effect h c r h')
    (hmap : ∀ rid, h.lookup rid = lastBytes hist rid)
    (hup : ∀ bytes, c = .insert bytes → h.CompactsUpwards bytes.length) (rid : RecordId) :
    h'.lookup rid = lastBytes ((c, r) :: hist) rid := by
  have hids : ∀ {h'' : HeapFile} {rid' : RecordId} {x : Option (List UInt8)}, h''.ids = h.ids →
      rid'.pageId ∈ h.ids → (∀ r, h''.record r = if r = rid' then x else h.record r) →
      h''.lookup rid = if rid = rid' then x else h.lookup rid := by
    intro h'' rid' x hids hmem hrec
    unfold HeapFile.lookup
    rw [hids, hrec]
    split_ifs with h1 h2 h2
    · rfl
    · rfl
    · exact absurd (h2 ▸ hmem) h1
    · rfl
  cases he with
  | insert h0 hins =>
    rw [hins.lookup hg h0 (hup _ rfl), hmap]
    rfl
  | insertEmpty =>
    rw [hmap]
    simp [lastBytes]
  | update hp hne h0 hsame hcount hrec =>
    rw [hids hsame hp hrec, hmap]
    rfl
  | delete hp hsame hcount hdesc hrec =>
    rw [hids hsame hp hrec, hmap]
    rfl
  | notUpdated | notDeleted | get | notGot | getSlotCount | flush => exact hmap rid

/-- A record id that was returned is looked up as such. -/
theorem Kept.get_returned (hk : Kept hist rm h) (hmap : ∀ rid, h.lookup rid = lastBytes hist rid)
    {rid : RecordId} (hret : Returned hist rid) :
    ∃ rm', rm.get rid = some (lastBytes hist rid, rm') := by
  rcases hk.known rid hret with rfl | ⟨hp, -⟩
  · have hnone : lastBytes hist invalidRecordId = none := by
      rw [← hmap]
      exact if_neg fun hm => absurd (hk.good.range _ hm).1 (by decide)
    refine ⟨rm, ?_⟩
    rw [hnone]
    simp [get, invalidRecordId]
  · have hrel := hk.refines.get hp
    rw [hk.good.get hp] at hrel
    obtain ⟨rm', hx, -⟩ := some_of_rel hrel
    refine ⟨rm', ?_⟩
    rw [hx, ← hmap, HeapFile.lookup, if_pos hp]

/-- Callers whose calls all compact upwards. -/
def upwardMachine : Machine RecordManager RecordCall RecordReply :=
  mapMachine.restrict CompactsUpwards

instance (h : RecordHistory) (rm : RecordManager) (c : RecordCall) :
    Decidable (upwardMachine.Allowed h rm c) :=
  inferInstanceAs (Decidable ((recordMachine.Allowed h rm c ∧ SizedCall c) ∧ CompactsUpwards rm c))

theorem upwardMachine_keeps : upwardMachine.Keeps fun hist rm =>
    ∃ h, Kept hist rm h ∧ ∀ rid, h.lookup rid = lastBytes hist rid := by
  rintro hist rm c ⟨h, hk, hmap⟩ ⟨⟨ha, -⟩, hup⟩
  obtain ⟨r, rm', h', he, hk', heff⟩ := hk.answer ha
  refine ⟨r, rm', he, h', hk', lookup_step hk.good heff hmap ?_⟩
  rintro bytes rfl
  exact HeapFile.compactsUpwards_congr hk.refines.ids
    (fun p hp => hk.refines.current (hk.refines.ids ▸ hp)) hup

/-- Along a run in which every compaction goes upwards, a record id gives the bytes last put
under it and not deleted since, whatever was done to other ids. -/
theorem get_eq_lastBytes {dm : DiskManager} (hdm : dm.plan = [])
    (hr : upwardMachine.Run (new dm) hist rm) {rid : RecordId} (hret : Returned hist rid) :
    ∃ rm', rm.get rid = some (lastBytes hist rid, rm') := by
  have h₀ : ∃ h, Kept [] (new dm) h ∧ ∀ rid, h.lookup rid = lastBytes [] rid :=
    ⟨_, new_kept hdm, fun rid => if_neg List.not_mem_nil⟩
  obtain ⟨h, hk, hmap⟩ := hr.invariant upwardMachine_keeps h₀
  exact hk.get_returned hmap hret

theorem mapMachine_insert {s : RecordManager} {bytes : List UInt8} {rid : RecordId}
    {rm' : RecordManager} (hr : mapMachine.Run s hist rm) (h0 : 0 < bytes.length)
    (hle : bytes.length ≤ 4084) (he : rm.answer (.insert bytes) = some (.rid rid, rm'))
    (hnext : rm'.pool.nextPageId ≤ 524288) :
    mapMachine.Run s ((.insert bytes, .rid rid) :: hist) rm' := by
  refine hr.call ⟨⟨by omega, fun r rm'' hins => ?_⟩, h0, hle⟩ he
  have he' : rm.answer (.insert bytes) = some (.rid r, rm'') := by
    simp only [answer, hins, Option.map_some]
  obtain ⟨-, rfl⟩ := Prod.mk.inj (Option.some.inj (he'.symm.trans he))
  exact hnext

/-- The first of two records grows below the second, and the next `Insert` that compacts the
page writes it over the second. -/
theorem grown_record_overwrites : ∃ hist rm rm', mapMachine.Run (new ⟨[], none, []⟩) hist rm ∧
    Returned hist ⟨0, 1⟩ ∧ lastBytes hist ⟨0, 1⟩ = some [2] ∧
    rm.get ⟨0, 1⟩ = some (some [3], rm') := by
  have heval : (do
      let x₁ ← (new ⟨[], none, []⟩).answer (.insert [1])
      let x₂ ← x₁.2.answer (.insert [2])
      let x₃ ← x₂.2.answer (.update ⟨0, 0⟩ [3, 4])
      let x₄ ← x₃.2.answer (.insert (List.replicate 4084 0))
      let x₅ ← x₄.2.get ⟨0, 1⟩
      some ([x₁.1, x₂.1, x₃.1, x₄.1], x₅.1, [x₁.2.pool.nextPageId, x₂.2.pool.nextPageId,
        x₄.2.pool.nextPageId])) =
      some ([.rid ⟨0, 0⟩, .rid ⟨0, 1⟩, .ok true, .rid ⟨1, 0⟩], some [3], [1, 1, 2]) := by
    decide +kernel
  obtain ⟨⟨r₁, rm₁⟩, he₁, heval⟩ := Option.bind_eq_some_iff.mp heval
  obtain ⟨⟨r₂, rm₂⟩, he₂, heval⟩ := Option.bind_eq_some_iff.mp heval
  obtain ⟨⟨r₃, rm₃⟩, he₃, heval⟩ := Option.bind_eq_some_iff.mp heval
  obtain ⟨⟨r₄, rm₄⟩, he₄, heval⟩ := Option.bind_eq_some_iff.mp heval
  obtain ⟨⟨bytes, rm₅⟩, he₅, heval⟩ := Option.bind_eq_some_iff.mp heval
  simp only [Option.some.injEq, Prod.mk.injEq, List.cons.injEq, and_true] at heval
  obtain ⟨⟨rfl, rfl, rfl, rfl⟩, rfl, hn₁, hn₂, hn₄⟩ := heval
  have hrun₁ := mapMachine_insert .start (by decide) (by decide) he₁ (by omega)
  have hrun₂ := mapMachine_insert hrun₁ (by decide) (by decide) he₂ (by omega)
  have hrun₃ := hrun₂.call (show mapMachine.Allowed _ rm₂ (.update ⟨0, 0⟩ [3, 4]) from
    ⟨⟨[1], by simp⟩, by decide, by decide⟩) he₃
  have hlen := List.length_replicate (n := 4084) (a := (0 : UInt8))
  generalize List.replicate 4084 (0 : UInt8) = long at he₄ hlen
  have hrun₄ := mapMachine_insert hrun₃ (by omega) (by omega) he₄ (by omega)
  exact ⟨_, _, rm₅, hrun₄, ⟨[2], by simp⟩, by simp [lastBytes, invalidRecordId, invalidPageId],
    he₅⟩

/-- Two records, of which the first shrinks; the next `Insert` has to compact their page. -/
theorem moved_record_got : ∃ hist rm rm', upwardMachine.Run (new ⟨[], none, []⟩) hist rm ∧
    hist.map Prod.fst = [.insert (List.replicate 80 3), .update ⟨0, 0⟩ [1], .insert [2],
      .insert (List.replicate 4000 1)] ∧
    rm.pageIds = [0] ∧ slot (rm.pool.current 0) 1 = ⟨4094, 1⟩ ∧
    rm.get ⟨0, 1⟩ = some (some [2], rm') := by
  have heval : (upwardMachine.play [.insert (List.replicate 4000 1), .insert [2],
      .update ⟨0, 0⟩ [1], .insert (List.replicate 80 3)] [] (new ⟨[], none, []⟩)).map (fun x =>
        (x.2.pageIds, slot (x.2.pool.current 0) 1, decide (Returned x.1 ⟨0, 1⟩),
          lastBytes x.1 ⟨0, 1⟩)) = some ([0], ⟨4094, 1⟩, true, some [2]) := by
    decide +kernel
  obtain ⟨⟨hist, rm⟩, hplay, heq⟩ := Option.map_eq_some_iff.mp heval
  simp only [Prod.mk.injEq, decide_eq_true_eq] at heq
  obtain ⟨hids, hslot, hret, hlast⟩ := heq
  have hrun := Machine.Run.start.play hplay
  obtain ⟨rm', hget⟩ := get_eq_lastBytes rfl hrun hret
  rw [hlast] at hget
  exact ⟨hist, rm, rm', hrun, Machine.play_calls hplay, hids, hslot, hget⟩

end RecordManager
end PragmaticDB
