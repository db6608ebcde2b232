import Mathlib.Order.Bounds.Basic

/-!
Walks upwards through a set that changes on the way. Each step goes to the least element above the
last one, of those that are there by then.
-/

/-- The elements passed so far, the newest first, and whether there was none after them. -/
structure Sweep (κ : Type*) where
  passed : List κ
  ended : Bool

namespace Sweep
variable {κ : Type*} {w : Sweep κ} {S steady steady' : Set κ} {k? : Option κ}

def moved (l : List κ) : Option κ → Sweep κ
  | some k => ⟨k :: l, false⟩
  | none => ⟨l, true⟩

/-- The element that the walk is at. -/
def position (w : Sweep κ) : Option κ := if w.ended then none else w.passed.head?

theorem position_moved (l : List κ) (k? : Option κ) : (moved l k?).position = k? := by
  cases k? <;> rfl

theorem passed_of_position {cur : κ} (h : w.position = some cur) : ∃ l, w.passed = cur :: l := by
  unfold position at h
  split_ifs at h
  exact List.head?_eq_some_iff.mp h

def start (k? : Option κ) : Sweep κ := moved [] k?

def next (w : Sweep κ) (k? : Option κ) : Sweep κ := moved w.passed k?

variable [PartialOrder κ]

/-- The least element, if there is one. -/
def First (S : Set κ) : Option κ → Prop
  | some k => IsLeast S k
  | none => S = ∅

theorem First.mem (hf : First S k?) : ∀ k ∈ k?, k ∈ S := by
  rintro k rfl
  exact hf.1

theorem first_head {l : List κ} (hs : l.Pairwise (· < ·)) : First {k | k ∈ l} l.head? := by
  cases l with
  | nil => exact Set.eq_empty_of_forall_notMem fun k hk => List.not_mem_nil hk
  | cons a l =>
    refine ⟨List.mem_cons_self, fun k hk => ?_⟩
    rcases List.mem_cons.mp hk with rfl | hk
    · exact le_rfl
    · exact ((List.pairwise_cons.mp hs).1 k hk).le

/-- No element of `steady` has been left out. -/
structure Covers (w : Sweep κ) (steady : Set κ) : Prop where
  sorted : w.passed.Pairwise fun a b => b < a
  rest : ∀ k ∈ steady, k ∈ w.passed ∨ w.ended = false ∧ ∀ x ∈ w.passed, x < k

theorem Covers.start (hf : First S k?) (hsub : steady ⊆ S) : (start k?).Covers steady := by
  cases k? with
  | none =>
    refine ⟨.nil, fun k hk => ?_⟩
    obtain rfl : S = ∅ := hf
    exact (hsub hk).elim
  | some a =>
    refine ⟨List.pairwise_singleton _ _, fun k hk => ?_⟩
    rcases (hf.2 (hsub hk)).eq_or_lt with rfl | hlt
    · exact .inl List.mem_cons_self
    · exact .inr ⟨rfl, fun x hx => List.mem_singleton.mp hx ▸ hlt⟩

/-- A step, from `cur` on. -/
theorem Covers.next (hc : w.Covers steady) {cur : κ} {l : List κ} (hcur : w.passed = cur :: l)
    (hf : First (S ∩ Set.Ioi cur) k?) (hsub : steady ⊆ S) : (w.next k?).Covers steady := by
  have hahead : ∀ k ∈ steady, k ∈ w.passed ∨ k ∈ S ∩ Set.Ioi cur := by
    intro k hk
    rcases hc.rest k hk with hpast | ⟨-, hlt⟩
    · exact .inl hpast
    · exact .inr ⟨hsub hk, hlt cur (hcur ▸ List.mem_cons_self)⟩
  cases k? with
  | none =>
    refine ⟨hc.sorted, fun k hk => ?_⟩
    rcases hahead k hk with hpast | hk
    · exact .inl hpast
    · rw [show S ∩ Set.Ioi cur = ∅ from hf] at hk
      exact hk.elim
  | some a =>
    have hbefore : ∀ x ∈ w.passed, x < a := by
      intro x hx
      have hle : x ≤ cur := by
        have hsorted := hc.sorted
        rw [hcur] at hsorted hx
        rcases List.mem_cons.mp hx with rfl | hx
        · exact le_rfl
        · exact ((List.pairwise_cons.mp hsorted).1 x hx).le
      exact hle.trans_lt hf.1.2
    refine ⟨List.pairwise_cons.mpr ⟨hbefore, hc.sorted⟩, fun k hk => ?_⟩
    rcases hahead k hk with hpast | hk
    · exact .inl (List.mem_cons_of_mem a hpast)
    · rcases (hf.2 hk).eq_or_lt with rfl | hlt
      · exact .inl List.mem_cons_self
      · refine .inr ⟨rfl, fun x hx => ?_⟩
        rcases List.mem_cons.mp hx with rfl | hx
        · exact hlt
        · exact (hbefore x hx).trans hlt

theorem Covers.mono (hc : w.Covers steady) (hsub : steady' ⊆ steady) : w.Covers steady' :=
  ⟨hc.sorted, fun k hk => hc.rest k (hsub hk)⟩

/-- A walk that is over has passed all that was there throughout. -/
theorem Covers.complete (hc : w.Covers steady) (he : w.ended = true) {k : κ} (hk : k ∈ steady) :
    k ∈ w.passed := by
  rcases hc.rest k hk with hpast | ⟨hno, -⟩
  · exact hpast
  · rw [he] at hno
    cases hno

end Sweep
