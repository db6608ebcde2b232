import Mathlib

/-!
Ranges of natural numbers that do not overlap: together they are no longer than the interval
they lie in. Counting by lower bounds.
-/
namespace Ranges

theorem sum_length_le {ι : Type*} (s : Finset ι) (start len : ι → ℕ) {a b : ℕ}
    (hin : ∀ i ∈ s, 0 < len i → a ≤ start i ∧ start i + len i ≤ b)
    (hapart : ∀ i ∈ s, ∀ j ∈ s, i ≠ j → 0 < len i → 0 < len j →
      start i + len i ≤ start j ∨ start j + len j ≤ start i) :
    ∑ i ∈ s, len i ≤ b - a := by
  have hdisj : (s : Set ι).PairwiseDisjoint fun i => Finset.Ico (start i) (start i + len i) := by
    intro i hi j hj hij
    rw [Function.onFun, Finset.disjoint_left]
    intro x hx hx'
    rw [Finset.mem_Ico] at hx hx'
    have hapart' := hapart i hi j hj hij (by omega) (by omega)
    omega
  have hsub : s.biUnion (fun i => Finset.Ico (start i) (start i + len i)) ⊆ Finset.Ico a b := by
    intro x hx
    rw [Finset.mem_biUnion] at hx
    obtain ⟨i, hi, hx⟩ := hx
    rw [Finset.mem_Ico] at hx ⊢
    have hin' := hin i hi (by omega)
    omega
  calc ∑ i ∈ s, len i = ∑ i ∈ s, (Finset.Ico (start i) (start i + len i)).card := by simp
    _ = (s.biUnion fun i => Finset.Ico (start i) (start i + len i)).card :=
      (Finset.card_biUnion hdisj).symm
    _ ≤ (Finset.Ico a b).card := Finset.card_le_card hsub
    _ = b - a := Nat.card_Ico a b

theorem card_filter_mul_le {α : Type*} (s : Finset α) (P : α → Prop) [DecidablePred P]
    (f : α → ℕ) {k : ℕ} (hk : ∀ p ∈ s, P p → k ≤ f p) : (s.filter P).card * k ≤ ∑ p ∈ s, f p :=
  calc (s.filter P).card * k ≤ ∑ p ∈ s.filter P, f p :=
        Finset.card_nsmul_le_sum _ _ _ fun p hp =>
          hk p (Finset.mem_filter.mp hp).1 (Finset.mem_filter.mp hp).2
    _ ≤ ∑ p ∈ s, f p := Finset.sum_le_sum_of_subset (Finset.filter_subset _ _)

end Ranges
