import Mathlib

/-!
Least recently used. A list has the elements in the order of their last use, the latest in front.
What a cache of `n` places holds is the first `n` of them, so a larger cache holds more, and an
element is still there as long as fewer than `n` others were used after it.
-/

namespace RecentUse
variable {α : Type*} [DecidableEq α] {a : α} {l h : List α} {m n : ℕ}

/-- The order after one more use. -/
def touch (a : α) (l : List α) : List α := a :: l.erase a

/-- The order after these uses, the latest first. -/
def order (h : List α) : List α := h.foldr touch []

@[simp] theorem order_nil : order ([] : List α) = [] := rfl

@[simp] theorem order_cons (a : α) (h : List α) : order (a :: h) = touch a (order h) := rfl

theorem mem_touch {b : α} : b ∈ touch a l ↔ b = a ∨ b ∈ l := by
  unfold touch
  rw [List.mem_cons]
  constructor
  · exact Or.imp id List.mem_of_mem_erase
  · rintro (rfl | hb)
    · exact .inl rfl
    · by_cases hba : b = a
      · exact .inl hba
      · exact .inr ((List.mem_erase_of_ne hba).mpr hb)

@[simp] theorem mem_order : a ∈ order h ↔ a ∈ h := by
  induction h with
  | nil => simp
  | cons b h ih => rw [order_cons, mem_touch, ih, List.mem_cons]

theorem nodup_order (h : List α) : (order h).Nodup := by
  induction h with
  | nil => exact .nil
  | cons b h ih =>
    rw [order_cons, touch, List.nodup_cons]
    exact ⟨ih.not_mem_erase, ih.erase b⟩

theorem touch_of_not_mem (ha : a ∉ l) : touch a l = a :: l := by
  unfold touch
  rw [List.erase_of_not_mem ha]

/-- The first `n` elements after a use are found from the first `n` before it. -/
theorem take_touch (n : ℕ) (a : α) (l : List α) :
    (touch a l).take n = (touch a (l.take n)).take n := by
  cases n with
  | zero => rw [List.take_zero, List.take_zero]
  | succ n =>
    unfold touch
    rw [List.take_succ_cons, List.take_succ_cons]
    congr 1
    induction l generalizing n with
    | nil => rfl
    | cons b l ih =>
      by_cases hb : b = a
      · subst hb
        rw [List.erase_cons_head, List.take_succ_cons, List.erase_cons_head, List.take_take,
          min_self]
      · rw [List.erase_cons_tail (by simpa using hb), List.take_succ_cons,
          List.erase_cons_tail (by simpa using hb)]
        cases n with
        | zero => rw [List.take_zero, List.take_zero]
        | succ n => rw [List.take_succ_cons, List.take_succ_cons, ih]

/-- A smaller cache holds part of what a larger one holds. -/
theorem take_order_subset (hmn : m ≤ n) (h : List α) : (order h).take m ⊆ (order h).take n :=
  List.take_subset_take_left _ hmn

theorem takeWhile_erase {b : α} (hba : b ≠ a) (l : List α) :
    (l.erase b).takeWhile (· ≠ a) = (l.takeWhile (· ≠ a)).erase b := by
  induction l with
  | nil => rfl
  | cons c l ih =>
    by_cases hcb : c = b
    · subst hcb
      simp [hba]
    · rw [List.erase_cons_tail (by simpa using hcb)]
      by_cases hca : c = a
      · simp [hca]
      · rw [List.takeWhile_cons_of_pos (by simpa using hca),
          List.takeWhile_cons_of_pos (by simpa using hca),
          List.erase_cons_tail (by simpa using hcb), ih]

/-- In front of `a` stand the elements that were used after it. -/
theorem toFinset_takeWhile_order (a : α) (h : List α) :
    ((order h).takeWhile (· ≠ a)).toFinset = (h.takeWhile (· ≠ a)).toFinset := by
  induction h with
  | nil => rfl
  | cons b h ih =>
    rw [order_cons, touch]
    by_cases hba : b = a
    · simp [hba]
    · rw [List.takeWhile_cons_of_pos (by simpa using hba),
        List.takeWhile_cons_of_pos (by simpa using hba), takeWhile_erase hba,
        List.toFinset_cons, List.toFinset_cons, ← ih]
      have hnd : ((order h).takeWhile (· ≠ a)).Nodup :=
        (nodup_order h).sublist (List.takeWhile_sublist _)
      ext c
      simp only [Finset.mem_insert, List.mem_toFinset, hnd.mem_erase_iff]
      tauto

theorem idxOf_eq_length_takeWhile (a : α) (l : List α) :
    l.idxOf a = (l.takeWhile (· ≠ a)).length := by
  induction l with
  | nil => rfl
  | cons b l ih =>
    by_cases hba : b = a
    · simp [hba]
    · rw [List.idxOf_cons_ne _ hba, List.takeWhile_cons_of_pos (by simpa using hba),
        List.length_cons, ih]

/-- The cache has the elements that were used, each until `n` others were used after it. -/
theorem mem_take_order : a ∈ (order h).take n ↔
    a ∈ h ∧ (h.takeWhile (· ≠ a)).toFinset.card < n := by
  by_cases ha : a ∈ h
  · have hnd : ((order h).takeWhile (· ≠ a)).Nodup :=
      (nodup_order h).sublist (List.takeWhile_sublist _)
    rw [List.mem_take_iff_idxOf_lt (mem_order.mpr ha), idxOf_eq_length_takeWhile,
      ← List.toFinset_card_of_nodup hnd, toFinset_takeWhile_order]
    exact (and_iff_right ha).symm
  · constructor
    · exact fun hmem => absurd (mem_order.mp (List.mem_of_mem_take hmem)) ha
    · exact fun hmem => absurd hmem.1 ha

/-- How often an element was used that was not in the cache. -/
def misses (n : ℕ) : List α → ℕ
  | [] => 0
  | a :: h => if a ∈ (order h).take n then misses n h else misses n h + 1

/-- More places do not mean more misses. -/
theorem misses_antitone (hmn : m ≤ n) (h : List α) : misses n h ≤ misses m h := by
  induction h with
  | nil => exact le_rfl
  | cons a h ih =>
    unfold misses
    by_cases hm : a ∈ (order h).take m
    · rw [if_pos hm, if_pos (take_order_subset hmn h hm)]
      exact ih
    · rw [if_neg hm]
      split_ifs
      · exact ih.trans (Nat.le_succ _)
      · exact Nat.succ_le_succ ih

end RecentUse
