import Mathlib

/-!
Texts that end with a mark of two symbols, and do not show it earlier.
-/
namespace EndMark
variable {α : Type*} {a b : α} {s t : List α}

/-- The mark is not inside, and nothing behind `t` completes one that `t` begins. -/
structure Clear (a b : α) (t : List α) : Prop where
  inside : ¬ [a, b] <:+: t
  last : t.getLast? ≠ some a

/-- A mark that two texts share has one symbol in each of them. -/
theorem split_pair {l₁ l₂ : List α} (h₁ : l₁ ≠ []) (h₂ : l₂ ≠ []) (he : [a, b] = l₁ ++ l₂) :
    ∃ x y, l₁ = [x] ∧ l₂ = [y] := by
  have hlen := congrArg List.length he
  rw [List.length_append, List.length_cons, List.length_singleton] at hlen
  have hpos₁ := List.length_pos_iff.mpr h₁
  have hpos₂ := List.length_pos_iff.mpr h₂
  obtain ⟨x, hx⟩ := List.length_eq_one_iff.mp (show l₁.length = 1 by omega)
  obtain ⟨y, hy⟩ := List.length_eq_one_iff.mp (show l₂.length = 1 by omega)
  exact ⟨x, y, hx, hy⟩

theorem clear_of_notMem (h : a ∉ t) : Clear a b t where
  inside hin := h (hin.subset List.mem_cons_self)
  last hl := h (List.mem_of_getLast? hl)

theorem clear_nil : Clear a b [] := clear_of_notMem List.not_mem_nil

/-- Where the second symbol is missing, a text that does not begin with it may follow. -/
theorem Clear.append_of_head {c : α} (hs : b ∉ s) (ht : Clear a b (c :: t)) (hc : c ≠ b) :
    Clear a b (s ++ c :: t) where
  inside hin := by
    rcases List.infix_append_iff_ne_nil.mp hin with h | h | ⟨l₁, l₂, h₁, h₂, he, -, hpre⟩
    · exact hs (h.subset (List.mem_cons_of_mem _ List.mem_cons_self))
    · exact ht.inside h
    · obtain ⟨x, y, rfl, rfl⟩ := split_pair h₁ h₂ he
      obtain ⟨v, hv⟩ := hpre
      obtain ⟨rfl, -⟩ := List.cons.inj he
      exact hc ((List.cons.inj hv).1.symm.trans (List.cons.inj (List.cons.inj he).2).1.symm)
  last hl := by
    rw [List.getLast?_append, List.getLast?_cons] at hl
    exact ht.last (by rw [List.getLast?_cons]; exact hl)

theorem Clear.append (hs : Clear a b s) (ht : Clear a b t) : Clear a b (s ++ t) where
  inside hin := by
    rcases List.infix_append_iff_ne_nil.mp hin with h | h | ⟨l₁, l₂, h₁, h₂, he, hsuf, -⟩
    · exact hs.inside h
    · exact ht.inside h
    · obtain ⟨x, y, rfl, rfl⟩ := split_pair h₁ h₂ he
      obtain rfl : a = x := (List.cons.inj he).1
      obtain ⟨v, rfl⟩ := hsuf
      exact hs.last List.getLast?_concat
  last hl := by
    cases ht' : t.getLast? with
    | none =>
      rw [List.getLast?_eq_none_iff.mp ht', List.append_nil] at hl
      exact hs.last hl
    | some x =>
      rw [List.getLast?_append, ht'] at hl
      exact ht.last (ht'.trans hl)

theorem Clear.flatten {l : List (List α)} (h : ∀ t ∈ l, Clear a b t) : Clear a b l.flatten := by
  induction l with
  | nil => exact clear_nil
  | cons t l ih =>
    have ht := h t List.mem_cons_self
    exact ht.append (ih fun u hu => h u (List.mem_cons_of_mem _ hu))

/-- What has been read of a marked text shows the mark just at its end. -/
theorem Clear.ends_iff (h : Clear a b t) {u : List α} (hu : u <+: t ++ [a, b]) :
    [a, b] <:+ u ↔ u = t ++ [a, b] := by
  constructor
  · intro hend
    have hsplit : t ++ [a, b] = t ++ [a] ++ [b] := by rw [List.append_assoc]; rfl
    rw [hsplit] at hu ⊢
    rcases List.prefix_concat_iff.mp hu with rfl | hu
    · rfl
    rcases List.prefix_concat_iff.mp hu with rfl | hu
    · obtain ⟨v, hv⟩ := hend
      have hv : v ++ [a] ++ [b] = t ++ [a] := by rw [← hv, List.append_assoc]; rfl
      obtain ⟨hv, -⟩ := List.append_inj' hv rfl
      exact absurd (by rw [← hv, List.getLast?_concat]) h.last
    · exact absurd (hend.isInfix.trans hu.isInfix) h.inside
  · rintro rfl
    exact List.suffix_append _ _

end EndMark
