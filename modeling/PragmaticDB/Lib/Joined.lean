import Mathlib

/-!
Lists joined to one text, with a symbol behind each of them or between them that none of them has.
-/
namespace Joined
variable {α : Type*} {x : α}

/-- What stands up to the first `x` is known. -/
theorem cut_inj {l l' t t' : List α} (hl : x ∉ l) (hl' : x ∉ l')
    (he : l ++ x :: t = l' ++ x :: t') : l = l' ∧ t = t' := by
  rcases List.append_eq_append_iff.mp he with ⟨m, rfl, hm⟩ | ⟨m, rfl, hm⟩
  · cases m with
    | nil => exact ⟨(List.append_nil l).symm, (List.cons.inj hm).2⟩
    | cons y m =>
      rw [(List.cons.inj hm).1] at hl'
      exact absurd (List.mem_append_right l List.mem_cons_self) hl'
  · cases m with
    | nil => exact ⟨List.append_nil l', (List.cons.inj hm).2.symm⟩
    | cons y m =>
      rw [(List.cons.inj hm).1] at hl
      exact absurd (List.mem_append_right l' List.mem_cons_self) hl

/-- Each list with `x` behind it. -/
def terminated (x : α) (ls : List (List α)) : List α := ls.flatMap (· ++ [x])

theorem terminated_cons (l : List α) (ls : List (List α)) :
    terminated x (l :: ls) = l ++ x :: terminated x ls := by
  unfold terminated
  rw [List.flatMap_cons, List.append_assoc, List.singleton_append]

theorem terminated_inj {ls ls' : List (List α)} (h : ∀ l ∈ ls, x ∉ l) (h' : ∀ l ∈ ls', x ∉ l)
    (he : terminated x ls = terminated x ls') : ls = ls' := by
  induction ls generalizing ls' with
  | nil =>
    cases ls' with
    | nil => rfl
    | cons l' ls' =>
      rw [terminated_cons] at he
      exact absurd he.symm (List.append_ne_nil_of_right_ne_nil _ (List.cons_ne_nil _ _))
  | cons l ls ih =>
    cases ls' with
    | nil =>
      rw [terminated_cons] at he
      exact absurd he (List.append_ne_nil_of_right_ne_nil _ (List.cons_ne_nil _ _))
    | cons l' ls' =>
      rw [terminated_cons, terminated_cons] at he
      obtain ⟨rfl, hrest⟩ := cut_inj (h l List.mem_cons_self) (h' l' List.mem_cons_self) he
      rw [ih (fun m hm => h m (List.mem_cons_of_mem _ hm))
        (fun m hm => h' m (List.mem_cons_of_mem _ hm)) hrest]

/-- A text of one list is none of more. -/
theorem single_ne {gap l m n : List α} {ls : List (List α)} (hl : x ∉ l) :
    (x :: gap).intercalate [l] ≠ (x :: gap).intercalate (m :: n :: ls) := by
  intro he
  rw [List.intercalate_singleton, List.intercalate_cons_cons] at he
  apply hl
  rw [he]
  simp

/-- The gap begins with `x`. -/
theorem intercalate_inj {gap : List α} {ls ls' : List (List α)}
    (h : ∀ l ∈ ls, l ≠ [] ∧ x ∉ l) (h' : ∀ l ∈ ls', l ≠ [] ∧ x ∉ l)
    (he : (x :: gap).intercalate ls = (x :: gap).intercalate ls') : ls = ls' := by
  have hempty : ∀ (m : List α) (ms : List (List α)), m ≠ [] →
      (x :: gap).intercalate (m :: ms) ≠ [] := by
    intro m ms hm
    cases ms with
    | nil => simpa using hm
    | cons n ms =>
      rw [List.intercalate_cons_cons, List.append_assoc]
      exact List.append_ne_nil_of_left_ne_nil hm _
  induction ls generalizing ls' with
  | nil =>
    cases ls' with
    | nil => rfl
    | cons m ms => exact absurd he.symm (hempty m ms (h' m List.mem_cons_self).1)
  | cons l ls ih =>
    obtain ⟨hl, hx⟩ := h l List.mem_cons_self
    cases ls' with
    | nil => exact absurd he (hempty l ls hl)
    | cons m ms =>
      obtain ⟨-, hx'⟩ := h' m List.mem_cons_self
      cases ls with
      | nil =>
        cases ms with
        | nil => simpa using he
        | cons n ms => exact absurd he (single_ne hx)
      | cons k ls =>
        cases ms with
        | nil => exact absurd he.symm (single_ne hx')
        | cons n ms =>
          rw [List.intercalate_cons_cons, List.intercalate_cons_cons, List.append_assoc,
            List.append_assoc, List.cons_append, List.cons_append] at he
          obtain ⟨rfl, hrest⟩ := cut_inj hx hx' he
          rw [ih (fun m hm => h m (List.mem_cons_of_mem _ hm))
            (fun m hm => h' m (List.mem_cons_of_mem _ hm)) (List.append_cancel_left hrest)]

end Joined
