import PragmaticDB.Lib.Machine

/-!
Noninterference. Each call belongs to one part of the state, or to none. Where a call reads and
writes only the part it belongs to, what one part answers does not depend on the calls to others.
-/
namespace CallMachine
namespace Machine
variable {σ ι ο κ τ : Type*}

/-- Calls leave other parts alone, and see of the state only the part they belong to. -/
structure Unwinds (m : Machine σ ι ο) (key : ι → Option κ) (part : σ → κ → τ)
    (I : σ → Prop) : Prop where
  keeps : ∀ h s i o s', I s → m.Allowed h s i → m.step s i = some (o, s') → I s'
  apart : ∀ s i o s' k, I s → m.step s i = some (o, s') → key i ≠ some k → part s' k = part s k
  alike : ∀ s t i o o' s' t' k, I s → I t → part s k = part t k → key i = some k →
    m.step s i = some (o, s') → m.step t i = some (o', t') → o = o' ∧ part s' k = part t' k

variable {m : Machine σ ι ο} {key : ι → Option κ} {part : σ → κ → τ} {I : σ → Prop} {k : κ}
  {s₀ s t₀ t : σ} {h h' : List (ι × ο)}

theorem Unwinds.run (hu : m.Unwinds key part I) (h₀ : I s₀) (hr : m.Run s₀ h s) : I s :=
  hr.preserved (I := fun _ => I) hu.keeps h₀

variable [DecidableEq κ]

/-- The calls that belong to part `k`, with their answers. -/
def own (key : ι → Option κ) (k : κ) (h : List (ι × ο)) : List (ι × ο) :=
  h.filter fun x => key x.1 = some k

theorem own_cons_of_eq {x : ι × ο} (hk : key x.1 = some k)
    (h : List (ι × ο)) : own key k (x :: h) = x :: own key k h := by
  unfold own
  rw [List.filter_cons_of_pos (by simpa using hk)]

theorem own_cons_of_ne {x : ι × ο} (hk : key x.1 ≠ some k)
    (h : List (ι × ο)) : own key k (x :: h) = own key k h := by
  unfold own
  rw [List.filter_cons_of_neg (by simpa using hk)]

/-- In two runs the calls to one part get the same answers, if they are the same calls. -/
theorem Unwinds.same_answers (hu : m.Unwinds key part I) (hs₀ : I s₀) (ht₀ : I t₀)
    (hpart : part s₀ k = part t₀ k) (hr : m.Run s₀ h s) (hr' : m.Run t₀ h' t)
    (hsame : (own key k h).map Prod.fst = (own key k h').map Prod.fst) :
    own key k h = own key k h' ∧ part s k = part t k := by
  induction hr generalizing h' t with
  | start =>
    -- nothing in the second run belongs to `k`
    induction hr' with
    | start => exact ⟨rfl, hpart⟩
    | @call h' t t' i o hr' ha hs ih =>
      by_cases hk : key i = some k
      · rw [own_cons_of_eq hk] at hsame
        cases hsame
      · rw [own_cons_of_ne hk] at hsame ⊢
        obtain ⟨hown, hparts⟩ := ih hsame
        exact ⟨hown, hparts.trans (hu.apart t i o t' k (hu.run ht₀ hr') hs hk).symm⟩
  | @call h s s' i o hr ha hs ih =>
    by_cases hk : key i = some k
    · -- the second run up to its last call that belongs to `k`
      rw [own_cons_of_eq hk] at hsame ⊢
      induction hr' with
      | start => cases hsame
      | @call h' t t' j o' hr' ha' hs' ih' =>
        by_cases hj : key j = some k
        · rw [own_cons_of_eq hj, List.map_cons, List.map_cons] at hsame
          obtain ⟨hij, hrest⟩ := List.cons.inj hsame
          simp only at hij
          subst hij
          obtain ⟨hown, hparts⟩ := ih hr' hrest
          obtain ⟨rfl, hparts'⟩ := hu.alike s t i o o' s' t' k (hu.run hs₀ hr) (hu.run ht₀ hr')
            hparts hk hs hs'
          rw [own_cons_of_eq hj, hown]
          exact ⟨rfl, hparts'⟩
        · rw [own_cons_of_ne hj] at hsame ⊢
          obtain ⟨hown, hparts⟩ := ih' hsame
          exact ⟨hown, hparts.trans (hu.apart t j o' t' k (hu.run ht₀ hr') hs' hj).symm⟩
    · rw [own_cons_of_ne hk] at hsame ⊢
      obtain ⟨hown, hparts⟩ := ih hr' hsame
      exact ⟨hown, (hu.apart s i o s' k (hu.run hs₀ hr) hs hk).trans hparts⟩

end Machine
end CallMachine
