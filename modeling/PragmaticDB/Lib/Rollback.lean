import PragmaticDB.Lib.Machine

/-!
Components that lose their memory. A kill takes back the calls since the last one that saved, and
the others count. A component is transactional when its answers are those of another one that is
never killed, and is given the calls that count.
-/
namespace CallMachine

/-- The calls that count, and those that a kill would leave, the newest first. A kill is `none`. -/
def ledger {ι ο : Type*} (saves : ι → ο → Bool) :
    List (Option (ι × ο)) → List (ι × ο) × List (ι × ο)
  | [] => ([], [])
  | none :: h => ((ledger saves h).2, (ledger saves h).2)
  | some x :: h => (x :: (ledger saves h).1,
      if saves x.1 x.2 then x :: (ledger saves h).1 else (ledger saves h).2)

namespace Machine
variable {σ τ ε ω ι ο : Type*}

/-- `R s t u` says that `s` has in memory what the component without kills has in state `t`, and in
safety what it has in state `u`. -/
structure Transactional (m : Machine σ ε ω) (call : ε × ω → Option (ι × ο)) (m' : Machine τ ι ο)
    (saves : ι → ο → Bool) (R : σ → τ → τ → Prop) : Prop where
  killed : ∀ h s t u e o s', R s t u → m.Allowed h s e → m.step s e = some (o, s') →
    call (e, o) = none → R s' u u
  called : ∀ h s t u e o s' i r, R s t u → m.Allowed h s e → m.step s e = some (o, s') →
    call (e, o) = some (i, r) → ∃ t', (∀ h', m'.Allowed h' t i) ∧ m'.step t i = some (r, t') ∧
      R s' t' (if saves i r then t' else u)

variable {m : Machine σ ε ω} {call : ε × ω → Option (ι × ο)} {m' : Machine τ ι ο}
  {saves : ι → ο → Bool} {R : σ → τ → τ → Prop} {s₀ s : σ} {t₀ : τ} {h : List (ε × ω)}

/-- A run with kills is one without them, of the calls that count. -/
theorem Transactional.run (ht : m.Transactional call m' saves R) (h₀ : R s₀ t₀ t₀)
    (hr : m.Run s₀ h s) : ∃ t u, m'.Run t₀ (ledger saves (h.map call)).1 t ∧
      m'.Run t₀ (ledger saves (h.map call)).2 u ∧ R s t u := by
  induction hr with
  | start => exact ⟨t₀, t₀, .start, .start, h₀⟩
  | @call h s s' e o hr ha hs ih =>
    obtain ⟨t, u, hrt, hru, hR⟩ := ih
    rw [List.map_cons]
    cases hc : call (e, o) with
    | none => exact ⟨u, u, hru, hru, ht.killed h s t u e o s' hR ha hs hc⟩
    | some x =>
      obtain ⟨i, r⟩ := x
      obtain ⟨t', ha', hs', hR'⟩ := ht.called h s t u e o s' i r hR ha hs hc
      have hrt' := hrt.call (ha' _) hs'
      refine ⟨t', _, hrt', ?_, hR'⟩
      unfold ledger
      simp only
      split_ifs
      · exact hrt'
      · exact hru

end Machine
end CallMachine
