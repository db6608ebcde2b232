import Mathlib

/-!
Components that answer calls, and the runs their callers can make.

A step is undefined where the code of the component has no defined behaviour. What a
caller may ask can depend on the answers it has had, so a run carries its history,
newest call first.
-/
namespace CallMachine

/-- Related results of related computations stay related, whatever is done with them next. -/
theorem rel_bind_mem {α β γ δ : Type*} {R : α → β → Prop} {S : γ → δ → Prop} {x : Option α}
    {y : Option β} {f : α → Option γ} {g : β → Option δ} (hxy : Option.Rel R x y)
    (hfg : ∀ a b, y = some b → R a b → Option.Rel S (f a) (g b)) :
    Option.Rel S (x.bind f) (y.bind g) := by
  cases hxy with
  | none => exact .none
  | some hab => exact hfg _ _ rfl hab

theorem rel_bind {α β γ δ : Type*} {R : α → β → Prop} {S : γ → δ → Prop} {x : Option α}
    {y : Option β} {f : α → Option γ} {g : β → Option δ} (hxy : Option.Rel R x y)
    (hfg : ∀ a b, R a b → Option.Rel S (f a) (g b)) :
    Option.Rel S (x.bind f) (y.bind g) := rel_bind_mem hxy fun a b _ => hfg a b

theorem rel_map {α β γ δ : Type*} {R : α → β → Prop} {S : γ → δ → Prop} {x : Option α}
    {y : Option β} {f : α → γ} {g : β → δ} (hxy : Option.Rel R x y)
    (hfg : ∀ a b, R a b → S (f a) (g b)) : Option.Rel S (x.map f) (y.map g) := by
  cases hxy with
  | none => exact .none
  | some hab => exact .some (hfg _ _ hab)

theorem rel_some_left {α β : Type*} {R : α → β → Prop} {a : α} {y : Option β}
    (h : Option.Rel R (some a) y) : ∃ b, y = some b ∧ R a b := by
  cases h with
  | some hab => exact ⟨_, rfl, hab⟩

theorem rel_some_right {α β : Type*} {R : α → β → Prop} {x : Option α} {b : β}
    (h : Option.Rel R x (some b)) : ∃ a, x = some a ∧ R a b := by
  cases h with
  | some hab => exact ⟨_, rfl, hab⟩

/-- More is known of the results that there are. -/
theorem rel_imp_mem {α β : Type*} {R S : α → β → Prop} {x : Option α} {y : Option β}
    (hxy : Option.Rel R x y) (h : ∀ a b, x = some a → y = some b → R a b → S a b) :
    Option.Rel S x y := by
  cases hxy with
  | none => exact .none
  | some hab => exact .some (h _ _ rfl rfl hab)

/-- A last step on one side only. -/
theorem rel_then {α β γ : Type*} {R : α → β → Prop} {S : γ → β → Prop} {x : Option α}
    {y : Option β} {f : α → γ} (hxy : Option.Rel R x y) (hf : ∀ a b, R a b → S (f a) b) :
    Option.Rel S (x.bind fun a => some (f a)) y := by
  cases hxy with
  | none => exact .none
  | some hab => exact .some (hf _ _ hab)

structure Machine (σ ι ο : Type*) where
  step : σ → ι → Option (ο × σ)
  Allowed : List (ι × ο) → σ → ι → Prop

namespace Machine
variable {σ τ ι ο : Type*}

/-- The states a machine passes through, with the calls answered on the way. -/
inductive Run (m : Machine σ ι ο) (s₀ : σ) : List (ι × ο) → σ → Prop where
  | start : Run m s₀ [] s₀
  | call {h : List (ι × ο)} {s s' : σ} {i : ι} {o : ο} : Run m s₀ h s → m.Allowed h s i →
      m.step s i = some (o, s') → Run m s₀ ((i, o) :: h) s'

/-- The same machine for callers that also obey `P`. -/
def restrict (m : Machine σ ι ο) (P : σ → ι → Prop) : Machine σ ι ο where
  step := m.step
  Allowed h s i := m.Allowed h s i ∧ P s i

instance (m : Machine σ ι ο) (P : σ → ι → Prop) (h : List (ι × ο)) (s : σ) (i : ι)
    [Decidable (m.Allowed h s i)] [Decidable (P s i)] :
    Decidable ((m.restrict P).Allowed h s i) :=
  inferInstanceAs (Decidable (m.Allowed h s i ∧ P s i))

/-- `I` survives every allowed call that is answered. -/
def Preserves (m : Machine σ ι ο) (I : List (ι × ο) → σ → Prop) : Prop :=
  ∀ h s i o s', I h s → m.Allowed h s i → m.step s i = some (o, s') → I ((i, o) :: h) s'

/-- `I` survives every allowed call, and every allowed call is answered. -/
def Keeps (m : Machine σ ι ο) (I : List (ι × ο) → σ → Prop) : Prop :=
  ∀ h s i, I h s → m.Allowed h s i →
    ∃ o s', m.step s i = some (o, s') ∧ I ((i, o) :: h) s'

theorem Keeps.preserves {m : Machine σ ι ο} {I : List (ι × ο) → σ → Prop} (hk : m.Keeps I) :
    m.Preserves I := by
  intro h s i o s' hI ha hs
  obtain ⟨o', s₁, he, hI'⟩ := hk h s i hI ha
  rw [hs] at he
  obtain ⟨rfl, rfl⟩ := Prod.mk.inj (Option.some.inj he)
  exact hI'

theorem Run.preserved {m : Machine σ ι ο} {I : List (ι × ο) → σ → Prop} {s₀ s : σ}
    {h : List (ι × ο)} (hp : m.Preserves I) (h₀ : I [] s₀) (hr : m.Run s₀ h s) : I h s := by
  induction hr with
  | start => exact h₀
  | call _ ha hs ih => exact hp _ _ _ _ _ ih ha hs

theorem Run.invariant {m : Machine σ ι ο} {I : List (ι × ο) → σ → Prop} {s₀ s : σ}
    {h : List (ι × ο)} (hk : m.Keeps I) (h₀ : I [] s₀) (hr : m.Run s₀ h s) : I h s :=
  hr.preserved hk.preserves h₀

/-- The calls and answers of a run determine its state. -/
theorem Run.unique {m : Machine σ ι ο} {s₀ s s' : σ} {h : List (ι × ο)} (hr : m.Run s₀ h s)
    (hr' : m.Run s₀ h s') : s = s' := by
  induction hr generalizing s' with
  | start =>
    cases hr'
    rfl
  | call _ _ hs ih =>
    cases hr' with
    | call hr' _ hs' =>
      obtain rfl := ih hr'
      exact (Prod.mk.inj (Option.some.inj (hs.symm.trans hs'))).2

/-- What the callers of one machine do, the callers of a more permissive one may do. -/
theorem Run.mono {m : Machine σ ι ο} {s₀ s : σ} {h : List (ι × ο)} (hr : m.Run s₀ h s)
    (m' : Machine σ ι ο) (hstep : m.step = m'.step)
    (hle : ∀ h s i, m.Allowed h s i → m'.Allowed h s i) : m'.Run s₀ h s := by
  induction hr with
  | start => exact .start
  | call _ ha hs ih => exact ih.call (hle _ _ _ ha) (hstep ▸ hs)

/-- The run up to any earlier moment of its history. -/
theorem Run.earlier {m : Machine σ ι ο} {s₀ s : σ} {h h' : List (ι × ο)}
    (hr : m.Run s₀ h s) (hs : h' <:+ h) : ∃ s', m.Run s₀ h' s' := by
  induction hr with
  | start => exact ⟨s₀, by rw [List.suffix_nil.mp hs]; exact .start⟩
  | call hr ha hstep ih =>
    rcases List.suffix_cons_iff.mp hs with rfl | hs
    · exact ⟨_, hr.call ha hstep⟩
    · exact ih hs

/-- A run computed call by call, as long as the calls are allowed and answered. -/
def play (m : Machine σ ι ο) [∀ h s i, Decidable (m.Allowed h s i)] :
    List ι → List (ι × ο) → σ → Option (List (ι × ο) × σ)
  | [], h, s => some (h, s)
  | i :: is, h, s =>
    if m.Allowed h s i then (m.step s i).bind fun x => play m is ((i, x.1) :: h) x.2 else none

theorem Run.play {m : Machine σ ι ο} [∀ h s i, Decidable (m.Allowed h s i)] {s₀ s s' : σ}
    {h h' : List (ι × ο)} {is : List ι} (hr : m.Run s₀ h s)
    (hp : m.play is h s = some (h', s')) : m.Run s₀ h' s' := by
  induction is generalizing h s with
  | nil =>
    cases hp
    exact hr
  | cons i is ih =>
    unfold Machine.play at hp
    split_ifs at hp with ha
    obtain ⟨⟨o, s₁⟩, hs, hp⟩ := Option.bind_eq_some_iff.mp hp
    exact ih (hr.call ha hs) hp

/-- The calls of a run that was computed are the ones it was computed from. -/
theorem play_calls {m : Machine σ ι ο} [∀ h s i, Decidable (m.Allowed h s i)] {s s' : σ}
    {h h' : List (ι × ο)} {is : List ι} (hp : m.play is h s = some (h', s')) :
    h'.map Prod.fst = is.reverse ++ h.map Prod.fst := by
  induction is generalizing h s with
  | nil =>
    cases hp
    rfl
  | cons i is ih =>
    unfold Machine.play at hp
    split_ifs at hp with ha
    obtain ⟨⟨o, s₁⟩, -, hp⟩ := Option.bind_eq_some_iff.mp hp
    rw [ih hp, List.reverse_cons, List.append_assoc]
    rfl

/-- Two machines whose related states answer alike, undefined behaviour included. -/
def Simulates (m : Machine σ ι ο) (m' : Machine τ ι ο) (R : σ → τ → Prop) : Prop :=
  ∀ h s t i, R s t → m.Allowed h s i → m'.Allowed h t i ∧
    Option.Rel (fun x y => x.1 = y.1 ∧ R x.2 y.2) (m.step s i) (m'.step t i)

/-- A run of the first machine is, answer by answer, a run of the second. -/
theorem Simulates.run {m : Machine σ ι ο} {m' : Machine τ ι ο} {R : σ → τ → Prop}
    {s₀ s : σ} {t₀ : τ} {h : List (ι × ο)} (hsim : m.Simulates m' R) (h₀ : R s₀ t₀)
    (hr : m.Run s₀ h s) : ∃ t, m'.Run t₀ h t ∧ R s t := by
  induction hr with
  | start => exact ⟨t₀, .start, h₀⟩
  | @call h s s' i o hr ha hs ih =>
    obtain ⟨t, hrt, hR⟩ := ih
    obtain ⟨ha', hrel⟩ := hsim h s t i hR ha
    rw [hs] at hrel
    cases ht : m'.step t i with
    | none => rw [ht] at hrel; cases hrel
    | some y =>
      rw [ht] at hrel
      cases hrel with
      | some hy =>
        have ho : o = y.1 := hy.1
        exact ⟨y.2, hrt.call ha' (by rw [ht, ho]), hy.2⟩

end Machine
end CallMachine
