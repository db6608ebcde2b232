import Mathlib

/-!
Computations that can be undefined, throw or return: `ExceptT` over `Option`.
-/
namespace Throwing
variable {ε α β : Type}

/-- A sequence returns when both its parts do. -/
theorem run_bind_ok {x : ExceptT ε Option α} {f : α → ExceptT ε Option β} {b : β} :
    (x >>= f).run = some (.ok b) ↔ ∃ a, x.run = some (.ok a) ∧ (f a).run = some (.ok b) := by
  rw [ExceptT.run_bind]
  rcases x.run with _ | e | a
  · exact ⟨nofun, nofun⟩
  · exact ⟨nofun, nofun⟩
  · constructor
    · exact fun h => ⟨a, rfl, h⟩
    · rintro ⟨a', ha, h⟩
      cases ha
      exact h

/-- A sequence throws where its first part throws, or else its second. -/
theorem run_bind_error {x : ExceptT ε Option α} {f : α → ExceptT ε Option β} {e : ε} :
    (x >>= f).run = some (.error e) ↔
      x.run = some (.error e) ∨ ∃ a, x.run = some (.ok a) ∧ (f a).run = some (.error e) := by
  rw [ExceptT.run_bind]
  rcases x.run with _ | e' | a
  · exact ⟨nofun, nofun⟩
  · constructor
    · intro h
      cases h
      exact .inl rfl
    · rintro (h | ⟨a, h, -⟩)
      · cases h
        rfl
      · cases h
  · constructor
    · exact fun h => .inr ⟨a, rfl, h⟩
    · rintro (h | ⟨a', ha, h⟩)
      · cases h
      · cases ha
        exact h

/-- An element more in front of a loop. -/
theorem run_mapM_cons (f : α → ExceptT ε Option β) (a : α) (l : List α) :
    ((a :: l).mapM f).run = (f a).run.bind fun x =>
      match x with
      | .error e => some (.error e)
      | .ok b => (l.mapM f).run.map fun bs => bs.map (b :: ·) := by
  rw [List.mapM_cons, ExceptT.run_bind]
  rcases (f a).run with _ | e | b
  · rfl
  · rfl
  · change ((l.mapM f) >>= fun bs => pure (b :: bs)).run = _
    rw [ExceptT.run_bind]
    rcases (l.mapM f).run with _ | e | bs <;> rfl

/-- A loop returns when its body does for every element. -/
theorem run_mapM_eq_ok {f : α → ExceptT ε Option β} {l : List α} {bs : List β} :
    (l.mapM f).run = some (.ok bs) ↔ List.Forall₂ (fun a b => (f a).run = some (.ok b)) l bs := by
  induction l generalizing bs with
  | nil =>
    rw [List.forall₂_nil_left_iff]
    constructor
    · intro h
      cases h
      rfl
    · rintro rfl
      rfl
  | cons a l ih =>
    rw [run_mapM_cons, List.forall₂_cons_left_iff]
    constructor
    · intro h
      obtain ⟨x, hx, h⟩ := Option.bind_eq_some_iff.mp h
      cases x with
      | error e => cases h
      | ok b =>
        obtain ⟨y, hy, h⟩ := Option.map_eq_some_iff.mp h
        cases y with
        | error e => cases h
        | ok bs' =>
          cases h
          exact ⟨b, bs', hx, ih.mp hy, rfl⟩
    · rintro ⟨b, bs', hb, hbs, rfl⟩
      rw [hb, Option.bind_some, ih.mpr hbs]
      rfl

/-- What a loop returns comes from elements of its list. -/
theorem mem_of_mapM {f : α → ExceptT ε Option β} {l : List α} {bs : List β}
    (h : (l.mapM f).run = some (.ok bs)) {b : β} (hb : b ∈ bs) :
    ∃ a ∈ l, (f a).run = some (.ok b) := by
  have hall := run_mapM_eq_ok.mp h
  obtain ⟨i, hi, rfl⟩ := List.getElem_of_mem hb
  have hi' : i < l.length := hall.length_eq ▸ hi
  exact ⟨l[i], List.getElem_mem hi', hall.get hi' hi⟩

/-- A loop whose body always returns. -/
theorem run_mapM_ok {f : α → ExceptT ε Option β} {g : α → β} {l : List α}
    (h : ∀ a ∈ l, (f a).run = some (.ok (g a))) : (l.mapM f).run = some (.ok (l.map g)) := by
  induction l with
  | nil => rfl
  | cons a l ih =>
    have hrest := ih fun b hb => h b (List.mem_cons_of_mem _ hb)
    rw [run_mapM_cons, h a List.mem_cons_self, hrest]
    rfl

/-- Where no element throws, one that is undefined makes the whole undefined. -/
theorem run_mapM_none {f : α → ExceptT ε Option β} {l : List α}
    (h : ∀ a ∈ l, (f a).run = none ∨ ∃ b, (f a).run = some (.ok b))
    (hnone : ∃ a ∈ l, (f a).run = none) : (l.mapM f).run = none := by
  induction l with
  | nil =>
    obtain ⟨a, ha, -⟩ := hnone
    cases ha
  | cons a l ih =>
    rw [run_mapM_cons]
    rcases h a List.mem_cons_self with ha | ⟨b, hb⟩
    · rw [ha]
      rfl
    · have htail : ∃ x ∈ l, (f x).run = none := by
        obtain ⟨x, hx, hx'⟩ := hnone
        rcases List.mem_cons.mp hx with rfl | hx
        · rw [hb] at hx'
          cases hx'
        · exact ⟨x, hx, hx'⟩
      rw [hb, Option.bind_some, ih (fun x hx => h x (List.mem_cons_of_mem a hx)) htail]
      rfl

/-- Defined, and what is thrown meets `P`. -/
def ThrowsOnly (P : ε → Prop) (x : ExceptT ε Option α) : Prop :=
  ∃ y, x.run = some y ∧ ∀ e, y = .error e → P e

variable {P : ε → Prop}

theorem throwsOnly_pure (a : α) : ThrowsOnly P (pure a : ExceptT ε Option α) := by
  refine ⟨.ok a, rfl, fun e h => ?_⟩
  cases h

theorem ThrowsOnly.bind {x : ExceptT ε Option α} {f : α → ExceptT ε Option β}
    (hx : ThrowsOnly P x) (hf : ∀ a, x.run = some (.ok a) → ThrowsOnly P (f a)) :
    ThrowsOnly P (x >>= f) := by
  obtain ⟨y, hy, hp⟩ := hx
  unfold ThrowsOnly
  rw [ExceptT.run_bind, hy]
  cases y with
  | error e =>
    refine ⟨.error e, rfl, fun e' h => ?_⟩
    cases h
    exact hp e rfl
  | ok a => exact hf a hy

theorem ThrowsOnly.mapM {f : α → ExceptT ε Option β} {l : List α}
    (h : ∀ a ∈ l, ThrowsOnly P (f a)) : ThrowsOnly P (l.mapM f) := by
  induction l with
  | nil => exact throwsOnly_pure []
  | cons a l ih =>
    rw [List.mapM_cons]
    apply (h a List.mem_cons_self).bind
    intro b _
    apply (ih fun c hc => h c (List.mem_cons_of_mem a hc)).bind
    intro bs _
    exact throwsOnly_pure _

/-- If returned, the value meets `P`; if thrown, it meets `E`. -/
structure Meets (P : α → Prop) (E : ε → Prop) (y : Except ε α) : Prop where
  ok : ∀ a, y = .ok a → P a
  error : ∀ e, y = .error e → E e

section Meets
variable {A : α → Prop} {B : β → Prop} {E : ε → Prop}

theorem meets_ok {a : α} (h : A a) : Meets A E (.ok a) where
  ok _ he := Except.ok.inj he ▸ h
  error _ he := by cases he

theorem meets_error {e : ε} (h : E e) : Meets A E (.error e) where
  ok _ he := by cases he
  error _ he := Except.error.inj he ▸ h

theorem Meets.map {y : Except ε α} (hy : Meets A E y) {f : α → β} (hf : ∀ a, A a → B (f a)) :
    Meets B E (y.map f) := by
  cases y with
  | ok a => exact meets_ok (hf a (hy.ok a rfl))
  | error e => exact meets_error (hy.error e rfl)

/-- Where it is defined, a computation meets `A` and `E`. -/
def Promises (A : α → Prop) (E : ε → Prop) (x : ExceptT ε Option α) : Prop :=
  ∀ y, x.run = some y → Meets A E y

theorem promises_pure {a : α} (h : A a) : Promises A E (pure a : ExceptT ε Option α) := by
  intro y hy
  obtain rfl := Option.some.inj hy
  exact meets_ok h

theorem Promises.bind {x : ExceptT ε Option α} {f : α → ExceptT ε Option β}
    (hx : Promises A E x) (hf : ∀ a, A a → Promises B E (f a)) : Promises B E (x >>= f) := by
  intro y hy
  rw [ExceptT.run_bind] at hy
  obtain ⟨z, hz, hy⟩ := Option.bind_eq_some_iff.mp hy
  cases z with
  | ok a => exact hf a ((hx _ hz).ok a rfl) y hy
  | error e =>
    obtain rfl := Option.some.inj hy
    exact meets_error ((hx _ hz).error e rfl)

end Meets
end Throwing
