import Mathlib

/-!
The words of a list: what is left of it between the blanks.
-/
namespace WordList
variable {α : Type*} (blank : α → Bool)

def words (s : List α) : List (List α) := (s.splitOnP blank).filter fun w => !w.isEmpty

/-- A word alone: something, with no blank in it. -/
structure IsWord (w : List α) : Prop where
  ne_nil : w ≠ []
  solid : ∀ c ∈ w, blank c = false

variable {blank}

instance (w : List α) : Decidable (IsWord blank w) :=
  decidable_of_iff (w.isEmpty = false ∧ ∀ c ∈ w, blank c = false)
    ⟨fun h => ⟨by simpa using h.1, h.2⟩, fun h => ⟨by simpa using h.1, h.2⟩⟩

@[simp]
theorem words_nil : words blank [] = [] := rfl

theorem ne_nil_of_mem_words {s w : List α} (hw : w ∈ words blank s) : w ≠ [] := by
  have h := (List.mem_filter.mp hw).2
  simpa using h

theorem words_append_cons (s t : List α) {c : α} (hc : blank c) :
    words blank (s ++ c :: t) = words blank s ++ words blank t := by
  unfold words
  rw [List.splitOnP_append_cons s t hc, List.filter_append]

theorem words_cons {c : α} (hc : blank c) (s : List α) :
    words blank (c :: s) = words blank s := words_append_cons [] s hc

theorem IsWord.words_eq {w : List α} (hw : IsWord blank w) : words blank w = [w] := by
  unfold words
  rw [List.splitOnP_eq_singleton hw.solid]
  simp [hw.ne_nil]

theorem words_gap {gap : List α} (hg : ∀ c ∈ gap, blank c) (s : List α) :
    words blank (gap ++ s) = words blank s := by
  induction gap with
  | nil => rfl
  | cons c gap ih =>
    rw [List.cons_append, words_cons (hg c (by simp)), ih fun d hd => hg d (by simp [hd])]

/-- A gap of at least one blank ends the words before it. -/
theorem words_append_gap (s : List α) {gap : List α} (hne : gap ≠ []) (hg : ∀ c ∈ gap, blank c)
    (t : List α) : words blank (s ++ gap ++ t) = words blank s ++ words blank t := by
  obtain ⟨c, gap, rfl⟩ := List.exists_cons_of_ne_nil hne
  rw [List.append_assoc, List.cons_append, words_append_cons _ _ (hg c (by simp)),
    words_gap fun d hd => hg d (by simp [hd])]

theorem words_trailing (s : List α) {gap : List α} (hg : ∀ c ∈ gap, blank c) :
    words blank (s ++ gap) = words blank s := by
  cases gap with
  | nil => rw [List.append_nil]
  | cons c gap =>
    have h := words_append_gap s (List.cons_ne_nil c gap) hg []
    rwa [List.append_nil, words_nil, List.append_nil] at h

theorem words_intercalate {gap : List α} (hne : gap ≠ []) (hg : ∀ c ∈ gap, blank c)
    (ss : List (List α)) : words blank (gap.intercalate ss) = ss.flatMap (words blank) := by
  induction ss with
  | nil => rfl
  | cons s ss ih =>
    cases ss with
    | nil => simp
    | cons t ss =>
      rw [List.intercalate_cons_cons, words_append_gap s hne hg, ih]
      rfl

/-- A map that turns more items into blanks and leaves the others as they are. -/
theorem words_map {blank' : α → Bool} {f : α → α} (hb : ∀ c, blank (f c) = blank' c)
    (hf : ∀ c, blank' c = false → f c = c) (s : List α) :
    words blank (s.map f) = words blank' s := by
  have hs : (s.map f).splitOnP blank = s.splitOnP blank' := by
    induction s with
    | nil => rfl
    | cons c s ih =>
      rw [List.map_cons, List.splitOnP_cons_eq_if_modifyHead, List.splitOnP_cons_eq_if_modifyHead,
        ih, hb]
      split_ifs with hc
      · rfl
      · rw [hf c (by simpa using hc)]
  unfold words
  rw [hs]

theorem words_dropWhile (s : List α) : words blank (s.dropWhile blank) = words blank s := by
  induction s with
  | nil => rfl
  | cons c s ih =>
    rw [List.dropWhile_cons]
    split_ifs with hc
    · rw [ih, words_cons hc]
    · rfl

theorem isWord_takeWhile {s : List α} (hs : s.dropWhile blank ≠ []) :
    IsWord blank ((s.dropWhile blank).takeWhile fun c => !blank c) where
  ne_nil := by
    obtain ⟨c, t, he⟩ := List.exists_cons_of_ne_nil hs
    have hc : blank c = false := by
      have h := List.head_dropWhile_not blank hs
      simpa [he] using h
    rw [he, List.takeWhile_cons]
    simp [hc]
  solid c hc := by
    have h := List.mem_takeWhile_imp hc
    simpa using h

/-- The first word and the words behind it. -/
theorem words_eq_cons {s : List α} (hs : s.dropWhile blank ≠ []) :
    words blank s = (s.dropWhile blank).takeWhile (fun c => !blank c) ::
      words blank ((s.dropWhile blank).dropWhile fun c => !blank c) := by
  have hw := isWord_takeWhile hs
  rw [← words_dropWhile s]
  conv_lhs => rw [← List.takeWhile_append_dropWhile (p := fun c => !blank c)
    (l := s.dropWhile blank)]
  cases hd : (s.dropWhile blank).dropWhile fun c => !blank c with
  | nil => rw [List.append_nil, hw.words_eq, words_nil]
  | cons c t =>
    have hc : blank c := by
      have hne : (s.dropWhile blank).dropWhile (fun c => !blank c) ≠ [] := by simp [hd]
      have h := List.head_dropWhile_not (fun c => !blank c) hne
      simpa [hd] using h
    rw [words_append_cons _ _ hc, hw.words_eq, words_cons hc]
    rfl

theorem words_eq_nil {s : List α} (hs : s.dropWhile blank = []) : words blank s = [] := by
  rw [← words_dropWhile, hs, words_nil]

theorem length_words_le (s : List α) : (words blank s).length ≤ s.length := by
  induction s with
  | nil => rfl
  | cons c s ih =>
    by_cases hc : blank c
    · rw [words_cons hc]
      exact ih.trans (Nat.le_succ _)
    · obtain ⟨w, ws, he⟩ := List.exists_cons_of_ne_nil (List.splitOnP_ne_nil blank s)
      unfold words at ih ⊢
      rw [List.splitOnP_cons_eq_if_modifyHead, if_neg hc, he]
      rw [he] at ih
      cases w <;> simp at ih ⊢ <;> omega

/-- The words hold everything but the blanks. -/
theorem words_flatten (s : List α) : (words blank s).flatten = s.filter fun c => !blank c := by
  induction s with
  | nil => rfl
  | cons c s ih =>
    by_cases hc : blank c
    · rw [words_cons hc, ih, List.filter_cons_of_neg (by simp [hc])]
    · obtain ⟨w, ws, he⟩ := List.exists_cons_of_ne_nil (List.splitOnP_ne_nil blank s)
      have hfirst : (words blank s).flatten = w ++ (ws.filter fun w => !w.isEmpty).flatten := by
        unfold words
        rw [he]
        cases w <;> rfl
      have hcons : (words blank (c :: s)).flatten =
          c :: (w ++ (ws.filter fun w => !w.isEmpty).flatten) := by
        unfold words
        rw [List.splitOnP_cons_eq_if_modifyHead, if_neg hc, he]
        rfl
      rw [hcons, ← hfirst, ih, List.filter_cons_of_pos (by simpa using hc)]

theorem mem_of_mem_words {s w : List α} (hw : w ∈ words blank s) {c : α} (hc : c ∈ w) :
    c ∈ s := by
  have hmem : c ∈ (words blank s).flatten := List.mem_flatten.mpr ⟨w, hw, hc⟩
  rw [words_flatten] at hmem
  exact (List.mem_filter.mp hmem).1

theorem isWord_of_mem_words {s w : List α} (hw : w ∈ words blank s) : IsWord blank w where
  ne_nil := ne_nil_of_mem_words hw
  solid c hc := by
    have hmem : c ∈ (words blank s).flatten := List.mem_flatten.mpr ⟨w, hw, hc⟩
    rw [words_flatten] at hmem
    simpa using (List.mem_filter.mp hmem).2

/-! What stands behind the first words. -/

variable (blank) in
/-- The list behind its first word. -/
def behindWord (s : List α) : List α := (s.dropWhile blank).dropWhile fun c => !blank c

variable (blank) in
/-- The list behind its first `k` words. -/
def behind : ℕ → List α → List α
  | 0, s => s
  | k + 1, s => behind k (behindWord blank s)

theorem dropWhile_eq_nil {s : List α} (h : words blank s = []) : s.dropWhile blank = [] := by
  by_contra hd
  rw [words_eq_cons hd] at h
  cases h

theorem behindWord_cons {c : α} (hc : blank c) (s : List α) :
    behindWord blank (c :: s) = behindWord blank s := by
  unfold behindWord
  rw [List.dropWhile_cons_of_pos hc]

theorem IsWord.behindWord_append {w : List α} (hw : IsWord blank w) {c : α} (hc : blank c)
    (s : List α) : behindWord blank (w ++ c :: s) = c :: s := by
  obtain ⟨d, w, rfl⟩ := List.exists_cons_of_ne_nil hw.ne_nil
  have hd : blank d = false := hw.solid d List.mem_cons_self
  have hsolid : ∀ e ∈ d :: w, (!blank e) = true := fun e he => by simp [hw.solid e he]
  unfold behindWord
  rw [List.cons_append, List.dropWhile_cons_of_neg (by simp [hd]), ← List.cons_append,
    List.dropWhile_append_of_pos hsolid, List.dropWhile_cons_of_neg (by simp [hc])]

theorem behindWord_of_nil {s : List α} (h : words blank s = []) : behindWord blank s = [] := by
  unfold behindWord
  rw [dropWhile_eq_nil h, List.dropWhile_nil]

@[simp]
theorem behind_nil (k : ℕ) : behind blank k [] = [] := by
  induction k with
  | zero => rfl
  | succ k ih => exact ih

theorem words_behindWord (s : List α) :
    words blank (behindWord blank s) = (words blank s).tail := by
  by_cases hs : s.dropWhile blank = []
  · rw [behindWord_of_nil (words_eq_nil hs), words_eq_nil hs]
    rfl
  · rw [words_eq_cons hs]
    rfl

theorem behindWord_suffix (s : List α) : behindWord blank s <:+ s :=
  (List.dropWhile_suffix _).trans (List.dropWhile_suffix _)

theorem behind_suffix (k : ℕ) (s : List α) : behind blank k s <:+ s := by
  induction k generalizing s with
  | zero => exact List.suffix_rfl
  | succ k ih => exact (ih _).trans (behindWord_suffix s)

theorem words_behind (k : ℕ) (s : List α) :
    words blank (behind blank k s) = (words blank s).drop k := by
  induction k generalizing s with
  | zero => rfl
  | succ k ih =>
    unfold behind
    rw [ih, words_behindWord, List.drop_tail]

theorem behindWord_blank {s : List α} (hs : words blank s = []) (t : List α) :
    behindWord blank (s ++ t) = behindWord blank t := by
  unfold behindWord
  rw [List.dropWhile_append, dropWhile_eq_nil hs]
  rfl

theorem behindWord_append {s : List α} (hs : words blank s ≠ []) (t : List α) :
    behindWord blank (s ++ t) = if behindWord blank s = [] then t.dropWhile fun c => !blank c
      else behindWord blank s ++ t := by
  have hd : s.dropWhile blank ≠ [] := fun hd => hs (words_eq_nil hd)
  unfold behindWord
  rw [List.dropWhile_append, if_neg (by simpa using hd), List.dropWhile_append]
  simp only [List.isEmpty_iff]

section Gaps
variable {gap : List α} (hne : gap ≠ []) (hg : ∀ c ∈ gap, blank c)
include hne hg

theorem behindWord_append_gap {s : List α} (hs : words blank s ≠ []) (t : List α) :
    behindWord blank (s ++ gap ++ t) = behindWord blank s ++ gap ++ t := by
  obtain ⟨c, gap, rfl⟩ := List.exists_cons_of_ne_nil hne
  have hc : blank c := hg c (by simp)
  rw [List.append_assoc, behindWord_append hs, List.append_assoc]
  split_ifs with hb
  · rw [hb, List.cons_append, List.dropWhile_cons_of_neg (by simp [hc])]
    rfl
  · rfl

/-- A gap behind the `k`-th word stays where it is. -/
theorem behind_append_gap {k : ℕ} {s : List α} (hk : k ≤ (words blank s).length) (t : List α) :
    behind blank k (s ++ gap ++ t) = behind blank k s ++ gap ++ t := by
  induction k generalizing s with
  | zero => rfl
  | succ k ih =>
    have hs : words blank s ≠ [] := List.ne_nil_of_length_pos (by omega)
    have hlen : k ≤ (words blank (behindWord blank s)).length := by
      rw [words_behindWord, List.length_tail]
      omega
    unfold behind
    rw [behindWord_append_gap hne hg hs, ih hlen]

/-- One in front of the `k`-th word is gone. -/
theorem behind_append_gap_of_lt {k : ℕ} {s : List α} (hk : (words blank s).length < k)
    (t : List α) :
    behind blank k (s ++ gap ++ t) = behind blank (k - (words blank s).length) t := by
  induction k generalizing s with
  | zero => exact absurd hk (Nat.not_lt_zero _)
  | succ k ih =>
    by_cases hs : words blank s = []
    · have hgap : words blank (s ++ gap) = [] := by
        have hw := words_append_gap s hne hg []
        rwa [List.append_nil, hs] at hw
      rw [hs, List.length_nil, Nat.sub_zero]
      unfold behind
      rw [behindWord_blank hgap]
    · have hpos := List.length_pos_iff.mpr hs
      have hlen : (words blank (behindWord blank s)).length + 1 = (words blank s).length := by
        rw [words_behindWord, List.length_tail]
        omega
      conv_lhs => unfold behind
      rw [behindWord_append_gap hne hg hs, ih (by omega)]
      congr 1
      omega

end Gaps

section Last
variable {c : α} (hc : blank c = false)
include hc

theorem behindWord_concat (s : List α) : behindWord blank (s ++ [c]) =
    if behindWord blank s = [] then [] else behindWord blank s ++ [c] := by
  have hone : [c].dropWhile (fun c => !blank c) = [] := by simp [hc]
  by_cases hs : words blank s = []
  · rw [behindWord_blank hs, if_pos (behindWord_of_nil hs)]
    unfold behindWord
    rw [List.dropWhile_cons_of_neg (by simp [hc]), hone]
  · rw [behindWord_append hs, hone]

/-- One item more at the end is behind the `k`-th word if anything is. -/
theorem behind_concat (k : ℕ) (s : List α) : behind blank (k + 1) (s ++ [c]) =
    if behind blank (k + 1) s = [] then [] else behind blank (k + 1) s ++ [c] := by
  induction k generalizing s with
  | zero => exact behindWord_concat hc s
  | succ k ih =>
    change behind blank (k + 1) (behindWord blank (s ++ [c])) =
      if behind blank (k + 1) (behindWord blank s) = [] then []
      else behind blank (k + 1) (behindWord blank s) ++ [c]
    rw [behindWord_concat hc]
    split_ifs with hs h
    · exact behind_nil _
    · rw [hs] at h
      exact absurd (behind_nil _) h
    · rw [ih, if_pos ‹_›]
    · rw [ih, if_neg ‹_›]

/-- Items right behind the last word belong to it. -/
theorem words_glued (s : List α) : ∃ ws w, ∀ t, (∀ d ∈ t, blank d = false) →
    words blank (s ++ c :: t) = ws ++ [w ++ c :: t] := by
  induction s using List.reverseRecOn generalizing c with
  | nil =>
    refine ⟨[], [], fun t ht => IsWord.words_eq ⟨List.cons_ne_nil c t, ?_⟩⟩
    exact List.forall_mem_cons.mpr ⟨hc, ht⟩
  | append_singleton s d ih =>
    by_cases hd : blank d
    · refine ⟨words blank s, [], fun t ht => ?_⟩
      rw [List.append_assoc, List.singleton_append, words_append_cons s _ hd]
      exact congrArg _ (IsWord.words_eq ⟨List.cons_ne_nil c t, List.forall_mem_cons.mpr ⟨hc, ht⟩⟩)
    · obtain ⟨ws, w, h⟩ := ih (c := d) (by simpa using hd)
      refine ⟨ws, w ++ [d], fun t ht => ?_⟩
      rw [List.append_assoc, List.singleton_append, h (c :: t) (List.forall_mem_cons.mpr ⟨hc, ht⟩),
        List.append_assoc, List.singleton_append]

theorem words_unglued (s : List α) {b : α} (hb : blank b) :
    words blank (s ++ [b] ++ [c]) = words blank (s ++ [b]) ++ [[c]] := by
  have hone : IsWord blank [c] := ⟨List.cons_ne_nil c [], by simpa using hc⟩
  rw [List.append_assoc, List.singleton_append, words_append_cons s _ hb,
    words_append_cons s _ hb, words_nil, List.append_nil, hone.words_eq]

end Last

/-! Words in which some items always stand alone. -/

section Lexemes
variable (blank) (alone : α → Bool) (b : α)

/-- The words of a list, every item of `alone` being one by itself; `b` is some blank. -/
def lexemes (s : List α) : List (List α) :=
  words blank (s.flatMap fun c => if alone c then [b, c, b] else [c])

variable {blank} {alone} {b} (hb : blank b)
include hb

/-- A blank ends the lexemes before it. -/
theorem lexemes_append_blank (s : List α) {c : α} (hc : blank c) (t : List α) :
    lexemes blank alone b (s ++ c :: t) = lexemes blank alone b s ++ lexemes blank alone b t := by
  unfold lexemes
  rw [List.flatMap_append, List.flatMap_cons, ← List.append_assoc]
  apply words_append_gap
  · split_ifs <;> exact List.cons_ne_nil _ _
  · split_ifs <;> simp [hb, hc]

theorem lexemes_append_alone (s : List α) {c : α} (hc : blank c = false) (ha : alone c)
    (t : List α) : lexemes blank alone b (s ++ c :: t) =
      lexemes blank alone b s ++ [c] :: lexemes blank alone b t := by
  have hone : IsWord blank [c] := ⟨List.cons_ne_nil c [], by simpa using hc⟩
  unfold lexemes
  rw [List.flatMap_append, List.flatMap_cons, if_pos ha]
  generalize s.flatMap _ = x, t.flatMap _ = y
  change words blank (x ++ b :: ([c] ++ b :: y)) = _
  rw [words_append_cons _ _ hb, words_append_cons _ _ hb, hone.words_eq]
  rfl

/-- Items without blanks are the same in their lexemes. -/
theorem lexemes_flatten {w : List α} (hw : ∀ c ∈ w, blank c = false) :
    (lexemes blank alone b w).flatten = w := by
  unfold lexemes
  rw [words_flatten, List.filter_flatMap]
  induction w with
  | nil => rfl
  | cons c w ih =>
    have hc : blank c = false := hw c List.mem_cons_self
    rw [List.flatMap_cons, ih fun d hd => hw d (List.mem_cons_of_mem c hd)]
    split_ifs <;> simp [hb, hc]

omit hb in
theorem lexemes_solid {w : List α} (hw : ∀ c ∈ w, alone c = false) :
    lexemes blank alone b w = words blank w := by
  have hsame : (w.flatMap fun c => if alone c then [b, c, b] else [c]) = w := by
    induction w with
    | nil => rfl
    | cons c w ih =>
      rw [List.flatMap_cons, ih fun d hd => hw d (List.mem_cons_of_mem c hd)]
      simp [hw c List.mem_cons_self]
  unfold lexemes
  rw [hsame]

omit hb in
theorem lexemes_word {w : List α} (hw : ∀ c ∈ w, blank c = false) :
    (words blank w).flatMap (lexemes blank alone b) = lexemes blank alone b w := by
  by_cases hne : w = []
  · rw [hne]
    rfl
  · rw [IsWord.words_eq ⟨hne, hw⟩, List.flatMap_singleton]

/-- The lexemes are those of the words. -/
theorem lexemes_words (s : List α) :
    (words blank s).flatMap (lexemes blank alone b) = lexemes blank alone b s := by
  -- `a` is what has been read of the word at the front
  have hall : ∀ (s a : List α), (∀ c ∈ a, blank c = false) →
      (words blank (a ++ s)).flatMap (lexemes blank alone b) = lexemes blank alone b (a ++ s) := by
    intro s
    induction s with
    | nil =>
      intro a ha
      rw [List.append_nil]
      exact lexemes_word ha
    | cons c s ih =>
      intro a ha
      by_cases hc : blank c
      · rw [lexemes_append_blank hb a hc, words_append_cons a s hc, List.flatMap_append,
          lexemes_word ha]
        exact congrArg _ (ih [] nofun)
      · have hshift := ih (a ++ [c]) (by simpa [or_imp, forall_and, hc] using ha)
        rwa [List.append_assoc, List.singleton_append] at hshift
  exact hall s [] nofun

/-- Without the items that stand alone the lexemes are the words between these and blanks. -/
theorem words_lexemes (s : List α) :
    (lexemes blank alone b s).filter (fun w => !w.any alone) =
      words (fun c => blank c || alone c) s := by
  have hword : ∀ a : List α, (∀ c ∈ a, (blank c || alone c) = false) →
      (lexemes blank alone b a).filter (fun w => !w.any alone) =
        words (fun c => blank c || alone c) a := by
    intro a ha
    by_cases hne : a = []
    · rw [hne]
      rfl
    · have hfree : ∀ c ∈ a, blank c = false ∧ alone c = false := by simpa using ha
      have hone : IsWord blank a := ⟨hne, fun c hc => (hfree c hc).1⟩
      rw [lexemes_solid fun c hc => (hfree c hc).2, hone.words_eq, IsWord.words_eq ⟨hne, ha⟩]
      simp only [List.filter_eq_self, List.mem_singleton, forall_eq, Bool.not_eq_true',
        List.any_eq_false]
      exact fun c hc => by simp [(hfree c hc).2]
  have hall : ∀ (s a : List α), (∀ c ∈ a, (blank c || alone c) = false) →
      (lexemes blank alone b (a ++ s)).filter (fun w => !w.any alone) =
        words (fun c => blank c || alone c) (a ++ s) := by
    intro s
    induction s with
    | nil =>
      intro a ha
      rw [List.append_nil]
      exact hword a ha
    | cons c s ih =>
      intro a ha
      have hfront : (lexemes blank alone b s).filter (fun w => !w.any alone) =
          words (fun c => blank c || alone c) s := ih [] (List.forall_mem_nil _)
      by_cases hsep : blank c || alone c
      · have hsplit : words (fun c => blank c || alone c) (a ++ c :: s) =
            words (fun c => blank c || alone c) a ++ words (fun c => blank c || alone c) s :=
          words_append_cons a s hsep
        rw [hsplit, ← hfront, ← hword a ha]
        by_cases hc : blank c
        · rw [lexemes_append_blank hb a hc, List.filter_append]
        · have halone : alone c := by simpa [hc] using hsep
          rw [lexemes_append_alone hb a (by simpa using hc) halone, List.filter_append,
            List.filter_cons_of_neg (by simp [halone])]
      · have hshift := ih (a ++ [c]) (by
          intro d hd
          rcases List.mem_append.mp hd with hd | hd
          · exact ha d hd
          · rw [List.mem_singleton.mp hd]
            simpa using hsep)
        rwa [List.append_assoc, List.singleton_append] at hshift
  exact hall s [] (List.forall_mem_nil _)

end Lexemes

end WordList
