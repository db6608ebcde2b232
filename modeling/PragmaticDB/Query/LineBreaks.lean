import PragmaticDB.Query.Grammar

/-!
Statements in other layouts. Words may stand on any line, but the list of a `CREATE` or `INSERT`
is read up to the end of the line on which it starts.
-/
namespace PragmaticDB
open ByteStream WordList

namespace Parser
variable {a b gap gap' : List UInt8} {k : ℕ}

def firstLine (s : List UInt8) : List UInt8 := s.takeWhile (· ≠ 10)

/-- At the end of `a` the line behind the `k`-th word has not ended. -/
def LineOpen (k : ℕ) (a : List UInt8) : Prop :=
  k ≤ (words isSpace a).length ∧ 10 ∉ behind isSpace k a

instance (k : ℕ) (a : List UInt8) : Decidable (LineOpen k a) :=
  inferInstanceAs (Decidable (_ ∧ _))

/-- A line break between `a` and `b` takes a column or a value from the list. -/
def BreakTakes (a b : List UInt8) : Prop :=
  (Keyword "CREATE" ((words isSpace a).headD []) ∧ LineOpen 3 a ∧
    (words isSeparator (behind isSpace 3 a)).length / 2 <
      ((words isSeparator (behind isSpace 3 a)).length +
        (words isSeparator (firstLine b)).length) / 2) ∨
  (Keyword "INSERT" ((words isSpace a).headD []) ∧ LineOpen 4 a ∧
    words isSeparator (firstLine b) ≠ [])

theorem firstLine_append (ha : 10 ∉ a) (b : List UInt8) :
    firstLine (a ++ b) = a ++ firstLine b :=
  List.takeWhile_append_of_pos fun c hc => by simpa using ne_of_mem_of_not_mem hc ha

/-- A break in `a` is the end of the first line. -/
theorem firstLine_break (ha : 10 ∈ a) (b : List UInt8) :
    firstLine (a ++ b) = firstLine a := by
  obtain ⟨s, t, rfl, hs⟩ := List.eq_append_cons_of_mem ha
  have hstart : ∀ t : List UInt8, firstLine (10 :: t) = [] := fun t => rfl
  rw [List.append_assoc, firstLine_append hs, List.cons_append, firstLine_append hs, hstart,
    hstart]

section Gap
variable (hne : gap ≠ []) (hg : ∀ c ∈ gap, isSpace c)
include hne hg

/-- What a gap makes of an open line. -/
theorem listWords_open (ho : LineOpen k a) (b : List UInt8) : listWords k (a ++ gap ++ b) =
    words isSeparator (behind isSpace k a) ++
      if 10 ∈ gap then [] else words isSeparator (firstLine b) := by
  have hsep : ∀ c ∈ gap, isSeparator c := by
    intro c hc
    simp [isSeparator, hg c hc]
  rw [listWords_eq, behind_append_gap hne hg ho.1]
  change words isSeparator (firstLine _) = _
  rw [List.append_assoc, firstLine_append ho.2]
  split_ifs with hbreak
  · rw [firstLine_break hbreak, List.append_nil]
    exact words_trailing _ fun c hc => hsep c ((List.takeWhile_sublist _).subset hc)
  · rw [firstLine_append hbreak, ← List.append_assoc, words_append_gap _ hne hsep]

theorem listWords_closed (hne' : gap' ≠ []) (hg' : ∀ c ∈ gap', isSpace c) (hc : ¬ LineOpen k a)
    (b : List UInt8) : listWords k (a ++ gap' ++ b) = listWords k (a ++ gap ++ b) := by
  rw [listWords_eq, listWords_eq]
  by_cases hk : k ≤ (words isSpace a).length
  · have hbreak : 10 ∈ behind isSpace k a := by
      by_contra hno
      exact hc ⟨hk, hno⟩
    rw [behind_append_gap hne hg hk, behind_append_gap hne' hg' hk, List.append_assoc,
      List.append_assoc]
    change words isSeparator (firstLine _) = words isSeparator (firstLine _)
    rw [firstLine_break hbreak, firstLine_break hbreak]
  · rw [behind_append_gap_of_lt hne hg (Nat.lt_of_not_le hk),
      behind_append_gap_of_lt hne' hg' (Nat.lt_of_not_le hk)]

end Gap

theorem columnsOf_length (ws : List (List UInt8)) : (columnsOf ws).length = ws.length / 2 := by
  induction ws using columnsOf.induct with
  | case1 name type ts ih =>
    rw [columnsOf, List.length_cons, ih, List.length_cons, List.length_cons]
    omega
  | case2 ts h =>
    rcases ts with _ | ⟨a, _ | ⟨b, ts⟩⟩
    · rfl
    · simp [columnsOf]
    · exact absurd rfl (h a b ts)

/-- Words that complete no pair give no columns. -/
theorem columnsOf_append {ws vs : List (List UInt8)} :
    columnsOf (ws ++ vs) = columnsOf ws ↔ ¬ ws.length / 2 < (ws.length + vs.length) / 2 := by
  constructor
  · intro h
    have hlen := congrArg List.length h
    rw [columnsOf_length, columnsOf_length, List.length_append] at hlen
    omega
  · intro h
    induction ws using columnsOf.induct with
    | case1 name type ts ih =>
      rw [List.cons_append, List.cons_append, columnsOf, columnsOf, ih]
      simp only [List.length_cons] at h
      omega
    | case2 ts hts =>
      rcases ts with _ | ⟨a, _ | ⟨b, ts⟩⟩
      · rcases vs with _ | ⟨v, _ | ⟨w, vs⟩⟩
        · rfl
        · rfl
        · simp only [List.length_cons, List.length_nil] at h
          omega
      · rcases vs with _ | ⟨v, vs⟩
        · rfl
        · simp only [List.length_cons, List.length_nil] at h
          omega
      · exact absurd rfl (hts a b ts)

section Lists
variable (hne : gap ≠ []) (hg : ∀ c ∈ gap, isSpace c) (hne' : gap' ≠ [])
  (hg' : ∀ c ∈ gap', isSpace c) (b)
include hne hg hne' hg'

/-- The values of a list in two layouts. -/
theorem listWords_layout :
    listWords k (a ++ gap' ++ b) = listWords k (a ++ gap ++ b) ↔
      (10 ∈ gap ↔ 10 ∈ gap') ∨ ¬ (LineOpen k a ∧ words isSeparator (firstLine b) ≠ []) := by
  by_cases ho : LineOpen k a
  · rw [listWords_open hne hg ho, listWords_open hne' hg' ho]
    by_cases hb : 10 ∈ gap <;> by_cases hb' : 10 ∈ gap' <;> simp [hb, hb', ho]
  · rw [listWords_closed hne hg hne' hg' ho]
    simp [ho]

/-- The columns of one. -/
theorem columns_layout :
    columnsOf (listWords k (a ++ gap' ++ b)) = columnsOf (listWords k (a ++ gap ++ b)) ↔
      (10 ∈ gap ↔ 10 ∈ gap') ∨ ¬ (LineOpen k a ∧
        (words isSeparator (behind isSpace k a)).length / 2 <
          ((words isSeparator (behind isSpace k a)).length +
            (words isSeparator (firstLine b)).length) / 2) := by
  by_cases ho : LineOpen k a
  · rw [listWords_open hne hg ho, listWords_open hne' hg' ho]
    generalize words isSeparator (behind isSpace k a) = old
    generalize words isSeparator (firstLine b) = new
    have hnew : columnsOf (old ++ new) = columnsOf old ↔ _ := columnsOf_append
    by_cases hb : 10 ∈ gap <;> by_cases hb' : 10 ∈ gap' <;>
      simp [hb, hb', ho, hnew, eq_comm (a := columnsOf old)]
  · rw [listWords_closed hne hg hne' hg' ho]
    simp [ho]

end Lists

/-- The first word of the text is the first word of `a`, once that has one. -/
theorem breakTakes_iff {keyword : List UInt8} {ws : List (List UInt8)}
    (hw : words isSpace a ++ words isSpace b = keyword :: ws) : BreakTakes a b ↔
      (Keyword "CREATE" keyword ∧ LineOpen 3 a ∧
        (words isSeparator (behind isSpace 3 a)).length / 2 <
          ((words isSeparator (behind isSpace 3 a)).length +
            (words isSeparator (firstLine b)).length) / 2) ∨
      (Keyword "INSERT" keyword ∧ LineOpen 4 a ∧ words isSeparator (firstLine b) ≠ []) := by
  have hhead : ∀ n, LineOpen (n + 1) a → (words isSpace a).headD [] = keyword := by
    intro n ho
    cases ha : words isSpace a with
    | nil =>
      have hle := ho.1
      rw [ha] at hle
      exact absurd hle (Nat.not_succ_le_zero n)
    | cons w ws' =>
      rw [ha] at hw
      exact (List.cons.inj hw).1
  unfold BreakTakes
  constructor
  · rintro (⟨hk, ho, h⟩ | ⟨hk, ho, h⟩)
    · exact .inl ⟨hhead 2 ho ▸ hk, ho, h⟩
    · exact .inr ⟨hhead 3 ho ▸ hk, ho, h⟩
  · rintro (⟨hk, ho, h⟩ | ⟨hk, ho, h⟩)
    · exact .inl ⟨hhead 2 ho ▸ hk, ho, h⟩
    · exact .inr ⟨hhead 3 ho ▸ hk, ho, h⟩

/-- Other blanks between two words give the same statement, unless a break among them takes
something from a list. -/
theorem layout_free_iff {stmt : Statement} (hne : gap ≠ []) (hg : ∀ c ∈ gap, isSpace c)
    (hne' : gap' ≠ []) (hg' : ∀ c ∈ gap', isSpace c) (hp : parse (a ++ gap ++ b) = some stmt) :
    parse (a ++ gap' ++ b) = some stmt ↔ (10 ∈ gap ↔ 10 ∈ gap') ∨ ¬ BreakTakes a b := by
  rw [parse_eq, words_append_gap a hne hg] at hp
  rw [parse_eq, words_append_gap a hne' hg']
  cases hw : words isSpace a ++ words isSpace b with
  | nil =>
    rw [hw] at hp
    cases hp
  | cons keyword ws =>
    rw [hw] at hp
    rw [breakTakes_iff hw]
    unfold Keyword
    rcases keyword_of_statement hp with hk | hk | hk | hk | hk
    · rw [statementOf_create _ _ hk] at hp ⊢
      split_ifs at hp ⊢ with ht
      obtain rfl := Option.some.inj hp
      have hother : str "CREATE" ≠ str "INSERT" := by decide +kernel
      simp only [hk, hother, true_and, false_and, or_false, Option.some.injEq,
        Statement.createTable.injEq]
      exact columns_layout b hne hg hne' hg'
    · rw [statementOf_insert _ _ hk] at hp ⊢
      rcases ws with _ | ⟨into, _ | ⟨t, _ | ⟨values, ws⟩⟩⟩
      · cases hp
      · cases hp
      · cases hp
      · simp only at hp ⊢
        split_ifs at hp ⊢ with hi
        obtain rfl := Option.some.inj hp
        have hother : str "INSERT" ≠ str "CREATE" := by decide +kernel
        simp only [hk, hother, true_and, false_and, false_or, Option.some.injEq,
          Statement.insert.injEq]
        exact listWords_layout b hne hg hne' hg'
    · rw [statementOf_select _ _ hk] at hp ⊢
      refine iff_of_true hp (.inr ?_)
      simp [hk, str]
    · rw [statementOf_commit _ _ hk] at hp ⊢
      refine iff_of_true hp (.inr ?_)
      simp [hk, str]
    · rw [statementOf_delete _ _ hk] at hp ⊢
      refine iff_of_true hp (.inr ?_)
      simp [hk, str]

/-- Keywords may stand on lines of their own. -/
theorem broken_after_create : parse (str "CREATE" ++ [10] ++ str "TABLE t (x INTEGER)") =
    some (.createTable (str "t") [⟨str "x", .integer⟩]) := by
  have hp : parse (str "CREATE" ++ [32] ++ str "TABLE t (x INTEGER)") =
      some (.createTable (str "t") [⟨str "x", .integer⟩]) := by decide +kernel
  have hopen : ¬ LineOpen 3 (str "CREATE") ∧ ¬ LineOpen 4 (str "CREATE") := by decide +kernel
  have htakes : ¬ BreakTakes (str "CREATE") (str "TABLE t (x INTEGER)") := by
    rintro (⟨-, ho, -⟩ | ⟨-, ho, -⟩)
    · exact hopen.1 ho
    · exact hopen.2 ho
  exact (layout_free_iff (List.cons_ne_nil _ _) (by decide +kernel) (List.cons_ne_nil _ _)
    (by decide +kernel) hp).mpr (.inr htakes)

/-- A column on the second line is lost. -/
theorem second_line_lost :
    parse (str "CREATE TABLE t (x INTEGER," ++ [32] ++ str "y BOOLEAN)") =
        some (.createTable (str "t") [⟨str "x", .integer⟩, ⟨str "y", .boolean⟩]) ∧
      parse (str "CREATE TABLE t (x INTEGER," ++ [10] ++ str "y BOOLEAN)") =
        some (.createTable (str "t") [⟨str "x", .integer⟩]) := by
  decide +kernel

end Parser
end PragmaticDB
