import PragmaticDB.Query.DeleteForms

/-!
A semicolon at the end of a statement. It is a part of the last word, or a word of its own.
-/
namespace PragmaticDB
open ByteStream WordList

namespace Parser
variable {s w : List UInt8}

/-- Something other than a blank stands at the end. -/
def Glued (s : List UInt8) : Prop := ∃ c ∈ s.getLast?, isSpace c = false

instance (s : List UInt8) : Decidable (Glued s) :=
  inferInstanceAs (Decidable (∃ c ∈ s.getLast?, isSpace c = false))

/-- Words with a semicolon at the end. -/
def withSemicolon (glued : Prop) [Decidable glued] (ws : List (List UInt8)) : List (List UInt8) :=
  if glued then ws.dropLast ++ [ws.getLastD [] ++ str ";"] else ws ++ [str ";"]

theorem words_semicolon (s : List UInt8) :
    words isSpace (s ++ str ";") = withSemicolon (Glued s) (words isSpace s) := by
  unfold withSemicolon
  have hsemi : isSpace 59 = false := by decide
  cases s using List.reverseRecOn with
  | nil => rfl
  | append_singleton s d =>
    have hlast : Glued (s ++ [d]) ↔ isSpace d = false := by
      unfold Glued
      rw [List.getLast?_concat]
      simp
    by_cases hd : isSpace d
    · rw [if_neg (by simp [hlast, hd])]
      exact words_unglued hsemi s hd
    · have hd : isSpace d = false := by simpa using hd
      obtain ⟨ws, w, h⟩ := words_glued hd s
      rw [if_pos (hlast.mpr hd), h [] nofun, List.dropLast_concat, List.getLastD_concat]
      have hboth := h [59] (by simp [hsemi])
      rw [List.append_assoc, List.singleton_append]
      exact hboth.trans (by simp [str])

/-- A semicolon is nothing in a list. -/
theorem listWords_semicolon (k : ℕ) (s : List UInt8) :
    listWords (k + 1) (s ++ str ";") = listWords (k + 1) s := by
  have hsemi : isSpace 59 = false := by decide
  have hsep : isSeparator 59 := by decide
  have hline : ∀ x : List UInt8, words isSeparator ((x ++ [59]).takeWhile (· ≠ 10)) =
      words isSeparator (x.takeWhile (· ≠ 10)) := by
    intro x
    rw [List.takeWhile_append]
    split_ifs with hx
    · have hone : [(59 : UInt8)].takeWhile (· ≠ 10) = 59 :: [] := by decide
      rw [hone, words_append_cons _ _ hsep, words_nil, List.append_nil,
        (List.takeWhile_sublist _).eq_of_length hx]
    · rfl
  rw [listWords_eq, listWords_eq, show str ";" = [59] from rfl, behind_concat hsemi]
  split_ifs with hb
  · rw [hb]
  · exact hline _

theorem strip_semicolon (w : List UInt8) : stripSemicolon (w ++ str ";") = w := by
  unfold stripSemicolon
  rw [show str ";" = [59] from rfl, List.getLast?_concat, if_pos rfl, List.dropLast_concat]

theorem strip_free (hw : 59 ∉ w) : stripSemicolon w = w :=
  stripSemicolon_eq_self.mpr fun he => hw (List.mem_of_getLast? he)

theorem upper_semicolon {k : String} (hk : 59 ∉ str k) (w : List UInt8) :
    upper (w ++ str ";") ≠ str k := by
  intro he
  have hmem : toUpper 59 ∈ upper (w ++ str ";") := List.mem_map_of_mem (by simp [str])
  rw [he] at hmem
  exact hk hmem

theorem statementOf_congr {ws : List (List UInt8)} {f g : ℕ → List (List UInt8)}
    (h₃ : f 3 = g 3) (h₄ : f 4 = g 4) : statementOf ws f = statementOf ws g := by
  unfold statementOf
  rw [h₃, h₄]

section Kinds
variable {k : List UInt8} {ws : List (List UInt8)} {lists : ℕ → List (List UInt8)}
  {stmt : Statement} (glued : Prop) [Decidable glued]

theorem withSemicolon_cons (w v : List UInt8) (ws : List (List UInt8)) :
    withSemicolon glued (w :: v :: ws) = w :: withSemicolon glued (v :: ws) := by
  unfold withSemicolon
  split_ifs <;> rfl

theorem withSemicolon_single (w : List UInt8) :
    withSemicolon glued [w] = if glued then [w ++ str ";"] else [w, str ";"] := rfl

theorem create_semicolon (hk : upper k = str "CREATE")
    (hp : statementOf (k :: ws) lists = some stmt) :
    statementOf (withSemicolon glued (k :: ws)) lists = some stmt ↔
      ¬ ((glued ∧ ws.length = 2) ∨ ws.length = 1) := by
  have htable : ∀ w, upper (w ++ str ";") ≠ str "TABLE" := upper_semicolon (by decide +kernel)
  have hsemi : str ";" ≠ [] := by decide +kernel
  rw [statementOf_create _ _ hk] at hp
  split_ifs at hp with ht
  obtain rfl := Option.some.inj hp
  rcases ws with _ | ⟨t, _ | ⟨n, _ | ⟨a, ws⟩⟩⟩
  · cases ht
  · by_cases hg : glued <;>
      simp [withSemicolon_cons, withSemicolon_single, statementOf_create _ _ hk, hg, htable, hsemi]
  · have ht : upper t = str "TABLE" := ht
    by_cases hg : glued <;>
      simp [withSemicolon_cons, withSemicolon_single, statementOf_create _ _ hk, hg, ht, hsemi]
  · have ht : upper t = str "TABLE" := ht
    simp [withSemicolon_cons, statementOf_create _ _ hk, ht]

theorem insert_semicolon (hk : upper k = str "INSERT")
    (hp : statementOf (k :: ws) lists = some stmt) :
    statementOf (withSemicolon glued (k :: ws)) lists = some stmt ↔
      ¬ (glued ∧ ws.length = 3) := by
  have hvalues : ∀ w, upper (w ++ str ";") ≠ str "VALUES" := upper_semicolon (by decide +kernel)
  rw [statementOf_insert _ _ hk] at hp
  rcases ws with _ | ⟨into, _ | ⟨t, _ | ⟨values, ws⟩⟩⟩
  · cases hp
  · cases hp
  · cases hp
  · simp only at hp
    split_ifs at hp with hi
    obtain rfl := Option.some.inj hp
    cases ws with
    | nil =>
      by_cases hg : glued <;> simp [withSemicolon_cons, withSemicolon_single,
        statementOf_insert _ _ hk, hg, hi, hvalues]
    | cons a ws => simp [withSemicolon_cons, statementOf_insert _ _ hk, hi]

theorem select_semicolon (hk : upper k = str "SELECT")
    (hfree : ∀ w ∈ ws, stripSemicolon w = w)
    (hp : statementOf (k :: ws) lists = some stmt) :
    statementOf (withSemicolon glued (k :: ws)) lists = some stmt ↔
      ¬ (glued ∧ ws.length = 2) := by
  have hfrom : ∀ w, upper (w ++ str ";") ≠ str "FROM" := upper_semicolon (by decide +kernel)
  have hnil : stripSemicolon (str ";") = stripSemicolon [] := by decide +kernel
  rw [statementOf_select _ _ hk] at hp
  rcases ws with _ | ⟨star, _ | ⟨from_, ws⟩⟩
  · cases hp
  · cases hp
  · simp only at hp
    split_ifs at hp with hs
    obtain rfl := Option.some.inj hp
    rcases ws with _ | ⟨t, _ | ⟨a, ws⟩⟩
    · by_cases hg : glued <;> simp [withSemicolon_cons, withSemicolon_single,
        statementOf_select _ _ hk, hg, hs, hfrom, hnil]
    · have ht : stripSemicolon t = t := hfree t (by simp)
      by_cases hg : glued <;> simp [withSemicolon_cons, withSemicolon_single,
        statementOf_select _ _ hk, hg, hs, strip_semicolon, ht]
    · simp [withSemicolon_cons, statementOf_select _ _ hk, hs]

theorem commit_semicolon (hk : upper k = str "COMMIT")
    (hp : statementOf (k :: ws) lists = some stmt) :
    statementOf (withSemicolon glued (k :: ws)) lists = some stmt ↔
      ¬ (glued ∧ ws.length = 0) := by
  rw [statementOf_commit _ _ hk] at hp
  obtain rfl := Option.some.inj hp
  cases ws with
  | nil =>
    by_cases hg : glued
    · have hnone : statementOf [k ++ str ";"] lists ≠ some .commit := by
        intro hp
        have hkind := keyword_of_statement hp
        have hsemi : ∀ k' ∈ ["CREATE", "INSERT", "SELECT", "COMMIT", "DELETE"],
            upper (k ++ str ";") ≠ str k' := by
          intro k' hk'
          apply upper_semicolon
          revert k'
          decide +kernel
        simp [hsemi] at hkind
      simp [withSemicolon_single, hg, hnone]
    · simp [withSemicolon_single, hg, statementOf_commit _ _ hk]
  | cons a ws => simp [withSemicolon_cons, statementOf_commit _ _ hk]

/-- The condition behind a table name, with a semicolon behind that. -/
theorem condition_semicolon {w : List UInt8} {cs : List (List UInt8)}
    (hne : ∀ v ∈ w :: cs, v ≠ []) (hfree : ∀ v ∈ w :: cs, stripSemicolon v = v) :
    conditionOf (withSemicolon glued (w :: cs)) = conditionOf (w :: cs) ↔
      ¬ (¬ glued ∧ cs.length = 2 ∧ Keyword "WHERE" w) := by
  rcases cs with _ | ⟨c, _ | ⟨eq, _ | ⟨v, _ | ⟨a, cs⟩⟩⟩⟩
  · by_cases hg : glued <;> simp [withSemicolon_single, conditionOf, hg]
  · by_cases hg : glued <;> simp [withSemicolon_cons, withSemicolon_single, conditionOf, hg]
  · have hc : c ≠ [] := hne c (by simp)
    by_cases hg : glued <;>
      simp [withSemicolon_cons, withSemicolon_single, conditionOf, hg, hc, Keyword]
  · have hv : stripSemicolon v = v := hfree v (by simp)
    by_cases hg : glued <;>
      simp [withSemicolon_cons, withSemicolon_single, conditionOf, hg, strip_semicolon, hv]
  · simp [withSemicolon_cons, conditionOf]

theorem delete_semicolon (hk : upper k = str "DELETE") (hne : ∀ w ∈ ws, w ≠ [])
    (hfree : ∀ w ∈ ws, stripSemicolon w = w)
    (hp : statementOf (k :: ws) lists = some stmt) :
    statementOf (withSemicolon glued (k :: ws)) lists = some stmt ↔
      ¬ ((glued ∧ ws.length = 1) ∨
        (¬ glued ∧ ws.length = 5 ∧ Keyword "WHERE" (ws.getD 2 []))) := by
  have hfrom : ∀ w, upper (w ++ str ";") ≠ str "FROM" := upper_semicolon (by decide +kernel)
  have hnil : stripSemicolon (str ";") = stripSemicolon [] := by decide +kernel
  rw [statementOf_delete _ _ hk] at hp
  split_ifs at hp with hf
  obtain rfl := Option.some.inj hp
  rcases ws with _ | ⟨f, _ | ⟨n, _ | ⟨w, cs⟩⟩⟩
  · cases hf
  · have hf : upper f = str "FROM" := hf
    by_cases hg : glued <;> simp [withSemicolon_cons, withSemicolon_single,
      statementOf_delete _ _ hk, hg, hf, hfrom, hnil, conditionOf]
  · have hf : upper f = str "FROM" := hf
    have hn : stripSemicolon n = n := hfree n (by simp)
    by_cases hg : glued <;> simp [withSemicolon_cons, withSemicolon_single,
      statementOf_delete _ _ hk, hg, hf, strip_semicolon, hn, conditionOf]
  · have hf : upper f = str "FROM" := hf
    have hcond := condition_semicolon glued
      (fun v hv => hne v (List.mem_cons_of_mem f (List.mem_cons_of_mem n hv)))
      (fun v hv => hfree v (List.mem_cons_of_mem f (List.mem_cons_of_mem n hv)))
    rw [withSemicolon_cons, withSemicolon_cons, withSemicolon_cons, statementOf_delete _ _ hk]
    simp only [List.headD_cons, List.tail_cons, hf, if_true, Option.some.injEq,
      Statement.delete.injEq, true_and]
    rw [← Prod.ext_iff, hcond]
    simp

end Kinds

/-- The words that a statement with this first word must have. -/
def requiredWords (keyword : List UInt8) : ℕ :=
  if upper keyword = str "CREATE" then 3
  else if upper keyword = str "INSERT" then 4
  else if upper keyword = str "SELECT" then 3
  else if upper keyword = str "COMMIT" then 1
  else 2

/-- A semicolon would be read as a part of the statement: as the end of its last required word, as
the name of a table that is to be created, or as the value of a condition. -/
def TakesSemicolon (s : List UInt8) : Prop :=
  let ws := words isSpace s
  (Glued s ∧ ws.length = requiredWords (ws.headD [])) ∨
    (Keyword "CREATE" (ws.headD []) ∧ ws.length = 2) ∨
    (Keyword "DELETE" (ws.headD []) ∧ ¬ Glued s ∧ ws.length = 6 ∧ Keyword "WHERE" (ws.getD 3 []))

/-- A semicolon at the end changes nothing, unless it is taken as a part of the statement. -/
theorem semicolon_optional_iff {stmt : Statement} (hs : 59 ∉ s) (hp : parse s = some stmt) :
    parse (s ++ str ";") = some stmt ↔ ¬ TakesSemicolon s := by
  have hne : ∀ w ∈ words isSpace s, w ≠ [] := fun w hw => ne_nil_of_mem_words hw
  have hfree : ∀ w ∈ words isSpace s, stripSemicolon w = w := fun w hw =>
    strip_free fun hc => hs (mem_of_mem_words hw hc)
  have hlists : ∀ ws, statementOf ws (fun k => listWords k (s ++ str ";")) =
      statementOf ws fun k => listWords k s := by
    intro ws
    have h₃ : listWords 3 (s ++ str ";") = listWords 3 s := listWords_semicolon 2 s
    have h₄ : listWords 4 (s ++ str ";") = listWords 4 s := listWords_semicolon 3 s
    exact statementOf_congr h₃ h₄
  rw [parse_eq] at hp
  rw [parse_eq, hlists, words_semicolon]
  unfold TakesSemicolon
  generalize words isSpace s = ws at *
  generalize (fun k => listWords k s) = lists at *
  cases ws with
  | nil => cases hp
  | cons k ws =>
    have hne' : ∀ w ∈ ws, w ≠ [] := fun w hw => hne w (List.mem_cons_of_mem k hw)
    have hfree' : ∀ w ∈ ws, stripSemicolon w = w := fun w hw => hfree w (List.mem_cons_of_mem k hw)
    rcases keyword_of_statement hp with hk | hk | hk | hk | hk
    · rw [create_semicolon _ hk hp]
      simp [requiredWords, Keyword, hk, str]
    · rw [insert_semicolon _ hk hp]
      simp [requiredWords, Keyword, hk, str]
    · rw [select_semicolon _ hk hfree' hp]
      simp [requiredWords, Keyword, hk, str]
    · rw [commit_semicolon _ hk hp]
      simp [requiredWords, Keyword, hk, str]
    · rw [delete_semicolon _ hk hne' hfree' hp]
      simp [requiredWords, Keyword, hk, str]

theorem selection_ended : parse (str "SELECT * FROM t" ++ str ";") = some (.select (str "t")) := by
  have hp : parse (str "SELECT * FROM t") = some (.select (str "t")) := by decide +kernel
  have hfree : 59 ∉ str "SELECT * FROM t" := by decide +kernel
  have htaken : ¬ TakesSemicolon (str "SELECT * FROM t") := by
    unfold TakesSemicolon Keyword
    decide +kernel
  exact (semicolon_optional_iff hfree hp).mpr htaken

/-- `COMMIT;` is no statement. -/
theorem commit_lost : 59 ∉ str "COMMIT" ∧ parse (str "COMMIT") = some .commit ∧
    parse (str "COMMIT" ++ str ";") ≠ some .commit := by
  decide +kernel

end Parser
end PragmaticDB
