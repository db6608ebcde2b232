import PragmaticDB.Query.LineBreaks

/-!
The documented forms of `CREATE`, `INSERT` and `SELECT`, in any layout, and the texts of which the
parser takes nothing else for one.
-/
namespace PragmaticDB
open ByteStream WordList

def isPunctuation (c : UInt8) : Bool := c == 40 || c == 41 || c == 44 || c == 59

/-- Names, keywords and values; brackets, commas and semicolons stand alone. -/
def lexemesOf (s : List UInt8) : List (List UInt8) := lexemes isSpace isPunctuation 32 s

/-- A list in brackets with commas between its items. -/
def listLexemes (items : List (List (List UInt8))) : List (List UInt8) :=
  str "(" :: ([str ","].intercalate items ++ [str ")"])

/-- The documented forms. Lists have at least one item. -/
inductive Documented : List (List UInt8) → Statement → Prop where
  | createTable {create table t : List UInt8} {columns : List ColumnText} :
      Keyword "CREATE" create → Keyword "TABLE" table → IsName t → columns ≠ [] →
      Documented (create :: table :: t :: listLexemes (columns.map fun c => [c.name, c.typeName]))
        (.createTable t (columns.map ColumnText.column))
  | insert {insert into t values : List UInt8} {vs : List (List UInt8)} :
      Keyword "INSERT" insert → Keyword "INTO" into → IsName t → Keyword "VALUES" values →
      vs ≠ [] → (∀ v ∈ vs, IsName v) →
      Documented (insert :: into :: t :: values :: listLexemes (vs.map fun v => [v])) (.insert t vs)
  | select {select from_ t : List UInt8} :
      Keyword "SELECT" select → Keyword "FROM" from_ → IsName t →
      Documented [select, str "*", from_, t] (.select t)

/-- A semicolon or nothing. -/
def LastSemicolon (e : List (List UInt8)) : Prop := e = [] ∨ e = [str ";"]

namespace Parser
variable {s : List UInt8}

/-- Statements of these kinds are what the text says. -/
def AcceptedAsDocumented (s : List UInt8) : Prop :=
  ∀ stmt, parse s = some stmt → stmt ≠ .commit → (∀ t c v, stmt ≠ .delete t c v) →
    ∃ ts e, lexemesOf s = ts ++ e ∧ LastSemicolon e ∧ Documented ts stmt

/-- No word of the list stands behind the line on which the `k`-th word ends. -/
def OneLine (k : ℕ) (s : List UInt8) : Prop :=
  words isSeparator ((behind isSpace k s).dropWhile (· ≠ 10)) = []

/-- Behind the keywords stands what is documented, lists being on one line and blanks behind the
name of a table. -/
structure NothingElse (s : List UInt8) : Prop where
  create : ∀ k k' ts, words isSpace s = k :: k' :: ts → Keyword "CREATE" k → Keyword "TABLE" k' →
    IsName (ts.headD []) ∧ OneLine 3 s ∧ ∃ columns : List ColumnText, columns ≠ [] ∧
      ∃ e, LastSemicolon e ∧ lexemesOf (behind isSpace 3 s) =
        listLexemes (columns.map fun c => [c.name, c.typeName]) ++ e
  insert : ∀ k k' t k'' ts, words isSpace s = k :: k' :: t :: k'' :: ts → Keyword "INSERT" k →
    Keyword "INTO" k' → Keyword "VALUES" k'' → IsName t ∧ OneLine 4 s ∧
      ∃ vs : List (List UInt8), vs ≠ [] ∧ (∀ v ∈ vs, IsName v) ∧ ∃ e, LastSemicolon e ∧
        lexemesOf (behind isSpace 4 s) = listLexemes (vs.map fun v => [v]) ++ e
  select : ∀ k k' ts, words isSpace s = k :: str "*" :: k' :: ts → Keyword "SELECT" k →
    Keyword "FROM" k' → ∃ t e, IsName t ∧ LastSemicolon e ∧
      lexemesOf (behind isSpace 3 s) = t :: e

theorem isSeparator_eq : (fun c => isSpace c || isPunctuation c) = isSeparator := by
  funext c
  simp only [isPunctuation, isSeparator, Bool.or_assoc]

theorem not_isPunctuation {w : List UInt8} (hw : IsName w) : ∀ c ∈ w, isPunctuation c = false := by
  intro c hc
  have h := hw.solid c hc
  rw [← isSeparator_eq, Bool.or_eq_false_iff] at h
  exact h.2

theorem lexemes_name {w : List UInt8} (hw : IsName w) : lexemesOf w = [w] :=
  (lexemes_solid (not_isPunctuation hw)).trans (isWord_isSpace hw).words_eq

theorem lexemesOf_words (s : List UInt8) : (words isSpace s).flatMap lexemesOf = lexemesOf s :=
  lexemes_words (by decide) s

theorem lexemesOf_flatten {w : List UInt8} (hw : IsWord isSpace w) :
    (lexemesOf w).flatten = w := lexemes_flatten (by decide) hw.solid

/-- The lexemes of the first `k` words and those behind them. -/
theorem lexemes_behind (k : ℕ) (s : List UInt8) : lexemesOf s =
    ((words isSpace s).take k).flatMap lexemesOf ++ lexemesOf (behind isSpace k s) := by
  have hbehind := lexemesOf_words (behind isSpace k s)
  rw [words_behind] at hbehind
  have hall := lexemesOf_words s
  rw [← List.take_append_drop k (words isSpace s), List.flatMap_append, hbehind] at hall
  exact hall.symm

/-- The words of a list without its brackets and commas. -/
theorem words_list {items : List (List (List UInt8))} {e : List (List UInt8)}
    (hnames : ∀ item ∈ items, ∀ w ∈ item, IsName w) (he : LastSemicolon e)
    (hs : lexemesOf s = listLexemes items ++ e) : words isSeparator s = items.flatten := by
  have hname : ∀ item ∈ items, item.filter (fun w => !w.any isPunctuation) = item := by
    intro item hi
    refine List.filter_eq_self.mpr fun w hw => ?_
    simpa using not_isPunctuation (hnames item hi w hw)
  have hitems : ([str ","].intercalate items).filter (fun w => !w.any isPunctuation) =
      items.flatten := by
    have hcomma : [str ","].filter (fun w => !w.any isPunctuation) = [] := by decide +kernel
    clear hs hnames
    induction items with
    | nil => rfl
    | cons item items ih =>
      have hrest := ih fun i hi => hname i (List.mem_cons_of_mem item hi)
      have hfirst := hname item List.mem_cons_self
      cases items with
      | nil =>
        rw [List.intercalate_singleton, hfirst, List.flatten_singleton]
      | cons next items =>
        rw [List.intercalate_cons_cons, List.filter_append, List.filter_append, hfirst, hcomma,
          hrest, List.append_nil]
        rfl
  have hopen : (str "(").any isPunctuation = true := by decide +kernel
  have hclose : ([str ")"] ++ e).filter (fun w => !w.any isPunctuation) = [] := by
    rcases he with rfl | rfl <;> decide +kernel
  have hsolid : (lexemesOf s).filter (fun w => !w.any isPunctuation) =
      words (fun c => isSpace c || isPunctuation c) s := words_lexemes (by decide) s
  rw [isSeparator_eq] at hsolid
  rw [← hsolid, hs, listLexemes, List.cons_append, List.filter_cons_of_neg (by simp [hopen]),
    List.append_assoc, List.filter_append, hclose, hitems, List.append_nil]

/-- The words on the first line and those behind it. -/
theorem words_lines (s : List UInt8) : words isSeparator s =
    words isSeparator (s.takeWhile (· ≠ 10)) ++ words isSeparator (s.dropWhile (· ≠ 10)) := by
  conv_lhs => rw [← List.takeWhile_append_dropWhile (p := (· ≠ 10)) (l := s)]
  cases hd : s.dropWhile (· ≠ 10) with
  | nil => rw [List.append_nil, words_nil, List.append_nil]
  | cons c t =>
    have hhead := List.head?_dropWhile_not (fun c : UInt8 => decide (c ≠ 10)) s
    rw [hd] at hhead
    have hc : c = 10 := by simpa using hhead
    have hsep : isSeparator c := by
      rw [hc]
      decide
    rw [words_append_cons _ _ hsep, words_cons hsep]

/-- On one line a list is read as a whole. -/
theorem oneLine_iff (k : ℕ) (s : List UInt8) :
    OneLine k s ↔ listWords k s = words isSeparator (behind isSpace k s) := by
  have hlines := words_lines (behind isSpace k s)
  rw [← listWords_eq] at hlines
  unfold OneLine
  rw [hlines]
  simp

/-- Names and keywords are lexemes of their own. -/
theorem lexemes_front {k : ℕ} (h : ∀ w ∈ (words isSpace s).take k, IsName w) :
    lexemesOf s = (words isSpace s).take k ++ lexemesOf (behind isSpace k s) := by
  have hsame : ((words isSpace s).take k).flatMap lexemesOf = (words isSpace s).take k := by
    generalize (words isSpace s).take k = ws at h
    induction ws with
    | nil => rfl
    | cons w ws ih =>
      rw [List.flatMap_cons, lexemes_name (h w List.mem_cons_self),
        ih fun v hv => h v (List.mem_cons_of_mem w hv)]
      rfl
  rw [lexemes_behind k s, hsame]

theorem names_columns (columns : List ColumnText) :
    ∀ item ∈ columns.map (fun c => [c.name, c.typeName]), ∀ w ∈ item, IsName w := by
  intro item hi
  obtain ⟨c, -, rfl⟩ := List.mem_map.mp hi
  simp [c.isName, c.isType.isName]

theorem create_documented {k k' : List UInt8} {ts : List (List UInt8)}
    (hw : words isSpace s = k :: k' :: ts) (hk : Keyword "CREATE" k) (hk' : Keyword "TABLE" k') :
    (∃ ls e, lexemesOf s = ls ++ e ∧ LastSemicolon e ∧
        Documented ls (.createTable (ts.headD []) (columnsOf (listWords 3 s)))) ↔
      IsName (ts.headD []) ∧ OneLine 3 s ∧ ∃ columns : List ColumnText, columns ≠ [] ∧
        ∃ e, LastSemicolon e ∧ lexemesOf (behind isSpace 3 s) =
          listLexemes (columns.map fun c => [c.name, c.typeName]) ++ e := by
  have hnk := hk.isName (by simp [keywords])
  have hnk' := hk'.isName (by simp [keywords])
  have hfront : IsName (ts.headD []) →
      lexemesOf s = k :: k' :: ts.headD [] :: lexemesOf (behind isSpace 3 s) := by
    intro hn
    rcases ts with _ | ⟨t, ts⟩
    · exact absurd rfl hn.ne_nil
    · have h := lexemes_front (s := s) (k := 3)
      rw [hw] at h
      exact h (by simpa using ⟨hnk, hnk', hn⟩)
  constructor
  · rintro ⟨ls, e, hs, he, hdoc⟩
    generalize hcols : columnsOf (listWords 3 s) = cols at hdoc
    generalize ts.headD [] = name at hdoc hfront ⊢
    cases hdoc with
    | @createTable create table _ columns _ _ hn hne =>
      rw [hfront hn] at hs
      obtain ⟨-, hs⟩ := List.cons.inj hs
      obtain ⟨-, hs⟩ := List.cons.inj hs
      obtain ⟨-, hlist⟩ := List.cons.inj hs
      refine ⟨hn, ?_, columns, hne, e, he, hlist⟩
      -- the columns take all words, so none are left for other lines
      have hall := words_list (names_columns columns) he hlist
      have hlines := words_lines (behind isSpace 3 s)
      rw [hall, ← listWords_eq] at hlines
      have htotal := congrArg List.length hlines
      have hread := congrArg List.length hcols
      rw [columnsOf_length, List.length_map] at hread
      have hpairs : (columns.map fun c => [c.name, c.typeName]).flatten.length =
          2 * columns.length := by simp [List.length_flatten, Function.comp_def, mul_comm]
      rw [hpairs, List.length_append] at htotal
      exact List.eq_nil_of_length_eq_zero (by omega)
  · rintro ⟨hn, hone, columns, hne, e, he, hlist⟩
    have hall := words_list (names_columns columns) he hlist
    have hcols : columnsOf (listWords 3 s) = columns.map ColumnText.column := by
      rw [(oneLine_iff 3 s).mp hone, hall, ← List.flatMap_def, ColumnText.columnsOf_text]
    refine ⟨k :: k' :: ts.headD [] :: listLexemes (columns.map fun c => [c.name, c.typeName]), e,
      ?_, he, ?_⟩
    · rw [hfront hn, hlist]
      rfl
    · rw [hcols]
      exact .createTable hk hk' hn hne

theorem insert_documented {k k' t k'' : List UInt8} {ts : List (List UInt8)}
    (hw : words isSpace s = k :: k' :: t :: k'' :: ts) (hk : Keyword "INSERT" k)
    (hk' : Keyword "INTO" k') (hk'' : Keyword "VALUES" k'') :
    (∃ ls e, lexemesOf s = ls ++ e ∧ LastSemicolon e ∧
        Documented ls (.insert t (listWords 4 s))) ↔
      IsName t ∧ OneLine 4 s ∧ ∃ vs : List (List UInt8), vs ≠ [] ∧ (∀ v ∈ vs, IsName v) ∧
        ∃ e, LastSemicolon e ∧
          lexemesOf (behind isSpace 4 s) = listLexemes (vs.map fun v => [v]) ++ e := by
  have hfront : IsName t →
      lexemesOf s = k :: k' :: t :: k'' :: lexemesOf (behind isSpace 4 s) := by
    intro hn
    have h := lexemes_front (s := s) (k := 4)
    rw [hw] at h
    exact h (by simpa using ⟨hk.isName (by simp [keywords]), hk'.isName (by simp [keywords]), hn,
      hk''.isName (by simp [keywords])⟩)
  have hwords : ∀ {vs : List (List UInt8)} {e : List (List UInt8)}, (∀ v ∈ vs, IsName v) →
      LastSemicolon e → lexemesOf (behind isSpace 4 s) = listLexemes (vs.map fun v => [v]) ++ e →
      words isSeparator (behind isSpace 4 s) = vs := by
    intro vs e hvs he hlist
    rw [words_list (by simpa using hvs) he hlist, ← List.flatMap_def]
    exact List.flatMap_singleton' vs
  constructor
  · rintro ⟨ls, e, hs, he, hdoc⟩
    generalize hvals : listWords 4 s = vs at hdoc
    cases hdoc with
    | insert _ _ hn _ hne hvs =>
      rw [hfront hn] at hs
      obtain ⟨-, hs⟩ := List.cons.inj hs
      obtain ⟨-, hs⟩ := List.cons.inj hs
      obtain ⟨-, hs⟩ := List.cons.inj hs
      obtain ⟨-, hlist⟩ := List.cons.inj hs
      refine ⟨hn, ?_, vs, hne, hvs, e, he, hlist⟩
      rw [oneLine_iff, hvals, hwords hvs he hlist]
  · rintro ⟨hn, hone, vs, hne, hvs, e, he, hlist⟩
    have hvals : listWords 4 s = vs := by
      rw [(oneLine_iff 4 s).mp hone, hwords hvs he hlist]
    refine ⟨k :: k' :: t :: k'' :: listLexemes (vs.map fun v => [v]), e, ?_, he, ?_⟩
    · rw [hfront hn, hlist]
      rfl
    · rw [hvals]
      exact .insert hk hk' hn hk'' hne hvs

/-- The first word is a name with or without its semicolon. -/
theorem strip_of_lexemes {t : List UInt8} {e : List (List UInt8)} (hn : IsName t)
    (he : LastSemicolon e) (hl : lexemesOf s = t :: e) :
    stripSemicolon ((words isSpace s).headD []) = t := by
  have hwords := lexemesOf_words s
  rw [hl] at hwords
  cases hw : words isSpace s with
  | nil =>
    rw [hw] at hwords
    cases hwords
  | cons w ws =>
    have hword : IsWord isSpace w := isWord_of_mem_words (by rw [hw]; exact List.mem_cons_self)
    have hflat := lexemesOf_flatten hword
    rw [hw, List.flatMap_cons] at hwords
    cases hlw : lexemesOf w with
    | nil =>
      rw [hlw] at hflat
      exact absurd hflat.symm hword.ne_nil
    | cons t' e' =>
      rw [hlw] at hwords hflat
      obtain ⟨rfl, hrest⟩ := List.cons.inj hwords
      have hend : Ending e'.flatten := by
        rcases he with rfl | rfl
        · rw [(List.append_eq_nil_iff.mp hrest).1]
          exact .inl rfl
        · rcases List.append_eq_singleton_iff.mp hrest with ⟨h, -⟩ | ⟨h, -⟩
          · rw [h]
            exact .inl rfl
          · rw [h]
            exact .inr rfl
      rw [List.headD_cons, ← hflat]
      exact stripSemicolon_append_ending hn hend

theorem select_documented {k k' : List UInt8} {ts : List (List UInt8)}
    (hw : words isSpace s = k :: str "*" :: k' :: ts) (hk : Keyword "SELECT" k)
    (hk' : Keyword "FROM" k') :
    (∃ ls e, lexemesOf s = ls ++ e ∧ LastSemicolon e ∧
        Documented ls (.select (stripSemicolon (ts.headD [])))) ↔
      ∃ t e, IsName t ∧ LastSemicolon e ∧ lexemesOf (behind isSpace 3 s) = t :: e := by
  have hstar : IsName (str "*") := by decide +kernel
  have hfront : lexemesOf s = k :: str "*" :: k' :: lexemesOf (behind isSpace 3 s) := by
    have h := lexemes_front (s := s) (k := 3)
    rw [hw] at h
    exact h (by
      simpa using ⟨hk.isName (by simp [keywords]), hstar, hk'.isName (by simp [keywords])⟩)
  have hbehind : words isSpace (behind isSpace 3 s) = ts := by
    rw [words_behind, hw]
    rfl
  constructor
  · rintro ⟨ls, e, hs, he, hdoc⟩
    generalize stripSemicolon (ts.headD []) = name at hdoc
    cases hdoc with
    | select _ _ hn =>
      rw [hfront] at hs
      obtain ⟨-, hs⟩ := List.cons.inj hs
      obtain ⟨-, hs⟩ := List.cons.inj hs
      obtain ⟨-, hlast⟩ := List.cons.inj hs
      exact ⟨name, e, hn, he, hlast⟩
  · rintro ⟨t, e, hn, he, hlast⟩
    have hstrip : stripSemicolon (ts.headD []) = t := by
      have h := strip_of_lexemes hn he hlast
      rwa [hbehind] at h
    refine ⟨[k, str "*", k', t], e, ?_, he, ?_⟩
    · rw [hfront, hlast]
      rfl
    · rw [hstrip]
      exact .select hk hk' hn

/-- Accepted statements are documented ones if there is nothing else behind their keywords. -/
theorem acceptedAsDocumented_iff (s : List UInt8) : AcceptedAsDocumented s ↔ NothingElse s := by
  constructor
  · intro h
    constructor
    · intro k k' ts hw hk hk'
      exact (create_documented hw hk hk').mp (h _ (parse_createTable hw hk hk') nofun nofun)
    · intro k k' t k'' ts hw hk hk' hk''
      exact (insert_documented hw hk hk' hk'').mp
        (h _ (parse_insert hw hk hk' hk'') nofun nofun)
    · intro k k' ts hw hk hk'
      exact (select_documented hw hk hk').mp (h _ (parse_select hw hk hk') nofun nofun)
  · intro h stmt hp hcommit hdelete
    rw [parse_eq] at hp
    rcases hw : words isSpace s with _ | ⟨k, ws⟩
    · rw [hw] at hp
      cases hp
    · rw [hw] at hp
      rcases keyword_of_statement hp with hk | hk | hk | hk | hk
      · rw [statementOf_create _ _ hk] at hp
        split_ifs at hp with hk'
        rcases ws with _ | ⟨k', ts⟩
        · exact absurd hk' (by decide +kernel)
        · obtain rfl := Option.some.inj hp
          exact (create_documented hw hk hk').mpr (h.create k k' ts hw hk hk')
      · rw [statementOf_insert _ _ hk] at hp
        rcases ws with _ | ⟨k', _ | ⟨t, _ | ⟨k'', ts⟩⟩⟩
        · cases hp
        · cases hp
        · cases hp
        · simp only at hp
          split_ifs at hp with hks
          obtain rfl := Option.some.inj hp
          exact (insert_documented hw hk hks.1 hks.2).mpr (h.insert k k' t k'' ts hw hk hks.1 hks.2)
      · rw [statementOf_select _ _ hk] at hp
        rcases ws with _ | ⟨star, _ | ⟨k', ts⟩⟩
        · cases hp
        · cases hp
        · simp only at hp
          split_ifs at hp with hks
          obtain ⟨rfl, hk'⟩ := hks
          obtain rfl := Option.some.inj hp
          exact (select_documented hw hk hk').mpr (h.select k k' ts hw hk hk')
      · rw [statementOf_commit _ _ hk] at hp
        exact absurd (Option.some.inj hp).symm hcommit
      · rw [statementOf_delete _ _ hk] at hp
        split_ifs at hp
        exact absurd (Option.some.inj hp).symm (hdelete _ _ _)

/-- A `SELECT` with a condition is taken for one without. -/
theorem condition_dropped :
    parse (str "SELECT * FROM t WHERE x = 1") = some (.select (str "t")) ∧
      ¬ AcceptedAsDocumented (str "SELECT * FROM t WHERE x = 1") := by
  have hp : parse (str "SELECT * FROM t WHERE x = 1") = some (.select (str "t")) := by
    decide +kernel
  refine ⟨hp, fun h => ?_⟩
  obtain ⟨ts, e, hs, he, hdoc⟩ := h _ hp nofun nofun
  have hlen : (lexemesOf (str "SELECT * FROM t WHERE x = 1")).length = 8 := by decide +kernel
  rw [hs, List.length_append] at hlen
  cases hdoc with
  | select hk hk' hn => rcases he with rfl | rfl <;> simp at hlen

end Parser
end PragmaticDB
