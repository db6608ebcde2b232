import PragmaticDB.Lib.Words
import PragmaticDB.Query.Parser

/-!
The parser on the words of its input, and on the statements of the documented grammar.
-/
namespace PragmaticDB
open ByteStream WordList

/-- The words still in a stream. -/
def tokens (ss : InStream) : List (List UInt8) := if ss.good then words isSpace ss.rest else []

theorem extract_eq (ss : InStream) :
    (extract ss).1 = (tokens ss).head? ∧ tokens (extract ss).2 = (tokens ss).tail := by
  obtain ⟨rest, good⟩ := ss
  cases good with
  | false => exact ⟨rfl, rfl⟩
  | true =>
    by_cases hr : rest.dropWhile isSpace = []
    · have hw : tokens ⟨rest, true⟩ = [] := words_eq_nil hr
      rw [hw]
      simp [extract, hr, tokens]
    · have hw : tokens ⟨rest, true⟩ = _ := words_eq_cons hr
      rw [hw]
      by_cases ht : (rest.dropWhile isSpace).dropWhile (fun c => !isSpace c) = [] <;>
        simp [extract, hr, ht, tokens]

theorem extractUpper_length (s : List UInt8) :
    (extractUpper [] (.ofBytes s)).1.length ≤ s.length := by
  have hword : ((extract (.ofBytes s)).1.getD []).length ≤ s.length := by
    by_cases hs : s.dropWhile isSpace = []
    · simp [extract, InStream.ofBytes, hs]
    · simp only [extract, InStream.ofBytes, if_true, hs, if_false, Option.getD_some]
      exact (List.takeWhile_sublist _).length_le.trans (List.dropWhile_sublist _).length_le
  exact (List.length_map _).trans_le hword

namespace Parser

/-- Every statement starts with a word of six letters. -/
theorem parse_short {s : List UInt8} (h : s.length < 6) : parse s = none := by
  have hlen : ∀ k : String, (str k).length = 6 → (extractUpper [] (.ofBytes s)).1 ≠ str k := by
    intro k hk he
    have hle := extractUpper_length s
    rw [he] at hle
    omega
  unfold parse
  simp only [hlen "CREATE" rfl, hlen "INSERT" rfl, hlen "SELECT" rfl, hlen "COMMIT" rfl,
    hlen "DELETE" rfl, if_false]

theorem readValues_eq (fuel : ℕ) (ss : InStream) (h : (tokens ss).length < fuel) :
    readValues fuel ss = tokens ss := by
  induction fuel generalizing ss with
  | zero => omega
  | succ fuel ih =>
    obtain ⟨he, ht⟩ := extract_eq ss
    unfold readValues
    rcases hx : extract ss with ⟨_ | val, ss'⟩
    · rw [hx] at he
      exact (List.head?_eq_none_iff.mp he.symm).symm
    · rw [hx] at he ht
      obtain ⟨ts, hts⟩ := List.head?_eq_some_iff.mp he.symm
      rw [hts] at h ht ⊢
      simp only
      rw [ih ss' (by rw [ht]; simpa using h), ht]
      rfl

/-- The columns that pairs of words name. -/
def columnsOf : List (List UInt8) → List Column
  | name :: type :: ts =>
    ⟨name, if upper type = str "BOOLEAN" then .boolean else .integer⟩ :: columnsOf ts
  | _ => []

theorem readColumns_eq (fuel : ℕ) (ss : InStream) (h : (tokens ss).length < fuel) :
    readColumns fuel ss = columnsOf (tokens ss) := by
  induction fuel generalizing ss with
  | zero => omega
  | succ fuel ih =>
    obtain ⟨he, ht⟩ := extract_eq ss
    unfold readColumns
    rcases hx : extract ss with ⟨_ | name, ss₁⟩
    · rw [hx] at he
      rw [List.head?_eq_none_iff.mp he.symm]
      rfl
    · rw [hx] at he ht
      obtain ⟨ts, hts⟩ := List.head?_eq_some_iff.mp he.symm
      obtain ⟨he₁, ht₁⟩ := extract_eq ss₁
      rw [hts] at h ht ⊢
      rw [ht] at he₁ ht₁
      simp only
      rcases hx₁ : extract ss₁ with ⟨_ | type, ss₂⟩
      · rw [hx₁] at he₁
        rw [List.tail_cons] at he₁
        rw [List.head?_eq_none_iff.mp he₁.symm]
        rfl
      · rw [hx₁] at he₁ ht₁
        obtain ⟨ts₁, hts₁⟩ := List.head?_eq_some_iff.mp he₁.symm
        rw [List.tail_cons] at hts₁ ht₁
        rw [hts₁] at h ht₁ ⊢
        simp only
        rw [ih ss₂ (by rw [ht₁]; simp at h ⊢; omega), ht₁]
        rfl

theorem readValues_ofBytes (s : List UInt8) :
    readValues (s.length + 1) (.ofBytes s) = words isSpace s :=
  readValues_eq _ _ (Nat.lt_succ_of_le (length_words_le s))

theorem readColumns_ofBytes (s : List UInt8) :
    readColumns (s.length + 1) (.ofBytes s) = columnsOf (words isSpace s) :=
  readColumns_eq _ _ (Nat.lt_succ_of_le (length_words_le s))

/-- The condition that the words behind a table name give a `DELETE`. -/
def conditionOf : List (List UInt8) → List UInt8 × List UInt8
  | keyword :: col :: _ :: val :: _ =>
    if upper keyword = str "WHERE" then (col, stripSemicolon val) else ([], [])
  | _ => ([], [])

theorem parseWhere_eq (ss : InStream) : parseWhere ss = conditionOf (tokens ss) := by
  obtain ⟨he, ht⟩ := extract_eq ss
  unfold parseWhere
  rcases hx : extract ss with ⟨_ | keyword, ss₁⟩
  · rw [hx] at he
    rw [List.head?_eq_none_iff.mp he.symm]
    rfl
  · rw [hx] at he ht
    obtain ⟨ts, hts⟩ := List.head?_eq_some_iff.mp he.symm
    obtain ⟨he₁, ht₁⟩ := extract_eq ss₁
    obtain ⟨he₂, ht₂⟩ := extract_eq (extract ss₁).2
    obtain ⟨he₃, -⟩ := extract_eq (extract (extract ss₁).2).2
    rw [hts] at ht ⊢
    rw [ht₂, ht₁, ht] at he₃
    rw [ht₁, ht] at he₂
    rw [ht] at he₁
    simp only [he₁, he₂, he₃, List.tail_cons]
    rcases ts with _ | ⟨col, _ | ⟨eq, _ | ⟨val, ts⟩⟩⟩ <;> simp [conditionOf]

/-- `ss` has `s` still to read. -/
structure Remains (ss : InStream) (s : List UInt8) : Prop where
  rest : ss.rest = s
  ended : ss.good = false → s = []

theorem remains_all (s : List UInt8) : Remains (.ofBytes s) s := ⟨rfl, nofun⟩

namespace Remains
variable {ss : InStream} {s : List UInt8} (h : Remains ss s)
include h

theorem tokens_eq : tokens ss = words isSpace s := by
  unfold tokens
  split_ifs with hg
  · rw [h.rest]
  · rw [h.ended (by simpa using hg), words_nil]

theorem extract : (extract ss).1 = (words isSpace s).head? ∧
    Remains (PragmaticDB.extract ss).2 (behindWord isSpace s) := by
  refine ⟨(extract_eq ss).1.trans (congrArg List.head? h.tokens_eq), ?_⟩
  obtain ⟨rest, good⟩ := ss
  obtain rfl : rest = s := h.rest
  cases good with
  | false =>
    obtain rfl := h.ended rfl
    exact ⟨rfl, fun _ => rfl⟩
  | true =>
    unfold PragmaticDB.extract behindWord
    by_cases hr : rest.dropWhile isSpace = []
    · simp only [if_true, hr, List.dropWhile_nil]
      exact ⟨rfl, fun _ => rfl⟩
    · simp only [if_true, hr, if_false]
      exact ⟨rfl, fun hd => by simpa using hd⟩

theorem extractUpper (old : List UInt8) :
    (extractUpper old ss).1 = upper ((words isSpace s).headD old) ∧
      Remains (PragmaticDB.extractUpper old ss).2 (behindWord isSpace s) := by
  obtain ⟨he, hr⟩ := h.extract
  refine ⟨?_, hr⟩
  rw [List.headD_eq_head?_getD, ← he]
  rfl

theorem getLine : getLine ss = s.takeWhile (· ≠ 10) := by
  unfold PragmaticDB.getLine
  split_ifs with hg
  · rw [h.rest]
  · rw [h.ended (by simpa using hg)]
    rfl

end Remains

/-- The words of the line behind the first `k` words, brackets and commas being blanks. -/
def listWords (k : ℕ) (s : List UInt8) : List (List UInt8) :=
  words isSpace (blankPunctuation ((behind isSpace k s).takeWhile (· ≠ 10)))

section Branches
variable {ss : InStream} {s : List UInt8} (h : Remains ss s)
include h

theorem parseCreate_eq : parseCreate ss =
    if upper ((words isSpace s).headD []) = str "TABLE" then
      some (.createTable ((words isSpace s).tail.headD []) (columnsOf (listWords 2 s)))
    else none := by
  obtain ⟨hk, h₁⟩ := h.extractUpper []
  obtain ⟨hn, h₂⟩ := h₁.extract
  unfold parseCreate
  simp only [hk, hn, h₂.getLine, readColumns_ofBytes, words_behindWord, ite_not]
  rw [List.headD_eq_head?_getD (l := (words isSpace s).tail)]
  rfl

theorem parseInsert_eq : parseInsert ss =
    match words isSpace s with
    | into :: t :: values :: _ =>
      if upper into = str "INTO" ∧ upper values = str "VALUES" then
        some (.insert t (listWords 3 s))
      else none
    | _ => none := by
  obtain ⟨hk, h₁⟩ := h.extractUpper []
  obtain ⟨hn, h₂⟩ := h₁.extract
  obtain ⟨hv, h₃⟩ := h₂.extractUpper (extractUpper [] ss).1
  have hold : upper (str "INTO") ≠ str "VALUES" := by decide +kernel
  have hnil : upper [] ≠ str "INTO" := by decide +kernel
  have hline : words isSpace (blankPunctuation ((behindWord isSpace (behindWord isSpace
      (behindWord isSpace s))).takeWhile (· ≠ 10))) = listWords 3 s := rfl
  unfold parseInsert
  simp only [hv, hn, h₃.getLine, readValues_ofBytes, words_behindWord, hline]
  rw [hk]
  rcases hw : words isSpace s with _ | ⟨into, _ | ⟨t, _ | ⟨values, ts⟩⟩⟩
  · exact if_pos hnil
  · by_cases hi : upper into = str "INTO" <;> simp [hi, hold]
  · by_cases hi : upper into = str "INTO" <;> simp [hi, hold]
  · by_cases hi : upper into = str "INTO" <;> by_cases hv : upper values = str "VALUES" <;>
      simp [hi, hv]

theorem parseSelect_eq : parseSelect ss =
    match words isSpace s with
    | star :: from_ :: ts =>
      if star = str "*" ∧ upper from_ = str "FROM" then
        some (.select (stripSemicolon (ts.headD [])))
      else none
    | _ => none := by
  obtain ⟨hs, h₁⟩ := h.extract
  obtain ⟨hf, h₂⟩ := h₁.extractUpper (str "*")
  obtain ⟨hn, -⟩ := h₂.extract
  have hold : upper (str "*") ≠ str "FROM" := by decide +kernel
  unfold parseSelect
  simp only [hs, hf, hn, words_behindWord]
  rcases hw : words isSpace s with _ | ⟨star, _ | ⟨from_, ts⟩⟩
  · rfl
  · by_cases hstar : star = str "*" <;> simp [hstar, hold]
  · by_cases hstar : star = str "*" <;> by_cases hfrom : upper from_ = str "FROM" <;>
      simp [hstar, hfrom, List.headD_eq_head?_getD]

theorem parseDelete_eq : parseDelete ss =
    if upper ((words isSpace s).headD []) = str "FROM" then
      some (.delete (stripSemicolon ((words isSpace s).tail.headD []))
        (conditionOf (words isSpace s).tail.tail).1 (conditionOf (words isSpace s).tail.tail).2)
    else none := by
  obtain ⟨hk, h₁⟩ := h.extractUpper []
  obtain ⟨hn, h₂⟩ := h₁.extract
  unfold parseDelete
  simp only [hk, hn, parseWhere_eq, h₂.tokens_eq, words_behindWord, ite_not]
  rw [List.headD_eq_head?_getD (l := (words isSpace s).tail)]

end Branches

/-- The statement that words are parsed to; `lists k` are the words of a list behind the first
`k` words. -/
def statementOf (ws : List (List UInt8)) (lists : ℕ → List (List UInt8)) : Option Statement :=
  match ws with
  | [] => none
  | keyword :: ws =>
    if upper keyword = str "CREATE" then
      if upper (ws.headD []) = str "TABLE" then
        some (.createTable (ws.tail.headD []) (columnsOf (lists 3)))
      else none
    else if upper keyword = str "INSERT" then
      match ws with
      | into :: t :: values :: _ =>
        if upper into = str "INTO" ∧ upper values = str "VALUES" then some (.insert t (lists 4))
        else none
      | _ => none
    else if upper keyword = str "SELECT" then
      match ws with
      | star :: from_ :: ts =>
        if star = str "*" ∧ upper from_ = str "FROM" then
          some (.select (stripSemicolon (ts.headD [])))
        else none
      | _ => none
    else if upper keyword = str "COMMIT" then some .commit
    else if upper keyword = str "DELETE" then
      if upper (ws.headD []) = str "FROM" then
        some (.delete (stripSemicolon (ws.tail.headD [])) (conditionOf ws.tail.tail).1
          (conditionOf ws.tail.tail).2)
      else none
    else none

section Kinds
variable {k : List UInt8} (ws : List (List UInt8)) (lists : ℕ → List (List UInt8))

theorem statementOf_create (hk : upper k = str "CREATE") : statementOf (k :: ws) lists =
    if upper (ws.headD []) = str "TABLE" then
      some (.createTable (ws.tail.headD []) (columnsOf (lists 3)))
    else none := if_pos hk

theorem statementOf_insert (hk : upper k = str "INSERT") : statementOf (k :: ws) lists =
    match ws with
    | into :: t :: values :: _ =>
      if upper into = str "INTO" ∧ upper values = str "VALUES" then some (.insert t (lists 4))
      else none
    | _ => none :=
  (if_neg (hk.trans_ne (by decide +kernel))).trans (if_pos hk)

theorem statementOf_select (hk : upper k = str "SELECT") : statementOf (k :: ws) lists =
    match ws with
    | star :: from_ :: ts =>
      if star = str "*" ∧ upper from_ = str "FROM" then
        some (.select (stripSemicolon (ts.headD [])))
      else none
    | _ => none :=
  (if_neg (hk.trans_ne (by decide +kernel))).trans <|
    (if_neg (hk.trans_ne (by decide +kernel))).trans (if_pos hk)

theorem statementOf_commit (hk : upper k = str "COMMIT") :
    statementOf (k :: ws) lists = some .commit :=
  (if_neg (hk.trans_ne (by decide +kernel))).trans <|
    (if_neg (hk.trans_ne (by decide +kernel))).trans <|
      (if_neg (hk.trans_ne (by decide +kernel))).trans (if_pos hk)

theorem statementOf_delete (hk : upper k = str "DELETE") : statementOf (k :: ws) lists =
    if upper (ws.headD []) = str "FROM" then
      some (.delete (stripSemicolon (ws.tail.headD [])) (conditionOf ws.tail.tail).1
        (conditionOf ws.tail.tail).2)
    else none :=
  (if_neg (hk.trans_ne (by decide +kernel))).trans <|
    (if_neg (hk.trans_ne (by decide +kernel))).trans <|
      (if_neg (hk.trans_ne (by decide +kernel))).trans <|
        (if_neg (hk.trans_ne (by decide +kernel))).trans (if_pos hk)

end Kinds

/-- The first words of statements. -/
theorem keyword_of_statement {k : List UInt8} {ws : List (List UInt8)}
    {lists : ℕ → List (List UInt8)} {stmt : Statement}
    (h : statementOf (k :: ws) lists = some stmt) :
    upper k = str "CREATE" ∨ upper k = str "INSERT" ∨ upper k = str "SELECT" ∨
      upper k = str "COMMIT" ∨ upper k = str "DELETE" := by
  by_contra hk
  simp only [not_or] at hk
  obtain ⟨hc, hi, hs, hm, hd⟩ := hk
  unfold statementOf at h
  simp only [hc, hi, hs, hm, hd, if_false] at h
  cases h

/-- The parser sees the words of its input, and the line that a list stands on. -/
theorem parse_eq (s : List UInt8) :
    parse s = statementOf (words isSpace s) fun k => listWords k s := by
  obtain ⟨hk, h⟩ := (remains_all s).extractUpper []
  unfold parse
  simp only [hk, parseCreate_eq h, parseInsert_eq h, parseSelect_eq h, parseDelete_eq h,
    words_behindWord]
  rcases hw : words isSpace s with _ | ⟨keyword, ws⟩
  · have hnil : ∀ k : String, (str k).length = 6 → upper [] ≠ str k := by
      intro k hk he
      rw [← he] at hk
      cases hk
    simp only [List.headD_nil, hnil "CREATE" rfl, hnil "INSERT" rfl, hnil "SELECT" rfl,
      hnil "COMMIT" rfl, hnil "DELETE" rfl, if_false]
    rfl
  · rfl

/-- What a `CREATE TABLE` is parsed to. -/
theorem parse_createTable {sql c t : List UInt8} {ts : List (List UInt8)}
    (hts : tokens (.ofBytes sql) = c :: t :: ts) (hc : upper c = str "CREATE")
    (ht : upper t = str "TABLE") :
    parse sql = some (.createTable (ts.headD []) (columnsOf (listWords 3 sql))) := by
  have hwords : words isSpace sql = c :: t :: ts := hts
  rw [parse_eq, hwords, statementOf_create _ _ hc]
  exact if_pos ht

/-- What an `INSERT INTO` is parsed to. -/
theorem parse_insert {sql i into t v : List UInt8} {ts : List (List UInt8)}
    (hts : tokens (.ofBytes sql) = i :: into :: t :: v :: ts) (hi : upper i = str "INSERT")
    (hto : upper into = str "INTO") (hv : upper v = str "VALUES") :
    parse sql = some (.insert t (listWords 4 sql)) := by
  have hwords : words isSpace sql = i :: into :: t :: v :: ts := hts
  rw [parse_eq, hwords, statementOf_insert _ _ hi]
  exact if_pos ⟨hto, hv⟩

/-- What a `SELECT * FROM` is parsed to. -/
theorem parse_select {sql s f : List UInt8} {ts : List (List UInt8)}
    (hts : tokens (.ofBytes sql) = s :: str "*" :: f :: ts) (hs : upper s = str "SELECT")
    (hf : upper f = str "FROM") :
    parse sql = some (.select (stripSemicolon (ts.headD []))) := by
  have hwords : words isSpace sql = s :: str "*" :: f :: ts := hts
  rw [parse_eq, hwords, statementOf_select _ _ hs]
  exact if_pos ⟨rfl, hf⟩

/-- What a `DELETE FROM` is parsed to. -/
theorem parse_delete {sql d f : List UInt8} {ts : List (List UInt8)}
    (hts : tokens (.ofBytes sql) = d :: f :: ts) (hd : upper d = str "DELETE")
    (hf : upper f = str "FROM") : parse sql = some
      (.delete (stripSemicolon (ts.headD [])) (conditionOf ts.tail).1 (conditionOf ts.tail).2) := by
  have hwords : words isSpace sql = d :: f :: ts := hts
  rw [parse_eq, hwords, statementOf_delete _ _ hd]
  exact if_pos hf

end Parser
end PragmaticDB
