import PragmaticDB.Query.ParserWords

/-!
The documented statements, one to a line, and what the parser makes of them.
-/
namespace PragmaticDB
open ByteStream WordList

/-- Blanks, brackets, commas and semicolons. -/
def isSeparator (c : UInt8) : Bool := isSpace c || c == 40 || c == 41 || c == 44 || c == 59

/-- Names and values. -/
abbrev IsName (w : List UInt8) : Prop := IsWord isSeparator w

/-- `w` is the keyword `k` in any letter case. -/
def Keyword (k : String) (w : List UInt8) : Prop := upper w = str k

/-- The names of the column types, in any letter case. -/
inductive TypeName : List UInt8 → TypeId → Prop where
  | integer {w : List UInt8} : Keyword "INTEGER" w → TypeName w .integer
  | boolean {w : List UInt8} : Keyword "BOOLEAN" w → TypeName w .boolean

/-- A column of a `CREATE TABLE` as it is written. -/
structure ColumnText where
  name : List UInt8
  typeName : List UInt8
  typeId : TypeId
  isName : IsName name
  isType : TypeName typeName typeId

def ColumnText.text (c : ColumnText) : List UInt8 := c.name ++ str " " ++ c.typeName

def ColumnText.column (c : ColumnText) : Column := ⟨c.name, c.typeId⟩

/-- In brackets, with commas between. -/
def bracketed (items : List (List UInt8)) : List UInt8 :=
  str "(" ++ (str ", ").intercalate items ++ str ")"

/-- The statements and their texts. -/
inductive Spells : List UInt8 → Statement → Prop where
  | createTable {create table t : List UInt8} (columns : List ColumnText) :
      Keyword "CREATE" create → Keyword "TABLE" table → IsName t →
      Spells (create ++ str " " ++ table ++ str " " ++ t ++ str " " ++
        bracketed (columns.map ColumnText.text))
        (.createTable t (columns.map ColumnText.column))
  | insert {insert into t values : List UInt8} {vs : List (List UInt8)} :
      Keyword "INSERT" insert → Keyword "INTO" into → IsName t → Keyword "VALUES" values →
      (∀ v ∈ vs, IsName v) →
      Spells (insert ++ str " " ++ into ++ str " " ++ t ++ str " " ++ values ++ str " " ++
        bracketed vs) (.insert t vs)
  | select {select from_ t : List UInt8} :
      Keyword "SELECT" select → Keyword "FROM" from_ → IsName t →
      Spells (select ++ str " * " ++ from_ ++ str " " ++ t) (.select t)
  | deleteAll {delete from_ t : List UInt8} :
      Keyword "DELETE" delete → Keyword "FROM" from_ → IsName t →
      Spells (delete ++ str " " ++ from_ ++ str " " ++ t) (.delete t [] [])
  | deleteWhere {delete from_ t where_ c v : List UInt8} :
      Keyword "DELETE" delete → Keyword "FROM" from_ → IsName t → Keyword "WHERE" where_ →
      IsName c → IsName v →
      Spells (delete ++ str " " ++ from_ ++ str " " ++ t ++ str " " ++ where_ ++ str " " ++ c ++
        str " = " ++ v) (.delete t c v)

/-- The end of a statement: a semicolon, or nothing. -/
def Ending (e : List UInt8) : Prop := e = [] ∨ e = str ";"

theorem isSeparator_toUpper (c : UInt8) : isSeparator (toUpper c) = isSeparator c := by
  unfold toUpper isSeparator isSpace
  split_ifs with h
  · grind
  · rfl

theorem isSpace_eq_false {c : UInt8} (h : isSeparator c = false) : isSpace c = false := by
  simp only [isSeparator, Bool.or_eq_false_iff] at h
  exact h.1.1.1.1

theorem isWord_isSpace {w : List UInt8} (h : IsName w) : IsWord isSpace w :=
  ⟨h.ne_nil, fun c hc => isSpace_eq_false (h.solid c hc)⟩

/-- The words of the grammar itself. -/
def keywords : List String :=
  ["CREATE", "TABLE", "INTEGER", "BOOLEAN", "INSERT", "INTO", "VALUES", "SELECT", "FROM",
    "DELETE", "WHERE"]

theorem isName_keywords : ∀ k ∈ keywords, IsName (str k) := by decide +kernel

theorem Keyword.isName {k : String} {w : List UInt8} (h : Keyword k w) (hk : k ∈ keywords) :
    IsName w where
  ne_nil := by
    rintro rfl
    exact (isName_keywords k hk).ne_nil h.symm
  solid c hc := by
    have hu : toUpper c ∈ str k := h ▸ List.mem_map_of_mem hc
    rw [← isSeparator_toUpper]
    exact (isName_keywords k hk).solid _ hu

theorem TypeName.isName {w : List UInt8} {t : TypeId} (h : TypeName w t) : IsName w := by
  cases h with
  | integer h => exact h.isName (by simp [keywords])
  | boolean h => exact h.isName (by simp [keywords])

/-- A name with the end of the statement right behind it is one word. -/
theorem isWord_append_ending {w e : List UInt8} (hw : IsName w) (he : Ending e) :
    IsWord isSpace (w ++ e) where
  ne_nil := by simp [hw.ne_nil]
  solid c hc := by
    rcases List.mem_append.mp hc with h | h
    · exact isSpace_eq_false (hw.solid c h)
    · rcases he with rfl | rfl
      · cases h
      · rw [List.mem_singleton.mp h]
        rfl

theorem stripSemicolon_append_ending {w e : List UInt8} (hw : IsName w) (he : Ending e) :
    stripSemicolon (w ++ e) = w := by
  unfold stripSemicolon
  rcases he with rfl | rfl
  · rw [List.append_nil, if_neg]
    intro hl
    have hsep := hw.solid 59 (List.mem_of_getLast? hl)
    exact absurd hsep (by decide)
  · rw [show str ";" = [59] from rfl, List.getLast?_concat, if_pos rfl, List.dropLast_concat]

theorem tokens_word {w : List UInt8} (hw : IsWord isSpace w) (s : List UInt8) :
    tokens (.ofBytes (w ++ (str " " ++ s))) = w :: tokens (.ofBytes s) := by
  change words isSpace (w ++ 32 :: s) = w :: words isSpace s
  rw [words_append_cons _ _ (by decide), hw.words_eq]
  rfl

theorem tokens_last {w : List UInt8} (hw : IsWord isSpace w) : tokens (.ofBytes w) = [w] :=
  hw.words_eq

/-- What remains of a line once its punctuation is blanked out. -/
theorem words_blankPunctuation (s : List UInt8) :
    words isSpace (blankPunctuation s) = words isSeparator s := by
  let blankOut (c : UInt8) : UInt8 := if c = 40 ∨ c = 41 ∨ c = 44 ∨ c = 59 then 32 else c
  have hb (c : UInt8) : isSpace (blankOut c) = isSeparator c := by
    unfold isSeparator
    by_cases hp : c = 40 ∨ c = 41 ∨ c = 44 ∨ c = 59
    · rw [show blankOut c = 32 from if_pos hp]
      rcases hp with rfl | rfl | rfl | rfl <;> rfl
    · rw [show blankOut c = c from if_neg hp]
      grind
  have hf (c : UInt8) (hc : isSeparator c = false) : blankOut c = c := by
    simp only [isSeparator, Bool.or_eq_false_iff, beq_eq_false_iff_ne] at hc
    exact if_neg (by tauto)
  exact words_map hb hf s

/-- The words of a list are those between separators on its line. -/
theorem Parser.listWords_eq (k : ℕ) (s : List UInt8) : listWords k s =
    words isSeparator ((behind isSpace k s).takeWhile (· ≠ 10)) := words_blankPunctuation _

theorem words_bracketed (items : List (List UInt8)) {e : List UInt8} (he : Ending e) :
    words isSeparator (str " " ++ (bracketed items ++ e)) = items.flatMap (words isSeparator) := by
  have hend : ∀ c ∈ str ")" ++ e, isSeparator c := by
    rcases he with rfl | rfl <;> decide +kernel
  have hopen : ∀ c ∈ str " (", isSeparator c := by decide +kernel
  have hshape : str " " ++ (bracketed items ++ e) =
      str " (" ++ ((str ", ").intercalate items ++ (str ")" ++ e) ++ []) := by
    unfold bracketed
    simp only [List.append_assoc, List.append_nil]
    rfl
  rw [hshape, words_gap hopen, words_append_gap _ (by simp [str]) hend, words_nil, List.append_nil,
    words_intercalate (by decide +kernel) (by decide +kernel)]

theorem newline_bracketed {items : List (List UInt8)} (h : ∀ w ∈ items, 10 ∉ w) :
    10 ∉ bracketed items := by
  have hcomma : 10 ∉ str ", " := by simp [str]
  have hin : 10 ∉ (str ", ").intercalate items := by
    induction items with
    | nil => nofun
    | cons w items ih =>
      have ih := ih fun v hv => h v (by simp [hv])
      have hw := h w (by simp)
      cases items with
      | nil => rwa [List.intercalate_singleton]
      | cons v items =>
        rw [List.intercalate_cons_cons]
        simp only [List.mem_append, hw, hcomma, ih, or_self, not_false_eq_true]
  have hopen : 10 ∉ str "(" := by simp [str]
  have hclose : 10 ∉ str ")" := by simp [str]
  unfold bracketed
  simp only [List.mem_append, hopen, hin, hclose, or_self, not_false_eq_true]

theorem newline_name {w : List UInt8} (hw : IsName w) : 10 ∉ w := fun hc =>
  absurd (hw.solid 10 hc) (by decide)

/-- A list is on one line. -/
theorem line_words {items : List (List UInt8)} (h : ∀ w ∈ items, 10 ∉ w) {e : List UInt8}
    (he : Ending e) :
    words isSeparator ((str " " ++ (bracketed items ++ e)).takeWhile (· ≠ 10)) =
      items.flatMap (words isSeparator) := by
  have hspace : 10 ∉ str " " := by simp [str]
  have hend : 10 ∉ e := by
    rcases he with rfl | rfl
    · nofun
    · decide +kernel
  have hline : 10 ∉ str " " ++ (bracketed items ++ e) := by
    simp only [List.mem_append, hspace, newline_bracketed h, hend, or_self, not_false_eq_true]
  have hall : (str " " ++ (bracketed items ++ e)).takeWhile (· ≠ 10) =
      str " " ++ (bracketed items ++ e) := by
    simp only [List.takeWhile_eq_self_iff, decide_eq_true_eq]
    exact fun c hc => ne_of_mem_of_not_mem hc hline
  rw [hall, words_bracketed items he]

namespace ColumnText
variable (c : ColumnText)

theorem words_text : words isSeparator c.text = [c.name, c.typeName] := by
  change words isSeparator (c.name ++ str " " ++ c.typeName) = _
  rw [words_append_gap _ (by decide +kernel) (by decide +kernel), c.isName.words_eq,
    c.isType.isName.words_eq]
  rfl

theorem newline_text : 10 ∉ c.text := by
  have hspace : 10 ∉ str " " := by simp [str]
  unfold text
  simp only [List.mem_append, newline_name c.isName, hspace, newline_name c.isType.isName,
    or_self, not_false_eq_true]

theorem columnsOf_text (cs : List ColumnText) :
    Parser.columnsOf (cs.flatMap fun c => [c.name, c.typeName]) = cs.map column := by
  induction cs with
  | nil => rfl
  | cons c cs ih =>
    have htype : (if upper c.typeName = str "BOOLEAN" then TypeId.boolean else .integer) =
        c.typeId := by
      have hne : str "INTEGER" ≠ str "BOOLEAN" := by simp [str]
      obtain ⟨name, w, t, hn, ht⟩ := c
      cases ht with
      | integer h => exact if_neg (h.trans_ne hne)
      | boolean h => exact if_pos h
    simp only [List.flatMap_cons, List.cons_append, List.nil_append, Parser.columnsOf,
      List.map_cons, ih, htype, column]

end ColumnText

namespace Parser

theorem behind_word {w : List UInt8} (hw : IsName w) (k : ℕ) (s : List UInt8) :
    behind isSpace (k + 1) (w ++ (str " " ++ s)) = behind isSpace k (str " " ++ s) :=
  congrArg (behind isSpace k) ((isWord_isSpace hw).behindWord_append (by decide) s)

theorem behind_space (k : ℕ) (s : List UInt8) :
    behind isSpace (k + 1) (str " " ++ s) = behind isSpace (k + 1) s :=
  congrArg (behind isSpace k) (behindWord_cons (by decide) s)

theorem spelled_createTable {create table t e : List UInt8} (columns : List ColumnText)
    (hc : Keyword "CREATE" create) (ht : Keyword "TABLE" table) (hn : IsName t)
    (he : Ending e) :
    parse (create ++ (str " " ++ (table ++ (str " " ++ (t ++ (str " " ++
      (bracketed (columns.map ColumnText.text) ++ e))))))) =
      some (.createTable t (columns.map ColumnText.column)) := by
  have hnc := hc.isName (by simp [keywords])
  have hnt := ht.isName (by simp [keywords])
  have hnewline : ∀ w ∈ columns.map ColumnText.text, 10 ∉ w := by
    simpa using fun c _ => c.newline_text
  generalize hlist : bracketed (columns.map ColumnText.text) ++ e = list
  have hts : tokens (.ofBytes (create ++ (str " " ++ (table ++ (str " " ++ (t ++ (str " " ++
      list))))))) = create :: table :: t :: tokens (.ofBytes list) := by
    rw [tokens_word (isWord_isSpace hnc), tokens_word (isWord_isSpace hnt),
      tokens_word (isWord_isSpace hn)]
  have hwords : listWords 3 (create ++ (str " " ++ (table ++ (str " " ++ (t ++ (str " " ++
      list)))))) = columns.flatMap fun c => [c.name, c.typeName] := by
    rw [listWords_eq, behind_word hnc, behind_space, behind_word hnt, behind_space,
      behind_word hn, ← hlist]
    refine (line_words hnewline he).trans ?_
    rw [List.flatMap_map]
    simp only [ColumnText.words_text]
  rw [parse_createTable hts hc ht, List.headD_cons, hwords, ColumnText.columnsOf_text]

theorem spelled_insert {insert into t values e : List UInt8} {vs : List (List UInt8)}
    (hi : Keyword "INSERT" insert) (hto : Keyword "INTO" into) (hn : IsName t)
    (hv : Keyword "VALUES" values) (hvs : ∀ v ∈ vs, IsName v) (he : Ending e) :
    parse (insert ++ (str " " ++ (into ++ (str " " ++ (t ++ (str " " ++ (values ++ (str " " ++
      (bracketed vs ++ e))))))))) = some (.insert t vs) := by
  have hni := hi.isName (by simp [keywords])
  have hnto := hto.isName (by simp [keywords])
  have hnv := hv.isName (by simp [keywords])
  have hline := line_words (fun v hv => newline_name (hvs v hv)) he
  have hvalues : vs.flatMap (words isSeparator) = vs := by
    clear hline
    induction vs with
    | nil => rfl
    | cons v vs ih =>
      rw [List.flatMap_cons, (hvs v (by simp)).words_eq, ih fun w hw => hvs w (by simp [hw])]
      rfl
  generalize bracketed vs ++ e = list at hline ⊢
  have hts : tokens (.ofBytes (insert ++ (str " " ++ (into ++ (str " " ++ (t ++ (str " " ++
      (values ++ (str " " ++ list))))))))) =
      insert :: into :: t :: values :: tokens (.ofBytes list) := by
    rw [tokens_word (isWord_isSpace hni), tokens_word (isWord_isSpace hnto),
      tokens_word (isWord_isSpace hn), tokens_word (isWord_isSpace hnv)]
  have hwords : listWords 4 (insert ++ (str " " ++ (into ++ (str " " ++ (t ++ (str " " ++
      (values ++ (str " " ++ list)))))))) = vs := by
    rw [listWords_eq, behind_word hni, behind_space, behind_word hnto, behind_space,
      behind_word hn, behind_space, behind_word hnv]
    exact hline.trans hvalues
  rw [parse_insert hts hi hto hv, hwords]

theorem spelled_select {select from_ t e : List UInt8} (hs : Keyword "SELECT" select)
    (hf : Keyword "FROM" from_) (hn : IsName t) (he : Ending e) :
    parse (select ++ (str " * " ++ (from_ ++ (str " " ++ (t ++ e))))) = some (.select t) := by
  have hts : tokens (.ofBytes (select ++ (str " * " ++ (from_ ++ (str " " ++ (t ++ e)))))) =
      [select, str "*", from_, t ++ e] := by
    change tokens (.ofBytes (select ++ (str " " ++ (str "*" ++ (str " " ++ _))))) = _
    rw [tokens_word (isWord_isSpace (hs.isName (by simp [keywords]))),
      tokens_word (by decide +kernel),
      tokens_word (isWord_isSpace (hf.isName (by simp [keywords]))),
      tokens_last (isWord_append_ending hn he)]
  rw [parse_select hts hs hf, List.headD_cons, stripSemicolon_append_ending hn he]

theorem spelled_deleteAll {delete from_ t e : List UInt8} (hd : Keyword "DELETE" delete)
    (hf : Keyword "FROM" from_) (hn : IsName t) (he : Ending e) :
    parse (delete ++ (str " " ++ (from_ ++ (str " " ++ (t ++ e))))) =
      some (.delete t [] []) := by
  have hts : tokens (.ofBytes (delete ++ (str " " ++ (from_ ++ (str " " ++ (t ++ e)))))) =
      [delete, from_, t ++ e] := by
    rw [tokens_word (isWord_isSpace (hd.isName (by simp [keywords]))),
      tokens_word (isWord_isSpace (hf.isName (by simp [keywords]))),
      tokens_last (isWord_append_ending hn he)]
  rw [parse_delete hts hd hf, List.headD_cons, stripSemicolon_append_ending hn he]
  rfl

theorem spelled_deleteWhere {delete from_ t where_ c v e : List UInt8}
    (hd : Keyword "DELETE" delete) (hf : Keyword "FROM" from_) (hn : IsName t)
    (hw : Keyword "WHERE" where_) (hc : IsName c) (hv : IsName v) (he : Ending e) :
    parse (delete ++ (str " " ++ (from_ ++ (str " " ++ (t ++ (str " " ++ (where_ ++ (str " " ++
      (c ++ (str " = " ++ (v ++ e))))))))))) = some (.delete t c v) := by
  have hts : tokens (.ofBytes (delete ++ (str " " ++ (from_ ++ (str " " ++ (t ++ (str " " ++
      (where_ ++ (str " " ++ (c ++ (str " = " ++ (v ++ e)))))))))))) =
      [delete, from_, t, where_, c, str "=", v ++ e] := by
    rw [tokens_word (isWord_isSpace (hd.isName (by simp [keywords]))),
      tokens_word (isWord_isSpace (hf.isName (by simp [keywords]))),
      tokens_word (isWord_isSpace hn),
      tokens_word (isWord_isSpace (hw.isName (by simp [keywords])))]
    change _ :: _ :: _ :: _ :: tokens (.ofBytes (c ++ (str " " ++ (str "=" ++ (str " " ++ _))))) = _
    rw [tokens_word (isWord_isSpace hc), tokens_word (by decide +kernel),
      tokens_last (isWord_append_ending hv he)]
  have ht : stripSemicolon t = t := by
    have h := stripSemicolon_append_ending hn (.inl rfl)
    rwa [List.append_nil] at h
  have hcond : conditionOf [where_, c, str "=", v ++ e] = (c, v) :=
    (if_pos hw).trans (by rw [stripSemicolon_append_ending hv he])
  rw [parse_delete hts hd hf, List.headD_cons, ht, List.tail_cons, hcond]

/-- Every documented statement is parsed to what it says. -/
theorem parse_spelled {sql e : List UInt8} {stmt : Statement} (h : Spells sql stmt)
    (he : Ending e) : parse (sql ++ e) = some stmt := by
  cases h with
  | createTable columns hc ht hn =>
    simpa only [List.append_assoc] using spelled_createTable columns hc ht hn he
  | insert hi hto hn hv hvs =>
    simpa only [List.append_assoc] using spelled_insert hi hto hn hv hvs he
  | select hs hf hn => simpa only [List.append_assoc] using spelled_select hs hf hn he
  | deleteAll hd hf hn => simpa only [List.append_assoc] using spelled_deleteAll hd hf hn he
  | deleteWhere hd hf hn hw hc hv =>
    simpa only [List.append_assoc] using spelled_deleteWhere hd hf hn hw hc hv he

theorem mixed_case_delete_parsed :
    parse (str "Delete From users where id = 7;") =
      some (.delete (str "users") (str "id") (str "7")) := by
  have hwords : (upper (str "Delete") = str "DELETE" ∧ upper (str "From") = str "FROM" ∧
      upper (str "where") = str "WHERE") ∧ IsName (str "users") ∧ IsName (str "id") ∧
      IsName (str "7") := by decide +kernel
  obtain ⟨⟨hd, hf, hw⟩, ht, hc, hv⟩ := hwords
  have htext : str "Delete From users where id = 7;" = str "Delete" ++ str " " ++ str "From" ++
      str " " ++ str "users" ++ str " " ++ str "where" ++ str " " ++ str "id" ++ str " = " ++
      str "7" ++ str ";" := by decide +kernel
  rw [htext]
  exact parse_spelled (.deleteWhere hd hf ht hw hc hv) (.inr rfl)

end Parser
end PragmaticDB
