import PragmaticDB.Query.Grammar

/-!
The remainders of a `DELETE FROM` for which the parser gives the condition that is written.
-/
namespace PragmaticDB
open ByteStream WordList

/-- Behind `DELETE FROM` stand a table name and nothing else. A missing name is empty. -/
def BareForm (name : List UInt8) (ts : List (List UInt8)) : Prop :=
  (name = [] ∧ ts = []) ∨ ts = [name] ∨ ts = [name ++ str ";"] ∨ ts = [name, str ";"]

/-- Behind `DELETE FROM` stand a table name and one condition. -/
def WhereForm (name c v : List UInt8) (ts : List (List UInt8)) : Prop :=
  v ≠ [] ∧ ∃ w, Keyword "WHERE" w ∧ (ts = [name, w, c, str "=", v] ∨
    ts = [name, w, c, str "=", v ++ str ";"] ∨ ts = [name, w, c, str "=", v, str ";"])

namespace Parser

/-- The statement for words `ts` behind `DELETE FROM` deletes what is written, and there is no
statement for anything else. -/
structure KeepsCondition (sql : List UInt8) (ts : List (List UInt8)) : Prop where
  bare : ∀ name v, parse sql = some (.delete name [] v) → BareForm name ts
  written : ∀ name c v, c ≠ [] → parse sql = some (.delete name c v) → WhereForm name c v ts
  other : (¬ ∃ name, BareForm name ts) → (¬ ∃ name c v, WhereForm name c v ts) →
    parse sql = none

def EndsStatement (w : List UInt8) : Prop := w.getLast? = some 59

/-- The remainders for which nothing is lost: the table name and at most a semicolon, or a whole
condition with spaces around its `=`. -/
def WellFormed : List (List UInt8) → Prop
  | [] => True
  | [_] => True
  | [name, s] => ¬ EndsStatement name ∧ s = str ";"
  | [name, w, _, eq, v] =>
    ¬ EndsStatement name ∧ Keyword "WHERE" w ∧ eq = str "=" ∧ v ≠ str ";"
  | [name, w, _, eq, v, s] =>
    ¬ EndsStatement name ∧ Keyword "WHERE" w ∧ eq = str "=" ∧ ¬ EndsStatement v ∧ s = str ";"
  | _ => False

theorem stripSemicolon_eq_self {w : List UInt8} :
    stripSemicolon w = w ↔ ¬ EndsStatement w := by
  unfold stripSemicolon EndsStatement
  split_ifs with h
  · have hne : w ≠ [] := by
      rintro rfl
      cases h
    have hlen : w.dropLast.length ≠ w.length := by
      have hpos := List.length_pos_iff.mpr hne
      rw [List.length_dropLast]
      omega
    exact iff_of_false (fun he => hlen (congrArg List.length he)) (not_not_intro h)
  · exact iff_of_true rfl h

/-- A word is its text without the semicolon, or that with the semicolon. -/
theorem stripSemicolon_cases (w : List UInt8) :
    stripSemicolon w = w ∨ w = stripSemicolon w ++ str ";" := by
  unfold stripSemicolon
  split_ifs with h
  · obtain ⟨s, rfl⟩ := List.getLast?_eq_some_iff.mp h
    right
    rw [List.dropLast_concat]
    rfl
  · exact .inl rfl

theorem stripSemicolon_eq_nil {w : List UInt8} (hw : w ≠ []) :
    stripSemicolon w = [] ↔ w = str ";" := by
  rcases stripSemicolon_cases w with h | h
  · rw [h]
    refine iff_of_false hw ?_
    rintro rfl
    exact stripSemicolon_eq_self.mp h rfl
  · constructor
    · intro he
      rwa [he, List.nil_append] at h
    · rintro rfl
      rfl

theorem str_semicolon_eq_append {v : List UInt8} (h : str ";" = v ++ str ";") : v = [] := by
  have hlen := congrArg List.length h
  rw [List.length_append] at hlen
  exact List.length_eq_zero_iff.mp (by omega)

/-- The parsed statement, when there is a whole condition. -/
theorem conditionOf_written {w c eq v : List UInt8} {ts : List (List UInt8)}
    (hw : Keyword "WHERE" w) : conditionOf (w :: c :: eq :: v :: ts) = (c, stripSemicolon v) :=
  if_pos hw

variable {sql d f : List UInt8} {ts : List (List UInt8)}

theorem wellFormed_of_bare {name : List UInt8} (h : BareForm name ts)
    (hn : stripSemicolon (ts.headD []) = name) : WellFormed ts := by
  rcases h with ⟨-, rfl⟩ | rfl | rfl | rfl
  · trivial
  · trivial
  · trivial
  · exact ⟨stripSemicolon_eq_self.mp hn, rfl⟩

theorem wellFormed_of_where {name c v : List UInt8} (h : WhereForm name c v ts)
    (hn : stripSemicolon (ts.headD []) = name) (hc : conditionOf ts.tail = (c, v)) :
    WellFormed ts := by
  obtain ⟨hv, w, hw, rfl | rfl | rfl⟩ := h
  · have hs : stripSemicolon v = v := congrArg Prod.snd ((conditionOf_written hw).symm.trans hc)
    refine ⟨stripSemicolon_eq_self.mp hn, hw, rfl, ?_⟩
    rintro rfl
    exact stripSemicolon_eq_self.mp hs rfl
  · refine ⟨stripSemicolon_eq_self.mp hn, hw, rfl, fun he => hv ?_⟩
    exact str_semicolon_eq_append he.symm
  · have hs : stripSemicolon v = v := congrArg Prod.snd ((conditionOf_written hw).symm.trans hc)
    exact ⟨stripSemicolon_eq_self.mp hn, hw, rfl, stripSemicolon_eq_self.mp hs, rfl⟩

theorem bareForm_single (t : List UInt8) : BareForm (stripSemicolon t) [t] := by
  rcases stripSemicolon_cases t with h | h
  · exact .inr (.inl (by rw [h]))
  · exact .inr (.inr (.inl (congrArg (fun x => [x]) h)))

theorem whereForm_last {name w c v : List UInt8} (hw : Keyword "WHERE" w) (hv : v ≠ [])
    (hs : v ≠ str ";") : WhereForm name c (stripSemicolon v) [name, w, c, str "=", v] := by
  refine ⟨fun he => hs ((stripSemicolon_eq_nil hv).mp he), w, hw, ?_⟩
  rcases stripSemicolon_cases v with h | h
  · exact .inl (by rw [h])
  · exact .inr (.inl (congrArg (fun x => [name, w, c, str "=", x]) h))

/-- For a well-formed remainder the parsed statement is the written one. -/
theorem form_of_wellFormed (hwords : ∀ w ∈ ts, w ≠ []) (hwf : WellFormed ts) :
    (conditionOf ts.tail = ([], []) ∧ BareForm (stripSemicolon (ts.headD [])) ts) ∨
      ((conditionOf ts.tail).1 ≠ [] ∧ WhereForm (stripSemicolon (ts.headD []))
        (conditionOf ts.tail).1 (conditionOf ts.tail).2 ts) := by
  match ts with
  | [] => exact .inl ⟨rfl, .inl ⟨rfl, rfl⟩⟩
  | [t] => exact .inl ⟨rfl, bareForm_single t⟩
  | [t, s] =>
    obtain ⟨ht, rfl⟩ := hwf
    refine .inl ⟨rfl, ?_⟩
    rw [List.headD_cons, stripSemicolon_eq_self.mpr ht]
    exact .inr (.inr (.inr rfl))
  | [t, w, c, eq, v] =>
    obtain ⟨ht, hw, rfl, hs⟩ := hwf
    rw [List.tail_cons, conditionOf_written hw, List.headD_cons, stripSemicolon_eq_self.mpr ht]
    exact .inr ⟨hwords c (by simp), whereForm_last hw (hwords v (by simp)) hs⟩
  | [t, w, c, eq, v, s] =>
    obtain ⟨ht, hw, rfl, hv, rfl⟩ := hwf
    rw [List.tail_cons, conditionOf_written hw, List.headD_cons, stripSemicolon_eq_self.mpr ht,
      stripSemicolon_eq_self.mpr hv]
    exact .inr ⟨hwords c (by simp), hwords v (by simp), w, hw, .inr (.inr rfl)⟩
  | [_, _, _] => exact hwf.elim
  | [_, _, _, _] => exact hwf.elim
  | _ :: _ :: _ :: _ :: _ :: _ :: _ :: _ => exact hwf.elim

/-- The parser keeps the condition of just the well-formed remainders. -/
theorem keepsCondition_iff_wellFormed (hts : tokens (.ofBytes sql) = d :: f :: ts)
    (hd : Keyword "DELETE" d) (hf : Keyword "FROM" f) :
    KeepsCondition sql ts ↔ WellFormed ts := by
  have hp := parse_delete hts hd hf
  have hwords : ∀ w ∈ ts, w ≠ [] := by
    intro w hw
    have hmem : w ∈ words isSpace sql := by
      change w ∈ tokens (.ofBytes sql)
      rw [hts]
      simp [hw]
    exact ne_nil_of_mem_words hmem
  constructor
  · intro h
    by_cases hc : (conditionOf ts.tail).1 = []
    · rw [hc] at hp
      exact wellFormed_of_bare (h.bare _ _ hp) rfl
    · exact wellFormed_of_where (h.written _ _ _ hc hp) rfl rfl
  · intro hwf
    rcases form_of_wellFormed hwords hwf with ⟨hc, hb⟩ | ⟨hne, hw⟩
    · rw [hc] at hp
      constructor
      · intro name v h
        cases hp.symm.trans h
        exact hb
      · intro name c v hne h
        cases hp.symm.trans h
        exact absurd rfl hne
      · exact fun h _ => absurd ⟨_, hb⟩ h
    · generalize (conditionOf ts.tail).1 = c, (conditionOf ts.tail).2 = v at hp hne hw
      constructor
      · intro name v' h
        cases hp.symm.trans h
        exact absurd rfl hne
      · intro name c' v' _ h
        cases hp.symm.trans h
        exact hw
      · exact fun _ h => absurd ⟨_, _, _, hw⟩ h

theorem spaced_condition_kept : KeepsCondition (str "DELETE FROM t WHERE id = 7;")
    [str "t", str "WHERE", str "id", str "=", str "7;"] := by
  have hwf : ¬ EndsStatement (str "t") ∧ Keyword "WHERE" (str "WHERE") ∧ str "=" = str "=" ∧
      str "7;" ≠ str ";" := by
    unfold EndsStatement Keyword
    decide +kernel
  exact (keepsCondition_iff_wellFormed (d := str "DELETE") (f := str "FROM") (by decide +kernel)
    (by unfold Keyword; decide +kernel) (by unfold Keyword; decide +kernel)).mpr hwf

/-- Without the spaces around `=` every row is deleted. -/
theorem unspaced_condition_lost :
    tokens (.ofBytes (str "DELETE FROM t WHERE id=7;")) =
        [str "DELETE", str "FROM", str "t", str "WHERE", str "id=7;"] ∧
      parse (str "DELETE FROM t WHERE id=7;") = some (.delete (str "t") [] []) ∧
      ¬ KeepsCondition (str "DELETE FROM t WHERE id=7;") [str "t", str "WHERE", str "id=7;"] := by
  have hp : parse (str "DELETE FROM t WHERE id=7;") = some (.delete (str "t") [] []) := by
    decide +kernel
  refine ⟨by decide +kernel, hp, fun h => ?_⟩
  rcases h.bare _ _ hp with ⟨h, -⟩ | h | h | h
  · revert h
    decide +kernel
  · cases h
  · cases h
  · cases h

end Parser
end PragmaticDB
