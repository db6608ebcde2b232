import PragmaticDB.Lib.Joined
import PragmaticDB.Query.ResultTexts
import PragmaticDB.Network.TcpServer

/-!
The text of a response: lines that end with a newline. It never shows the prompt, and it
determines the result it was made of.
-/
namespace PragmaticDB
open Joined EndMark WordList Executor
namespace TcpServer
variable {r r' : QueryResult}

/-- A C string ends at its first NUL. -/
theorem inputOf_nul (chunk : List UInt8) : 0 ∉ inputOf chunk := by
  intro h
  have hmem : (0 : UInt8) ∈ chunk.takeWhile (· ≠ 0) := (List.rdropWhile_prefix _ _).subset h
  exact absurd (List.mem_takeWhile_imp hmem) (by decide)

/-- The line of a row. -/
def rowLine (row : List (List UInt8)) : List UInt8 := (str " | ").intercalate row

/-- The lines of a response. -/
def responseLines (r : QueryResult) : List (List UInt8) :=
  if r.success then r.rows.map rowLine ++ [r.message] else [str "Error: " ++ r.message]

theorem formatResult_eq (r : QueryResult) : formatResult r = terminated 10 (responseLines r) := by
  have hnewline : str "\n" = [10] := by decide +kernel
  unfold formatResult responseLines terminated rowLine
  rw [hnewline]
  split_ifs
  · rw [List.flatMap_append, List.flatMap_map, List.flatMap_singleton, List.append_assoc]
  · rw [List.flatMap_singleton]

theorem rowLine_line {row : List (List UInt8)} (h : ∀ cell ∈ row, IsCell cell) :
    Line (rowLine row) := by
  have hgap : Line (str " | ") := line_str rfl
  unfold rowLine
  induction row with
  | nil => exact line_of_bytes (List.forall_mem_nil _)
  | cons cell row ih =>
    have hcell := (h cell List.mem_cons_self).line
    have hrest := ih fun c hc => h c (List.mem_cons_of_mem _ hc)
    cases row with
    | nil =>
      rw [List.intercalate_singleton]
      exact hcell
    | cons c row =>
      rw [List.intercalate_cons_cons]
      exact (hcell.append hgap).append hrest

theorem responseLines_line (hr : Shown r) : ∀ l ∈ responseLines r, Line l := by
  have herror : Line (str "Error: ") := line_str rfl
  intro l hl
  unfold responseLines at hl
  split_ifs at hl
  · rcases List.mem_append.mp hl with hl | hl
    · obtain ⟨row, hrow, rfl⟩ := List.mem_map.mp hl
      exact rowLine_line (hr.cells row hrow)
    · rw [List.mem_singleton.mp hl]
      exact hr.message
  · rw [List.mem_singleton.mp hl]
    exact herror.append hr.message

/-- No byte of a response ends it early for a reader of C strings. -/
theorem formatResult_nul (hr : Shown r) : 0 ∉ formatResult r := by
  rw [formatResult_eq]
  intro h
  obtain ⟨l, hl, h⟩ := List.mem_flatMap.mp h
  rcases List.mem_append.mp h with h | h
  · exact (responseLines_line hr l hl).nul h
  · exact absurd (List.mem_singleton.mp h) (by decide)

theorem formatResult_clear (hr : Shown r) : Clear 62 32 (formatResult r) := by
  rw [formatResult_eq]
  unfold terminated
  rw [List.flatMap_def]
  refine Clear.flatten fun t ht => ?_
  obtain ⟨l, hl, rfl⟩ := List.mem_map.mp ht
  exact (responseLines_line hr l hl).prompt.append (clear_of_notMem (by decide))

/-! Different results have different texts. -/

/-- A row begins with a digit, a sign or a lower-case letter. -/
theorem rowLine_head {row : List (List UInt8)} (h : ∀ cell ∈ row, IsCell cell) :
    (rowLine row).head? ≠ some 69 := by
  unfold rowLine
  cases row with
  | nil => simp
  | cons cell row =>
    have hcell := h cell List.mem_cons_self
    obtain ⟨c, cell, rfl⟩ := List.exists_cons_of_ne_nil hcell.ne_nil
    have hc : c ≠ 69 := by
      have hb := hcell.bytes c List.mem_cons_self
      rintro rfl
      exact absurd hb (by decide)
    cases row with
    | nil => simpa using hc
    | cons d row => simpa [List.intercalate_cons_cons] using hc

theorem rowLine_inj {row row' : List (List UInt8)} (h : ∀ cell ∈ row, IsCell cell)
    (h' : ∀ cell ∈ row', IsCell cell) (he : rowLine row = rowLine row') : row = row' := by
  have hgap : str " | " = 32 :: str "| " := by decide +kernel
  have hcells : ∀ {l : List (List UInt8)}, (∀ cell ∈ l, IsCell cell) →
      ∀ cell ∈ l, cell ≠ [] ∧ (32 : UInt8) ∉ cell := by
    intro l hl cell hc
    refine ⟨(hl cell hc).ne_nil, fun h32 => ?_⟩
    exact absurd ((hl cell hc).bytes 32 h32) (by decide)
  unfold rowLine at he
  rw [hgap] at he
  exact intercalate_inj (hcells h) (hcells h') he

theorem rows_inj {rows rows' : List (List (List UInt8))}
    (h : ∀ row ∈ rows, ∀ cell ∈ row, IsCell cell) (h' : ∀ row ∈ rows', ∀ cell ∈ row, IsCell cell)
    (he : rows.map rowLine = rows'.map rowLine) : rows = rows' := by
  induction rows generalizing rows' with
  | nil => exact (List.map_eq_nil_iff.mp he.symm).symm
  | cons row rows ih =>
    obtain ⟨row', rows', rfl, hrow, hrows⟩ := List.map_eq_cons_iff.mp he.symm
    rw [rowLine_inj (h row List.mem_cons_self) (h' row' List.mem_cons_self) hrow.symm,
      ih (fun r hr => h r (List.mem_cons_of_mem _ hr))
        (fun r hr => h' r (List.mem_cons_of_mem _ hr)) hrows.symm]

theorem responseLines_head (hr : Shown r) (hs : r.success = true) :
    ∀ l, (responseLines r).head? = some l → l.head? ≠ some 69 := by
  intro l hl
  unfold responseLines at hl
  rw [if_pos hs] at hl
  cases hrows : r.rows with
  | nil =>
    rw [hrows] at hl
    obtain rfl := Option.some.inj hl
    exact hr.passed hs
  | cons row rows =>
    rw [hrows] at hl
    obtain rfl := Option.some.inj hl
    exact rowLine_head (hr.cells row (hrows ▸ List.mem_cons_self))

/-- The response determines the result. -/
theorem formatResult_inj (hr : Shown r) (hr' : Shown r') (he : formatResult r = formatResult r') :
    r = r' := by
  have hlines : responseLines r = responseLines r' := by
    rw [formatResult_eq, formatResult_eq] at he
    exact terminated_inj (fun l hl => (responseLines_line hr l hl).newline)
      (fun l hl => (responseLines_line hr' l hl).newline) he
  have hmixed : ∀ {a b : QueryResult}, Shown a → a.success = true → b.success = false →
      responseLines a ≠ responseLines b := by
    intro a b ha hsa hsb hab
    have hhead := responseLines_head ha hsa (str "Error: " ++ b.message)
    unfold responseLines at hab hhead
    rw [hab, if_neg (by rw [hsb]; decide)] at hhead
    apply hhead rfl
    rw [List.head?_append_of_ne_nil _ (by decide +kernel)]
    decide +kernel
  cases hs : r.success with
  | true =>
    cases hs' : r'.success with
    | true =>
      unfold responseLines at hlines
      rw [if_pos hs, if_pos hs'] at hlines
      obtain ⟨hrows, hmessage⟩ := List.append_inj' hlines rfl
      obtain ⟨success, message, rows⟩ := r
      obtain ⟨success', message', rows'⟩ := r'
      obtain rfl := rows_inj hr.cells hr'.cells hrows
      obtain rfl := (List.cons.inj hmessage).1
      obtain rfl : success = success' := hs.trans hs'.symm
      rfl
    | false => exact absurd hlines (hmixed hr hs hs')
  | false =>
    cases hs' : r'.success with
    | true => exact absurd hlines.symm (hmixed hr' hs' hs)
    | false =>
      unfold responseLines at hlines
      rw [hs, hs'] at hlines
      obtain ⟨hmessage, -⟩ := List.cons.inj hlines
      obtain ⟨success, message, rows⟩ := r
      obtain ⟨success', message', rows'⟩ := r'
      obtain rfl : rows = [] := hr.failed hs
      obtain rfl : rows' = [] := hr'.failed hs'
      obtain rfl := List.append_cancel_left hmessage
      obtain rfl : success = success' := hs.trans hs'.symm
      rfl

/-- Whatever two statements did, equal responses mean equal results. -/
theorem response_determines {db db' d d' : Database} {chunk chunk' : List UInt8}
    {stmt stmt' : Statement} (hq : db.SavesSpoken) (hq' : db'.SavesSpoken)
    (hp : Parser.parse (inputOf chunk) = some stmt)
    (hp' : Parser.parse (inputOf chunk') = some stmt')
    (hx : execute db stmt = some (.ok r, d)) (hx' : execute db' stmt' = some (.ok r', d'))
    (he : formatResult r = formatResult r') : r = r' :=
  formatResult_inj (execute_shown hq (parse_solid (inputOf_nul chunk) hp) hx)
    (execute_shown hq' (parse_solid (inputOf_nul chunk') hp') hx') he

/-- A row shown twice, once before and once behind a `COMMIT`. -/
theorem response_determines_row : ∃ db db' d d' r r',
    execute db (.select (str "t")) = some (.ok r, d) ∧
    execute db' (.select (str "t")) = some (.ok r', d') ∧
    r.rows = [[str "7", str "true"]] ∧ formatResult r = formatResult r' ∧ r = r' := by
  have hp : Parser.parse (inputOf (str "SELECT * FROM t\n")) = some (.select (str "t")) ∧
      Parser.parse (inputOf (str "select * from t\r\n")) = some (.select (str "t")) := by
    decide +kernel
  have hquiet : ∀ db : Database, db.saves = [] → db.SavesSpoken := by
    intro db hnone what hwhat
    rw [hnone] at hwhat
    cases hwhat
  have heval : ((execute Database.empty (.createTable (str "t") [⟨str "x", .integer⟩,
      ⟨str "b", .boolean⟩])).bind fun x =>
        (execute x.2 (.insert (str "t") [str "7", str "TRUE"])).bind fun y =>
          (execute y.2 (.select (str "t"))).bind fun z => (execute z.2 .commit).bind fun v =>
            (execute v.2 (.select (str "t"))).map fun w =>
              (y.2.saves, v.2.saves, z.1, w.1)) =
      some ([], [], .ok ⟨true, str "1 rows returned.", [[str "7", str "true"]]⟩,
        .ok ⟨true, str "1 rows returned.", [[str "7", str "true"]]⟩) := by
    decide +kernel
  obtain ⟨x, -, heval⟩ := Option.bind_eq_some_iff.mp heval
  obtain ⟨⟨y, db⟩, -, heval⟩ := Option.bind_eq_some_iff.mp heval
  obtain ⟨⟨z, d⟩, hz, heval⟩ := Option.bind_eq_some_iff.mp heval
  obtain ⟨⟨v, db'⟩, -, heval⟩ := Option.bind_eq_some_iff.mp heval
  obtain ⟨⟨w, d'⟩, hw, heval⟩ := Option.map_eq_some_iff.mp heval
  simp only [Prod.mk.injEq] at heval
  obtain ⟨hsaves, hsaves', rfl, rfl⟩ := heval
  exact ⟨db, db', d, d', _, _, hz, hw, rfl, rfl, response_determines (hquiet db hsaves)
    (hquiet db' hsaves') hp.1 hp.2 hz hw rfl⟩

end TcpServer
end PragmaticDB
