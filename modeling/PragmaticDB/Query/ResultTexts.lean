import PragmaticDB.Lib.EndMark
import PragmaticDB.Query.Executor
import PragmaticDB.Query.ParserWords
import PragmaticDB.Query.Literals
import PragmaticDB.Lib.Throwing

/-!
What the texts of results look like. Messages stand on one line and never show the prompt, as the
names they quote are words; cells are numbers and `true` or `false`.
-/
namespace PragmaticDB
open ByteStream WordList Throwing Executor EndMark

/-- Bytes a statement can have between blanks. -/
def Solid (w : List UInt8) : Prop := ∀ c ∈ w, c ≠ 0 ∧ isSpace c = false

/-- A text on one line. No prompt shows in it or begins at its end. -/
structure Line (t : List UInt8) : Prop where
  nul : 0 ∉ t
  newline : 10 ∉ t
  prompt : Clear 62 32 t

/-- The texts of values. -/
structure IsCell (t : List UInt8) : Prop where
  ne_nil : t ≠ []
  bytes : ∀ c ∈ t, c = 45 ∨ 48 ≤ c ∧ c ≤ 57 ∨ 97 ≤ c ∧ c ≤ 122

def Exn.Spoken (e : Exn) : Prop := ∀ what, e.caught = some what → Line what

section Lines
variable {s t : List UInt8}

theorem line_of_bytes (h : ∀ c ∈ t, c ≠ 0 ∧ c ≠ 10 ∧ c ≠ 62) : Line t where
  nul h0 := (h _ h0).1 rfl
  newline h0 := (h _ h0).2.1 rfl
  prompt := clear_of_notMem fun h0 => (h _ h0).2.2 rfl

theorem Line.append (hs : Line s) (ht : Line t) : Line (s ++ t) where
  nul h := (List.mem_append.mp h).elim hs.nul ht.nul
  newline h := (List.mem_append.mp h).elim hs.newline ht.newline
  prompt := hs.prompt.append ht.prompt

/-- Printable, and not the `>` of the prompt. -/
def printable (c : Char) : Bool := Nat.ble 32 c.toNat && Nat.blt c.toNat 127 && c.toNat != 62

theorem line_str {l : List Char} (h : l.all printable = true) : Line (str (String.ofList l)) := by
  apply line_of_bytes
  unfold str
  rw [String.toList_ofList]
  intro c hc
  obtain ⟨d, hd, rfl⟩ := List.mem_map.mp hc
  have hp := List.all_eq_true.mp h d hd
  simp only [printable, Bool.and_eq_true, Nat.ble_eq, Nat.blt_eq, bne_iff_ne] at hp
  obtain ⟨⟨hlo, hhi⟩, hne⟩ := hp
  have hsame : d.toNat.toUInt8.toNat = d.toNat := by
    simp only [Nat.toUInt8, UInt8.toNat_ofNat']
    omega
  refine ⟨?_, ?_, ?_⟩ <;> intro he <;> rw [he] at hsame
  · change 0 = d.toNat at hsame
    omega
  · change 10 = d.toNat at hsame
    omega
  · change 62 = d.toNat at hsame
    omega

/-- A word, with the quote of the literal behind it. -/
theorem Line.quote {w : List UInt8} {l : List Char} (hs : Line s) (hw : Solid w)
    (h : (Char.ofNat 39 :: l).all printable = true) :
    Line (s ++ w ++ str (String.ofList (Char.ofNat 39 :: l))) := by
  have hblank : (32 : UInt8) ∉ w := fun h => absurd (hw _ h).2 (by decide)
  have hnul : (0 : UInt8) ∉ w := fun h => (hw _ h).1 rfl
  have hnewline : (10 : UInt8) ∉ w := fun h => absurd (hw _ h).2 (by decide)
  have ht := line_str h
  rw [List.append_assoc]
  apply hs.append
  constructor
  · exact fun h => (List.mem_append.mp h).elim hnul ht.nul
  · exact fun h => (List.mem_append.mp h).elim hnewline ht.newline
  · have hcons : str (String.ofList (Char.ofNat 39 :: l)) = 39 :: str (String.ofList l) := by
      unfold str
      rw [String.toList_ofList, String.toList_ofList]
      rfl
    have hclear := ht.prompt
    rw [hcons] at hclear ⊢
    exact hclear.append_of_head hblank (by decide)

theorem line_decimal (n : ℕ) : Line (decimal n) := by
  apply line_of_bytes
  intro c hc
  have hd := (decimal_digits n).2 c hc
  refine ⟨?_, ?_, ?_⟩ <;> rintro rfl <;> revert hd <;> decide

theorem IsCell.line (ht : IsCell t) : Line t := by
  apply line_of_bytes
  intro c hc
  have hb := ht.bytes c hc
  refine ⟨?_, ?_, ?_⟩ <;> rintro rfl <;> revert hb <;> decide

theorem cell_decimalInt (v : ℤ) : IsCell (ValueFactory.decimalInt v) := by
  have hdigits : ∀ c ∈ decimal v.natAbs, 48 ≤ c ∧ c ≤ 57 := by
    intro c hc
    simpa [isDigit] using (decimal_digits v.natAbs).2 c hc
  unfold ValueFactory.decimalInt
  split_ifs
  · refine ⟨by simp [str], fun c hc => ?_⟩
    rcases List.mem_append.mp hc with hc | hc
    · exact .inl (List.mem_singleton.mp hc)
    · exact .inr (.inl (hdigits c hc))
  · exact ⟨(decimal_digits _).1, fun c hc => .inr (.inl (hdigits c hc))⟩

end Lines

/-! Values and their texts. -/

theorem spoken_of_uncaught {e : Exn} (h : e.caught = none) : e.Spoken := by
  intro what hw
  rw [h] at hw
  cases hw

theorem spoken_message {t : List UInt8} (h : Line t) : (Exn.runtimeError t).Spoken := by
  intro what hw
  obtain rfl := Option.some.inj hw
  exact h

theorem toString_cell (v : Value) (t : TypeId) :
    Meets IsCell Exn.Spoken (ValueFactory.toString v t) := by
  unfold ValueFactory.toString
  split
  · unfold Value.getInt32
    split
    · exact meets_ok (cell_decimalInt _)
    · exact meets_error (spoken_of_uncaught rfl)
  · unfold Value.getInt8
    split
    · refine meets_ok ?_
      dsimp only
      split_ifs
      · exact ⟨by decide +kernel, by decide +kernel⟩
      · exact ⟨by decide +kernel, by decide +kernel⟩
    · exact meets_error (spoken_of_uncaught rfl)
  · exact meets_error (spoken_message (line_str rfl))

theorem stoi_spoken (raw : List UInt8) : Meets (fun _ => True) Exn.Spoken (stoi raw) := by
  have hout : ∀ (ds : List UInt8) (v : ℤ), Meets (fun _ => True) Exn.Spoken
      (if ds = [] then .error .invalidArgument
        else if -2147483648 ≤ v ∧ v < 2147483648 then .ok v else .error .outOfRange) := by
    intro ds v
    split_ifs
    · exact meets_error (spoken_of_uncaught rfl)
    · exact meets_ok trivial
    · exact meets_error (spoken_of_uncaught rfl)
  exact hout _ _

theorem fromString_spoken {raw : List UInt8} (hraw : Solid raw) (t : TypeId) :
    Meets (fun _ => True) Exn.Spoken (ValueFactory.fromString raw t) := by
  have hopen : Line (str "ValueFactory::FromString: expected 'true' or 'false', got '") :=
    line_str rfl
  have hother : Line (str "ValueFactory::FromString: unsupported TypeId for raw value '") :=
    line_str rfl
  unfold ValueFactory.fromString
  split
  · exact (stoi_spoken raw).map fun _ _ => trivial
  · split_ifs
    · exact meets_error (spoken_message (hopen.quote hraw rfl))
    · exact meets_ok trivial
    · exact meets_ok trivial
  · exact meets_error (spoken_message (hother.quote hraw rfl))

theorem serialize_spoken (v : Value) : Meets (fun _ => True) Exn.Spoken v.serialize := by
  unfold Value.serialize Value.getInt32 Value.getInt8
  split
  · split
    · exact meets_ok trivial
    · exact meets_error (spoken_of_uncaught rfl)
  · split
    · exact meets_ok trivial
    · exact meets_error (spoken_of_uncaught rfl)
  · exact meets_ok trivial

theorem promises_defined {α : Type} (x : Option α) :
    Promises (fun _ => True) Exn.Spoken (defined x) := by
  intro y hy
  obtain ⟨a, -, rfl⟩ := Option.map_eq_some_iff.mp hy
  exact meets_ok trivial

theorem promises_raised {α : Type} {A : α → Prop} {x : Except Exn α}
    (hx : Meets A Exn.Spoken x) : Promises A Exn.Spoken (raised x) := by
  intro y hy
  obtain rfl := Option.some.inj hy
  exact hx

theorem cellText_shown (s : Schema) (bytes : List UInt8) (i : ℕ) :
    Promises IsCell Exn.Spoken (cellText s bytes i) :=
  (promises_defined _).bind fun v _ => (promises_defined _).bind fun col _ =>
    promises_raised (toString_cell v col.typeId)

theorem fromStrings_spoken (s : Schema) (i : ℕ) {raws : List (List UInt8)}
    (hraws : ∀ raw ∈ raws, Solid raw) :
    Promises (fun _ => True) Exn.Spoken (fromStrings s i raws) := by
  induction raws generalizing i with
  | nil => exact promises_pure trivial
  | cons raw raws ih =>
    have hraw := hraws raw List.mem_cons_self
    have hrest := ih (i + 1) fun r hr => hraws r (List.mem_cons_of_mem _ hr)
    exact (promises_defined _).bind fun col _ =>
      (promises_raised (fromString_spoken hraw col.typeId)).bind fun v _ =>
        hrest.bind fun vs _ => promises_pure trivial

theorem serializeFrom_spoken (s : Schema) (i : ℕ) (vs : List Value) (data : List UInt8) :
    Promises (fun _ => True) Exn.Spoken (Tuple.serializeFrom s i vs data) := by
  induction vs generalizing i data with
  | nil => exact promises_pure trivial
  | cons v vs ih =>
    exact (promises_defined _).bind fun off _ =>
      (promises_raised (serialize_spoken v)).bind fun bytes _ =>
        (promises_defined _).bind fun data _ => ih (i + 1) data

theorem rowTuple_spoken (s : Schema) {raws : List (List UInt8)}
    (hraws : ∀ raw ∈ raws, Solid raw) :
    Promises (fun _ => True) Exn.Spoken (rowTuple s raws) :=
  (fromStrings_spoken s 0 fun raw hr => hraws raw (List.mem_of_mem_take hr)).bind fun values _ =>
    serializeFrom_spoken s 0 values _

/-! Loops over a table. -/

theorem scanFrom_meets {ε β : Type} {P : β → Prop} {E : ε → Prop}
    {body : TableIterator → RecordManager → Option (Except ε β × RecordManager)}
    (hbody : ∀ it rm x rm', body it rm = some (x, rm') → Meets P E x) {fuel : ℕ}
    {it : TableIterator} {rm rm' : RecordManager} {x : Except ε (List β)}
    (hx : TableManager.scanFrom body fuel it rm = some (x, rm')) :
    Meets (fun rows => ∀ row ∈ rows, P row) E x := by
  induction fuel generalizing it rm rm' x with
  | zero => cases hx
  | succ fuel ih =>
    unfold TableManager.scanFrom at hx
    split_ifs at hx with hend
    · obtain ⟨rfl, -⟩ := Prod.mk.inj (Option.some.inj hx)
      exact meets_ok (List.forall_mem_nil _)
    · obtain ⟨⟨row, rm₁⟩, hrow, hx⟩ := Option.bind_eq_some_iff.mp hx
      have hmeets := hbody _ _ _ _ hrow
      cases row with
      | error e =>
        obtain ⟨rfl, -⟩ := Prod.mk.inj (Option.some.inj hx)
        exact meets_error (hmeets.error e rfl)
      | ok row =>
        obtain ⟨⟨it₂, rm₂⟩, -, hx⟩ := Option.bind_eq_some_iff.mp hx
        obtain ⟨⟨rows, rm₃⟩, hrows, hx⟩ := Option.bind_eq_some_iff.mp hx
        obtain ⟨rfl, -⟩ := Prod.mk.inj (Option.some.inj hx)
        exact (ih hrows).map fun rows hall =>
          List.forall_mem_cons.mpr ⟨hmeets.ok row rfl, hall⟩

theorem scan_meets {ε β : Type} {P : β → Prop} {E : ε → Prop}
    {body : TableIterator → RecordManager → Option (Except ε β × RecordManager)}
    (hbody : ∀ it rm x rm', body it rm = some (x, rm') → Meets P E x) {t t' : TableManager}
    {x : Except ε (List β)} (hx : TableManager.scan body t = some (x, t')) :
    Meets (fun rows => ∀ row ∈ rows, P row) E x := by
  obtain ⟨⟨it, rm⟩, -, hx⟩ := Option.bind_eq_some_iff.mp hx
  obtain ⟨⟨rows, rm'⟩, hrows, hx⟩ := Option.bind_eq_some_iff.mp hx
  obtain ⟨rfl, -⟩ := Prod.mk.inj (Option.some.inj hx)
  exact scanFrom_meets hbody hrows

theorem readCells_meets (s : Schema) (it : TableIterator) (k i : ℕ) {rm rm' : RecordManager}
    {x : Except Exn (List (List UInt8))} (hx : readCells s it k i rm = some (x, rm')) :
    Meets (fun cells => ∀ cell ∈ cells, IsCell cell) Exn.Spoken x := by
  induction k generalizing i rm rm' x with
  | zero =>
    obtain ⟨rfl, -⟩ := Prod.mk.inj (Option.some.inj hx)
    exact meets_ok (List.forall_mem_nil _)
  | succ k ih =>
    obtain ⟨⟨bytes, rm₁⟩, -, hx⟩ := Option.bind_eq_some_iff.mp hx
    obtain ⟨text, htext, hx⟩ := Option.bind_eq_some_iff.mp hx
    have hmeets := cellText_shown s bytes i text htext
    cases text with
    | error e =>
      obtain ⟨rfl, -⟩ := Prod.mk.inj (Option.some.inj hx)
      exact meets_error (hmeets.error e rfl)
    | ok text =>
      obtain ⟨⟨texts, rm₂⟩, htexts, hx⟩ := Option.bind_eq_some_iff.mp hx
      obtain ⟨rfl, -⟩ := Prod.mk.inj (Option.some.inj hx)
      exact (ih (i + 1) htexts).map fun cells hall =>
        List.forall_mem_cons.mpr ⟨hmeets.ok text rfl, hall⟩

theorem matchRow_meets (s : Schema) (col : Option ℕ) (value : List UInt8) (it : TableIterator)
    {rm rm' : RecordManager} {x : Except Exn (Option RecordId)}
    (hx : matchRow s col value it rm = some (x, rm')) :
    Meets (fun _ => True) Exn.Spoken x := by
  cases col with
  | none =>
    obtain ⟨rfl, -⟩ := Prod.mk.inj (Option.some.inj hx)
    exact meets_ok trivial
  | some i =>
    obtain ⟨⟨bytes, rm₁⟩, -, hx⟩ := Option.bind_eq_some_iff.mp hx
    obtain ⟨text, htext, hx⟩ := Option.bind_eq_some_iff.mp hx
    obtain ⟨rfl, -⟩ := Prod.mk.inj (Option.some.inj hx)
    exact (cellText_shown s bytes i text htext).map fun _ _ => trivial

/-! Statements. -/

/-- What the executor returns: a message, and the rows of a `SELECT` in front of it. -/
structure Shown (r : QueryResult) : Prop where
  message : Line r.message
  cells : ∀ row ∈ r.rows, ∀ cell ∈ row, IsCell cell
  failed : r.success = false → r.rows = []
  passed : r.success = true → r.message.head? ≠ some 69

/-- The names and values a statement can quote. -/
def Statement.Solid : Statement → Prop
  | .createTable name _ => PragmaticDB.Solid name
  | .insert name raws => PragmaticDB.Solid name ∧ ∀ raw ∈ raws, PragmaticDB.Solid raw
  | .select name => PragmaticDB.Solid name
  | .commit => True
  | .delete name whereColumn _ => PragmaticDB.Solid name ∧ PragmaticDB.Solid whereColumn

/-- So are the texts of the errors below the code. -/
def Database.SavesSpoken (db : Database) : Prop :=
  ∀ what, SaveOutcome.dirThrows what ∈ db.saves → Line what

theorem shown_message {t : List UInt8} (ht : Line t) (hhead : t.head? ≠ some 69) :
    Shown ⟨true, t, []⟩ where
  message := ht
  cells := List.forall_mem_nil _
  failed h := by cases h
  passed _ := hhead

theorem shown_failure {t : List UInt8} (ht : Line t) : Shown ⟨false, t, []⟩ where
  message := ht
  cells := List.forall_mem_nil _
  failed _ := rfl
  passed h := by cases h

/-- A count does not begin with a letter. -/
theorem decimal_head (n : ℕ) (t : List UInt8) : (decimal n ++ t).head? ≠ some 69 := by
  obtain ⟨c, ds, hc⟩ := List.exists_cons_of_ne_nil (decimal_digits n).1
  have hd := (decimal_digits n).2 c (hc ▸ List.mem_cons_self)
  rw [hc]
  rintro h
  obtain rfl := Option.some.inj h
  revert hd
  decide

theorem Solid.missing {name : List UInt8} (hname : Solid name) :
    Line (str "Error: Table '" ++ name ++ str "' not found in catalog.") :=
  (line_str rfl : Line (str "Error: Table '")).quote hname rfl

theorem getTable_spoken (c : Catalog) {name : List UInt8} (hname : Solid name) :
    Meets (fun _ => True) Exn.Spoken (c.getTable name) := by
  have hopen : Line (str "Error: Table with OID ") := line_str rfl
  have hrest : Line (str " not found in catalog.") := line_str rfl
  unfold Catalog.getTable Catalog.getTableByOid
  split
  · split
    · exact meets_ok trivial
    · exact meets_error (spoken_message ((hopen.append (line_decimal _)).append hrest))
  · exact meets_error (spoken_message hname.missing)

theorem handle_shown {σ : Type} {x : Option (Except Exn QueryResult × σ)}
    (hx : ∀ y s, x = some (y, s) → Meets Shown Exn.Spoken y) {r : QueryResult} {s : σ}
    (hr : handle x = some (.ok r, s)) : Shown r := by
  obtain ⟨⟨y, s'⟩, hy, he⟩ := Option.map_eq_some_iff.mp hr
  obtain ⟨he, -⟩ := Prod.mk.inj he
  have hmeets := hx y s' hy
  cases y with
  | ok r' =>
    obtain rfl := Except.ok.inj he
    exact hmeets.ok _ rfl
  | error e =>
    have hspoken := hmeets.error e rfl
    unfold handleError at he
    dsimp only at he
    split at he
    · rename_i what hw
      obtain rfl := Except.ok.inj he
      exact shown_failure (hspoken what hw)
    · cases he

theorem saveCatalog_spoken {db : Database} (hs : db.SavesSpoken) :
    Meets (fun _ => True) Exn.Spoken db.saveCatalog.1 ∧ db.saveCatalog.2.SavesSpoken := by
  unfold Database.saveCatalog
  dsimp only
  split
  · exact ⟨meets_ok trivial, hs⟩
  · rename_i hsaves
    exact ⟨meets_ok trivial, fun w h => hs w (hsaves ▸ List.mem_cons_of_mem _ h)⟩
  · rename_i what saves hsaves
    refine ⟨meets_error fun w hw => ?_, fun w h => hs w (hsaves ▸ List.mem_cons_of_mem _ h)⟩
    obtain rfl := Option.some.inj hw
    exact hs what (hsaves ▸ List.mem_cons_self)
  · rename_i hsaves
    exact ⟨meets_ok trivial, fun w h => hs w (hsaves ▸ List.mem_cons_of_mem _ h)⟩
  · rename_i hsaves
    exact ⟨meets_ok trivial, fun w h => hs w (hsaves ▸ List.mem_cons_of_mem _ h)⟩

section Execute
variable {db db' : Database} {r : QueryResult} {y : Except Exn QueryResult}

theorem handle_eq {σ : Type} {x : Option (Except Exn QueryResult × σ)} {s : σ}
    (hx : handle x = some (y, s)) : ∃ z, x = some (z, s) := by
  obtain ⟨⟨z, s'⟩, hz, he⟩ := Option.map_eq_some_iff.mp hx
  obtain ⟨-, rfl⟩ := Prod.mk.inj he
  exact ⟨z, hz⟩

theorem createTable_spoken (hs : db.SavesSpoken) {name : List UInt8} (hname : Solid name)
    (schema : Schema) : Meets (fun _ => True) Exn.Spoken (db.createTable name schema).1 ∧
      (db.createTable name schema).2.SavesSpoken := by
  have hopen : Line (str "Error: Table '") := line_str rfl
  unfold Database.createTable
  split
  · exact ⟨meets_error (spoken_message (hopen.quote hname rfl)), hs⟩
  · apply saveCatalog_spoken
    exact hs

theorem executeCreate_shown (hs : db.SavesSpoken) {name : List UInt8} (hname : Solid name)
    {columns : List Column} (hx : executeCreate db name columns = some (.ok r, db')) :
    Shown r := by
  have hopen : Line (str "Table '") := line_str rfl
  refine handle_shown (fun y s hy => ?_) hx
  obtain ⟨rfl, -⟩ := Prod.mk.inj (Option.some.inj hy)
  refine (createTable_spoken hs hname _).1.map fun _ _ => ?_
  refine shown_message (hopen.quote hname rfl) ?_
  rw [List.append_assoc, List.head?_append_of_ne_nil _ (by decide +kernel)]
  decide +kernel

theorem executeInsert_shown {name : List UInt8} (hname : Solid name)
    {raws : List (List UInt8)} (hraws : ∀ raw ∈ raws, Solid raw)
    (hx : executeInsert db name raws = some (.ok r, db')) : Shown r := by
  refine handle_shown (fun y s hy => ?_) hx
  have hget := getTable_spoken db.catalog hname
  split at hy
  · rename_i e he
    obtain ⟨rfl, -⟩ := Prod.mk.inj (Option.some.inj hy)
    exact meets_error (hget.error e he)
  · rename_i oid info he
    obtain ⟨tuple, htuple, hy⟩ := Option.bind_eq_some_iff.mp hy
    have hrow := rowTuple_spoken info.schema hraws tuple htuple
    cases tuple with
    | error e =>
      obtain ⟨rfl, -⟩ := Prod.mk.inj (Option.some.inj hy)
      exact meets_error (hrow.error e rfl)
    | ok tuple =>
      obtain ⟨⟨rid, t⟩, -, hy⟩ := Option.bind_eq_some_iff.mp hy
      obtain ⟨rfl, -⟩ := Prod.mk.inj (Option.some.inj hy)
      exact meets_ok (shown_message (line_str rfl) (by decide +kernel))

theorem executeSelect_shows {name : List UInt8} (hname : Solid name)
    (hx : executeSelect db name = some (.ok r, db')) : Shown r := by
  have hrest : Line (str " rows returned.") := line_str rfl
  refine handle_shown (fun y s hy => ?_) hx
  have hget := getTable_spoken db.catalog hname
  split at hy
  · rename_i e he
    obtain ⟨rfl, -⟩ := Prod.mk.inj (Option.some.inj hy)
    exact meets_error (hget.error e he)
  · rename_i oid info he
    obtain ⟨⟨rows, t⟩, hrows, hy⟩ := Option.bind_eq_some_iff.mp hy
    obtain ⟨rfl, -⟩ := Prod.mk.inj (Option.some.inj hy)
    have hscan := scan_meets (fun it rm x rm' => readCells_meets info.schema it _ 0) hrows
    refine hscan.map fun rows hcells => ⟨?_, hcells, Bool.noConfusion, fun _ => ?_⟩
    · exact (line_decimal _).append hrest
    · exact decimal_head _ _

theorem executeDelete_shows {name col value : List UInt8} (hname : Solid name) (hcol : Solid col)
    (hx : executeDelete db name col value = some (.ok r, db')) : Shown r := by
  have hopen : Line (str "Error: Column '") := line_str rfl
  have hrest : Line (str " row(s) deleted.") := line_str rfl
  refine handle_shown (fun y s hy => ?_) hx
  have hget := getTable_spoken db.catalog hname
  split at hy
  · rename_i e he
    obtain ⟨rfl, -⟩ := Prod.mk.inj (Option.some.inj hy)
    exact meets_error (hget.error e he)
  · rename_i oid info he
    dsimp only at hy
    split at hy
    · obtain ⟨rfl, -⟩ := Prod.mk.inj (Option.some.inj hy)
      exact meets_ok (shown_failure (hopen.quote hcol rfl))
    · obtain ⟨⟨found, t⟩, hfound, hy⟩ := Option.bind_eq_some_iff.mp hy
      have hscan := scan_meets (fun it rm x rm' => matchRow_meets info.schema _ value it) hfound
      cases found with
      | error e =>
        obtain ⟨rfl, -⟩ := Prod.mk.inj (Option.some.inj hy)
        exact meets_error (hscan.error e rfl)
      | ok found =>
        obtain ⟨t', -, hy⟩ := Option.bind_eq_some_iff.mp hy
        obtain ⟨rfl, -⟩ := Prod.mk.inj (Option.some.inj hy)
        exact meets_ok (shown_message ((line_decimal _).append hrest) (decimal_head _ _))

theorem executeCommit_shown (hx : executeCommit db = some (.ok r, db')) : Shown r := by
  have hopen : Line (str "COMMIT: ") := line_str rfl
  have hrest : Line (str " table(s) flushed to disk.") := line_str rfl
  unfold executeCommit at hx
  generalize Database.saveCatalog _ = x at hx
  obtain ⟨y, db₁⟩ := x
  cases y with
  | error e => cases hx
  | ok u =>
    cases hx
    refine shown_message ((hopen.append (line_decimal _)).append hrest) ?_
    rw [List.append_assoc, List.head?_append_of_ne_nil _ (by decide +kernel)]
    decide +kernel

theorem execute_shown (hs : db.SavesSpoken) {stmt : Statement} (hw : stmt.Solid)
    (hx : execute db stmt = some (.ok r, db')) : Shown r := by
  cases stmt with
  | createTable name columns => exact executeCreate_shown hs hw hx
  | insert name raws => exact executeInsert_shown hw.1 hw.2 hx
  | select name => exact executeSelect_shows hw hx
  | commit => exact executeCommit_shown hx
  | delete name col value => exact executeDelete_shows hw.1 hw.2 hx

theorem executeInsert_saves {name : List UInt8} {raws : List (List UInt8)}
    (hx : executeInsert db name raws = some (y, db')) : db'.saves = db.saves := by
  obtain ⟨z, hz⟩ := handle_eq hx
  split at hz
  · cases hz
    rfl
  · obtain ⟨tuple, -, hz⟩ := Option.bind_eq_some_iff.mp hz
    cases tuple with
    | error e =>
      cases hz
      rfl
    | ok tuple =>
      obtain ⟨⟨rid, t⟩, -, hz⟩ := Option.bind_eq_some_iff.mp hz
      cases hz
      rfl

theorem executeSelect_saves {name : List UInt8}
    (hx : executeSelect db name = some (y, db')) : db'.saves = db.saves := by
  obtain ⟨z, hz⟩ := handle_eq hx
  split at hz
  · cases hz
    rfl
  · obtain ⟨⟨rows, t⟩, -, hz⟩ := Option.bind_eq_some_iff.mp hz
    cases hz
    rfl

theorem executeDelete_saves {name col value : List UInt8}
    (hx : executeDelete db name col value = some (y, db')) : db'.saves = db.saves := by
  obtain ⟨z, hz⟩ := handle_eq hx
  split at hz
  · cases hz
    rfl
  · dsimp only at hz
    split at hz
    · cases hz
      rfl
    · obtain ⟨⟨found, t⟩, -, hz⟩ := Option.bind_eq_some_iff.mp hz
      cases found with
      | error e =>
        cases hz
        rfl
      | ok found =>
        obtain ⟨t', -, hz⟩ := Option.bind_eq_some_iff.mp hz
        cases hz
        rfl

/-- The texts of the errors that are still to come are among those there were. -/
theorem execute_saves (hs : db.SavesSpoken) {stmt : Statement} (hw : stmt.Solid)
    (hx : execute db stmt = some (y, db')) : db'.SavesSpoken := by
  have hsame : db'.saves = db.saves → db'.SavesSpoken := by
    intro he what hwhat
    rw [he] at hwhat
    exact hs what hwhat
  cases stmt with
  | createTable name columns =>
    unfold execute executeCreate at hx
    obtain ⟨z, hz⟩ := handle_eq hx
    obtain ⟨-, rfl⟩ := Prod.mk.inj (Option.some.inj hz)
    exact (createTable_spoken hs hw _).2
  | insert name raws => exact hsame (executeInsert_saves hx)
  | select name => exact hsame (executeSelect_saves hx)
  | commit =>
    unfold execute executeCommit at hx
    obtain ⟨-, rfl⟩ := Prod.mk.inj (Option.some.inj hx)
    refine (saveCatalog_spoken ?_).2
    exact hs
  | delete name col value => exact hsame (executeDelete_saves hx)

end Execute

/-! What the parser can give. -/

theorem solid_nil : Solid [] := List.forall_mem_nil _

theorem solid_of_mem_words {s w : List UInt8} (hs : 0 ∉ s) (hw : w ∈ words isSpace s) :
    Solid w := by
  intro c hc
  refine ⟨?_, (isWord_of_mem_words hw).solid c hc⟩
  rintro rfl
  exact hs (mem_of_mem_words hw hc)

theorem solid_headD {l : List (List UInt8)} (hl : ∀ w ∈ l, Solid w) : Solid (l.headD []) := by
  cases l with
  | nil => exact solid_nil
  | cons w l => exact hl w List.mem_cons_self

theorem Solid.stripSemicolon {w : List UInt8} (hw : Solid w) : Solid (stripSemicolon w) := by
  unfold PragmaticDB.stripSemicolon
  split_ifs
  · exact fun c hc => hw c (List.mem_of_mem_dropLast hc)
  · exact hw

theorem listWords_solid {s : List UInt8} (hs : 0 ∉ s) (k : ℕ) :
    ∀ w ∈ Parser.listWords k s, Solid w := by
  intro w hw
  refine solid_of_mem_words (fun h0 => ?_) hw
  obtain ⟨c, hc, h0⟩ := List.mem_map.mp h0
  have hmem : c ∈ s := (behind_suffix k s).subset (List.takeWhile_subset _ hc)
  split_ifs at h0
  · exact absurd h0 (by decide)
  · exact hs (h0 ▸ hmem)

theorem conditionOf_solid {l : List (List UInt8)} (hl : ∀ w ∈ l, Solid w) :
    Solid (Parser.conditionOf l).1 := by
  unfold Parser.conditionOf
  split
  · split_ifs
    · exact hl _ (by simp)
    · exact solid_nil
  · exact solid_nil

theorem statementOf_solid {ws : List (List UInt8)} {lists : ℕ → List (List UInt8)}
    (hws : ∀ w ∈ ws, Solid w) (hlists : ∀ k, ∀ w ∈ lists k, Solid w) {stmt : Statement}
    (h : Parser.statementOf ws lists = some stmt) : stmt.Solid := by
  cases ws with
  | nil => cases h
  | cons keyword ws =>
    have htail : ∀ w ∈ ws, Solid w := fun w hw => hws w (List.mem_cons_of_mem _ hw)
    have hname : Solid (ws.tail.headD []) :=
      solid_headD fun w hw => htail w (List.mem_of_mem_tail hw)
    rcases Parser.keyword_of_statement h with hk | hk | hk | hk | hk
    · rw [Parser.statementOf_create _ _ hk] at h
      split_ifs at h
      cases h
      exact hname
    · rw [Parser.statementOf_insert _ _ hk] at h
      split at h
      · split_ifs at h
        cases h
        exact ⟨htail _ (by simp), hlists 4⟩
      · cases h
    · rw [Parser.statementOf_select _ _ hk] at h
      split at h
      · split_ifs at h
        cases h
        exact (solid_headD fun w hw => htail w (by simp [hw])).stripSemicolon
      · cases h
    · rw [Parser.statementOf_commit _ _ hk] at h
      cases h
      exact trivial
    · rw [Parser.statementOf_delete _ _ hk] at h
      split_ifs at h
      cases h
      exact ⟨hname.stripSemicolon, conditionOf_solid fun w hw =>
        htail w (List.mem_of_mem_tail (List.mem_of_mem_tail hw))⟩

theorem parse_solid {s : List UInt8} (hs : 0 ∉ s) {stmt : Statement}
    (h : Parser.parse s = some stmt) : stmt.Solid := by
  rw [Parser.parse_eq] at h
  exact statementOf_solid (fun w hw => solid_of_mem_words hs hw) (listWords_solid hs) h

end PragmaticDB
