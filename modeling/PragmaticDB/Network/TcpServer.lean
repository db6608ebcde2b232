import PragmaticDB.Query.ParserWords
import PragmaticDB.Query.DatabaseRuns

/-!
The server's loop over what its reads from a client's socket return, and how the statements it
executes depend on where the stream is cut.
-/
namespace PragmaticDB
open ByteStream WordList CallMachine Executor

/-- One connection: what is sent, the statements executed, and the database left behind. An
exception ends the process. -/
structure Session where
  sent : List (List UInt8)
  executed : List Statement
  outcome : Except Exn Unit
  db : Database

namespace TcpServer

/-- `std::string input(buffer)`, without the newlines at its end. -/
def inputOf (chunk : List UInt8) : List UInt8 :=
  (chunk.takeWhile (· ≠ 0)).rdropWhile fun c => c == 10 || c == 13

def formatResult (r : QueryResult) : List UInt8 :=
  if r.success then
    r.rows.flatMap (fun row => (str " | ").intercalate row ++ str "\n") ++ r.message ++ str "\n"
  else str "Error: " ++ r.message ++ str "\n"

def isQuit (input : List UInt8) : Bool := input == str "exit" || input == str "quit"

/-- More in front of a session. -/
def Session.before (sent : List (List UInt8)) (executed : List Statement) (s : Session) : Session :=
  { s with sent := sent ++ s.sent, executed := executed ++ s.executed }

/-- The loop; the end of the list is a read that fails or finds the connection closed. -/
def serve : List (List UInt8) → Database → Option Session
  | [], db => some ⟨[], [], .ok (), db⟩
  | chunk :: chunks, db =>
    let input := inputOf chunk
    if input = [] then (serve chunks db).map (Session.before [str "> "] [])
    else if isQuit input then some ⟨[str "Bye!\n"], [], .ok (), db⟩
    else
      match Parser.parse input with
      | none =>
        (serve chunks db).map
          (Session.before [str "Error: Invalid or unsupported SQL statement.\n", str "\n> "] [])
      | some stmt => do
        let (result, db) ← execute db stmt
        match result with
        | .error e => some ⟨[], [stmt], .error e, db⟩
        | .ok r => (serve chunks db).map (Session.before [formatResult r, str "\n> "] [stmt])

def handleClient (chunks : List (List UInt8)) (db : Database) : Option Session :=
  (serve chunks db).map (Session.before
    [str "Welcome to pragmaticDB! Type your SQL queries below.\n> "] [])

/-- The statements a connection executes, and what it leaves behind. -/
def effect (chunks : List (List UInt8)) (db : Database) :
    Option (List Statement × Except Exn Unit × Database) :=
  (handleClient chunks db).map fun s => (s.executed, s.outcome, s.db)

/-- `chunks` are what the reads can return for the bytes of `stream`. -/
structure Chunking (stream : List UInt8) (chunks : List (List UInt8)) : Prop where
  flatten : chunks.flatten = stream
  sizes : ∀ c ∈ chunks, 1 ≤ c.length ∧ c.length ≤ 1023

/-- Every chunking of the stream comes to the same. -/
def FramingIndependent (stream : List UInt8) (db : Database) : Prop :=
  ∀ chunks chunks', Chunking stream chunks → Chunking stream chunks' →
    effect chunks db = effect chunks' db

/-- No piece of the stream that fits one read is parsed to a statement. -/
def NoStatementInside (stream : List UInt8) : Prop :=
  ∀ piece, piece <:+: stream → piece.length ≤ 1023 → Parser.parse (inputOf piece) = none

variable {db : Database} {chunk : List UInt8} {chunks : List (List UInt8)} {stmt : Statement}

theorem serve_silent (chunks : List (List UInt8)) (db : Database)
    (hp : Parser.parse (inputOf chunk) = none) (hq : isQuit (inputOf chunk) = false) :
    ∃ sent, serve (chunk :: chunks) db = (serve chunks db).map (Session.before sent []) := by
  rw [serve]
  by_cases he : inputOf chunk = []
  · exact ⟨[str "> "], by simp only [he, if_true]⟩
  · exact ⟨[str "Error: Invalid or unsupported SQL statement.\n", str "\n> "], by
      simp only [he, if_false, hq, Bool.false_eq_true, hp]⟩

/-- Chunks without a statement execute nothing. -/
theorem serve_all_silent (db : Database) (h : ∀ c ∈ chunks, Parser.parse (inputOf c) = none) :
    ∃ sent, serve chunks db = some ⟨sent, [], .ok (), db⟩ := by
  induction chunks with
  | nil => exact ⟨[], rfl⟩
  | cons chunk chunks ih =>
    have hp := h chunk (by simp)
    cases hq : isQuit (inputOf chunk) with
    | true =>
      have hne : inputOf chunk ≠ [] := by
        intro he
        rw [he] at hq
        revert hq
        decide +kernel
      refine ⟨[str "Bye!\n"], ?_⟩
      rw [serve]
      simp only [hne, if_false, hq, if_true]
    | false =>
      obtain ⟨sent, hs⟩ := ih fun c hc => h c (by simp [hc])
      obtain ⟨more, hm⟩ := serve_silent chunks db hp hq
      rw [hm, hs]
      exact ⟨more ++ sent, rfl⟩

theorem effect_silent (h : ∀ c ∈ chunks, Parser.parse (inputOf c) = none) :
    effect chunks db = some ([], .ok (), db) := by
  obtain ⟨sent, hs⟩ := serve_all_silent db h
  unfold effect handleClient
  rw [hs]
  rfl

/-- A chunk with a statement executes it first. -/
theorem serve_statement (hp : Parser.parse (inputOf chunk) = some stmt) {s : Session}
    (hs : serve (chunk :: chunks) db = some s) : s.executed.head? = some stmt := by
  have hne : inputOf chunk ≠ [] := by
    intro he
    rw [he] at hp
    cases hp
  have hq : isQuit (inputOf chunk) = false := by
    by_contra hq
    have hquit : inputOf chunk = str "exit" ∨ inputOf chunk = str "quit" := by
      simpa only [isQuit, Bool.not_eq_false, Bool.or_eq_true, beq_iff_eq] using hq
    have hnone : Parser.parse (str "exit") = none ∧ Parser.parse (str "quit") = none := by
      decide +kernel
    rcases hquit with he | he
    · rw [he, hnone.1] at hp
      cases hp
    · rw [he, hnone.2] at hp
      cases hp
  rw [serve] at hs
  simp only [hne, if_false, hq, Bool.false_eq_true, hp] at hs
  obtain ⟨⟨result, db'⟩, -, hs⟩ := Option.bind_eq_some_iff.mp hs
  cases result with
  | error e =>
    cases hs
    rfl
  | ok r =>
    obtain ⟨s', -, rfl⟩ := Option.map_eq_some_iff.mp hs
    rfl

theorem inputOf_length (chunk : List UInt8) : (inputOf chunk).length ≤ chunk.length :=
  (List.rdropWhile_prefix _ _).length_le.trans (List.takeWhile_sublist _).length_le

/-- One byte is never a statement, and never the end of the session. -/
theorem single_silent (c : UInt8) :
    Parser.parse (inputOf [c]) = none ∧ isQuit (inputOf [c]) = false := by
  have hle : (inputOf [c]).length ≤ 1 := inputOf_length [c]
  refine ⟨Parser.parse_short (by omega), ?_⟩
  have hexit : inputOf [c] ≠ str "exit" := by
    intro he
    rw [he] at hle
    revert hle
    decide +kernel
  have hquit : inputOf [c] ≠ str "quit" := by
    intro he
    rw [he] at hle
    revert hle
    decide +kernel
  simp only [isQuit, Bool.or_eq_false_iff, beq_eq_false_iff_ne]
  exact ⟨hexit, hquit⟩

/-- The stream byte by byte. -/
def singles (stream : List UInt8) : List (List UInt8) := stream.map fun c => [c]

theorem flatten_singles (stream : List UInt8) : (singles stream).flatten = stream := by
  induction stream with
  | nil => rfl
  | cons c stream ih => exact congrArg (c :: ·) ih

theorem sizes_singles (stream : List UInt8) :
    ∀ c ∈ singles stream, 1 ≤ c.length ∧ c.length ≤ 1023 := by
  intro c hc
  obtain ⟨b, -, rfl⟩ := List.mem_map.mp hc
  exact ⟨Nat.le_refl 1, Nat.le_add_left 1 1022⟩

theorem serve_singles (stream : List UInt8) (chunks : List (List UInt8)) (db : Database) :
    ∃ sent, serve (singles stream ++ chunks) db =
      (serve chunks db).map (Session.before sent []) := by
  induction stream with
  | nil =>
    refine ⟨[], ?_⟩
    change serve chunks db = _
    cases serve chunks db <;> rfl
  | cons c stream ih =>
    obtain ⟨sent, ih⟩ := ih
    obtain ⟨hp, hq⟩ := single_silent c
    obtain ⟨more, hm⟩ := serve_silent (singles stream ++ chunks) db hp hq
    refine ⟨more ++ sent, ?_⟩
    change serve ([c] :: (singles stream ++ chunks)) db = _
    rw [hm, ih]
    cases serve chunks db with
    | none => rfl
    | some s => simp [Session.before]

/-- A statement that fits one read is executed when the reads fall around it. -/
theorem effect_around {before piece after : List UInt8}
    (hp : Parser.parse (inputOf piece) = some stmt) :
    effect (singles before ++ piece :: singles after) db ≠ some ([], .ok (), db) := by
  intro h
  unfold effect handleClient at h
  obtain ⟨sent, hs⟩ := serve_singles before (piece :: singles after) db
  rw [hs] at h
  cases hserve : serve (piece :: singles after) db with
  | none =>
    rw [hserve] at h
    cases h
  | some s =>
    rw [hserve] at h
    have hexec : s.executed = [] := congrArg Prod.fst (Option.some.inj h)
    have hhead := serve_statement hp hserve
    rw [hexec] at hhead
    cases hhead

/-- The server is independent of the chunking of just those streams in which it can find no
statement at all. -/
theorem framingIndependent_iff (stream : List UInt8) (db : Database) :
    FramingIndependent stream db ↔ NoStatementInside stream := by
  constructor
  · rintro h piece ⟨before, after, rfl⟩ hlen
    by_contra hp
    obtain ⟨stmt, hp⟩ := Option.ne_none_iff_exists'.mp hp
    have hpos : 1 ≤ piece.length := by
      by_contra h0
      have hnone := Parser.parse_short (s := inputOf piece)
        (by have hle := inputOf_length piece; omega)
      rw [hnone] at hp
      cases hp
    have hcut : Chunking (before ++ piece ++ after)
        (singles before ++ piece :: singles after) := by
      constructor
      · rw [List.flatten_append, List.flatten_cons, flatten_singles, flatten_singles,
          List.append_assoc]
      · intro c hc
        rcases List.mem_append.mp hc with hc | hc
        · exact sizes_singles _ c hc
        rcases List.mem_cons.mp hc with rfl | hc
        · exact ⟨hpos, hlen⟩
        · exact sizes_singles _ c hc
    have hsingle : Chunking (before ++ piece ++ after) (singles (before ++ piece ++ after)) :=
      ⟨flatten_singles _, sizes_singles _⟩
    have hsilent : ∀ c ∈ singles (before ++ piece ++ after),
        Parser.parse (inputOf c) = none := by
      intro c hc
      obtain ⟨b, -, rfl⟩ := List.mem_map.mp hc
      exact (single_silent b).1
    exact effect_around hp ((h _ _ hcut hsingle).trans (effect_silent hsilent))
  · intro h chunks chunks' hc hc'
    have hsilent : ∀ {cs}, Chunking stream cs → effect cs db = some ([], .ok (), db) := by
      intro cs hcs
      refine effect_silent fun c hmem => h c ?_ (hcs.sizes c hmem).2
      rw [← hcs.flatten]
      exact List.infix_of_mem_flatten hmem
    rw [hsilent hc, hsilent hc']

/-- A `DELETE` that is cut before its `WHERE` deletes every row. -/
theorem split_delete_widens : ∃ h db chunks chunks',
    statementMachine.Run Database.empty h db ∧
    chunks = [str "DELETE FROM t WHERE x = 1\n"] ∧
    chunks' = [str "DELETE FROM t", str " WHERE x = 1\n"] ∧
    Chunking (str "DELETE FROM t WHERE x = 1\n") chunks ∧
    Chunking (str "DELETE FROM t WHERE x = 1\n") chunks' ∧
    (∃ x r db', effect chunks db = some x ∧ x.2.2.answer (.select (str "t")) = some (r, db') ∧
      r.rows = [[str "2"]]) ∧
    (∃ x r db', effect chunks' db = some x ∧ x.2.2.answer (.select (str "t")) = some (r, db') ∧
      r.rows = []) ∧
    ¬ FramingIndependent (str "DELETE FROM t WHERE x = 1\n") db := by
  have heval : ((statementMachine.play [.createTable (str "t") [⟨str "x", .integer⟩],
      .insert (str "t") [str "1"], .insert (str "t") [str "2"]] [] Database.empty).bind fun x =>
        (effect [str "DELETE FROM t WHERE x = 1\n"] x.2).bind fun y =>
          (y.2.2.answer (.select (str "t"))).bind fun z =>
            (effect [str "DELETE FROM t", str " WHERE x = 1\n"] x.2).bind fun y' =>
              (y'.2.2.answer (.select (str "t"))).map fun z' => (z.1.rows, z'.1.rows)) =
      some ([[str "2"]], []) := by
    decide +kernel
  obtain ⟨⟨h, db⟩, hplay, heval⟩ := Option.bind_eq_some_iff.mp heval
  obtain ⟨x, hx, heval⟩ := Option.bind_eq_some_iff.mp heval
  obtain ⟨⟨r, db₁⟩, hr, heval⟩ := Option.bind_eq_some_iff.mp heval
  obtain ⟨x', hx', heval⟩ := Option.bind_eq_some_iff.mp heval
  obtain ⟨⟨r', db₁'⟩, hr', heval⟩ := Option.map_eq_some_iff.mp heval
  obtain ⟨hrows, hrows'⟩ := Prod.mk.inj heval
  have hwhole : Chunking (str "DELETE FROM t WHERE x = 1\n")
      [str "DELETE FROM t WHERE x = 1\n"] := ⟨by decide +kernel, by decide +kernel⟩
  have hsplit : Chunking (str "DELETE FROM t WHERE x = 1\n")
      [str "DELETE FROM t", str " WHERE x = 1\n"] := ⟨by decide +kernel, by decide +kernel⟩
  refine ⟨h, db, _, _, Machine.Run.start.play hplay, rfl, rfl, hwhole, hsplit,
    ⟨x, r, db₁, hx, hr, hrows⟩, ⟨x', r', db₁', hx', hr', hrows'⟩, fun hind => ?_⟩
  have hsame := hind _ _ hwhole hsplit
  rw [hx, hx'] at hsame
  cases hsame
  rw [hr] at hr'
  cases hr'
  rw [hrows] at hrows'
  cases hrows'

end TcpServer
end PragmaticDB
