import PragmaticDB.Lib.Dialogue
import PragmaticDB.Network.Response

/-!
The server with any number of the benchmark's clients. A client keeps its connection to itself
until it leaves, and sends a statement only when the prompt for it has come.
-/
namespace PragmaticDB
open ByteStream CallMachine Executor EndMark Dialogue

namespace TcpServer

def welcome : List UInt8 := str "Welcome to pragmaticDB! Type your SQL queries below.\n> "

/-- One pass of the loop. An exception, or undefined behaviour, ends the process. -/
def react (db : Database) (chunk : List UInt8) : Option (Reaction Database UInt8) :=
  let input := inputOf chunk
  if input = [] then some ⟨str "> ", true, db⟩
  else if isQuit input then some ⟨str "Bye!\n", false, db⟩
  else
    match Parser.parse input with
    | none => some ⟨str "Error: Invalid or unsupported SQL statement.\n" ++ str "\n> ", true, db⟩
    | some stmt =>
      match execute db stmt with
      | some (.ok r, db) => some ⟨formatResult r ++ str "\n> ", true, db⟩
      | _ => none

end TcpServer

namespace DBClient

/-- `send_line`. -/
def sendLine (s : List UInt8) : List UInt8 := s ++ str "\n"

/-- `buf += tmp` of what a `recv` has put into `tmp`. -/
def kept (tmp : List UInt8) : List UInt8 := tmp.takeWhile (· ≠ 0)

/-- The end of `drain`. -/
def drained (buf : List UInt8) : Bool :=
  2 ≤ buf.length && buf.drop (buf.length - 2) == str "> "

/-- The server and its clients. The destructor of a client sends `exit`. -/
def protocol : Protocol Database UInt8 where
  welcome := TcpServer.welcome
  react := TcpServer.react
  readSize := 1023
  line := sendLine
  farewell := str "exit"
  recvSize := 4095
  absorb := kept
  complete := drained

/-- Statements whose line fits one read of the server. -/
def Fits (text : List UInt8) : Prop := text.length ≤ 1022

instance (text : List UInt8) : Decidable (Fits text) := inferInstanceAs (Decidable (_ ≤ _))

end DBClient

/-- Statements one after the other, whatever they ask for. -/
def answerMachine : Machine Database Statement QueryResult where
  step := Database.answer
  Allowed _ _ _ := True

namespace TcpServer
variable {db db' : Database} {chunk : List UInt8} {r : Reaction Database UInt8}

theorem parse_quit {input : List UInt8} (h : isQuit input = true) : Parser.parse input = none := by
  have hnone : Parser.parse (str "exit") = none ∧ Parser.parse (str "quit") = none := by
    decide +kernel
  rcases (by simpa [isQuit] using h : input = str "exit" ∨ input = str "quit") with rfl | rfl
  · exact hnone.1
  · exact hnone.2

/-- What a chunk can come to. -/
theorem react_cases (h : react db chunk = some r) :
    Parser.parse (inputOf chunk) = none ∧ r.next = db ∧
      ((inputOf chunk = [] ∧ r.sent = str "> " ∧ r.stays = true) ∨
        (inputOf chunk ≠ [] ∧ isQuit (inputOf chunk) = true ∧ r.sent = str "Bye!\n" ∧
          r.stays = false) ∨
        (inputOf chunk ≠ [] ∧ isQuit (inputOf chunk) = false ∧ r.stays = true ∧
          r.sent = str "Error: Invalid or unsupported SQL statement.\n" ++ str "\n> ")) ∨
    ∃ stmt res, Parser.parse (inputOf chunk) = some stmt ∧ inputOf chunk ≠ [] ∧
      isQuit (inputOf chunk) = false ∧ execute db stmt = some (.ok res, r.next) ∧
      r.sent = formatResult res ++ str "\n> " ∧ r.stays = true := by
  unfold react at h
  dsimp only at h
  split_ifs at h with hnil hquit
  · obtain rfl := Option.some.inj h
    refine .inl ⟨?_, rfl, .inl ⟨hnil, rfl, rfl⟩⟩
    rw [hnil]
    rfl
  · obtain rfl := Option.some.inj h
    exact .inl ⟨parse_quit hquit, rfl, .inr (.inl ⟨hnil, hquit, rfl, rfl⟩)⟩
  · have hquit : isQuit (inputOf chunk) = false := by simpa using hquit
    split at h
    · rename_i hp
      obtain rfl := Option.some.inj h
      exact .inl ⟨hp, rfl, .inr (.inr ⟨hnil, hquit, rfl, rfl⟩)⟩
    · rename_i stmt hp
      split at h
      · rename_i res db₁ hx
        obtain rfl := Option.some.inj h
        exact .inr ⟨stmt, res, hp, hnil, hquit, hx, rfl, rfl⟩
      · cases h

/-- A chunk in front of a session that goes on. -/
theorem serve_react (h : react db chunk = some r) (hs : r.stays = true) :
    ∃ sent, sent.flatten = r.sent ∧ ∀ chunks, serve (chunk :: chunks) db =
      (serve chunks r.next).map
        (Session.before sent (Parser.parse (inputOf chunk)).toList) := by
  rcases react_cases h with ⟨hp, hnext, hc⟩ | ⟨stmt, res, hp, hnil, hquit, hx, hsent, -⟩
  · rw [hp, hnext]
    rcases hc with ⟨hnil, hsent, -⟩ | ⟨-, -, -, hs'⟩ | ⟨hnil, hquit, -, hsent⟩
    · refine ⟨[str "> "], by rw [hsent]; rfl, fun chunks => ?_⟩
      rw [serve]
      simp only [hnil, if_true]
      rfl
    · rw [hs] at hs'
      cases hs'
    · refine ⟨[str "Error: Invalid or unsupported SQL statement.\n", str "\n> "], ?_,
        fun chunks => ?_⟩
      · rw [hsent]
        simp
      · rw [serve]
        simp only [hnil, hquit, hp, if_false, Bool.false_eq_true]
        rfl
  · refine ⟨[formatResult res, str "\n> "], by rw [hsent]; simp, fun chunks => ?_⟩
    rw [serve]
    simp only [hnil, hquit, hp, if_false, Bool.false_eq_true, hx]
    rfl

/-- A chunk that ends its session. -/
theorem serve_ended (h : react db chunk = some r) (hs : r.stays = false) :
    Parser.parse (inputOf chunk) = none ∧ r.next = db ∧ r.sent = str "Bye!\n" ∧
      serve [chunk] db = some ⟨[r.sent], [], .ok (), db⟩ := by
  rcases react_cases h with ⟨hp, hnext, hc⟩ | ⟨-, -, -, -, -, -, -, hs'⟩
  · rcases hc with ⟨-, -, hs'⟩ | ⟨hnil, hquit, hsent, -⟩ | ⟨-, -, hs', -⟩
    · rw [hs] at hs'
      cases hs'
    · refine ⟨hp, hnext, hsent, ?_⟩
      rw [serve, hsent]
      simp only [hnil, hquit, if_true, if_false]
    · rw [hs] at hs'
      cases hs'
  · rw [hs] at hs'
    cases hs'

theorem react_answers (h : react db chunk = some r) :
    Parser.parse (inputOf chunk) = none ∧ r.next = db ∨
      ∃ stmt res, Parser.parse (inputOf chunk) = some stmt ∧ db.answer stmt = some (res, r.next) ∧
        r.sent = formatResult res ++ str "\n> " := by
  rcases react_cases h with ⟨hp, hnext, -⟩ | ⟨stmt, res, hp, -, -, hx, hsent, -⟩
  · exact .inl ⟨hp, hnext⟩
  · refine .inr ⟨stmt, res, hp, ?_, hsent⟩
    unfold Database.answer
    rw [hx]
    rfl

end TcpServer

namespace DBClient
variable {db : Database} {t : List UInt8}

theorem drained_iff (buf : List UInt8) : drained buf = true ↔ [62, 32] <:+ buf := by
  have hprompt : str "> " = [62, 32] := by decide +kernel
  unfold drained
  rw [hprompt, List.suffix_iff_eq_drop]
  simp only [Bool.and_eq_true, decide_eq_true_eq, beq_iff_eq, List.length_cons, List.length_nil]
  constructor
  · exact fun h => h.2.symm
  · intro h
    have hlen := congrArg List.length h
    simp only [List.length_drop, List.length_cons, List.length_nil] at hlen
    exact ⟨by omega, h.symm⟩

theorem kept_intact (ht : 0 ∉ t) {chunk : List UInt8} (hc : chunk <:+: t) :
    kept chunk = chunk := by
  apply List.takeWhile_eq_self_iff.mpr
  intro c hmem
  have hne : c ≠ 0 := fun h0 => ht (h0 ▸ hc.subset hmem)
  simpa using hne

/-- A reply with the prompt behind it is complete where it ends. -/
theorem final_prompt (ht : 0 ∉ t) (hc : Clear 62 32 t) :
    Final protocol (t ++ str "> ") true where
  ends u hu := by
    have hprompt : str "> " = [62, 32] := by decide +kernel
    rw [hprompt] at hu ⊢
    change drained u = true ↔ _
    rw [drained_iff, hc.ends_iff hu, and_iff_left rfl]
  intact chunk hchunk := by
    refine kept_intact (t := t ++ str "> ") (fun h => ?_) hchunk
    rcases List.mem_append.mp h with h | h
    · exact ht h
    · revert h
      decide +kernel

theorem final_response (ht : 0 ∉ t) (hc : Clear 62 32 t) :
    Final protocol (t ++ str "\n> ") true := by
  have hprompt : str "\n> " = [10] ++ str "> " := by decide +kernel
  rw [hprompt, ← List.append_assoc]
  apply final_prompt
  · intro h
    rcases List.mem_append.mp h with h | h
    · exact ht h
    · exact absurd (List.mem_singleton.mp h) (by decide)
  · exact hc.append (clear_of_notMem (by decide))

/-- A reply without a prompt never looks complete. -/
theorem final_silent (ht : 0 ∉ t) (hc : Clear 62 32 t) : Final protocol t false where
  ends u hu := by
    change drained u = true ↔ _
    rw [drained_iff]
    exact ⟨fun h => absurd (h.isInfix.trans hu.isInfix) hc.inside, fun h => by cases h.2⟩
  intact chunk hchunk := kept_intact ht hchunk

theorem react_final {chunk : List UInt8} {r : Reaction Database UInt8} (hq : db.SavesSpoken)
    (h : TcpServer.react db chunk = some r) :
    r.next.SavesSpoken ∧ Final protocol r.sent r.stays := by
  rcases TcpServer.react_cases h with ⟨hp, hnext, hc⟩ | ⟨stmt, res, hp, -, -, hx, hsent, hs⟩
  · rw [hnext]
    refine ⟨hq, ?_⟩
    rcases hc with ⟨-, hsent, hs⟩ | ⟨-, -, hsent, hs⟩ | ⟨-, -, hs, hsent⟩
    · rw [hsent, hs]
      exact final_prompt (t := []) List.not_mem_nil clear_nil
    · rw [hsent, hs]
      exact final_silent (by decide +kernel) (clear_of_notMem (by decide +kernel))
    · rw [hsent, hs]
      exact final_response (by decide +kernel) (clear_of_notMem (by decide +kernel))
  · have hsolid := parse_solid (TcpServer.inputOf_nul chunk) hp
    have hshown := execute_shown hq hsolid hx
    refine ⟨execute_saves hq hsolid hx, ?_⟩
    rw [hsent, hs]
    exact final_response (TcpServer.formatResult_nul hshown) (TcpServer.formatResult_clear hshown)

/-- The client's `drain` and the server's replies fit each other. -/
theorem protocol_sound : Sound protocol Database.SavesSpoken Fits where
  blank := by decide +kernel
  welcome := by
    have hsplit : TcpServer.welcome =
        str "Welcome to pragmaticDB! Type your SQL queries below." ++ str "\n> " := by
      decide +kernel
    have hline : Line (str "Welcome to pragmaticDB! Type your SQL queries below.") := line_str rfl
    change Final protocol TcpServer.welcome true
    rw [hsplit]
    exact final_response hline.nul hline.prompt
  farewell := by
    change (str "exit").length ≤ 1022
    decide +kernel
  line text hq := by
    have hnewline : str "\n" = [10] := by decide +kernel
    change sendLine text ≠ [] ∧ (sendLine text).length ≤ 1023
    unfold sendLine
    rw [hnewline, List.length_append, List.length_singleton]
    exact ⟨List.append_ne_nil_of_right_ne_nil _ (List.cons_ne_nil _ _), Nat.succ_le_succ hq⟩
  recv := by decide
  react db text r hq _ h := react_final hq h

/-! The reads of a run, without clients and streams. -/

/-- A chunk and the reply to it, and a statement and its result. -/
def Answers (x : List UInt8 × List UInt8) (y : Statement × QueryResult) : Prop :=
  Parser.parse (TcpServer.inputOf x.1) = some y.1 ∧
    x.2 = TcpServer.formatResult y.2 ++ str "\n> "

/-- The chunks that are statements. -/
def isStatement (x : List UInt8 × List UInt8) : Bool :=
  (Parser.parse (TcpServer.inputOf x.1)).isSome

/-- Executed one after the other, the statements read give the replies sent. -/
theorem service_answers {db' : Database} {h : List (List UInt8 × List UInt8)}
    (hr : (service protocol).Run db h db') : ∃ hs, answerMachine.Run db hs db' ∧
      List.Forall₂ Answers (h.filter isStatement) hs := by
  induction hr with
  | start => exact ⟨[], .start, .nil⟩
  | @call h s s' chunk sent hr _ hstep ih =>
    obtain ⟨hs, hrun, hall⟩ := ih
    obtain ⟨r, hreact, he⟩ := Option.map_eq_some_iff.mp hstep
    obtain ⟨rfl, rfl⟩ := Prod.mk.inj he
    rcases TcpServer.react_answers hreact with ⟨hp, hnext⟩ | ⟨stmt, res, hp, ha, hsent⟩
    · refine ⟨hs, hnext ▸ hrun, ?_⟩
      rw [List.filter_cons_of_neg (by simp [isStatement, hp])]
      exact hall
    · refine ⟨(stmt, res) :: hs, hrun.call trivial ha, ?_⟩
      rw [List.filter_cons_of_pos (by simp [isStatement, hp])]
      exact .cons ⟨hp, hsent⟩ hall

/-- The prompt stands behind a reply just when the server goes on. -/
theorem react_stays {chunk : List UInt8} {r : Reaction Database UInt8}
    (h : TcpServer.react db chunk = some r) : r.stays = drained r.sent := by
  have hprompt : ∀ t : List UInt8, drained (t ++ str "\n> ") = true := by
    intro t
    have hsplit : str "\n> " = [10] ++ [62, 32] := by decide +kernel
    rw [drained_iff, hsplit, ← List.append_assoc]
    exact List.suffix_append _ _
  rcases TcpServer.react_cases h with ⟨-, -, hc⟩ | ⟨stmt, res, -, -, -, -, hsent, hs⟩
  · rcases hc with ⟨-, hsent, hs⟩ | ⟨-, -, hsent, hs⟩ | ⟨-, -, hs, hsent⟩
    · rw [hs, hsent]
      decide +kernel
    · rw [hs, hsent]
      decide +kernel
    · rw [hs, hsent, hprompt]
  · rw [hs, hsent, hprompt]

/-- The reads from one client that stays are what `HandleClient` does with them. -/
theorem serve_service {db' : Database} {h : List (List UInt8 × List UInt8)}
    (hr : (service protocol).Run db h db') (hstay : ∀ x ∈ h, drained x.2 = true) :
    ∃ sent, sent.flatten = (h.reverse.map Prod.snd).flatten ∧ ∀ chunks,
      TcpServer.serve (h.reverse.map Prod.fst ++ chunks) db = (TcpServer.serve chunks db').map
        (TcpServer.Session.before sent
          (h.reverse.filterMap fun x => Parser.parse (TcpServer.inputOf x.1))) := by
  induction hr with
  | start =>
    refine ⟨[], rfl, fun chunks => ?_⟩
    change TcpServer.serve chunks db = _
    cases TcpServer.serve chunks db <;> rfl
  | @call h s s' chunk sent₁ hr _ hstep ih =>
    obtain ⟨sent, hflat, hserve⟩ := ih fun x hx => hstay x (List.mem_cons_of_mem _ hx)
    obtain ⟨r, hreact, he⟩ := Option.map_eq_some_iff.mp hstep
    obtain ⟨rfl, rfl⟩ := Prod.mk.inj he
    have hs : r.stays = true := (react_stays hreact).trans (hstay _ List.mem_cons_self)
    obtain ⟨more, hmore, hnext⟩ := TcpServer.serve_react hreact hs
    refine ⟨sent ++ more, ?_, fun chunks => ?_⟩
    · rw [List.flatten_append, hflat, hmore]
      simp
    · rw [List.reverse_cons, List.map_append, List.append_assoc, hserve]
      change (TcpServer.serve (chunk :: chunks) s).map _ = _
      rw [hnext chunks, List.filterMap_append]
      cases TcpServer.serve chunks r.next with
      | none => rfl
      | some session =>
        cases hp : Parser.parse (TcpServer.inputOf chunk) <;>
          simp [TcpServer.Session.before, hp]

/-- A session, which only its last chunk can end. -/
theorem serve_session {db' : Database} {h : List (List UInt8 × List UInt8)}
    (hr : (service protocol).Run db h db') (hopen : ∀ x ∈ h.tail, drained x.2 = true) :
    ∃ sent, sent.flatten = (h.reverse.map Prod.snd).flatten ∧
      TcpServer.serve (h.reverse.map Prod.fst) db = some ⟨sent,
        h.reverse.filterMap fun x => Parser.parse (TcpServer.inputOf x.1), .ok (), db'⟩ := by
  have hall : (∀ x ∈ h, drained x.2 = true) → ∃ sent,
      sent.flatten = (h.reverse.map Prod.snd).flatten ∧
      TcpServer.serve (h.reverse.map Prod.fst) db = some ⟨sent,
        h.reverse.filterMap fun x => Parser.parse (TcpServer.inputOf x.1), .ok (), db'⟩ := by
    intro hstay
    obtain ⟨sent, hflat, hserve⟩ := serve_service hr hstay
    refine ⟨sent, hflat, ?_⟩
    have hend := hserve []
    rw [List.append_nil] at hend
    rw [hend]
    simp [TcpServer.serve, TcpServer.Session.before]
  cases hr with
  | start => exact hall (List.forall_mem_nil _)
  | @call h s _ chunk sent₁ hr ha hstep =>
    by_cases hgoes : drained sent₁ = true
    · exact hall (List.forall_mem_cons.mpr ⟨hgoes, hopen⟩)
    · obtain ⟨sent, hflat, hserve⟩ := serve_service hr hopen
      obtain ⟨r, hreact, he⟩ := Option.map_eq_some_iff.mp hstep
      obtain ⟨rfl, rfl⟩ := Prod.mk.inj he
      rw [← react_stays hreact, Bool.not_eq_true] at hgoes
      obtain ⟨hp, hnext, hsent, hlast⟩ := TcpServer.serve_ended hreact hgoes
      refine ⟨sent ++ [r.sent], ?_, ?_⟩
      · rw [List.flatten_append, hflat]
        simp
      · rw [List.reverse_cons, List.map_append, hserve]
        change (TcpServer.serve [chunk] s).map _ = _
        rw [hlast, hnext, List.filterMap_append]
        simp [TcpServer.Session.before, hp]

section Runs
variable {κ : Type*} [DecidableEq κ] {h : History κ UInt8} {s : State κ Database UInt8} {c : κ}

/-- Any number of clients that send lines of at most 1023 bytes, each read as a whole. -/
def clientMachine (κ : Type*) [DecidableEq κ] :
    Machine (State κ Database UInt8) (Dialogue.Event κ UInt8) (Dialogue.Outcome κ UInt8) :=
  (machine protocol).restrict (Whole Fits)

instance (κ : Type*) [DecidableEq κ] (h : History κ UInt8) (s : State κ Database UInt8)
    (e : Dialogue.Event κ UInt8) : Decidable ((clientMachine κ).Allowed h s e) :=
  inferInstanceAs (Decidable (Enabled protocol s e ∧ Whole Fits s e))

/-- Two clients of an empty database: one makes a table with a row and leaves, and then the other
one, which has been waiting, asks for the row. -/
theorem two_clients : ∃ h s, (clientMachine Bool).Run (start Database.empty) h s ∧
    (s.link false).Waits ∧ (reads h).map (fun x => (x.1, x.2.1)) =
      [(false, str "SELECT * FROM t\n"), (true, str "exit\n"),
        (true, str "INSERT INTO t VALUES (7)\n"), (true, str "CREATE TABLE t (x INTEGER)\n")] ∧
    (served true h).length = 3 ∧ (((reads h).map Prod.snd).filter isStatement).length = 3 := by
  have heval : ((clientMachine Bool).play [.connect true, .connect false, .accept,
      .receive true 55, .ask true (str "CREATE TABLE t (x INTEGER)"), .read 27, .receive true 10,
      .receive true 12, .ask true (str "INSERT INTO t VALUES (7)"), .read 25, .receive true 19,
      .leave true, .read 5, .accept, .receive false 55, .ask false (str "SELECT * FROM t"),
      .read 16] [] (start Database.empty)).map (fun x => ((x.2.link false).stage,
        (reads x.1).map (fun y => (y.1, y.2.1)), (served true x.1).length,
        (((reads x.1).map Prod.snd).filter isStatement).length)) =
      some (.waiting [], [(false, str "SELECT * FROM t\n"), (true, str "exit\n"),
        (true, str "INSERT INTO t VALUES (7)\n"),
        (true, str "CREATE TABLE t (x INTEGER)\n")], 3, 3) := by
    decide +kernel
  obtain ⟨⟨h, s⟩, hplay, heval⟩ := Option.map_eq_some_iff.mp heval
  simp only [Prod.mk.injEq] at heval
  obtain ⟨hstage, hreads, hserved, hstatements⟩ := heval
  exact ⟨h, s, Machine.Run.start.play hplay, ⟨[], hstage⟩, hreads, hserved, hstatements⟩

theorem empty_spoken : Database.empty.SavesSpoken := fun _ h => by cases h

/-- Replies come in the order of the statements, and none is lost, doubled or cut. -/
theorem replies_in_order (hq : db.SavesSpoken) (hr : (clientMachine κ).Run (start db) h s)
    (c : κ) : (served c h).map Prod.fst <+: asked protocol c h ∧
      got c h <+: TcpServer.welcome :: (served c h).map Prod.snd ∧
      ((s.link c).stage = .ready → (served c h).map Prod.fst = asked protocol c h ∧
        got c h = TcpServer.welcome :: (served c h).map Prod.snd) := by
  have hi := run_inStep protocol_sound hq hr
  exact ⟨hi.served_asked c, hi.got_sent c, hi.answered⟩

theorem replies_in_order_two : ∃ h s, (clientMachine Bool).Run (start Database.empty) h s ∧
    (served true h).length = 3 ∧ (served true h).map Prod.fst <+: asked protocol true h ∧
    got true h <+: TcpServer.welcome :: (served true h).map Prod.snd := by
  obtain ⟨h, s, hr, -, -, hserved, -⟩ := two_clients
  obtain ⟨hasked, hgot, -⟩ := replies_in_order empty_spoken hr true
  exact ⟨h, s, hr, hserved, hasked, hgot⟩

/-- The clients are served one after the other, and as if the server had executed all their
statements in the order of its reads. -/
theorem sessions_serial (hq : db.SavesSpoken) (hr : (clientMachine κ).Run (start db) h s) :
    Grouped ((reads h).map Prod.fst) ∧
    ∃ hs t, answerMachine.Run db hs t ∧ (∀ t', s.server = some t' → t' = t) ∧
      List.Forall₂ Answers (((reads h).map Prod.snd).filter isStatement) hs := by
  have hi := run_inStep protocol_sound hq hr
  obtain ⟨t, hrun, -, ht⟩ := hi.serves
  obtain ⟨hs, hans, hall⟩ := service_answers hrun
  exact ⟨hi.grouped, hs, t, hans, ht, hall⟩

theorem sessions_serial_two : ∃ h s, (clientMachine Bool).Run (start Database.empty) h s ∧
    (reads h).map Prod.fst = [false, true, true, true] ∧ Grouped ((reads h).map Prod.fst) ∧
    ∃ hs t, answerMachine.Run Database.empty hs t ∧ hs.length = 3 := by
  obtain ⟨h, s, hr, -, hreads, -, hstatements⟩ := two_clients
  obtain ⟨hgrouped, hs, t, hrun, -, hall⟩ := sessions_serial empty_spoken hr
  have hclients := congrArg (List.map Prod.fst) hreads
  rw [List.map_map] at hclients
  exact ⟨h, s, hr, hclients, hgrouped, hs, t, hrun, hall.length_eq.symm.trans hstatements⟩

/-- What passes between the server and one client is one session of `HandleClient`, undisturbed by
the other clients: its reads return the lines of the client, and it sends the replies to them. -/
theorem session_isolated (hq : db.SavesSpoken) (hr : (clientMachine κ).Run (start db) h s)
    (c : κ) : ∃ db₁ db₂ sent, sent.flatten = ((served c h).map Prod.snd).flatten ∧
      TcpServer.serve ((served c h).map Prod.fst) db₁ = some ⟨sent,
        (served c h).filterMap fun x => Parser.parse (TcpServer.inputOf x.1), .ok (), db₂⟩ := by
  obtain ⟨⟨db₁, db₂, hrun⟩, hlast⟩ := (run_inStep protocol_sound hq hr).session c
  have hopen : ∀ x ∈ (served c h).reverse.tail, drained x.2 = true := by
    intro x hx
    rw [List.tail_reverse] at hx
    exact hlast x (List.mem_reverse.mp hx)
  have hsession := serve_session hrun hopen
  rw [List.reverse_reverse] at hsession
  obtain ⟨sent, hsent⟩ := hsession
  exact ⟨db₁, db₂, sent, hsent⟩

theorem session_isolated_two : ∃ h s, (clientMachine Bool).Run (start Database.empty) h s ∧
    (served true h).length = 3 ∧ ∃ db₁ session,
      TcpServer.serve ((served true h).map Prod.fst) db₁ = some session := by
  obtain ⟨h, s, hr, -, -, hserved, -⟩ := two_clients
  obtain ⟨db₁, db₂, sent, -, hsession⟩ := session_isolated empty_spoken hr true
  exact ⟨h, s, hr, hserved, db₁, _, hsession⟩

/-- A client that waits is not forgotten: the server or the network can go on, or the server waits
for the next statement of the client it talks to. -/
theorem waiting_progress (hq : db.SavesSpoken) (hr : (clientMachine κ).Run (start db) h s)
    (hw : (s.link c).Waits) :
    (∃ e o s', Driven e ∧ (clientMachine κ).Run (start db) ((e, o) :: h) s') ∨
      ∃ d, s.active = some d ∧ (s.link d).stage = .ready := by
  have hi := run_inStep protocol_sound hq hr
  refine (hi.progress protocol_sound hw).imp ?_ id
  rintro ⟨e, hd, hen, hwhole⟩
  exact ⟨e, _, _, hd, hr.call ⟨hen, hwhole⟩ rfl⟩

theorem waiting_progress_two : ∃ h s, (clientMachine Bool).Run (start Database.empty) h s ∧
    (s.link false).Waits ∧ ((∃ e o s', Driven e ∧
      (clientMachine Bool).Run (start Database.empty) ((e, o) :: h) s') ∨
      ∃ d, s.active = some d ∧ (s.link d).stage = .ready) := by
  obtain ⟨h, s, hr, hw, -, -, -⟩ := two_clients
  exact ⟨h, s, hr, hw, waiting_progress empty_spoken hr hw⟩

end Runs
end DBClient
end PragmaticDB
