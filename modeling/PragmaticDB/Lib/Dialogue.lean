import PragmaticDB.Lib.Machine

/-!
A server that talks to one client after another, over streams that arrive in pieces.

A client sends a line and then collects what comes back until that looks complete; only then
does it send the next one. The server reacts to what one read returns, wherever that read falls
in the stream. The reads of a run, in their order, are the calls of a service without clients
and streams.
-/
namespace Dialogue
open CallMachine

structure Reaction (σ α : Type*) where
  sent : List α
  /-- The server goes on with this client. -/
  stays : Bool
  next : σ

/-- The two programs. Of a chunk it receives a client keeps what `absorb` leaves. -/
structure Protocol (σ α : Type*) where
  welcome : List α
  react : σ → List α → Option (Reaction σ α)
  readSize : ℕ
  line : List α → List α
  farewell : List α
  recvSize : ℕ
  absorb : List α → List α
  complete : List α → Bool

inductive Stage (α : Type*) where
  | away
  | waiting (buf : List α)
  | ready
  | left
  deriving DecidableEq

/-- A client and its connection: what it sent and the server has not read, what the server sent
and it has not received, and whether the server has closed its end. -/
structure Link (α : Type*) where
  stage : Stage α
  requests : List α
  replies : List α
  closed : Bool

def Link.new {α : Type*} : Link α := ⟨.away, [], [], false⟩

/-- Connections wait in `queue` until the server accepts them. A server without a state is a
process that has ended. -/
structure State (κ σ α : Type*) where
  server : Option σ
  queue : List κ
  active : Option κ
  link : κ → Link α

inductive Event (κ α : Type*) where
  | connect (c : κ)
  | accept
  | ask (c : κ) (text : List α)
  | read (k : ℕ)
  | hangUp
  | receive (c : κ) (k : ℕ)
  | cut (c : κ)
  | leave (c : κ)

/-- What is to be seen of an event. -/
inductive Outcome (κ α : Type*) where
  | quiet
  | served (c : κ) (chunk sent : List α)
  | got (c : κ) (text : List α)

section Machine
variable {κ σ α : Type*} [DecidableEq κ]

def start (s : σ) : State κ σ α := ⟨some s, [], none, fun _ => .new⟩

namespace State

def setLink (s : State κ σ α) (c : κ) (l : Link α) : State κ σ α :=
  { s with link := Function.update s.link c l }

/-- The server's end of the connection to `c` is closed, and it can accept the next one. -/
def close (s : State κ σ α) (c : κ) : State κ σ α :=
  { s.setLink c { s.link c with closed := true } with active := none }

end State

variable (p : Protocol σ α)

/-- The server's side of one read. A reaction that is undefined ends the process. -/
def readStep (s : State κ σ α) (c : κ) (k : ℕ) : Outcome κ α × State κ σ α :=
  let l := s.link c
  match s.server with
  | none => (.quiet, s)
  | some σ₀ =>
    match p.react σ₀ (l.requests.take k) with
    | none => (.quiet, { s with server := none })
    | some r =>
      let s := { s with server := some r.next }.setLink c
        { l with requests := l.requests.drop k, replies := l.replies ++ r.sent }
      (.served c (l.requests.take k) r.sent, if r.stays then s else s.close c)

/-- One `recv` of a client that waits. -/
def receiveStep (s : State κ σ α) (c : κ) (k : ℕ) : Outcome κ α × State κ σ α :=
  let l := s.link c
  match l.stage with
  | .waiting buf =>
    let buf := buf ++ p.absorb (l.replies.take k)
    let l := { l with replies := l.replies.drop k }
    if p.complete buf then (.got c buf, s.setLink c { l with stage := .ready })
    else (.quiet, s.setLink c { l with stage := .waiting buf })
  | _ => (.quiet, s)

def eventStep (s : State κ σ α) : Event κ α → Outcome κ α × State κ σ α
  | .connect c => (.quiet, { s.setLink c { s.link c with stage := .waiting [] } with
      queue := s.queue ++ [c] })
  | .accept =>
    match s.queue with
    | [] => (.quiet, s)
    | c :: queue => (.quiet, { s.setLink c { s.link c with
        replies := (s.link c).replies ++ p.welcome } with queue, active := some c })
  | .ask c text => (.quiet, s.setLink c { s.link c with
      stage := .waiting [], requests := (s.link c).requests ++ p.line text })
  | .read k =>
    match s.active with
    | none => (.quiet, s)
    | some c => readStep p s c k
  | .hangUp =>
    match s.active with
    | none => (.quiet, s)
    | some c => (.quiet, s.close c)
  | .receive c k => receiveStep p s c k
  | .cut c => (.quiet, s.setLink c { s.link c with stage := .left })
  | .leave c => (.quiet, s.setLink c { s.link c with
      stage := .left, requests := (s.link c).requests ++ p.line p.farewell })

def Link.Waits {α : Type*} (l : Link α) : Prop := ∃ buf, l.stage = .waiting buf

/-- When an event can happen. -/
def Enabled (s : State κ σ α) : Event κ α → Prop
  | .connect c => s.server.isSome ∧ (s.link c).stage = .away
  | .accept => s.server.isSome ∧ s.active = none ∧ s.queue ≠ []
  | .ask c _ => (s.link c).stage = .ready
  | .read k => s.server.isSome ∧ ∃ c, s.active = some c ∧ 1 ≤ k ∧ k ≤ p.readSize ∧
      k ≤ (s.link c).requests.length
  | .hangUp => s.server.isSome ∧ ∃ c, s.active = some c ∧ (s.link c).stage = .left ∧
      (s.link c).requests = []
  | .receive c k => (s.link c).Waits ∧ 1 ≤ k ∧ k ≤ p.recvSize ∧ k ≤ (s.link c).replies.length
  | .cut c => (s.link c).Waits ∧ (s.link c).replies = [] ∧ ((s.link c).closed ∨ s.server = none)
  | .leave c => (s.link c).stage = .ready

instance {α : Type*} (l : Link α) : Decidable l.Waits :=
  match h : l.stage with
  | .waiting buf => isTrue ⟨buf, h⟩
  | .away => isFalse fun ⟨_, hb⟩ => by cases h.symm.trans hb
  | .ready => isFalse fun ⟨_, hb⟩ => by cases h.symm.trans hb
  | .left => isFalse fun ⟨_, hb⟩ => by cases h.symm.trans hb

instance [DecidableEq α] (s : State κ σ α) (e : Event κ α) : Decidable (Enabled p s e) :=
  match e with
  | .connect c => inferInstanceAs (Decidable (s.server.isSome ∧ (s.link c).stage = .away))
  | .accept => inferInstanceAs (Decidable (s.server.isSome ∧ s.active = none ∧ s.queue ≠ []))
  | .ask c _ => inferInstanceAs (Decidable ((s.link c).stage = .ready))
  | .read k => inferInstanceAs (Decidable (s.server.isSome ∧ ∃ c, c ∈ s.active ∧ 1 ≤ k ∧
      k ≤ p.readSize ∧ k ≤ (s.link c).requests.length))
  | .hangUp => inferInstanceAs (Decidable (s.server.isSome ∧ ∃ c, c ∈ s.active ∧
      (s.link c).stage = .left ∧ (s.link c).requests = []))
  | .receive c k => inferInstanceAs (Decidable ((s.link c).Waits ∧ 1 ≤ k ∧ k ≤ p.recvSize ∧
      k ≤ (s.link c).replies.length))
  | .cut c => decidable_of_iff ((s.link c).Waits ∧ (s.link c).replies = [] ∧
      ((s.link c).closed ∨ s.server.isNone)) (by rw [Option.isNone_iff_eq_none]; rfl)
  | .leave c => inferInstanceAs (Decidable ((s.link c).stage = .ready))

/-- Any number of clients, and a network that delivers in pieces of any size. -/
def machine : Machine (State κ σ α) (Event κ α) (Outcome κ α) where
  step s e := some (eventStep p s e)
  Allowed _ s e := Enabled p s e

/-- A client asks only what `Q` allows, and a read returns all that has been sent. -/
def Whole (Q : List α → Prop) (s : State κ σ α) : Event κ α → Prop
  | .ask _ text => Q text
  | .read k => ∀ c, s.active = some c → k = (s.link c).requests.length
  | _ => True

instance (Q : List α → Prop) [DecidablePred Q] (s : State κ σ α) (e : Event κ α) :
    Decidable (Whole Q s e) :=
  match e with
  | .ask _ text => inferInstanceAs (Decidable (Q text))
  | .read k => inferInstanceAs (Decidable (∀ c, c ∈ s.active → k = (s.link c).requests.length))
  | .connect _ | .accept | .hangUp | .receive _ _ | .cut _ | .leave _ => isTrue trivial

end Machine

/-! Histories, the latest event in front. -/

section Histories
variable {κ α : Type*} [DecidableEq κ]

abbrev History (κ α : Type*) := List (Event κ α × Outcome κ α)

/-- The line a client sends with an event. -/
def askedBy {σ : Type*} (p : Protocol σ α) (c : κ) : Event κ α × Outcome κ α → Option (List α)
  | (.ask d text, _) => if d = c then some (p.line text) else none
  | (.leave d, _) => if d = c then some (p.line p.farewell) else none
  | _ => none

def servedTo (c : κ) : Event κ α × Outcome κ α → Option (List α × List α)
  | (_, .served d chunk sent) => if d = c then some (chunk, sent) else none
  | _ => none

def gotBy (c : κ) : Event κ α × Outcome κ α → Option (List α)
  | (_, .got d text) => if d = c then some text else none
  | _ => none

def readOf : Event κ α × Outcome κ α → Option (κ × List α × List α)
  | (_, .served c chunk sent) => some (c, chunk, sent)
  | _ => none

/-- The lines `c` has sent, the first one in front. -/
def asked {σ : Type*} (p : Protocol σ α) (c : κ) (h : History κ α) : List (List α) :=
  h.reverse.filterMap (askedBy p c)

/-- What the server has read from `c`, and what it sent back each time. -/
def served (c : κ) (h : History κ α) : List (List α × List α) := h.reverse.filterMap (servedTo c)

/-- The complete replies `c` has collected. -/
def got (c : κ) (h : History κ α) : List (List α) := h.reverse.filterMap (gotBy c)

/-- All reads of the server, the latest in front. -/
def reads (h : History κ α) : List (κ × List α × List α) := h.filterMap readOf

theorem filterMap_reverse_cons {β γ : Type*} (f : β → Option γ) (x : β) (l : List β) :
    (x :: l).reverse.filterMap f = l.reverse.filterMap f ++ (f x).toList := by
  rw [List.reverse_cons, List.filterMap_append]
  cases hx : f x <;> simp [hx]

end Histories

/-! What the two programs owe each other. -/

section Invariant
variable {κ σ α : Type*} {p : Protocol σ α} {I : σ → Prop} {Q : List α → Prop}

/-- `t` arrives as it was sent, and looks complete at its end, if at all. -/
structure Final (p : Protocol σ α) (t : List α) (whole : Bool) : Prop where
  ends : ∀ u, u <+: t → (p.complete u = true ↔ u = t ∧ whole = true)
  intact : ∀ chunk, chunk <:+: t → p.absorb chunk = chunk

/-- Lines fit one read, and replies look complete just when the server goes on. -/
structure Sound (p : Protocol σ α) (I : σ → Prop) (Q : List α → Prop) : Prop where
  blank : p.complete [] = false
  welcome : Final p p.welcome true
  farewell : Q p.farewell
  line : ∀ text, Q text → p.line text ≠ [] ∧ (p.line text).length ≤ p.readSize
  recv : 1 ≤ p.recvSize
  react : ∀ s text r, I s → Q text → p.react s (p.line text) = some r →
    I r.next ∧ Final p r.sent r.stays

/-- The server without clients and streams. -/
def service (p : Protocol σ α) : Machine σ (List α) (List α) where
  step s chunk := (p.react s chunk).map fun r => (r.sent, r.next)
  Allowed _ _ _ := True

/-- How far a client and the server are with each other, by what the client asked, what the
server read from it and answered, and what it got. `here` is that the server talks to this client,
`inLine` that it has not been accepted, `gone` that the server has ended. -/
inductive Phase (p : Protocol σ α) (Q : List α → Prop) (here inLine gone : Prop) :
    Link α → List (List α) → List (List α × List α) → List (List α) → Prop
  | away (hh : ¬ here) (hl : ¬ inLine) : Phase p Q here inLine gone .new [] [] []
  | queued (hh : ¬ here) (hl : inLine) :
      Phase p Q here inLine gone ⟨.waiting [], [], [], false⟩ [] [] []
  | collecting {buf rest : List α} {whole : Bool} {lines texts : List (List α)}
      {pairs : List (List α × List α)} (hh : here ↔ whole = true) (hl : ¬ inLine)
      (hf : Final p (buf ++ rest) whole) (hb : p.complete buf = false)
      (hs : pairs.map Prod.fst = lines)
      (hg : texts ++ [buf ++ rest] = p.welcome :: pairs.map Prod.snd) :
      Phase p Q here inLine gone ⟨.waiting buf, [], rest, !whole⟩ lines pairs texts
  | pending {text : List α} {lines texts : List (List α)} {pairs : List (List α × List α)}
      (hh : here) (hl : ¬ inLine) (hq : Q text) (hs : pairs.map Prod.fst ++ [p.line text] = lines)
      (hg : texts = p.welcome :: pairs.map Prod.snd) :
      Phase p Q here inLine gone ⟨.waiting [], p.line text, [], false⟩ lines pairs texts
  | ready {lines texts : List (List α)} {pairs : List (List α × List α)} (hh : here)
      (hl : ¬ inLine) (hs : pairs.map Prod.fst = lines)
      (hg : texts = p.welcome :: pairs.map Prod.snd) :
      Phase p Q here inLine gone ⟨.ready, [], [], false⟩ lines pairs texts
  | left {requests replies : List α} {closed : Bool} {lines texts : List (List α)}
      {pairs : List (List α × List α)} (hl : inLine → gone)
      (hs : requests = [] ∧ pairs.map Prod.fst = lines ∨
        ∃ text, Q text ∧ requests = p.line text ∧ pairs.map Prod.fst ++ [p.line text] = lines)
      (hg : texts <+: p.welcome :: pairs.map Prod.snd) :
      Phase p Q here inLine gone ⟨.left, requests, replies, closed⟩ lines pairs texts

theorem Phase.imp {here inLine gone here' inLine' gone' : Prop} {l : Link α}
    {lines texts : List (List α)} {pairs : List (List α × List α)}
    (hp : Phase p Q here inLine gone l lines pairs texts) (hh : here ↔ here')
    (hl : inLine ↔ inLine') (hg : gone → gone') :
    Phase p Q here' inLine' gone' l lines pairs texts := by
  cases hp with
  | away h1 h2 => exact .away (hh.not.mp h1) (hl.not.mp h2)
  | queued h1 h2 => exact .queued (hh.not.mp h1) (hl.mp h2)
  | collecting h1 h2 hf hb hs hg' =>
    exact .collecting (hh.symm.trans h1) (hl.not.mp h2) hf hb hs hg'
  | pending h1 h2 hq hs hg' => exact .pending (hh.mp h1) (hl.not.mp h2) hq hs hg'
  | ready h1 h2 hs hg' => exact .ready (hh.mp h1) (hl.not.mp h2) hs hg'
  | left h1 hs hg' => exact .left (fun h => hg (h1 (hl.mpr h))) hs hg'

/-! What an event does to the phase of its client. -/

section Phases
variable {here inLine gone : Prop} {l : Link α} {lines texts : List (List α)}
  {pairs : List (List α × List α)}

theorem Phase.connect (hp : Phase p Q here inLine gone l lines pairs texts)
    (hl : l.stage = .away) : ¬ inLine ∧ ∀ inLine' : Prop, inLine' →
      Phase p Q here inLine' gone { l with stage := .waiting [] } lines pairs texts := by
  cases hp with
  | away h1 h2 => exact ⟨h2, fun _ hin => .queued h1 hin⟩
  | _ => cases hl

theorem Phase.accept (hp : Phase p Q here inLine gone l lines pairs texts) (hs : Sound p I Q)
    (hin : inLine) (hg : ¬ gone) : pairs = [] ∧ ∀ here' inLine' : Prop, here' → ¬ inLine' →
      Phase p Q here' inLine' gone { l with replies := l.replies ++ p.welcome } lines pairs
        texts := by
  cases hp with
  | queued h1 h2 =>
    refine ⟨rfl, fun here' inLine' hh hl => ?_⟩
    have hw : Final p ([] ++ p.welcome) true := hs.welcome
    exact .collecting (iff_of_true hh rfl) hl hw hs.blank rfl rfl
  | left h1 => exact absurd (h1 hin) hg
  | away h1 h2 => exact absurd hin h2
  | collecting h1 h2 => exact absurd hin h2
  | pending h1 h2 => exact absurd hin h2
  | ready h1 h2 => exact absurd hin h2

theorem Phase.ask (hp : Phase p Q here inLine gone l lines pairs texts) (hl : l.stage = .ready)
    {text : List α} (hq : Q text) : Phase p Q here inLine gone { l with
      stage := .waiting [], requests := l.requests ++ p.line text } (lines ++ [p.line text])
        pairs texts := by
  cases hp with
  | ready h1 h2 hs hg => exact .pending h1 h2 hq (by rw [hs]) hg
  | _ => cases hl

theorem Phase.leave (hp : Phase p Q here inLine gone l lines pairs texts) (hl : l.stage = .ready)
    (hs : Sound p I Q) : Phase p Q here inLine gone { l with
      stage := .left, requests := l.requests ++ p.line p.farewell } (lines ++ [p.line p.farewell])
        pairs texts := by
  cases hp with
  | ready h1 h2 hlines hg =>
    exact .left (fun hin => absurd hin h2) (.inr ⟨_, hs.farewell, rfl, by rw [hlines]⟩)
      (hg ▸ List.prefix_rfl)
  | _ => cases hl

/-- A line is read as a whole. -/
theorem Phase.read (hp : Phase p Q here inLine gone l lines pairs texts) (hs : Sound p I Q)
    (hh : here) (hne : l.requests ≠ []) : ∃ text, Q text ∧ l.requests = p.line text ∧
      ∀ (sent : List α) (stays : Bool) (here' : Prop), Final p sent stays →
        (here' ↔ stays = true) → Phase p Q here' inLine gone
          ⟨l.stage, [], l.replies ++ sent, if stays then l.closed else true⟩ lines
          (pairs ++ [(p.line text, sent)]) texts := by
  cases hp with
  | away h1 => exact absurd hh h1
  | queued h1 => exact absurd hh h1
  | collecting => exact absurd rfl hne
  | ready => exact absurd rfl hne
  | pending h1 h2 hq hlines hg =>
    refine ⟨_, hq, rfl, fun sent stays here' hf hstays => ?_⟩
    have hclosed : (if stays then false else true) = !stays := by cases stays <;> rfl
    rw [hclosed]
    have hsent : Final p ([] ++ sent) stays := hf
    refine .collecting hstays h2 hsent hs.blank ?_ ?_
    · rw [List.map_append]
      exact hlines
    · rw [hg, List.map_append]
      rfl
  | left h1 hlines hg =>
    rcases hlines with ⟨h0, -⟩ | ⟨text, hq, hreq, hlines⟩
    · exact absurd h0 hne
    · refine ⟨text, hq, hreq, fun sent stays here' hf hstays => ?_⟩
      refine .left h1 (.inl ⟨rfl, ?_⟩) ?_
      · rw [List.map_append]
        exact hlines
      · rw [List.map_append, ← List.cons_append]
        exact hg.trans (List.prefix_append _ _)

theorem Phase.hangUp (hp : Phase p Q here inLine gone l lines pairs texts)
    (hl : l.stage = .left) (here' : Prop) :
    Phase p Q here' inLine gone { l with closed := true } lines pairs texts := by
  cases hp with
  | left h1 hlines hg => exact .left h1 hlines hg
  | _ => cases hl

/-- Bytes are collected until the reply is there. -/
theorem Phase.receive (hp : Phase p Q here inLine gone l lines pairs texts) {k : ℕ}
    {buf : List α} (hl : l.stage = .waiting buf) (h1 : 1 ≤ k) (hk : k ≤ l.replies.length) :
    let buf' := buf ++ p.absorb (l.replies.take k)
    (p.complete buf' = true → Phase p Q here inLine gone
      { l with replies := l.replies.drop k, stage := .ready } lines pairs (texts ++ [buf'])) ∧
    (p.complete buf' = false → Phase p Q here inLine gone
      { l with replies := l.replies.drop k, stage := .waiting buf' } lines pairs texts) := by
  have hno : ¬ k ≤ ([] : List α).length := by
    rw [List.length_nil]
    omega
  cases hp with
  | queued => exact absurd hk hno
  | pending => exact absurd hk hno
  | away => cases hl
  | ready => cases hl
  | left => cases hl
  | @collecting buf₀ rest whole _ _ _ hh hin hf hb hs hg =>
    cases hl
    have hsplit : buf ++ rest.take k ++ rest.drop k = buf ++ rest := by
      rw [List.append_assoc, List.take_append_drop]
    have hchunk : p.absorb (rest.take k) = rest.take k := by
      apply hf.intact
      exact ⟨buf, rest.drop k, hsplit⟩
    simp only [hchunk]
    constructor
    · intro hc
      obtain ⟨hall, rfl⟩ := (hf.ends _ ⟨_, hsplit⟩).mp hc
      have hrest : rest.drop k = [] := by
        rw [hall] at hsplit
        exact List.append_right_eq_self.mp hsplit
      rw [hrest]
      exact .ready (hh.mpr rfl) hin hs (by rw [hall]; exact hg)
    · intro hc
      refine .collecting hh hin ?_ hc hs ?_
      · rw [hsplit]
        exact hf
      · rw [hsplit]
        exact hg

theorem Phase.cut (hp : Phase p Q here inLine gone l lines pairs texts) (hl : l.Waits)
    (hend : l.closed ∨ gone) :
    Phase p Q here inLine gone { l with stage := .left } lines pairs texts := by
  obtain ⟨buf, hl⟩ := hl
  cases hp with
  | away => cases hl
  | ready => cases hl
  | left => cases hl
  | queued =>
    have hgone := hend.resolve_left Bool.false_ne_true
    exact .left (fun _ => hgone) (.inl ⟨rfl, rfl⟩) List.nil_prefix
  | pending hh hin hq hs ht =>
    exact .left (fun h => absurd h hin) (.inr ⟨_, hq, rfl, hs⟩) (ht ▸ List.prefix_rfl)
  | collecting hh hin hf hb hs ht =>
    refine .left (fun h => absurd h hin) (.inl ⟨rfl, hs⟩) ?_
    rw [← ht]
    exact List.prefix_append _ _

theorem Phase.served_asked (hp : Phase p Q here inLine gone l lines pairs texts) :
    pairs.map Prod.fst <+: lines := by
  cases hp with
  | away => exact List.nil_prefix
  | queued => exact List.nil_prefix
  | collecting _ _ _ _ hs => exact hs ▸ List.prefix_rfl
  | pending _ _ _ hs => exact ⟨_, hs⟩
  | ready _ _ hs => exact hs ▸ List.prefix_rfl
  | left _ hs =>
    rcases hs with ⟨-, hs⟩ | ⟨_, -, -, hs⟩
    · exact hs ▸ List.prefix_rfl
    · exact ⟨_, hs⟩

theorem Phase.got_sent (hp : Phase p Q here inLine gone l lines pairs texts) :
    texts <+: p.welcome :: pairs.map Prod.snd := by
  cases hp with
  | away => exact List.nil_prefix
  | queued => exact List.nil_prefix
  | collecting _ _ _ _ _ hg => exact ⟨_, hg⟩
  | pending _ _ _ _ hg => exact hg ▸ List.prefix_rfl
  | ready _ _ _ hg => exact hg ▸ List.prefix_rfl
  | left _ _ hg => exact hg

theorem Phase.answered (hp : Phase p Q here inLine gone l lines pairs texts)
    (hl : l.stage = .ready) :
    pairs.map Prod.fst = lines ∧ texts = p.welcome :: pairs.map Prod.snd := by
  cases hp with
  | ready _ _ hs hg => exact ⟨hs, hg⟩
  | _ => cases hl

end Phases

/-- Once another client has been read from, the ones before do not come back. The latest is in
front. -/
def Grouped {β : Type*} (l : List β) : Prop :=
  ∀ l₁ l₂ c d, l = l₁ ++ c :: d :: l₂ → c ≠ d → c ∉ l₂

theorem Grouped.cons {β : Type*} {l : List β} {x : β} (hl : Grouped l)
    (hx : x ∈ l → l.head? = some x) : Grouped (x :: l) := by
  rintro l₁ l₂ c d he hne hc
  cases l₁ with
  | nil =>
    obtain ⟨rfl, rfl⟩ := List.cons.inj he
    have hhead := hx (List.mem_cons_of_mem _ hc)
    exact hne (Option.some.inj hhead).symm
  | cons y l₁ => exact hl l₁ l₂ c d (List.cons.inj he).2 hne hc

variable [DecidableEq κ] {s s' : State κ σ α} {h : History κ α} {c : κ} {s₀ : σ}
  {x : Event κ α × Outcome κ α}

/-- The invariant of every run in which reads return whole lines. -/
structure InStep (p : Protocol σ α) (I : σ → Prop) (Q : List α → Prop) (s₀ : σ) (h : History κ α)
    (s : State κ σ α) : Prop where
  nodup : s.queue.Nodup
  phase : ∀ c, Phase p Q (s.active = some c) (c ∈ s.queue) (s.server = none) (s.link c)
    (asked p c h) (served c h) (got c h)
  serves : ∃ t, (service p).Run s₀ ((reads h).map Prod.snd) t ∧ I t ∧
    ∀ t', s.server = some t' → t' = t
  grouped : Grouped ((reads h).map Prod.fst)
  latest : ∀ c, s.active = some c → c ∈ (reads h).map Prod.fst →
    ((reads h).map Prod.fst).head? = some c
  steady : ∀ c, (∀ x ∈ (served c h).dropLast, p.complete x.2 = true) ∧
    (s.active = some c → ∀ x ∈ served c h, p.complete x.2 = true)

/-- Nothing of the event concerns client `d`. -/
structure Elsewhere (p : Protocol σ α) (d : κ) (x : Event κ α × Outcome κ α)
    (s s' : State κ σ α) : Prop where
  link : s'.link d = s.link d
  active : s.active = some d ↔ s'.active = some d
  queue : d ∈ s.queue ↔ d ∈ s'.queue
  asked : askedBy p d x = none
  served : servedTo d x = none
  got : gotBy d x = none

/-- An event changes the phase of one client at most. -/
theorem InStep.phases (hi : InStep p I Q s₀ h s)
    (hother : ∀ d, d ≠ c → Elsewhere p d x s s') (hgone : s.server = none → s'.server = none)
    (hc : Phase p Q (s'.active = some c) (c ∈ s'.queue) (s'.server = none) (s'.link c)
      (asked p c h ++ (askedBy p c x).toList) (served c h ++ (servedTo c x).toList)
      (got c h ++ (gotBy c x).toList)) (d : κ) :
    Phase p Q (s'.active = some d) (d ∈ s'.queue) (s'.server = none) (s'.link d)
      (asked p d (x :: h)) (served d (x :: h)) (got d (x :: h)) := by
  unfold asked served got
  rw [filterMap_reverse_cons, filterMap_reverse_cons, filterMap_reverse_cons]
  by_cases hd : d = c
  · subst hd
    exact hc
  · have he := hother d hd
    rw [he.link, he.asked, he.served, he.got]
    simp only [Option.toList_none, List.append_nil]
    exact (hi.phase d).imp he.active he.queue hgone

theorem served_ne_nil (hc : c ∈ (reads h).map Prod.fst) : served c h ≠ [] := by
  obtain ⟨⟨d, chunk, sent⟩, hr, rfl⟩ := List.mem_map.mp hc
  obtain ⟨⟨e, o⟩, hx, ho⟩ := List.mem_filterMap.mp hr
  cases o with
  | quiet => cases ho
  | got d text => cases ho
  | served d chunk sent =>
    cases ho
    apply List.ne_nil_of_mem (a := (chunk, sent))
    exact List.mem_filterMap.mpr ⟨_, List.mem_reverse.mpr hx, if_pos rfl⟩

theorem start_inStep (hI : I s₀) : InStep p I Q s₀ [] (start s₀ : State κ σ α) where
  nodup := List.nodup_nil
  phase c := .away nofun List.not_mem_nil
  serves := ⟨s₀, .start, hI, fun t' ht => (Option.some.inj ht).symm⟩
  grouped := by
    intro l₁ l₂ c d he
    simp [reads] at he
  latest c hc := by simp [start] at hc
  steady c := ⟨List.forall_mem_nil _, fun _ => List.forall_mem_nil _⟩

theorem servedTo_of_unread (hx : readOf x = none) (c : κ) : servedTo c x = none := by
  obtain ⟨e, o⟩ := x
  cases o with
  | served => cases hx
  | _ => rfl

/-- An event that is no read leaves the service where it is. -/
theorem InStep.unread (hi : InStep p I Q s₀ h s) (hx : readOf x = none) (hnodup : s'.queue.Nodup)
    (hserver : ∀ t, s'.server = some t → s.server = some t)
    (hactive : ∀ c, s'.active = some c → s.active = some c ∨ served c h = [])
    (hphase : ∀ c, Phase p Q (s'.active = some c) (c ∈ s'.queue) (s'.server = none) (s'.link c)
      (asked p c (x :: h)) (served c (x :: h)) (got c (x :: h))) :
    InStep p I Q s₀ (x :: h) s' := by
  have hreads : reads (x :: h) = reads h := List.filterMap_cons_none hx
  have hserved : ∀ c, served c (x :: h) = served c h := by
    intro c
    unfold served
    rw [filterMap_reverse_cons, servedTo_of_unread hx, Option.toList_none, List.append_nil]
  constructor
  · exact hnodup
  · exact hphase
  · obtain ⟨t, hrun, hI, ht⟩ := hi.serves
    rw [hreads]
    exact ⟨t, hrun, hI, fun t' h' => ht t' (hserver t' h')⟩
  · rw [hreads]
    exact hi.grouped
  · intro c hc hmem
    rw [hreads] at hmem ⊢
    rcases hactive c hc with hc | hnone
    · exact hi.latest c hc hmem
    · exact absurd hnone (served_ne_nil hmem)
  · intro c
    rw [hserved]
    refine ⟨(hi.steady c).1, fun hc => ?_⟩
    rcases hactive c hc with hc | hnone
    · exact (hi.steady c).2 hc
    · rw [hnone]
      exact List.forall_mem_nil _

/-- The common case: an event that changes the link of one client. -/
theorem InStep.setLink (hi : InStep p I Q s₀ h s) {l : Link α} (hx : readOf x = none)
    (hother : ∀ d, d ≠ c → askedBy p d x = none ∧ gotBy d x = none)
    (hc : Phase p Q (s.active = some c) (c ∈ s.queue) (s.server = none) l
      (asked p c h ++ (askedBy p c x).toList) (served c h) (got c h ++ (gotBy c x).toList)) :
    InStep p I Q s₀ (x :: h) (s.setLink c l) := by
  refine hi.unread hx hi.nodup (fun t ht => ht) (fun d hd => .inl hd) (hi.phases (c := c) ?_ id ?_)
  · intro d hd
    obtain ⟨hask, hgot⟩ := hother d hd
    exact ⟨Function.update_of_ne hd _ _, Iff.rfl, Iff.rfl, hask, servedTo_of_unread hx d, hgot⟩
  · rw [servedTo_of_unread hx c, Option.toList_none, List.append_nil]
    change Phase p Q _ _ _ (Function.update s.link c l c) _ _ _
    rw [Function.update_self]
    exact hc

theorem elsewhere_update {l : Link α} {q : List κ} {a : Option κ} {t : Option σ} {d : κ}
    (hd : d ≠ c) (hact : s.active = some d ↔ a = some d) (hq : d ∈ s.queue ↔ d ∈ q)
    (hask : askedBy p d x = none) (hserved : servedTo d x = none) (hgot : gotBy d x = none) :
    Elsewhere p d x s ⟨t, q, a, Function.update s.link c l⟩ :=
  ⟨Function.update_of_ne hd _ _, hact, hq, hask, hserved, hgot⟩

theorem InStep.connect (hi : InStep p I Q s₀ h s) (hl : (s.link c).stage = .away) :
    InStep p I Q s₀ ((.connect c, .quiet) :: h) (eventStep p s (.connect c)).2 := by
  obtain ⟨hout, hnew⟩ := (hi.phase c).connect hl
  have hmem : ∀ d, d ≠ c → (d ∈ s.queue ↔ d ∈ s.queue ++ [c]) := by
    intro d hd
    simp [hd]
  refine hi.unread rfl ?_ (fun t ht => ht) (fun d hd => .inl hd)
    (hi.phases (c := c) (fun d hd => elsewhere_update hd Iff.rfl (hmem d hd) rfl rfl rfl) id ?_)
  · change (s.queue ++ [c]).Nodup
    rw [← List.concat_eq_append, List.nodup_concat]
    exact ⟨hout, hi.nodup⟩
  · change Phase p Q _ _ _ (Function.update s.link c _ c) (_ ++ []) (_ ++ []) (_ ++ [])
    rw [Function.update_self, List.append_nil, List.append_nil, List.append_nil]
    exact hnew _ (List.mem_append_right _ (List.mem_singleton_self c))

theorem InStep.accept (hi : InStep p I Q s₀ h s) (hs : Sound p I Q) (hup : s.server.isSome)
    (hfree : s.active = none) (hne : s.queue ≠ []) :
    InStep p I Q s₀ ((.accept, .quiet) :: h) (eventStep p s .accept).2 := by
  have hgone : ¬ s.server = none := Option.isSome_iff_ne_none.mp hup
  obtain ⟨c, queue, hq⟩ := List.exists_cons_of_ne_nil hne
  have hnodup := hi.nodup
  rw [hq, List.nodup_cons] at hnodup
  obtain ⟨hfresh, hnew⟩ := (hi.phase c).accept hs (hq ▸ List.mem_cons_self) hgone
  have hstep : (eventStep p s .accept).2 = ⟨s.server, queue, some c, Function.update s.link c
      { s.link c with replies := (s.link c).replies ++ p.welcome }⟩ := by
    unfold eventStep
    rw [hq]
    rfl
  have hmem : ∀ d, d ≠ c → (d ∈ s.queue ↔ d ∈ queue) := by
    intro d hd
    simp [hq, hd]
  have hact : ∀ d, d ≠ c → (s.active = some d ↔ some c = some d) := by
    intro d hd
    simp [hfree, hd.symm]
  rw [hstep]
  refine hi.unread rfl hnodup.2 (fun t ht => ht) ?_
    (hi.phases (c := c) (fun d hd => elsewhere_update hd (hact d hd) (hmem d hd) rfl rfl rfl)
      id ?_)
  · intro d hd
    obtain rfl := Option.some.inj hd
    exact .inr hfresh
  · change Phase p Q _ _ _ (Function.update s.link c _ c) (_ ++ []) (_ ++ []) (_ ++ [])
    rw [Function.update_self, List.append_nil, List.append_nil, List.append_nil]
    exact hnew _ _ rfl hnodup.1

theorem InStep.hangUp (hi : InStep p I Q s₀ h s) (hact : s.active = some c)
    (hl : (s.link c).stage = .left) :
    InStep p I Q s₀ ((.hangUp, .quiet) :: h) (eventStep p s .hangUp).2 := by
  have hstep : (eventStep p s .hangUp).2 = ⟨s.server, s.queue, none, Function.update s.link c
      { s.link c with closed := true }⟩ := by
    unfold eventStep
    rw [hact]
    rfl
  have hother : ∀ d, d ≠ c → (s.active = some d ↔ none = some d) := by
    intro d hd
    simp [hact, hd.symm]
  rw [hstep]
  refine hi.unread rfl hi.nodup (fun t ht => ht) nofun
    (hi.phases (c := c) (fun d hd => elsewhere_update hd (hother d hd) Iff.rfl rfl rfl rfl) id ?_)
  change Phase p Q _ _ _ (Function.update s.link c _ c) (_ ++ []) (_ ++ []) (_ ++ [])
  rw [Function.update_self, List.append_nil, List.append_nil, List.append_nil]
  exact (hi.phase c).hangUp hl _

theorem InStep.steady_read (hi : InStep p I Q s₀ h s) (hact : s.active = some c)
    {pair : List α × List α} (hself : servedTo c x = some pair)
    (hother : ∀ d, d ≠ c → servedTo d x = none) {a : Option κ}
    (ha : ∀ d, a = some d → d = c ∧ p.complete pair.2 = true) (d : κ) :
    (∀ y ∈ (served d (x :: h)).dropLast, p.complete y.2 = true) ∧
      (a = some d → ∀ y ∈ served d (x :: h), p.complete y.2 = true) := by
  have hnew : ∀ d, served d (x :: h) = served d h ++ (servedTo d x).toList := fun d =>
    filterMap_reverse_cons _ _ _
  rw [hnew]
  by_cases hd : d = c
  · subst hd
    rw [hself, Option.toList_some, List.dropLast_concat]
    refine ⟨(hi.steady d).2 hact, fun hd y hy => ?_⟩
    rcases List.mem_append.mp hy with hy | hy
    · exact (hi.steady d).2 hact y hy
    · rw [List.mem_singleton.mp hy]
      exact (ha d hd).2
  · rw [hother d hd, Option.toList_none, List.append_nil]
    exact ⟨(hi.steady d).1, fun hda => absurd (ha d hda).1 hd⟩

/-! A read of a whole line. -/

theorem readStep_none {t : σ} (hup : s.server = some t)
    (hr : p.react t (s.link c).requests = none) :
    readStep p s c (s.link c).requests.length = (.quiet, { s with server := none }) := by
  unfold readStep
  simp only [hup, List.take_length, hr]

/-- The server answers, and closes its end if it is done with the client. -/
theorem readStep_some {t : σ} {r : Reaction σ α} (hup : s.server = some t)
    (hr : p.react t (s.link c).requests = some r) :
    readStep p s c (s.link c).requests.length = (.served c (s.link c).requests r.sent,
      ⟨some r.next, s.queue, if r.stays then s.active else none, Function.update s.link c
        ⟨(s.link c).stage, [], (s.link c).replies ++ r.sent,
          if r.stays then (s.link c).closed else true⟩⟩) := by
  unfold readStep
  simp only [hup, List.take_length, List.drop_length, hr]
  cases r.stays with
  | true => rfl
  | false =>
    simp only [Bool.false_eq_true, if_false, State.close, State.setLink, Function.update_idem,
      Function.update_self]

/-- A reaction that is undefined ends the server. -/
theorem InStep.ended (hi : InStep p I Q s₀ h s) (c : κ) (k : ℕ) :
    InStep p I Q s₀ ((.read k, .quiet) :: h) { s with server := none } := by
  refine hi.unread rfl hi.nodup nofun (fun d hd => .inl hd) (hi.phases (c := c)
    (fun d hd => ⟨rfl, Iff.rfl, Iff.rfl, rfl, rfl, rfl⟩) (fun _ => rfl) ?_)
  change Phase p Q _ _ _ _ (_ ++ []) (_ ++ []) (_ ++ [])
  rw [List.append_nil, List.append_nil, List.append_nil]
  exact (hi.phase c).imp Iff.rfl Iff.rfl fun _ => rfl

/-- A reaction is a call of the service. -/
theorem InStep.reacts (hi : InStep p I Q s₀ h s) {t : σ} {r : Reaction σ α}
    (hup : s.server = some t) (hact : s.active = some c)
    (hr : p.react t (s.link c).requests = some r) (hI : I r.next) (hf : Final p r.sent r.stays)
    {a : Option κ} (ha : a = if r.stays then s.active else none) {l : Link α} {k : ℕ}
    (hc : Phase p Q (a = some c) (c ∈ s.queue) (some r.next = none) l (asked p c h)
      (served c h ++ [((s.link c).requests, r.sent)]) (got c h)) :
    InStep p I Q s₀ ((.read k, .served c (s.link c).requests r.sent) :: h)
      ⟨some r.next, s.queue, a, Function.update s.link c l⟩ := by
  have honly : ∀ d, a = some d → d = c ∧ r.stays = true := by
    intro d hd
    rw [ha, hact] at hd
    cases hstays : r.stays with
    | true =>
      rw [hstays, if_pos rfl] at hd
      exact ⟨(Option.some.inj hd).symm, rfl⟩
    | false =>
      rw [hstays, if_neg Bool.false_ne_true] at hd
      cases hd
  have hother : ∀ d, d ≠ c → (s.active = some d ↔ a = some d) := by
    intro d hd
    rw [hact, Option.some.injEq]
    exact iff_of_false hd.symm fun had => hd (honly d had).1
  have hself : servedTo c (Event.read k, Outcome.served c (s.link c).requests r.sent) =
      some ((s.link c).requests, r.sent) := if_pos rfl
  have hnone : ∀ d, d ≠ c →
      servedTo d (Event.read k, Outcome.served c (s.link c).requests r.sent) = none :=
    fun d hd => if_neg hd.symm
  obtain ⟨t', hrun, -, ht⟩ := hi.serves
  obtain rfl := ht t hup
  constructor
  · exact hi.nodup
  · refine hi.phases (c := c) (fun d hd => elsewhere_update hd (hother d hd) Iff.rfl rfl
      (hnone d hd) rfl) (fun h0 => by rw [hup] at h0; cases h0) ?_
    rw [hself, Option.toList_some]
    change Phase p Q _ _ _ (Function.update s.link c _ c) (_ ++ []) _ (_ ++ [])
    rw [Function.update_self, List.append_nil, List.append_nil]
    exact hc
  · refine ⟨r.next, hrun.call trivial ?_, hI, fun u hu => (Option.some.inj hu).symm⟩
    change (p.react t _).map _ = _
    rw [hr]
    rfl
  · exact hi.grouped.cons (hi.latest c hact)
  · intro d hd _
    rw [(honly d hd).1]
    rfl
  · intro d
    refine hi.steady_read hact hself hnone (fun d hd => ?_) d
    obtain ⟨hdc, hstays⟩ := honly d hd
    exact ⟨hdc, (hf.ends r.sent List.prefix_rfl).mpr ⟨rfl, hstays⟩⟩

theorem InStep.read (hi : InStep p I Q s₀ h s) (hs : Sound p I Q) {t : σ}
    (hup : s.server = some t) (hact : s.active = some c) (hpos : 1 ≤ (s.link c).requests.length) :
    InStep p I Q s₀ ((.read (s.link c).requests.length,
        (readStep p s c (s.link c).requests.length).1) :: h)
      (readStep p s c (s.link c).requests.length).2 := by
  have hne : (s.link c).requests ≠ [] := List.ne_nil_of_length_pos hpos
  obtain ⟨text, hq, hreq, hnew⟩ := (hi.phase c).read hs hact hne
  obtain ⟨t', -, hI, ht⟩ := hi.serves
  obtain rfl := ht t hup
  cases hr : p.react t (s.link c).requests with
  | none =>
    rw [readStep_none hup hr]
    exact hi.ended c _
  | some r =>
    obtain ⟨hI', hf⟩ := hs.react t text r hI hq (hreq ▸ hr)
    have hhere : (if r.stays then s.active else none) = some c ↔ r.stays = true := by
      cases r.stays <;> simp [hact]
    have hphase := hnew r.sent r.stays _ hf hhere
    rw [← hreq] at hphase
    rw [readStep_some hup hr]
    exact hi.reacts hup hact hr hI' hf rfl
      (hphase.imp Iff.rfl Iff.rfl fun h0 => by rw [hup] at h0; cases h0)

/-- What happens at the client alone. -/
theorem InStep.receive (hi : InStep p I Q s₀ h s) {k : ℕ} (hl : (s.link c).Waits) (h1 : 1 ≤ k)
    (hk : k ≤ (s.link c).replies.length) :
    InStep p I Q s₀ ((.receive c k, (receiveStep p s c k).1) :: h) (receiveStep p s c k).2 := by
  obtain ⟨buf, hbuf⟩ := hl
  obtain ⟨hready, hmore⟩ := (hi.phase c).receive hbuf h1 hk
  unfold receiveStep
  simp only [hbuf]
  split_ifs with hc
  · refine hi.setLink (c := c) rfl (fun d hd => ⟨rfl, if_neg hd.symm⟩) ?_
    rw [show gotBy c (Event.receive c k, Outcome.got c _) = some _ from if_pos rfl]
    change Phase p Q _ _ _ _ (_ ++ []) _ (_ ++ [_])
    rw [List.append_nil]
    exact hready hc
  · refine hi.setLink (c := c) rfl (fun d hd => ⟨rfl, rfl⟩) ?_
    change Phase p Q _ _ _ _ (_ ++ []) _ (_ ++ [])
    rw [List.append_nil, List.append_nil]
    exact hmore (Bool.eq_false_iff.mpr hc)

theorem InStep.cut (hi : InStep p I Q s₀ h s) (hl : (s.link c).Waits)
    (hend : (s.link c).closed ∨ s.server = none) :
    InStep p I Q s₀ ((.cut c, .quiet) :: h) (eventStep p s (.cut c)).2 := by
  refine hi.setLink (c := c) rfl (fun d _ => ⟨rfl, rfl⟩) ?_
  change Phase p Q _ _ _ _ (_ ++ []) _ (_ ++ [])
  rw [List.append_nil, List.append_nil]
  exact (hi.phase c).cut hl hend

theorem InStep.ask (hi : InStep p I Q s₀ h s) (hl : (s.link c).stage = .ready) {text : List α}
    (hq : Q text) :
    InStep p I Q s₀ ((.ask c text, .quiet) :: h) (eventStep p s (.ask c text)).2 := by
  refine hi.setLink (c := c) rfl (fun d hd => ⟨if_neg hd.symm, rfl⟩) ?_
  rw [show askedBy p c (Event.ask c text, Outcome.quiet) = some (p.line text) from if_pos rfl]
  change Phase p Q _ _ _ _ (_ ++ [_]) _ (_ ++ [])
  rw [List.append_nil]
  exact (hi.phase c).ask hl hq

theorem InStep.leave (hi : InStep p I Q s₀ h s) (hs : Sound p I Q)
    (hl : (s.link c).stage = .ready) :
    InStep p I Q s₀ ((.leave c, .quiet) :: h) (eventStep p s (.leave c)).2 := by
  refine hi.setLink (c := c) rfl (fun d hd => ⟨if_neg hd.symm, rfl⟩) ?_
  rw [show askedBy p c (Event.leave c, Outcome.quiet) = some (p.line p.farewell) from if_pos rfl]
  change Phase p Q _ _ _ _ (_ ++ [_]) _ (_ ++ [])
  rw [List.append_nil]
  exact (hi.phase c).leave hl hs

theorem inStep_preserved (hs : Sound p I Q) :
    ((machine p).restrict (Whole Q)).Preserves (fun h (s : State κ σ α) => InStep p I Q s₀ h s)
      := by
  rintro h s e o s' hi ⟨hen, hw⟩ hstep
  have hstep : eventStep p s e = (o, s') := Option.some.inj hstep
  obtain rfl : (eventStep p s e).1 = o := congrArg Prod.fst hstep
  obtain rfl : (eventStep p s e).2 = s' := congrArg Prod.snd hstep
  cases e with
  | connect c => exact hi.connect hen.2
  | accept =>
    have hquiet : (eventStep p s .accept).1 = .quiet := by
      unfold eventStep
      cases s.queue <;> rfl
    rw [hquiet]
    exact hi.accept hs hen.1 hen.2.1 hen.2.2
  | ask c text => exact hi.ask hen hw
  | read k =>
    obtain ⟨hup, c, hact, h1, -, -⟩ := hen
    obtain ⟨t, hup⟩ := Option.isSome_iff_exists.mp hup
    obtain rfl := hw c hact
    have hread : eventStep p s (.read (s.link c).requests.length) =
        readStep p s c (s.link c).requests.length := by
      unfold eventStep
      rw [hact]
    rw [hread]
    exact hi.read hs hup hact h1
  | hangUp =>
    obtain ⟨-, c, hact, hl, -⟩ := hen
    have hquiet : (eventStep p s .hangUp).1 = .quiet := by
      unfold eventStep
      rw [hact]
    rw [hquiet]
    exact hi.hangUp hact hl
  | receive c k => exact hi.receive hen.1 hen.2.1 hen.2.2.2
  | cut c => exact hi.cut hen.1 hen.2.2
  | leave c => exact hi.leave hs hen

/-! What the invariant says about a run. -/

theorem run_inStep (hs : Sound p I Q) (hI : I s₀)
    (hr : ((machine p).restrict (Whole Q)).Run (start s₀) h s) : InStep p I Q s₀ h s :=
  hr.preserved (inStep_preserved hs) (start_inStep hI)

theorem InStep.served_asked (hi : InStep p I Q s₀ h s) (c : κ) :
    (served c h).map Prod.fst <+: asked p c h := (hi.phase c).served_asked

theorem InStep.got_sent (hi : InStep p I Q s₀ h s) (c : κ) :
    got c h <+: p.welcome :: (served c h).map Prod.snd := (hi.phase c).got_sent

/-! The reads from one client stand together. -/

theorem grouped_split {β : Type*} {f : β → κ} {l : List β} (hg : Grouped (l.map f)) (c : κ) :
    ∃ l₁ l₂ l₃, l = l₁ ++ l₂ ++ l₃ ∧ (∀ x ∈ l₁, f x ≠ c) ∧ (∀ x ∈ l₂, f x = c) ∧
      ∀ x ∈ l₃, f x ≠ c := by
  induction l with
  | nil =>
    exact ⟨[], [], [], rfl, List.forall_mem_nil _, List.forall_mem_nil _, List.forall_mem_nil _⟩
  | cons x l ih =>
    have htail : Grouped (l.map f) := by
      intro l₁ l₂ c d he
      exact hg (f x :: l₁) l₂ c d (by rw [List.map_cons, he]; rfl)
    obtain ⟨l₁, l₂, l₃, rfl, h₁, h₂, h₃⟩ := ih htail
    by_cases hx : f x = c
    · cases l₁ with
      | nil => exact ⟨[], x :: l₂, l₃, rfl, List.forall_mem_nil _,
          List.forall_mem_cons.mpr ⟨hx, h₂⟩, h₃⟩
      | cons y l₁ =>
        have hy : f y ≠ c := h₁ y List.mem_cons_self
        refine ⟨[], [x], y :: l₁ ++ l₂ ++ l₃, rfl, List.forall_mem_nil _,
          List.forall_mem_singleton.mpr hx, List.forall_mem_cons.mpr ⟨hy, fun z hz hc => ?_⟩⟩
        have hfar := hg [] ((l₁ ++ l₂ ++ l₃).map f) (f x) (f y) rfl (hx ▸ hy.symm)
        exact hfar (List.mem_map.mpr ⟨z, hz, hc.trans hx.symm⟩)
    · exact ⟨x :: l₁, l₂, l₃, rfl, List.forall_mem_cons.mpr ⟨hx, h₁⟩, h₂, h₃⟩

theorem service_append {l l' : List (List α × List α)} {t : σ}
    (hr : (service p).Run s₀ (l' ++ l) t) :
    ∃ t', (service p).Run s₀ l t' ∧ (service p).Run t' l' t := by
  induction l' generalizing t with
  | nil => exact ⟨t, hr, .start⟩
  | cons x l' ih =>
    cases hr with
    | call hr _ hstep =>
      obtain ⟨t', h₁, h₂⟩ := ih hr
      exact ⟨t', h₁, h₂.call trivial hstep⟩

theorem served_eq (c : κ) (h : History κ α) : served c h =
    (reads h).reverse.filterMap fun y => if y.1 = c then some y.2 else none := by
  unfold served reads
  rw [← List.filterMap_reverse, List.filterMap_filterMap]
  congr 1
  funext x
  obtain ⟨e, o⟩ := x
  cases o <;> rfl

/-- All that passes between the server and one client is a run of the service of its own, and only
the last reply can be one that ends it. -/
theorem InStep.session (hi : InStep p I Q s₀ h s) (c : κ) :
    (∃ t₁ t₂, (service p).Run t₁ (served c h).reverse t₂) ∧
      ∀ x ∈ (served c h).dropLast, p.complete x.2 = true := by
  obtain ⟨t, hrun, -⟩ := hi.serves
  obtain ⟨l₁, l₂, l₃, hl, h₁, h₂, h₃⟩ := grouped_split hi.grouped c
  have hnone : ∀ l : List (κ × List α × List α), (∀ x ∈ l, x.1 ≠ c) →
      l.filterMap (fun y => if y.1 = c then some y.2 else none) = [] :=
    fun l hl => List.filterMap_eq_nil_iff.mpr fun x hx => if_neg (hl x hx)
  have hall : ∀ l : List (κ × List α × List α), (∀ x ∈ l, x.1 = c) →
      l.filterMap (fun y => if y.1 = c then some y.2 else none) = l.map Prod.snd := by
    intro l hl
    rw [← List.filterMap_eq_map]
    exact List.filterMap_congr fun x hx => if_pos (hl x hx)
  have hserved : (served c h).reverse = l₂.map Prod.snd := by
    rw [served_eq, ← List.filterMap_reverse, List.reverse_reverse, hl, List.filterMap_append,
      List.filterMap_append, hnone l₁ h₁, hall l₂ h₂, hnone l₃ h₃]
    simp
  refine ⟨?_, (hi.steady c).1⟩
  rw [hl, List.append_assoc, List.map_append, List.map_append] at hrun
  obtain ⟨t₂, hrun, -⟩ := service_append hrun
  obtain ⟨t₁, -, hrun⟩ := service_append hrun
  rw [hserved]
  exact ⟨t₁, t₂, hrun⟩

/-- A client that can ask has had an answer to each of its lines. -/
theorem InStep.answered (hi : InStep p I Q s₀ h s) (hl : (s.link c).stage = .ready) :
    (served c h).map Prod.fst = asked p c h ∧
      got c h = p.welcome :: (served c h).map Prod.snd := (hi.phase c).answered hl

/-- An event that needs no client's decision. -/
def Driven : Event κ α → Prop
  | .connect _ | .ask _ _ | .leave _ => False
  | _ => True

theorem Final.more {buf rest : List α} (hf : Final p (buf ++ rest) true)
    (hb : p.complete buf = false) : 1 ≤ rest.length := by
  apply List.length_pos_of_ne_nil
  rintro rfl
  rw [List.append_nil] at hf
  rw [(hf.ends buf List.prefix_rfl).mpr ⟨rfl, rfl⟩] at hb
  cases hb

/-- The server and its client do not wait for each other. -/
theorem InStep.active_progress (hi : InStep p I Q s₀ h s) (hs : Sound p I Q)
    (hup : s.server.isSome) (hact : s.active = some c) :
    (∃ e, Driven e ∧ Enabled p s e ∧ Whole Q s e) ∨ (s.link c).stage = .ready := by
  have hread : 1 ≤ (s.link c).requests.length → (s.link c).requests.length ≤ p.readSize →
      ∃ e, Driven e ∧ Enabled p s e ∧ Whole Q s e := by
    intro h1 hle
    refine ⟨.read (s.link c).requests.length, trivial, ⟨hup, c, hact, h1, hle, le_rfl⟩, ?_⟩
    intro d hd
    obtain rfl := Option.some.inj (hact.symm.trans hd)
    rfl
  have hp := hi.phase c
  generalize hl : s.link c = l, asked p c h = lines, served c h = pairs, got c h = texts
    at hp hread
  cases hp with
  | away h1 => exact absurd hact h1
  | queued h1 => exact absurd hact h1
  | @collecting buf rest whole _ _ _ hh _ hf hb =>
    obtain rfl := hh.mp hact
    refine .inl ⟨.receive c 1, trivial, ⟨?_, le_rfl, hs.recv, ?_⟩, trivial⟩
    · exact ⟨buf, by rw [hl]⟩
    · rw [hl]
      exact hf.more hb
  | pending _ _ hq =>
    obtain ⟨hne, hle⟩ := hs.line _ hq
    exact .inl (hread (List.length_pos_of_ne_nil hne) hle)
  | ready => exact .inr rfl
  | left _ hreq =>
    rcases hreq with ⟨rfl, -⟩ | ⟨text, hq, rfl, -⟩
    · exact .inl ⟨.hangUp, trivial, ⟨hup, c, hact, by rw [hl], by rw [hl]⟩, trivial⟩
    · obtain ⟨hne, hle⟩ := hs.line _ hq
      exact .inl (hread (List.length_pos_of_ne_nil hne) hle)

/-- While a client waits, the server or the network has something to do, unless the server waits
for the client it talks to. -/
theorem InStep.progress (hi : InStep p I Q s₀ h s) (hs : Sound p I Q) (hl : (s.link c).Waits) :
    (∃ e, Driven e ∧ Enabled p s e ∧ Whole Q s e) ∨
      ∃ d, s.active = some d ∧ (s.link d).stage = .ready := by
  have hcut : (s.link c).replies = [] → (s.link c).closed ∨ s.server = none →
      ∃ e : Event κ α, Driven e ∧ Enabled p s e ∧ Whole Q s e :=
    fun hnone hend => ⟨.cut c, trivial, ⟨hl, hnone, hend⟩, trivial⟩
  have hserve : ∀ d, s.server.isSome → s.active = some d →
      (∃ e, Driven e ∧ Enabled p s e ∧ Whole Q s e) ∨
        ∃ d, s.active = some d ∧ (s.link d).stage = .ready :=
    fun d hup hact => (hi.active_progress hs hup hact).imp id fun hd => ⟨d, hact, hd⟩
  have hp := hi.phase c
  generalize hc : s.link c = l, asked p c h = lines, served c h = pairs, got c h = texts
    at hp hl hcut
  obtain ⟨buf, hl⟩ := hl
  cases hp with
  | away => cases hl
  | ready => cases hl
  | left => cases hl
  | queued _ hin =>
    rcases Option.eq_none_or_eq_some s.server with hgone | ⟨t, hup⟩
    · exact .inl (hcut rfl (.inr hgone))
    · have hup : s.server.isSome := by rw [hup]; rfl
      rcases Option.eq_none_or_eq_some s.active with hfree | ⟨d, hact⟩
      · have hne : s.queue ≠ [] := List.ne_nil_of_mem hin
        exact .inl ⟨.accept, trivial, ⟨hup, hfree, hne⟩, trivial⟩
      · exact hserve d hup hact
  | pending hact =>
    rcases Option.eq_none_or_eq_some s.server with hgone | ⟨t, hup⟩
    · exact .inl (hcut rfl (.inr hgone))
    · exact hserve c (by rw [hup]; rfl) hact
  | @collecting _ rest whole _ _ _ hh _ hf hb =>
    rcases Nat.eq_zero_or_pos rest.length with hnone | hpos
    · cases whole with
      | true => exact absurd (hf.more hb) (by omega)
      | false => exact .inl (hcut (List.length_eq_zero_iff.mp hnone) (.inl rfl))
    · refine .inl ⟨.receive c 1, trivial, ⟨?_, le_rfl, hs.recv, ?_⟩, trivial⟩
      · exact ⟨_, by rw [hc]⟩
      · rw [hc]
        exact hpos

end Invariant
end Dialogue
