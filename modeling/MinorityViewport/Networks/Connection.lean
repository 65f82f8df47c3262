import Mathlib.Data.Bool.AllAny
import MinorityViewport.Networks.RequestAcceptance
import MinorityViewport.Networks.ReplyText

/-!
# A connection

`Networks/Connection.cpp`.  A connection starts an asynchronous operation and
gets its completion later: it reads until the parser has decided, calls the
handler or takes a stock reply, writes the reply, and shuts its socket down.
`complete` is the handler of a completion, and `Run` is a run of a connection
over the completions that it gets.  How the bytes of the client are cut into
reads, and which operation fails, is up to the run.

A connection calls the handler at most once (`served_of_run`), so a handler is
a function here; what it does to the server is in `serverHandler`.

* `Answer` says what the bytes of a client are answered with, in terms of the
  grammar, and `served_of_run` that every run of a connection keeps to it.
* `sent_unique` says that the reply depends on the bytes and not on their
  pieces.
* `exchange` goes from the bytes of a request to what the client reads.
-/

namespace MinorityViewport.Http

open Exec Viewport RequestParser
open Scanner (scan)

namespace Connection

/-! ## Completions -/

/-- The operation that has not completed yet. -/
inductive Waiting where
  | read
  | write
  | nothing
  deriving DecidableEq, Repr

inductive Completion where
  /-- The bytes that were read, or an error. -/
  | read (result : Option Str)
  | write (ok : Bool)

inductive Action where
  | handle (req : Message)
  | send (bytes : Str)
  | shutdown

/-- How a completion ends when its handler does not return. -/
inductive Stop where
  | handler (fault : Fault)
  | parser (verdict : Verdict)

end Connection

structure Connection where
  parser : Parser
  waiting : Connection.Waiting

namespace Connection

/-- `connection::start`. -/
def start : Connection := ⟨fresh, .read⟩

/-- `connection::handle_read`. -/
def handleRead (handler : Message → Except Fault Reply) (c : Connection) :
    Option Str → Except Stop (Connection × List Action)
  | none => .ok (⟨c.parser, .nothing⟩, [])
  | some buffer =>
    match parse c.parser buffer with
    | .ended p .accepted _ =>
      match handler p.req with
      | .ok reply => .ok (⟨p, .write⟩, [.handle p.req, .send reply.bytes])
      | .error fault => .error (.handler fault)
    | .ended p .refused _ => .ok (⟨p, .write⟩, [.send (stockReply .badRequest).bytes])
    | .ended _ verdict _ => .error (.parser verdict)
    | .pending p => .ok (⟨p, .read⟩, [])

/-- `connection::handle_write`. -/
def handleWrite (c : Connection) (ok : Bool) : Connection × List Action :=
  (⟨c.parser, .nothing⟩, if ok then [.shutdown] else [])

/-- The handler of a completion.  Only the operation that the connection
waits for can complete. -/
def complete (handler : Message → Except Fault Reply) (c : Connection) :
    Completion → Option (Except Stop (Connection × List Action))
  | .read result => if c.waiting = .read then some (handleRead handler c result) else none
  | .write ok => if c.waiting = .write then some (.ok (handleWrite c ok)) else none

/-- A run of a connection, with the bytes that it has received and the
actions that it has taken. -/
inductive Run (handler : Message → Except Fault Reply) : Str → List Action → Connection → Prop
  | start : Run handler [] [] start
  | read {received : Str} {actions actions' : List Action} {c c' : Connection} {result : Option Str}
      (run : Run handler received actions c)
      (step : complete handler c (.read result) = some (.ok (c', actions'))) :
      Run handler (received ++ result.getD []) (actions ++ actions') c'
  | write {received : Str} {actions actions' : List Action} {c c' : Connection} {ok : Bool}
      (run : Run handler received actions c)
      (step : complete handler c (.write ok) = some (.ok (c', actions'))) :
      Run handler received (actions ++ actions') c'

/-! ## Answers -/

/-- What a text is answered with. -/
inductive Answer (handler : Message → Except Fault Reply) (received : Str) :
    List Action → Prop
  | request (t : RequestText) (rest : Str) {reply : Reply} (text : received = t.print ++ rest)
      (handled : handler t.message = .ok reply) :
      Answer handler received [.handle t.message, .send reply.bytes]
  | refused {text rest : Str} {c : Char} (split : received = text ++ c :: rest)
      (unfinished : Unfinished text)
      (dead : ∀ (t : RequestText) (more : Str), text ++ c :: more ≠ t.print) :
      Answer handler received [.send (stockReply .badRequest).bytes]

/-- What a connection has done with the bytes that it has received. -/
def Served (handler : Message → Except Fault Reply) (received : Str) (actions : List Action)
    (c : Connection) : Prop :=
  match c.waiting with
  | .read => actions = [] ∧ scan consume fresh received = .pending c.parser
  | .write => Answer handler received actions
  | .nothing =>
    actions = [] ∧ Unfinished received ∨ Answer handler received actions ∨
      ∃ answer, Answer handler received answer ∧ actions = answer ++ [.shutdown]

variable {handler : Message → Except Fault Reply}

theorem served_start : Served handler [] [] start := ⟨rfl, rfl⟩

theorem complete_read_iff {c : Connection} {result : Option Str}
    {outcome : Except Stop (Connection × List Action)} :
    complete handler c (.read result) = some outcome ↔
      c.waiting = .read ∧ handleRead handler c result = outcome := by
  rw [complete]
  split_ifs with h
  · rw [and_iff_right h, Option.some.injEq]
  · exact iff_of_false (fun h' => by cases h') fun h' => h h'.1

theorem complete_write_iff {c : Connection} {ok : Bool}
    {outcome : Except Stop (Connection × List Action)} :
    complete handler c (.write ok) = some outcome ↔
      c.waiting = .write ∧ .ok (handleWrite c ok) = outcome := by
  rw [complete]
  split_ifs with h
  · rw [and_iff_right h, Option.some.injEq]
  · exact iff_of_false (fun h' => by cases h') fun h' => h h'.1

theorem served_read {received : Str} {actions actions' : List Action} {c c' : Connection}
    {result : Option Str} (h : Served handler received actions c)
    (step : complete handler c (.read result) = some (.ok (c', actions'))) :
    Served handler (received ++ result.getD []) (actions ++ actions') c' := by
  obtain ⟨hwaiting, hread⟩ := complete_read_iff.mp step
  simp only [Served, hwaiting] at h
  obtain ⟨rfl, hscan⟩ := h
  cases result with
  | none =>
    cases hread
    refine Or.inl ⟨rfl, ?_⟩
    rw [Option.getD_none, List.append_nil]
    exact scan_pending_iff.mp ⟨_, hscan⟩
  | some buffer =>
    have htotal : scan consume fresh (received ++ buffer) = parse c.parser buffer := by
      rw [Scanner.scan_append, hscan]
      rfl
    rw [handleRead] at hread
    show Served handler (received ++ buffer) actions' c'
    cases hparse : parse c.parser buffer with
    | pending p =>
      rw [hparse] at hread htotal
      cases hread
      exact ⟨rfl, htotal⟩
    | ended p verdict rest =>
      rw [hparse] at hread htotal
      cases verdict with
      | accepted =>
        obtain ⟨t, htext, rfl⟩ := scan_eq_accepted_iff.mp htotal
        cases hhandler : handler t.message with
        | ok reply =>
          simp only [hhandler] at hread
          cases hread
          exact .request t rest htext hhandler
        | error fault =>
          simp only [hhandler] at hread
          cases hread
      | refused =>
        cases hread
        obtain ⟨text, b, hsplit, hunfinished, hdead⟩ :=
          scan_notAccepted_iff.mp ⟨p, _, htotal, by decide⟩
        exact .refused hsplit hunfinished hdead
      | overflow | unassignedVersion | emptyBack => cases hread

theorem served_write {received : Str} {actions actions' : List Action} {c c' : Connection}
    {ok : Bool} (h : Served handler received actions c)
    (step : complete handler c (.write ok) = some (.ok (c', actions'))) :
    Served handler received (actions ++ actions') c' := by
  obtain ⟨hwaiting, hwrite⟩ := complete_write_iff.mp step
  simp only [Served, hwaiting] at h
  cases hwrite
  cases ok with
  | true => exact Or.inr (Or.inr ⟨actions, h, rfl⟩)
  | false => exact Or.inr (Or.inl (by simpa using h))

/-- Every run keeps to the answer. -/
theorem served_of_run {received : Str} {actions : List Action} {c : Connection}
    (run : Run handler received actions c) : Served handler received actions c := by
  induction run with
  | start => exact served_start
  | read _ step ih => exact served_read ih step
  | write _ step ih => exact served_write ih step

theorem actions_of_served {received : Str} {actions : List Action} {c : Connection}
    (h : Served handler received actions c) :
    (actions = [] ∧ Unfinished received ∧ c.waiting ≠ .write) ∨
      ∃ answer, Answer handler received answer ∧ c.waiting ≠ .read ∧
        (actions = answer ∨ c.waiting = .nothing ∧ actions = answer ++ [.shutdown]) := by
  unfold Served at h
  split at h
  · next hwaiting =>
    exact Or.inl ⟨h.1, scan_pending_iff.mp ⟨_, h.2⟩, by rw [hwaiting]; decide⟩
  · next hwaiting => exact Or.inr ⟨actions, h, by rw [hwaiting]; decide, Or.inl rfl⟩
  · next hwaiting =>
    have hread : c.waiting ≠ .read := by rw [hwaiting]; decide
    rcases h with ⟨hnone, hunfinished⟩ | h | ⟨answer, h, hactions⟩
    · exact Or.inl ⟨hnone, hunfinished, by rw [hwaiting]; decide⟩
    · exact Or.inr ⟨actions, h, hread, Or.inl rfl⟩
    · exact Or.inr ⟨answer, h, hread, Or.inr ⟨hwaiting, hactions⟩⟩

/-- Every run keeps to the answer: a connection calls the handler at most once,
sends at most one reply, and shuts its socket down only after that. -/
theorem actions_of_run {received : Str} {actions : List Action} {c : Connection}
    (run : Run handler received actions c) :
    (actions = [] ∧ Unfinished received ∧ c.waiting ≠ .write) ∨
      ∃ answer, Answer handler received answer ∧ c.waiting ≠ .read ∧
        (actions = answer ∨ c.waiting = .nothing ∧ actions = answer ++ [.shutdown]) :=
  actions_of_served (served_of_run run)

/-- The message of `GET / HTTP/1.0` without headers. -/
def getMessage : Message := ⟨⟨"/".toList, []⟩, "GET".toList, some 1, some 0⟩

def notFoundHandler : Message → Except Fault Reply := fun _ => .ok (stockReply .notFound)

/-- A request that comes in two reads. -/
theorem run_pieces :
    Run notFoundHandler ("GET / HT".toList ++ "TP/1.0\r\n\r\n".toList)
      [.handle getMessage, .send (stockReply .notFound).bytes]
      ⟨⟨.expectingNewline3, getMessage⟩, .write⟩ := by
  have first : Run notFoundHandler "GET / HT".toList [] _ :=
    .read .start (show complete _ start (.read (some "GET / HT".toList)) = some (.ok (_, _))
      from rfl)
  exact .read first (show complete _ _ (.read (some "TP/1.0\r\n\r\n".toList)) =
    some (.ok (_, _)) from rfl)

/-- The request in one read with bytes that follow it, and its write. -/
theorem run_whole :
    Run notFoundHandler ("GET / HT".toList ++ "TP/1.0\r\n\r\n".toList ++ "GET".toList)
      [.handle getMessage, .send (stockReply .notFound).bytes, .shutdown]
      ⟨⟨.expectingNewline3, getMessage⟩, .nothing⟩ := by
  have first : Run notFoundHandler
      ("GET / HT".toList ++ "TP/1.0\r\n\r\n".toList ++ "GET".toList) _ _ :=
    .read .start (show complete _ start (.read (some ("GET / HT".toList ++
      "TP/1.0\r\n\r\n".toList ++ "GET".toList))) = some (.ok (_, _)) from rfl)
  exact .write first (show complete _ _ (.write true) = some (.ok (_, _)) from rfl)

/-- The run in two reads, which has not completed its write. -/
theorem actions_of_run_pieces :
    ∃ answer, Answer notFoundHandler ("GET / HT".toList ++ "TP/1.0\r\n\r\n".toList) answer ∧
      [Action.handle getMessage, .send (stockReply .notFound).bytes] = answer := by
  rcases actions_of_run run_pieces with ⟨hnone, -⟩ | ⟨answer, hanswer, -, heq | ⟨hwaiting, -⟩⟩
  · cases hnone
  · exact ⟨answer, hanswer, heq⟩
  · cases hwaiting

/-! ## One reply for all pieces -/

/-- The bytes of the replies that a connection has sent. -/
def sent (actions : List Action) : List Str :=
  actions.filterMap fun
    | .send bytes => some bytes
    | _ => none

/-- An answer is a verdict of the parser. -/
theorem scan_of_answer {received : Str} {actions : List Action}
    (h : Answer handler received actions) :
    ∃ p verdict rest, scan consume fresh received = .ended p verdict rest ∧
      ((∃ reply, verdict = .accepted ∧ handler p.req = .ok reply ∧
          actions = [.handle p.req, .send reply.bytes]) ∨
        verdict ≠ .accepted ∧ actions = [.send (stockReply .badRequest).bytes]) := by
  cases h with
  | request t rest text handled =>
    exact ⟨_, _, rest, by rw [text, scan_print], Or.inl ⟨_, rfl, handled, rfl⟩⟩
  | refused split unfinished dead =>
    obtain ⟨p, verdict, hscan, hverdict⟩ := scan_notAccepted_iff.mpr ⟨_, _, split, unfinished, dead⟩
    exact ⟨p, verdict, _, hscan, Or.inr ⟨hverdict, rfl⟩⟩

/-- Bytes that come after the answer do not change it. -/
theorem answer_append {received more : Str} {actions actions' : List Action}
    (h : Answer handler received actions) (h' : Answer handler (received ++ more) actions') :
    actions = actions' := by
  obtain ⟨p, verdict, rest, hscan, hactions⟩ := scan_of_answer h
  obtain ⟨p', verdict', rest', hscan', hactions'⟩ := scan_of_answer h'
  rw [Scanner.scan_append, hscan] at hscan'
  injection hscan' with hp hverdict _
  subst hp hverdict
  rcases hactions with ⟨reply, haccepted, hreply, rfl⟩ | ⟨hnot, rfl⟩
  · rcases hactions' with ⟨reply', -, hreply', rfl⟩ | ⟨hnot', -⟩
    · rw [hreply] at hreply'
      cases hreply'
      rfl
    · exact absurd haccepted hnot'
  · rcases hactions' with ⟨reply', haccepted', -, -⟩ | ⟨-, rfl⟩
    · exact absurd haccepted' hnot
    · rfl

/-- What a connection has sent is nothing, or its answer. -/
theorem sent_of_served {received : Str} {actions : List Action} {c : Connection}
    (h : Served handler received actions c) :
    (sent actions = [] ∧ Unfinished received) ∨
      ∃ answer, Answer handler received answer ∧ sent actions = sent answer := by
  unfold Served at h
  split at h
  · exact Or.inl ⟨by rw [h.1]; rfl, scan_pending_iff.mp ⟨_, h.2⟩⟩
  · exact Or.inr ⟨actions, h, rfl⟩
  · rcases h with ⟨rfl, hunfinished⟩ | h | ⟨answer, h, rfl⟩
    · exact Or.inl ⟨rfl, hunfinished⟩
    · exact Or.inr ⟨actions, h, rfl⟩
    · refine Or.inr ⟨answer, h, ?_⟩
      simp [sent]

/-- The read that brings the rest of a request makes the parser accept. -/
theorem parse_of_run {received : Str} {c : Connection} (run : Run handler received [] c)
    (hreading : c.waiting = .read) (t : RequestText) {buffer rest : Str}
    (htext : received ++ buffer = t.print ++ rest) :
    parse c.parser buffer = .ended ⟨.expectingNewline3, t.message⟩ .accepted rest := by
  have hserved := served_of_run run
  simp only [Served, hreading] at hserved
  have htotal := scan_print t rest
  rw [← htext, Scanner.scan_append, hserved.2] at htotal
  exact htotal

theorem not_unfinished_of_answer {received more : Str} {actions : List Action}
    (h : Answer handler received actions) : ¬ Unfinished (received ++ more) := by
  intro hunfinished
  obtain ⟨p, hp⟩ := scan_pending_iff.mpr hunfinished
  obtain ⟨p', verdict, rest, hscan, -⟩ := scan_of_answer h
  rw [Scanner.scan_append, hscan] at hp
  cases hp

/-- Two connections that get the same bytes send the same, in whatever pieces
the bytes come, and however much one of them reads beyond the other. -/
theorem sent_unique {received more : Str} {actions actions' : List Action} {c c' : Connection}
    (run : Run handler received actions c) (run' : Run handler (received ++ more) actions' c')
    (hsent : sent actions ≠ []) : sent actions' = sent actions := by
  rcases sent_of_served (served_of_run run) with ⟨hnone, -⟩ | ⟨answer, hanswer, heq⟩
  · exact absurd hnone hsent
  · rcases sent_of_served (served_of_run run') with ⟨-, hunfinished⟩ | ⟨answer', hanswer', heq'⟩
    · exact absurd hunfinished (not_unfinished_of_answer hanswer)
    · rw [heq, heq', answer_append hanswer hanswer']

theorem sent_unique_pieces :
    sent [.handle getMessage, .send (stockReply .notFound).bytes, .shutdown] =
      sent [.handle getMessage, .send (stockReply .notFound).bytes] :=
  sent_unique run_pieces run_whole (List.cons_ne_nil _ _)

end Connection

/-! ## From request to reply -/

section Exchange

variable {K : Type} [Json.Machine] [Field K] [LinearOrder K] [FloorRing K]

/-- The handler of the server in a state. -/
def serverHandler (site : Site) (world : World K) (s : Server K) (req : Message) :
    Except Fault Reply :=
  match (handleRequest site world req.toRequest).run s with
  | .ok reply _ => .ok reply
  | .error fault _ => .error fault

theorem serverHandler_eq_ok_iff {site : Site} {world : World K} {s : Server K} {req : Message}
    {reply : Reply} :
    serverHandler site world s req = .ok reply ↔
      ∃ s', (handleRequest site world req.toRequest).run s = .ok reply s' := by
  rw [serverHandler]
  cases (handleRequest site world req.toRequest).run s with
  | ok reply' s' => simp
  | error fault s' => simp

/-- The read that completes a request, in a state of the server that a run
can reach.  A request that is safe is answered with the reply of the handler,
and the client reads the reply.  On all others the handler does not return. -/
theorem exchange (site : Site) (world : World K) (files : Files) {σ : Viewport K}
    (hσ : Reachable σ) {received : Str} {c : Connection}
    (run : Connection.Run (serverHandler site world ⟨files, σ⟩) received [] c)
    (hreading : c.waiting = .read) (t : RequestText) {buffer rest : Str}
    (htext : received ++ buffer = t.print ++ rest) :
    (RequestSafe world σ t.message.toRequest →
        ∃ (reply : Reply) (s' : Server K) (p : Parser),
          (handleRequest site world t.message.toRequest).run ⟨files, σ⟩ = .ok reply s' ∧
          Connection.complete (serverHandler site world ⟨files, σ⟩) c (.read (some buffer)) =
            some (.ok (⟨p, .write⟩, [.handle t.message, .send reply.bytes])) ∧
          ∀ more, readReply (reply.bytes ++ more) = some reply) ∧
      (¬ RequestSafe world σ t.message.toRequest →
        ∃ fault, Connection.complete (serverHandler site world ⟨files, σ⟩) c
          (.read (some buffer)) = some (.error (.handler fault))) := by
  have hparse := Connection.parse_of_run run hreading t htext
  have hsafe : Returns (handleRequest site world t.message.toRequest) ⟨files, σ⟩ ↔
      RequestSafe world σ t.message.toRequest :=
    returns_iff_requestSafe site world _ (wellFormed_of_reachable hσ)
  simp only [Connection.complete, hreading, if_true, Connection.handleRead, hparse]
  rw [← hsafe]
  constructor
  · rintro ⟨reply, s', hrun⟩
    refine ⟨reply, s', ⟨.expectingNewline3, t.message⟩, hrun, ?_, ?_⟩
    · rw [serverHandler_eq_ok_iff.mpr ⟨s', hrun⟩]
    · exact readReply_bytes (framed_handleRequest hrun)
  · intro hnot
    cases hhandler : serverHandler site world ⟨files, σ⟩ t.message with
    | ok reply =>
      obtain ⟨s', hrun⟩ := serverHandler_eq_ok_iff.mp hhandler
      exact absurd ⟨reply, s', hrun⟩ hnot
    | error fault => exact ⟨fault, rfl⟩

end Exchange

/-- A listing is asked for. -/
def listingText : RequestText where
  method := "GET".toList
  uri := Endpoint.clientsListing.path
  method_ne_nil := by decide
  method_token := List.all_eq_true.mp (by decide +kernel)
  uri_printable := List.all_iff_forall_prop.mp (by decide +kernel)
  major := ⟨['1'], List.cons_ne_nil _ _, List.forall_mem_singleton.mpr rfl, by decide⟩
  minor := ⟨['1'], List.cons_ne_nil _ _, List.forall_mem_singleton.mpr rfl, by decide⟩
  headers := []

/-- A listing without clients. -/
theorem exchange_listing :
    letI := Json.Machine.small
    ∃ (reply : Reply) (s' : Server ℚ) (p : Parser),
      (handleRequest quietSite quietWorld listingText.message.toRequest).run
          ⟨.empty, Viewport.start⟩ = .ok reply s' ∧
        Connection.complete (serverHandler quietSite quietWorld ⟨.empty, Viewport.start⟩)
            Connection.start (.read (some listingText.print)) =
          some (.ok (⟨p, .write⟩, [.handle listingText.message, .send reply.bytes])) ∧
        ∀ more, readReply (reply.bytes ++ more) = some reply :=
  letI := Json.Machine.small
  (exchange quietSite quietWorld .empty .start .start rfl listingText
    (List.append_nil _).symm).1 (requestSafe_listing fun _ h => absurd h List.not_mem_nil)

end MinorityViewport.Http
