import MinorityViewport.Networks.Connection
import MinorityViewport.Networks.UdpServer

/-!
# The server as a whole

`MinorityViewport.cpp`.  A `Core` has the viewport and the files that all
connections share, the UDP server, and any number of connections.  A step is
a round of the UDP loop, a round of the thread that clears a scene, a
connection that starts, or a completion that a connection gets.  The steps
come in any order.

A call of the viewport is one step here, and two steps do not overlap.  What
overlapping requests to one endpoint do to each other is in
`Networks/SharedEndpoint`.

A run keeps a log of the calls of the request handler, the latest first, with
the server that each call found and the server that it left.  `peers_of_runs`
says which calls of the log belong to a connection: none while its bytes can
still become a request, and one, whose reply is sent, when they are one.

`BeginUdpListen` catches what the loop throws, so the server goes on without
its UDP thread.  The threads of the connections catch nothing, so there is no
step for a request whose handler does not return.
-/

namespace MinorityViewport

open Exec Http
open Http.Connection (Action Completion Answer complete)
open RequestParser (Unfinished)

/-- A connection with the bytes that it has received and the actions that it
has taken. -/
structure Peer where
  received : Str
  actions : List Action
  connection : Connection

structure Core (K ι : Type) where
  files : Files
  udpServer : Udp.UdpServer K
  udpRunning : Bool
  connections : ι → Option Peer

namespace Core

variable {K ι : Type}

/-- What a request handler works on. -/
def server (s : Core K ι) : Server K := ⟨s.files, s.udpServer.viewport⟩

def withServer (s : Core K ι) (server : Server K) : Core K ι :=
  { s with files := server.files, udpServer := { s.udpServer with viewport := server.viewport } }

def withPeer [DecidableEq ι] (s : Core K ι) (i : ι) (peer : Peer) : Core K ι :=
  { s with connections := Function.update s.connections i (some peer) }

/-- The bytes that come with a completion. -/
def receivedBytes : Completion → Str
  | .read result => result.getD []
  | .write _ => []

/-- A call of the request handler for a connection. -/
structure Call (K ι : Type) where
  peer : ι
  world : World K
  request : Message
  before : Server K
  reply : Reply
  after : Server K

variable [DecidableEq ι] [Json.Machine] [Field K] [LinearOrder K] [FloorRing K]

/-- The call that an action is. -/
def callOf (site : Site) (i : ι) (world : World K) (s : Server K) : Action → Option (Call K ι)
  | .handle req =>
    match (handleRequest site world req.toRequest).run s with
    | .ok reply s' => some ⟨i, world, req, s, reply, s'⟩
    | .error _ _ => none
  | _ => none

/-- The call among the actions that a completion has taken. -/
def handling (site : Site) (i : ι) (world : World K) (s : Server K) (actions : List Action) :
    Option (Call K ι) :=
  actions.findSome? (callOf site i world s)

/-- A step of the server, with the call of the request handler in it. -/
inductive Step (site : Site) : Core K ι → Option (Call K ι) → Core K ι → Prop
  | received {s : Core K ι} {now : Nat → Int} {arrival : Udp.Received} {u : Udp.UdpServer K}
      (running : s.udpRunning)
      (round : (Udp.round now arrival).run s.udpServer = .ok ⟨⟩ u) :
      Step site s none { s with udpServer := u }
  | stopped {s : Core K ι} {now : Nat → Int} {arrival : Udp.Received} {u : Udp.UdpServer K}
      {fault : Fault} (running : s.udpRunning)
      (round : (Udp.round now arrival).run s.udpServer = .error fault u)
      (caught : fault.isException) :
      Step site s none { s with udpServer := u, udpRunning := false }
  | cleared {s : Core K ι} (scenePtr : Addr) :
      Step site s none (s.withServer
        ⟨s.files, s.udpServer.viewport.write scenePtr Scene.manualClear⟩)
  | started {s : Core K ι} {i : ι} (new : s.connections i = none) :
      Step site s none (s.withPeer i ⟨[], [], Http.Connection.start⟩)
  | completed {s : Core K ι} {i : ι} {peer : Peer} {world : World K} {completion : Completion}
      {c : Connection} {actions : List Action} (present : s.connections i = some peer)
      (step : complete (serverHandler site world s.server) peer.connection completion =
        some (.ok (c, actions))) :
      Step site s (handling site i world s.server actions)
        ((s.withServer ((handling site i world s.server actions).elim s.server Call.after)).withPeer
          i ⟨peer.received ++ receivedBytes completion, peer.actions ++ actions, c⟩)

/-- A run, with its log. -/
inductive Runs (site : Site) : List (Call K ι) → Core K ι → Prop
  | start (files : Files) (u : Udp.UdpServer K) (start : u.viewport = Viewport.start) :
      Runs site [] ⟨files, u, true, fun _ => none⟩
  | step {log : List (Call K ι)} {s s' : Core K ι} {call : Option (Call K ι)}
      (run : Runs site log s) (step : Step site s call s') : Runs site (call.toList ++ log) s'

/-! ## The viewport -/

omit [FloorRing K] in
theorem reachable_of_round {s u : Udp.UdpServer K} {now : Nat → Int} {arrival : Udp.Received}
    (hs : Reachable s.viewport) (hround : (Udp.round now arrival).run s = .ok ⟨⟩ u ∨
      ∃ fault : Fault, (Udp.round now arrival).run s = .error fault u ∧ fault.isException) :
    Reachable u.viewport := by
  obtain ⟨buffer, size, hrun⟩ := Udp.run_round now arrival s
  have hstep : ∀ σ, ((Viewport.processSensorData now arrival.text).run s.viewport = .ok ⟨⟩ σ ∨
      ∃ fault : Fault, (Viewport.processSensorData now arrival.text).run s.viewport =
        .error fault σ ∧ fault.isException) → Reachable σ := by
    intro σ h
    exact hs.step (e := .processSensorData now arrival.text) h
  cases hcall : (Viewport.processSensorData now arrival.text).run s.viewport with
  | ok v σ =>
    rw [hcall] at hrun
    rcases hround with h | ⟨fault, h, -⟩ <;> rw [hrun] at h <;> cases h
    exact hstep σ (Or.inl hcall)
  | error fault σ =>
    rw [hcall] at hrun
    rcases hround with h | ⟨fault', h, hexception⟩ <;> rw [hrun] at h <;> cases h
    exact hstep σ (Or.inr ⟨fault, hcall, hexception⟩)

/-! ## Calls -/

/-- The call is the handler's own run, on a viewport that a run of it
reaches. -/
def Call.Valid (site : Site) (call : Call K ι) : Prop :=
  Reachable call.before.viewport ∧
    (handleRequest site call.world call.request.toRequest).run call.before =
      .ok call.reply call.after

/-- The calls for a connection. -/
def callsOf (i : ι) (log : List (Call K ι)) : List (Call K ι) := log.filter (·.peer = i)

omit [DecidableEq ι] in
theorem handling_eq_none (site : Site) (i : ι) (world : World K) (s : Server K)
    {actions : List Action} (h : ∀ req, Action.handle req ∉ actions) :
    handling site i world s actions = none := by
  rw [handling, List.findSome?_eq_none_iff]
  intro action hmem
  cases action with
  | handle req => exact absurd hmem (h req)
  | send bytes | shutdown => rfl

omit [DecidableEq ι] in
theorem handling_handle {site : Site} (i : ι) {world : World K} {s s' : Server K} {req : Message}
    {reply : Reply} (actions : List Action)
    (h : (handleRequest site world req.toRequest).run s = .ok reply s') :
    handling site i world s (.handle req :: actions) = some ⟨i, world, req, s, reply, s'⟩ := by
  rw [handling, List.findSome?_cons, callOf, h]

omit [DecidableEq ι] in
/-- A call in a step is the call of the handler on the server before it. -/
theorem handling_eq_some {site : Site} {i : ι} {world : World K} {s : Server K}
    {actions : List Action} {call : Call K ι} (h : handling site i world s actions = some call) :
    call.peer = i ∧ call.before = s ∧
      (handleRequest site call.world call.request.toRequest).run s =
        .ok call.reply call.after := by
  rw [handling, List.findSome?_eq_some_iff] at h
  obtain ⟨before, action, after, -, haction, -⟩ := h
  cases action with
  | handle req =>
    rw [callOf] at haction
    split at haction
    · next hrun =>
      cases haction
      exact ⟨rfl, rfl, hrun⟩
    · cases haction
  | send bytes | shutdown => cases haction

theorem callsOf_handling_self (site : Site) (i : ι) (world : World K) (s : Server K)
    (actions : List Action) (log : List (Call K ι)) :
    callsOf i ((handling site i world s actions).toList ++ log) =
      (handling site i world s actions).toList ++ callsOf i log := by
  rw [callsOf, List.filter_append]
  congr 1
  rw [List.filter_eq_self]
  intro call hmem
  exact decide_eq_true (handling_eq_some (Option.mem_toList.mp hmem)).1

theorem callsOf_handling_ne (site : Site) {i j : ι} (hne : j ≠ i) (world : World K) (s : Server K)
    (actions : List Action) (log : List (Call K ι)) :
    callsOf j ((handling site i world s actions).toList ++ log) = callsOf j log := by
  unfold callsOf
  rw [List.filter_append, List.append_left_eq_self, List.filter_eq_nil_iff]
  intro call hmem hj
  have hpeer := (handling_eq_some (Option.mem_toList.mp hmem)).1
  exact hne ((of_decide_eq_true hj).symm.trans hpeer)

/-! ## A completion -/

omit [Json.Machine] in
/-- What a read does depends on the handler only in the one call of it. -/
theorem handleRead_cases {handler : Message → Except Fault Reply}
    {c c' : Connection} {result : Option Str} {actions : List Action}
    (h : Http.Connection.handleRead handler c result = .ok (c', actions)) :
    ((∀ handler', Http.Connection.handleRead handler' c result = .ok (c', actions)) ∧
        ∀ req, Action.handle req ∉ actions) ∨
      c'.waiting = .write ∧ ∃ req reply, handler req = .ok reply ∧
        actions = [.handle req, .send reply.bytes] ∧
        ∀ handler', handler' req = .ok reply →
          Http.Connection.handleRead handler' c result = .ok (c', actions) := by
  cases result with
  | none =>
    cases h
    exact Or.inl ⟨fun _ => rfl, fun _ => List.not_mem_nil⟩
  | some buffer =>
    unfold Http.Connection.handleRead at h ⊢
    dsimp only at h ⊢
    cases hparse : RequestParser.parse c.parser buffer with
    | pending p =>
      rw [hparse] at h
      cases h
      exact Or.inl ⟨fun _ => rfl, fun _ => List.not_mem_nil⟩
    | ended p verdict rest =>
      rw [hparse] at h
      cases verdict with
      | accepted =>
        cases hhandler : handler p.req with
        | ok reply =>
          simp only [hhandler] at h
          cases h
          refine Or.inr ⟨rfl, p.req, reply, hhandler, rfl, fun handler' hsame => ?_⟩
          simp only [hsame]
        | error fault =>
          simp only [hhandler] at h
          cases h
      | refused =>
        cases h
        refine Or.inl ⟨fun _ => rfl, fun req hmem => ?_⟩
        cases List.mem_singleton.mp hmem
      | overflow | unassignedVersion | emptyBack => cases h

omit [Json.Machine] in
theorem handle_notMem_handleWrite {c c' : Connection} {ok : Bool} {actions : List Action}
    (h : Http.Connection.handleWrite c ok = (c', actions)) (req : Message) :
    Action.handle req ∉ actions := by
  intro hmem
  cases h
  cases ok with
  | true => cases List.mem_singleton.mp hmem
  | false => cases hmem

/-- The run of a connection among all the others, with the calls for it.  Until
the handler is called it could be a run with any handler. -/
structure Alone (calls : List (Call K ι)) (peer : Peer) : Prop where
  reading : peer.connection.waiting = .read → peer.actions = [] ∧
    ∀ handler, Connection.Run handler peer.received peer.actions peer.connection
  run : ∃ handler, Connection.Run handler peer.received peer.actions peer.connection ∧
    ∀ req reply, Action.handle req ∈ peer.actions → handler req = .ok reply →
      ∃ call, calls = [call] ∧ call.request = req ∧ call.reply = reply
  quiet : (∀ req, Action.handle req ∉ peer.actions) → calls = []

omit [DecidableEq ι] [Json.Machine] [Field K] [LinearOrder K] [FloorRing K] in
theorem alone_start : Alone ([] : List (Call K ι)) ⟨[], [], Http.Connection.start⟩ :=
  ⟨fun _ => ⟨rfl, fun _ => .start⟩,
    ⟨fun _ => .error .unassignedPointer, .start, fun _ _ h => absurd h List.not_mem_nil⟩,
    fun _ => rfl⟩

omit [DecidableEq ι] in
theorem Alone.read {calls : List (Call K ι)} {peer : Peer} (h : Alone calls peer)
    {site : Site} (i : ι) {world : World K} {s : Server K} {result : Option Str} {c : Connection}
    {actions : List Action}
    (hstep : complete (serverHandler site world s) peer.connection (.read result) =
      some (.ok (c, actions))) :
    Alone ((handling site i world s actions).toList ++ calls)
      ⟨peer.received ++ result.getD [], peer.actions ++ actions, c⟩ := by
  obtain ⟨hwaiting, hread⟩ := Http.Connection.complete_read_iff.mp hstep
  obtain ⟨hactions, hany⟩ := h.reading hwaiting
  have hcalls : calls = [] := h.quiet (by simp [hactions])
  have hnext : ∀ handler, Http.Connection.handleRead handler peer.connection result =
      .ok (c, actions) → Connection.Run handler (peer.received ++ result.getD [])
        (peer.actions ++ actions) c := fun handler hsame =>
    .read (hany handler) (Http.Connection.complete_read_iff.mpr ⟨hwaiting, hsame⟩)
  rcases handleRead_cases hread with ⟨hall, hnone⟩ | ⟨hwrite, req, reply, hreply, rfl, hsame⟩
  · rw [handling_eq_none site i world s hnone, Option.toList_none, List.nil_append]
    refine ⟨fun hreading => ⟨?_, fun handler => hnext handler (hall handler)⟩,
      ⟨fun _ => .error .unassignedPointer, hnext _ (hall _), fun req reply _ h => by cases h⟩,
      fun _ => hcalls⟩
    -- A connection that reads again has taken no action.
    have hserved := Http.Connection.served_of_run (hnext (fun _ => .error .unassignedPointer)
      (hall _))
    simp only [Http.Connection.Served, show c.waiting = .read from hreading] at hserved
    exact hserved.1
  · obtain ⟨s', hrun⟩ := serverHandler_eq_ok_iff.mp hreply
    have hmem : ∀ req', Action.handle req' ∈ peer.actions ++ [.handle req, .send reply.bytes] ↔
        req' = req := fun req' => by simp [hactions]
    rw [handling_handle i _ hrun, hcalls]
    refine ⟨fun hreading => ?_, ⟨fun _ => .ok reply, hnext _ (hsame _ rfl), ?_⟩, ?_⟩
    · have hreading' : c.waiting = .read := hreading
      rw [hwrite] at hreading'
      cases hreading'
    · intro req' reply' hhandle hreply'
      cases hreply'
      exact ⟨_, rfl, ((hmem req').mp hhandle).symm, rfl⟩
    · exact fun hquiet => absurd ((hmem req).mpr rfl) (hquiet req)

omit [DecidableEq ι] [Json.Machine] [Field K] [LinearOrder K] [FloorRing K] in
theorem Alone.write {calls : List (Call K ι)} {peer : Peer} (h : Alone calls peer)
    {handler : Message → Except Fault Reply} {ok : Bool} {c : Connection} {actions : List Action}
    (hstep : complete handler peer.connection (.write ok) = some (.ok (c, actions))) :
    Alone calls ⟨peer.received, peer.actions ++ actions, c⟩ := by
  obtain ⟨hwaiting, hwrite⟩ := Http.Connection.complete_write_iff.mp hstep
  injection hwrite with hwrite
  have hnone := handle_notMem_handleWrite hwrite
  have hmem : ∀ req, Action.handle req ∈ peer.actions ++ actions ↔
      Action.handle req ∈ peer.actions := fun req => by simp [hnone req]
  obtain ⟨handler', hrun, hcalls⟩ := h.run
  have hnext : Http.Connection.complete handler' peer.connection (.write ok) =
      some (.ok (c, actions)) :=
    Http.Connection.complete_write_iff.mpr ⟨hwaiting, congrArg _ hwrite⟩
  refine ⟨fun hreading => ?_, ⟨handler', .write hrun hnext, ?_⟩, ?_⟩
  · cases hwrite
    cases hreading
  · exact fun req reply hreq => hcalls req reply ((hmem req).mp hreq)
  · exact fun hquiet => h.quiet fun req hreq => hquiet req ((hmem req).mpr hreq)

/-! ## Runs -/

/-- What a connection is answered with: the reply of the one call for it, which
was made with the request that it has received, or a refusal without a call. -/
inductive Replied (calls : List (Call K ι)) (received : Str) : List Action → Prop
  | request (t : RequestParser.RequestText) (rest : Str) {call : Call K ι} (once : calls = [call])
      (asked : call.request = t.message) (text : received = t.print ++ rest)
      (read : ∀ more, readReply (call.reply.bytes ++ more) = some call.reply) :
      Replied calls received [.handle t.message, .send call.reply.bytes]
  | refused {text rest : Str} {c : Char} (uncalled : calls = [])
      (split : received = text ++ c :: rest) (unfinished : Unfinished text)
      (dead : ∀ (t : RequestParser.RequestText) (more : Str), text ++ c :: more ≠ t.print) :
      Replied calls received [.send (stockReply .badRequest).bytes]

omit [DecidableEq ι] [Json.Machine] [Field K] [LinearOrder K] [FloorRing K] in
/-- An answer in which the handler is called belongs to the one call. -/
theorem called_of_replied {calls : List (Call K ι)} {received : Str} {answer : List Action}
    (h : Replied calls received answer) {req : Message} (hmem : Action.handle req ∈ answer) :
    ∃ call, calls = [call] ∧ call.request = req ∧
      ∀ more, readReply (call.reply.bytes ++ more) = some call.reply := by
  cases h with
  | request t rest once asked text read =>
    rcases List.mem_cons.mp hmem with heq | hmem
    · cases heq
      exact ⟨_, once, asked, read⟩
    · cases List.mem_singleton.mp hmem
  | refused uncalled split unfinished dead => cases List.mem_singleton.mp hmem

omit [DecidableEq ι] in
theorem replied_of_alone {site : Site} {calls : List (Call K ι)} {peer : Peer}
    (h : Alone calls peer) (hvalid : ∀ call ∈ calls, call.Valid site) :
    (peer.actions = [] ∧ Unfinished peer.received ∧ calls = []) ∨
      ∃ answer, Replied calls peer.received answer ∧
        (peer.actions = answer ∨ peer.actions = answer ++ [.shutdown]) := by
  obtain ⟨handler, hrun, hcalls⟩ := h.run
  rcases Http.Connection.actions_of_served (Http.Connection.served_of_run hrun) with
    ⟨hnone, hunfinished, -⟩ | ⟨answer, hanswer, -, hactions⟩
  · exact Or.inl ⟨hnone, hunfinished, h.quiet (by simp [hnone])⟩
  · have hor : peer.actions = answer ∨ peer.actions = answer ++ [.shutdown] :=
      hactions.imp id And.right
    refine Or.inr ⟨answer, ?_, hor⟩
    cases hanswer with
    | request t rest text hreply =>
      have hmem : Action.handle t.message ∈ peer.actions := by
        rcases hor with h' | h' <;> rw [h'] <;> exact List.mem_cons_self
      obtain ⟨call, rfl, hrequest, rfl⟩ := hcalls _ _ hmem hreply
      have hcall := hvalid call (List.mem_singleton_self call)
      exact .request t rest rfl hrequest text (readReply_bytes (framed_handleRequest hcall.2))
    | refused split unfinished dead =>
      refine .refused (h.quiet fun req hmem => ?_) split unfinished dead
      rcases hor with h' | h' <;> rw [h'] at hmem <;> simp at hmem

/-- The invariant of the runs. -/
structure Sound (site : Site) (log : List (Call K ι)) (s : Core K ι) : Prop where
  reachable : Reachable s.udpServer.viewport
  valid : ∀ call ∈ log, call.Valid site
  alone : ∀ i peer, s.connections i = some peer → Alone (callsOf i log) peer
  absent : ∀ i, s.connections i = none → callsOf i log = []

/-- A step that leaves the other connections and their calls as they are. -/
theorem Sound.withPeer {site : Site} {log log' : List (Call K ι)} {s : Core K ι}
    (h : Sound site log s) {server : Server K} {i : ι} {peer : Peer}
    (hreachable : Reachable server.viewport) (hvalid : ∀ call ∈ log', call.Valid site)
    (hother : ∀ j, j ≠ i → callsOf j log' = callsOf j log) (hpeer : Alone (callsOf i log') peer) :
    Sound site log' ((s.withServer server).withPeer i peer) := by
  have hat : ((s.withServer server).withPeer i peer).connections i = some peer :=
    Function.update_self _ _ _
  have helse : ∀ j, j ≠ i →
      ((s.withServer server).withPeer i peer).connections j = s.connections j :=
    fun j hne => Function.update_of_ne hne _ _
  refine ⟨hreachable, hvalid, fun j peer' hj => ?_, fun j hj => ?_⟩
  · by_cases hji : j = i
    · subst hji
      rw [hat] at hj
      cases hj
      exact hpeer
    · rw [helse j hji] at hj
      rw [hother j hji]
      exact h.alone j peer' hj
  · by_cases hji : j = i
    · subst hji
      rw [hat] at hj
      cases hj
    · rw [helse j hji] at hj
      rw [hother j hji]
      exact h.absent j hj

theorem Sound.step {site : Site} {log : List (Call K ι)} {s s' : Core K ι}
    {call : Option (Call K ι)} (h : Sound site log s) (hstep : Step site s call s') :
    Sound site (call.toList ++ log) s' := by
  cases hstep with
  | received running round =>
    exact ⟨reachable_of_round h.reachable (Or.inl round), h.valid, h.alone, h.absent⟩
  | stopped running round caught =>
    exact ⟨reachable_of_round h.reachable (Or.inr ⟨_, round, caught⟩), h.valid, h.alone, h.absent⟩
  | cleared scenePtr =>
    exact ⟨h.reachable.step (e := .clear scenePtr) (Or.inl rfl), h.valid, h.alone, h.absent⟩
  | @started i new =>
    refine @Sound.withPeer _ _ _ _ _ _ _ site log log s h s.server i _ h.reachable h.valid
      (fun _ _ => rfl) ?_
    rw [h.absent i new]
    exact alone_start
  | @completed i peer world completion c actions present step =>
    have hserver : Reachable
        ((handling site i world s.server actions).elim s.server Call.after).viewport := by
      cases hcall : handling site i world s.server actions with
      | none => exact h.reachable
      | some call => exact reachable_handleRequest h.reachable (handling_eq_some hcall).2.2
    refine h.withPeer hserver ?_ (fun j hne => callsOf_handling_ne site hne world _ actions log) ?_
    · intro call hmem
      rcases List.mem_append.mp hmem with hnew | hold
      · obtain ⟨-, hbefore, hrun⟩ := handling_eq_some (Option.mem_toList.mp hnew)
        rw [Call.Valid, hbefore]
        exact ⟨h.reachable, hrun⟩
      · exact h.valid call hold
    · rw [callsOf_handling_self]
      have halone := h.alone i peer present
      cases completion with
      | read result => exact halone.read i step
      | write ok =>
        obtain ⟨-, hwrite⟩ := Http.Connection.complete_write_iff.mp step
        injection hwrite with hwrite
        rw [handling_eq_none site i world s.server (handle_notMem_handleWrite hwrite)]
        show Alone (callsOf i log) ⟨peer.received ++ [], _, c⟩
        rw [List.append_nil]
        exact halone.write step

theorem sound_of_runs {site : Site} {log : List (Call K ι)} {s : Core K ι}
    (run : Runs site log s) : Sound site log s := by
  induction run with
  | start files u hstart =>
    refine ⟨?_, fun _ h => absurd h List.not_mem_nil, fun i peer h => (by cases h), fun _ _ => rfl⟩
    show Reachable u.viewport
    rw [hstart]
    exact .start
  | step _ hstep ih => exact ih.step hstep

/-- In every run of the server, with datagrams, clears and connections in any
order, the viewport stays reachable, every call is the handler's on a reachable
viewport, and each connection has sent nothing and had no call while its bytes
can still become a request, or it has had one call, with the request in its own
bytes, and sent the reply of that call, or its bytes are no request and it has
sent a refusal without a call. -/
theorem peers_of_runs {site : Site} {log : List (Call K ι)} {s : Core K ι}
    (run : Runs site log s) :
    Reachable s.udpServer.viewport ∧ (∀ call ∈ log, call.Valid site) ∧
      ∀ i peer, s.connections i = some peer →
        (peer.actions = [] ∧ Unfinished peer.received ∧ callsOf i log = []) ∨
          ∃ answer, Replied (callsOf i log) peer.received answer ∧
            (peer.actions = answer ∨ peer.actions = answer ++ [.shutdown]) := by
  have hsound := sound_of_runs run
  refine ⟨hsound.reachable, hsound.valid, fun i peer hpeer => ?_⟩
  exact replied_of_alone (hsound.alone i peer hpeer) fun call hmem =>
    hsound.valid call (List.mem_of_mem_filter hmem)

omit [DecidableEq ι] [Json.Machine] [Field K] [LinearOrder K] [FloorRing K] in
/-- A connection that gets a whole request in its first read. -/
theorem complete_print {handler : Message → Except Fault Reply} (t : RequestParser.RequestText)
    {reply : Reply} (h : handler t.message = .ok reply) :
    complete handler Http.Connection.start (.read (some t.print)) =
      some (.ok (⟨⟨.expectingNewline3, t.message⟩, .write⟩,
        [.handle t.message, .send reply.bytes])) := by
  have hparse := RequestParser.scan_print t []
  rw [List.append_nil] at hparse
  have hread : RequestParser.parse Http.Connection.start.parser t.print =
      .ended ⟨.expectingNewline3, t.message⟩ .accepted [] := hparse
  refine Http.Connection.complete_read_iff.mpr ⟨rfl, ?_⟩
  simp only [Http.Connection.handleRead, hread, h]

/-- A connection that gets the request for a listing. -/
def listingPeer (reply : Reply) : Peer :=
  ⟨listingText.print, [.handle listingText.message, .send reply.bytes],
    ⟨⟨.expectingNewline3, listingText.message⟩, .write⟩⟩

/-- A connection that gets a space first. -/
def spacePeer : Peer :=
  ⟨[' '], [.send (stockReply .badRequest).bytes], ⟨RequestParser.fresh, .write⟩⟩

omit [Json.Machine] in
/-- The two connections start, and then each gets its bytes. -/
theorem runs_listing :
    letI := Json.Machine.small
    ∃ (log : List (Call ℚ Bool)) (s : Core ℚ Bool) (reply : Reply), Runs quietSite log s ∧
      s.connections true = some (listingPeer reply) ∧ s.connections false = some spacePeer := by
  let machine := Json.Machine.small
  obtain ⟨reply, s', hrun⟩ := returns_of_requestSafe quietSite .empty .start
    (requestSafe_listing fun _ h => absurd h List.not_mem_nil)
  have first : Runs quietSite [] (⟨.empty, Udp.idle, true, fun _ => none⟩ : Core ℚ Bool) :=
    .start _ _ rfl
  have second := (first.step (.started (i := true) rfl)).step (.started (i := false) rfl)
  have hanswered : serverHandler quietSite quietWorld ⟨.empty, .start⟩ listingText.message =
      .ok reply := serverHandler_eq_ok_iff.mpr ⟨s', hrun⟩
  have third := second.step (.completed (i := true) rfl (complete_print listingText hanswered))
  have hspace : ∀ handler, complete handler Http.Connection.start (.read (some [' '])) =
      some (.ok (spacePeer.connection, spacePeer.actions)) := fun _ => rfl
  have fourth := third.step (.completed (i := false) rfl
    (hspace (serverHandler quietSite quietWorld _)))
  exact ⟨_, _, reply, fourth, rfl, rfl⟩

omit [Json.Machine] in
theorem peers_of_runs_listing :
    letI := Json.Machine.small
    ∃ (log : List (Call ℚ Bool)) (call : Call ℚ Bool) (refusal : List Action),
      callsOf true log = [call] ∧ call.request = listingText.message ∧
        (∀ more, readReply (call.reply.bytes ++ more) = some call.reply) ∧
        Replied (callsOf false log) [' '] refusal := by
  let machine := Json.Machine.small
  obtain ⟨log, s, reply, run, hlisting, hspace⟩ := runs_listing
  have hpeers := (peers_of_runs run).2.2
  rcases hpeers false spacePeer hspace with ⟨hnone, -⟩ | ⟨refusal, hrefused, -⟩
  · cases hnone
  rcases hpeers true (listingPeer reply) hlisting with ⟨hnone, -⟩ | ⟨answer, hreplied, hanswer⟩
  · cases hnone
  have hmem : Action.handle listingText.message ∈ answer := by
    rcases hanswer with hanswer | hanswer
    · exact hanswer ▸ List.mem_cons_self
    · have hmem : Action.handle listingText.message ∈ answer ++ [.shutdown] :=
        hanswer ▸ List.mem_cons_self
      simpa using hmem
  obtain ⟨call, hcalls, hrequest, hread⟩ := called_of_replied hreplied hmem
  exact ⟨log, call, refusal, hcalls, hrequest, hread, hrefused⟩

end Core

end MinorityViewport
