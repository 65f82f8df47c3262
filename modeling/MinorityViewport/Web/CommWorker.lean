import MinorityViewport.Lib.Polling
import MinorityViewport.Networks.Api
import Mathlib.Data.List.DropRight

/-!
# The worker that polls

`Web/JS/libraries/workers/comm-worker.js`, and the functions of `libNetwork.js`
that start and stop it.  A worker asks for scene data each time its timeout
runs, with one `XMLHttpRequest`: `open` ends the request that the object still
has, and nobody hears of it.  `setRequestHeader` throws at a text that no
header can have.  Then the request is not sent, and no other timeout is set.

* `CommWorker` is the global variables of the script, with the timeouts that
  have not run yet.  The delay of a timeout is left out: any pending one may
  run at any time.
* `Polls` is a worker with the commands and the messages that are between it
  and its page, and `net` is the requests and the answers between it and the
  server.  The server also does other things meanwhile.  It handles one
  request at a time.

`Phase` is the life of a worker, and `posts_of_runs` what its page gets.  With
`Polling.Run.sound`, `data_of_runs` says which scenes the page sees.
-/

namespace MinorityViewport

open Http Polling

/-! ## The script -/

/-- The message `start`. -/
structure Start where
  serverEndPt : Str
  port : Nat
  fps : Nat
  path : Str
  type : Str
  sensorId : Str

/-- What a page sends to a worker. -/
inductive Command where
  | start (data : Start)
  | stop
  | other (msg : Str)

/-- What a page gets from a worker: its messages, and the event for an
exception that it does not catch. -/
inductive Post where
  | status (msg : Str)
  | data (msg : Str)
  | error (msg : Str)
  | text (msg : Str)
  | uncaught

/-- The scene data in a message. -/
def Post.data? : Post → Option Str
  | .data msg => some msg
  | _ => none

/-- A request for scene data. -/
structure Poll where
  serverEndpt : Str
  port : Nat
  path : Str
  headers : List Header

/-- What a function has done with the `XMLHttpRequest`. -/
inductive Ajax where
  | untouched
  /-- An exception after `open`. -/
  | opened
  | sent (poll : Poll)

namespace Ajax

/-- The characters that `setRequestHeader` takes off both ends of a value. -/
def isHttpWhitespace (c : Char) : Bool := c == '\t' || c == '\n' || c == '\r' || c == ' '

def normalize (value : Str) : Str :=
  (value.dropWhile isHttpWhitespace).rdropWhile isHttpWhitespace

/-- The texts that a header can be set to. -/
def IsHeaderValue (value : Str) : Prop :=
  ∀ c ∈ normalize value, c.toNat < 256 ∧ c ≠ '\x00' ∧ c ≠ '\n' ∧ c ≠ '\r'

instance (value : Str) : Decidable (IsHeaderValue value) := List.decidableBAll _ _

/-- `XMLHttpRequest.setRequestHeader`, unless it throws. -/
def setRequestHeader (headers : List Header) (name : String) (value : Str) :
    Option (List Header) :=
  if IsHeaderValue value then some (headers ++ [⟨name.toList, normalize value⟩]) else none

/-- The headers of a request for a type and a sensor. -/
def headers (type sensorId : Str) : List Header :=
  [⟨"Content-Type".toList, "application/javascript".toList⟩,
    ⟨"Request-Type".toList, normalize type⟩] ++
    if type = "single".toList then [⟨"Sensor-Id".toList, normalize sensorId⟩] else []

/-- They can be set. -/
def Legal (type sensorId : Str) : Prop :=
  IsHeaderValue type ∧ (type = "single".toList → IsHeaderValue sensorId)

end Ajax

structure CommWorker where
  runningStatus : Bool
  sensorId : Str
  serverEndpt : Str
  port : Nat
  path : Str
  fps : Nat
  type : Str
  timeouts : Nat
  closed : Bool

namespace CommWorker

/-- A header value is the text of what it is set to, which `null` has too.
The first `start` declares `type`. -/
def new : CommWorker where
  runningStatus := true
  sensorId := "null".toList
  serverEndpt := []
  port := 0
  path := []
  fps := 1
  type := []
  timeouts := 0
  closed := false

/-- The headers that `getSceneFromServer` sets, unless one of them throws. -/
def requestHeaders (w : CommWorker) : Option (List Header) := do
  let headers ← Ajax.setRequestHeader [] "Content-Type" "application/javascript".toList
  let headers ← Ajax.setRequestHeader headers "Request-Type" w.type
  if w.type = "single".toList then Ajax.setRequestHeader headers "Sensor-Id" w.sensorId
  else some headers

/-- `getSceneFromServer`. -/
def getSceneFromServer (w : CommWorker) : CommWorker × Ajax :=
  let scheduled := if w.runningStatus then { w with timeouts := w.timeouts + 1 } else w
  if w.serverEndpt ≠ [] then
    match w.requestHeaders with
    | some headers => (scheduled, .sent ⟨w.serverEndpt, w.port, w.path, headers⟩)
    | none => (w, .opened)
  else (scheduled, .untouched)

theorem requestHeaders_of_legal {w : CommWorker} (h : Ajax.Legal w.type w.sensorId) :
    w.requestHeaders = some (Ajax.headers w.type w.sensorId) := by
  obtain ⟨htype, hsensor⟩ := h
  have hcontent : Ajax.setRequestHeader [] "Content-Type" "application/javascript".toList =
      some [⟨"Content-Type".toList, "application/javascript".toList⟩] := by decide +kernel
  have hrequest : ∀ headers, Ajax.setRequestHeader headers "Request-Type" w.type =
      some (headers ++ [⟨"Request-Type".toList, Ajax.normalize w.type⟩]) := fun _ => if_pos htype
  unfold requestHeaders Ajax.headers
  rw [hcontent]
  simp only [Option.bind_eq_bind, Option.bind_some, hrequest]
  by_cases hsingle : w.type = "single".toList
  · rw [if_pos hsingle, if_pos hsingle]
    exact if_pos (hsensor hsingle)
  · rw [if_neg hsingle, if_neg hsingle]
    rfl

theorem requestHeaders_of_not_legal {w : CommWorker} (h : ¬ Ajax.Legal w.type w.sensorId) :
    w.requestHeaders = none := by
  unfold requestHeaders Ajax.setRequestHeader
  rw [if_pos (by decide +kernel)]
  simp only [Option.bind_eq_bind, Option.bind_some]
  by_cases htype : Ajax.IsHeaderValue w.type
  · have hsensor : ¬ (w.type = "single".toList → Ajax.IsHeaderValue w.sensorId) :=
      fun hsensor => h ⟨htype, hsensor⟩
    obtain ⟨hsingle, hvalue⟩ := Classical.not_imp.mp hsensor
    rw [if_pos htype, Option.bind_some, if_pos hsingle, if_neg hvalue]
  · rw [if_neg htype, Option.bind_none]

theorem getSceneFromServer_of_legal {w : CommWorker} (hrunning : w.runningStatus)
    (hendpt : w.serverEndpt ≠ []) (hlegal : Ajax.Legal w.type w.sensorId) :
    w.getSceneFromServer = ({ w with timeouts := w.timeouts + 1 },
      .sent ⟨w.serverEndpt, w.port, w.path, Ajax.headers w.type w.sensorId⟩) := by
  unfold getSceneFromServer
  rw [if_pos hendpt, if_pos hrunning, requestHeaders_of_legal hlegal]

theorem getSceneFromServer_of_not_legal {w : CommWorker} (hendpt : w.serverEndpt ≠ [])
    (hlegal : ¬ Ajax.Legal w.type w.sensorId) : w.getSceneFromServer = (w, .opened) := by
  unfold getSceneFromServer
  rw [if_pos hendpt, requestHeaders_of_not_legal hlegal]

/-- What follows `getSceneFromServer` is left out after an exception. -/
def afterwards (posts : List Post) : Ajax → List Post
  | .opened => [.uncaught]
  | .untouched | .sent _ => posts

/-- A timeout runs. -/
def onTimeout (w : CommWorker) : CommWorker × Ajax × List Post :=
  let r := getSceneFromServer { w with timeouts := w.timeouts - 1 }
  (r.1, r.2, afterwards [] r.2)

/-- The handler of `message`. -/
def onMessage (w : CommWorker) : Command → CommWorker × Ajax × List Post
  | .start data =>
    let r := getSceneFromServer { w with
      runningStatus := true
      serverEndpt := data.serverEndPt
      port := data.port
      fps := data.fps
      path := data.path
      type := data.type
      sensorId := if data.type = "single".toList then data.sensorId else w.sensorId }
    (r.1, r.2, afterwards [.status "Worker Started".toList] r.2)
  | .stop => ({ w with runningStatus := false, closed := true }, .untouched,
      [.status "Worker Stopping".toList])
  | .other msg => (w, .untouched, [.text ("Error in Web Worker : ".toList ++ msg)])

/-- `sceneCallback` when a request has ended, without a reply if it has failed. -/
def sceneCallback : Option Reply → List Post
  | some reply => match reply.status with
    | .ok => [.status "Response Received".toList, .data reply.content]
    | .notFound => [.error "Server Endpt not found".toList]
    | .badRequest => [.error "Connection Failed".toList]
  | none => [.error "Connection Failed".toList]

end CommWorker

/-- The client that `initClient` makes.  `open` takes its address, which
`testConnection` has tried. -/
structure Network where
  serverEndpt : Str
  port : Nat
  serverEndpt_ne_nil : serverEndpt ≠ []

namespace Network

/-- `initClient`, if the server is there. -/
def initClient (serverEndpoint : Str) (port : Nat) : Network :=
  ⟨"http://".toList ++ serverEndpoint, port, List.append_ne_nil_of_left_ne_nil (by decide) _⟩

/-- The argument `cmd` of `startCommWorker`. -/
structure Cmd where
  type : Str
  sensorId : Str

/-- `startCommWorker`: the message that a new worker gets. -/
def startCommWorker (network : Network) (cmd : Cmd) : Command :=
  .start
    { serverEndPt := network.serverEndpt
      port := network.port
      fps := 1
      path := "/api/visualisations/data.json".toList
      type := cmd.type
      sensorId := cmd.sensorId }

/-- `stopCommWorker`. -/
def stopCommWorker : Command := .stop

end Network

/-! ## A worker and the server -/

/-- The server gets a poll.  The browser adds headers of other names. -/
structure Carries (req : Request) (poll : Poll) : Prop where
  uri : req.uri = poll.path
  header : ∀ name ∈ ["Content-Type", "Request-Type", "Sensor-Id"],
    requestHeaderVal req name = requestHeaderVal ⟨poll.path, poll.headers⟩ name

structure Polls (K : Type) where
  worker : CommWorker
  inbox : List Command
  posts : List Post
  net : State Poll Reply (Server K)
  /-- The requests that `open` has ended. -/
  aborted : List Nat

namespace Polls

variable {K : Type}

/-- The page has just started the worker. -/
def start (network : Network) (cmd : Network.Cmd) (server : Server K) : Polls K :=
  ⟨.new, [network.startCommWorker cmd], [], .start server, []⟩

/-- What is done with the `XMLHttpRequest` of a worker. -/
def withAjax (s : Polls K) : Ajax → Polls K
  | .untouched => s
  | .opened => { s with net := s.net.giveUp, aborted := s.aborted ++ s.net.waiting.toList }
  | .sent poll => { s with net := s.net.send poll, aborted := s.aborted ++ s.net.waiting.toList }

/-- The worker has run a function. -/
def afterTask (s : Polls K) (r : CommWorker × Ajax × List Post) : Polls K :=
  { s.withAjax r.2.1 with worker := r.1, posts := s.posts ++ r.2.2 }

section Runs

variable [Json.Machine] [Field K] [LinearOrder K] [FloorRing K] (site : Site)
  (moves : Server K → Server K → Prop)

/-- The server answers a poll. -/
def Serves (s : Server K) (poll : Poll) (reply : Reply) (s' : Server K) : Prop :=
  ∃ world req, Carries req poll ∧ (handleRequest site world req).run s = .ok reply s'

/-- A worker that is closed takes no step. -/
inductive Step (s : Polls K) : Polls K → Prop
  | message {command : Command} {rest : List Command} (running : s.worker.closed = false)
      (next : s.inbox = command :: rest) :
      Step s ({ s with inbox := rest }.afterTask (s.worker.onMessage command))
  | timeout (running : s.worker.closed = false) (pending : 0 < s.worker.timeouts) :
      Step s (s.afterTask s.worker.onTimeout)
  | stopped : Step s { s with inbox := s.inbox ++ [Network.stopCommWorker] }
  | answered {number : Nat} {poll : Poll} {reply : Reply} {server : Server K}
      (asked : s.net.asked[number]? = some poll)
      (served : Serves site s.net.server poll reply server) :
      Step s { s with net := s.net.answer number reply server }
  | moved {server : Server K} (moved : moves s.net.server server) :
      Step s { s with net := s.net.move server }
  | arrived {a : Answer Reply} (running : s.worker.closed = false) (arrived : a ∈ s.net.answered)
      (awaited : s.net.waiting = some a.number) :
      Step s { s with
        posts := s.posts ++ CommWorker.sceneCallback (some a.reply)
        net := s.net.display a }
  | failed {number : Nat} (running : s.worker.closed = false)
      (awaited : s.net.waiting = some number) :
      Step s { s with posts := s.posts ++ CommWorker.sceneCallback none, net := s.net.giveUp }

inductive Runs (s₀ : Polls K) : Polls K → Prop
  | refl : Runs s₀ s₀
  | step {s s' : Polls K} (run : Runs s₀ s) (step : Step site moves s s') : Runs s₀ s'

end Runs

/-! ## The life of a worker -/

section Life

variable (network : Network) (cmd : Network.Cmd)

/-- A worker after its `start`, with its timeouts. -/
def running (timeouts : Nat) : CommWorker where
  runningStatus := true
  sensorId := if cmd.type = "single".toList then cmd.sensorId else "null".toList
  serverEndpt := network.serverEndpt
  port := network.port
  path := "/api/visualisations/data.json".toList
  fps := 1
  type := cmd.type
  timeouts := timeouts
  closed := false

/-- What it asks for. -/
def poll : Poll where
  serverEndpt := network.serverEndpt
  port := network.port
  path := "/api/visualisations/data.json".toList
  headers := Ajax.headers cmd.type cmd.sensorId

/-- The end of a request, with an answer or without. -/
structure Outcome where
  number : Nat
  answer : Option (Answer Reply)

/-- The messages of the worker about its requests. -/
def reports (outcomes : List Outcome) : List Post :=
  outcomes.flatMap fun outcome => CommWorker.sceneCallback (outcome.answer.map Answer.reply)

/-- Every request has one end: the worker has reported it, or `open` has ended
it, or the worker waits for it.  The reports are in the order of the requests. -/
structure Accounts (outcomes : List Outcome) (s : Polls K) : Prop where
  shown : outcomes.filterMap Outcome.answer = s.net.shown
  own : ∀ outcome ∈ outcomes, ∀ a, outcome.answer = some a → a.number = outcome.number
  each : (outcomes.map Outcome.number ++ (s.aborted ++ s.net.waiting.toList)).Perm
    (List.range s.net.asked.length)
  ordered : (outcomes.map Outcome.number).Pairwise (· < ·)

/-- A worker starts, polls with one timeout, and stops.  It polls only with
texts that headers can have. -/
inductive Phase (outcomes : List Outcome) (s : Polls K) : Prop
  | starting (n : Nat) (worker : s.worker = .new)
      (inbox : s.inbox = network.startCommWorker cmd :: List.replicate n Network.stopCommWorker)
      (posts : s.posts = []) (asked : s.net.asked = [])
  | polling (legal : Ajax.Legal cmd.type cmd.sensorId) (n : Nat)
      (worker : s.worker = running network cmd 1)
      (inbox : s.inbox = List.replicate n Network.stopCommWorker)
      (posts : s.posts = .status "Worker Started".toList :: reports outcomes)
  | stopped (legal : Ajax.Legal cmd.type cmd.sensorId) (closed : s.worker.closed)
      (posts : s.posts = .status "Worker Started".toList :: reports outcomes ++
        [.status "Worker Stopping".toList])
  | idle (illegal : ¬ Ajax.Legal cmd.type cmd.sensorId) (n : Nat)
      (worker : s.worker = running network cmd 0)
      (inbox : s.inbox = List.replicate n Network.stopCommWorker)
      (posts : s.posts = [.uncaught]) (asked : s.net.asked = [])
  | idleStopped (illegal : ¬ Ajax.Legal cmd.type cmd.sensorId) (closed : s.worker.closed)
      (posts : s.posts = [.uncaught, .status "Worker Stopping".toList]) (asked : s.net.asked = [])

theorem legal_running {timeouts : Nat} :
    Ajax.Legal (running network cmd timeouts).type (running network cmd timeouts).sensorId ↔
      Ajax.Legal cmd.type cmd.sensorId := by
  refine and_congr_right fun _ => forall_congr' fun (hsingle : cmd.type = "single".toList) => ?_
  rw [running, if_pos hsingle]

theorem headers_running {timeouts : Nat} :
    Ajax.headers (running network cmd timeouts).type (running network cmd timeouts).sensorId =
      Ajax.headers cmd.type cmd.sensorId := by
  unfold Ajax.headers running
  dsimp only
  by_cases htype : cmd.type = "single".toList
  · rw [if_pos htype, if_pos htype, if_pos htype]
  · rw [if_neg htype, if_neg htype]

/-- The worker polls, or finds out that it cannot. -/
theorem getSceneFromServer_running (timeouts : Nat) :
    (Ajax.Legal cmd.type cmd.sensorId → (running network cmd timeouts).getSceneFromServer =
      (running network cmd (timeouts + 1), .sent (poll network cmd))) ∧
    (¬ Ajax.Legal cmd.type cmd.sensorId → (running network cmd timeouts).getSceneFromServer =
      (running network cmd timeouts, .opened)) := by
  constructor
  · intro hlegal
    have h := CommWorker.getSceneFromServer_of_legal (w := running network cmd timeouts) rfl
      network.serverEndpt_ne_nil ((legal_running network cmd).mpr hlegal)
    rw [headers_running] at h
    exact h
  · intro hlegal
    exact CommWorker.getSceneFromServer_of_not_legal (w := running network cmd timeouts)
      network.serverEndpt_ne_nil (mt (legal_running network cmd).mp hlegal)

theorem onMessage_new :
    (Ajax.Legal cmd.type cmd.sensorId → CommWorker.new.onMessage (network.startCommWorker cmd) =
      (running network cmd 1, .sent (poll network cmd), [.status "Worker Started".toList])) ∧
    (¬ Ajax.Legal cmd.type cmd.sensorId → CommWorker.new.onMessage (network.startCommWorker cmd) =
      (running network cmd 0, .opened, [.uncaught])) := by
  have hstart : CommWorker.new.onMessage (network.startCommWorker cmd) =
      let r := (running network cmd 0).getSceneFromServer
      (r.1, r.2, CommWorker.afterwards [.status "Worker Started".toList] r.2) := rfl
  constructor <;> intro hlegal
  · rw [hstart, (getSceneFromServer_running network cmd 0).1 hlegal]
    rfl
  · rw [hstart, (getSceneFromServer_running network cmd 0).2 hlegal]
    rfl

theorem onTimeout_running (hlegal : Ajax.Legal cmd.type cmd.sensorId) :
    (running network cmd 1).onTimeout =
      (running network cmd 1, .sent (poll network cmd), []) := by
  have htimeout : (running network cmd 1).onTimeout =
      let r := (running network cmd 0).getSceneFromServer
      (r.1, r.2, CommWorker.afterwards [] r.2) := rfl
  rw [htimeout, (getSceneFromServer_running network cmd 0).1 hlegal]
  rfl

end Life

section Sound

variable [Json.Machine] [Field K] [LinearOrder K] [FloorRing K] (site : Site)
  (moves : Server K → Server K → Prop) (network : Network) (cmd : Network.Cmd)

/-- What holds in every run. -/
structure Sound (server : Server K) (s : Polls K) : Prop where
  net : Polling.Run (Serves site) moves (.start server) s.net
  asked : ∀ request ∈ s.net.asked, request = poll network cmd
  phase : ∃ outcomes : List Outcome, Accounts outcomes s ∧ Phase network cmd outcomes s

variable {site} {moves} {network} {cmd} {server : Server K} {s s' : Polls K}
  {outcomes : List Outcome}

theorem Sound.start : Sound site moves network cmd server (start network cmd server) where
  net := .refl
  asked _ h := absurd h List.not_mem_nil
  phase := by
    refine ⟨[], ⟨rfl, fun _ h => absurd h List.not_mem_nil, .refl _, .nil⟩, ?_⟩
    exact .starting 0 rfl rfl rfl rfl

omit [Json.Machine] [Field K] [LinearOrder K] [FloorRing K] in
theorem reports_append (outcomes : List Outcome) (outcome : Outcome) :
    reports (outcomes ++ [outcome]) =
      reports outcomes ++ CommWorker.sceneCallback (outcome.answer.map Answer.reply) := by
  unfold reports
  rw [List.flatMap_append, List.flatMap_singleton]

/-- Nothing is awaited of a server that has not been asked. -/
theorem Sound.waiting_eq_none (h : Sound site moves network cmd server s)
    (hasked : s.net.asked = []) : s.net.waiting = none := by
  cases hwaiting : s.net.waiting with
  | none => rfl
  | some n =>
    have hlast := (h.net.sound.latest n hwaiting).1
    rw [hasked] at hlast
    cases hlast

/-! ## The accounts -/

omit [Json.Machine] [Field K] [LinearOrder K] [FloorRing K] in
/-- A request that is sent ends the one that is awaited. -/
theorem Accounts.sent (h : Accounts outcomes s) (request : Poll) :
    Accounts outcomes (s.withAjax (.sent request)) where
  shown := h.shown
  own := h.own
  ordered := h.ordered
  each := by
    show (outcomes.map Outcome.number ++
      ((s.aborted ++ s.net.waiting.toList) ++ [s.net.asked.length])).Perm
        (List.range (s.net.asked ++ [request]).length)
    rw [List.length_append, List.length_singleton, List.range_succ, ← List.append_assoc]
    exact h.each.append_right _

omit [Json.Machine] [Field K] [LinearOrder K] [FloorRing K] in
/-- The accounts are about the requests only. -/
theorem Accounts.congr (h : Accounts outcomes s) (hshown : s'.net.shown = s.net.shown)
    (haborted : s'.aborted = s.aborted) (hwaiting : s'.net.waiting = s.net.waiting)
    (hasked : s'.net.asked = s.net.asked) : Accounts outcomes s' where
  shown := h.shown.trans hshown.symm
  own := h.own
  ordered := h.ordered
  each := by
    rw [haborted, hwaiting, hasked]
    exact h.each

omit [Json.Machine] [Field K] [LinearOrder K] [FloorRing K] in
/-- No request has ended before one is sent. -/
theorem Accounts.eq_nil (h : Accounts outcomes s) (hasked : s.net.asked = []) :
    outcomes = [] := by
  have heach := h.each
  rw [hasked] at heach
  exact List.map_eq_nil_iff.mp (List.append_eq_nil_iff.mp heach.eq_nil).1

/-- The awaited request is the last one, and has not ended before. -/
theorem Sound.number_lt (h : Sound site moves network cmd server s)
    (haccounts : Accounts outcomes s) {number : Nat} (hawaited : s.net.waiting = some number) :
    ∀ n ∈ outcomes.map Outcome.number, n < number := by
  intro n hn
  have hlast := (h.net.sound.latest number hawaited).1
  have heach := haccounts.each
  rw [hawaited] at heach
  have hlt : n < s.net.asked.length :=
    List.mem_range.mp (heach.subset (List.mem_append_left _ hn))
  have hne : n ≠ number := by
    rintro rfl
    have hnodup := heach.nodup_iff.mpr List.nodup_range
    exact (List.nodup_append.mp hnodup).2.2 n hn n
      (List.mem_append_right _ (List.mem_singleton_self n)) rfl
  omega

theorem Accounts.ended (h : Sound site moves network cmd server s)
    (haccounts : Accounts outcomes s) (outcome : Outcome)
    {net : State Poll Reply (Server K)} {posts : List Post}
    (hawaited : s.net.waiting = some outcome.number)
    (hown : ∀ a, outcome.answer = some a → a.number = outcome.number)
    (hasked : net.asked = s.net.asked) (hwaiting : net.waiting = none)
    (hshown : net.shown = s.net.shown ++ outcome.answer.toList) :
    Accounts (outcomes ++ [outcome]) { s with posts := posts, net := net } where
  shown := by
    show _ = net.shown
    rw [hshown, ← haccounts.shown, List.filterMap_append]
    cases hanswer : outcome.answer <;> simp [hanswer]
  own := List.forall_mem_append.mpr ⟨haccounts.own, List.forall_mem_singleton.mpr hown⟩
  each := by
    have heach := haccounts.each
    rw [hawaited] at heach
    show ((outcomes ++ [outcome]).map Outcome.number ++ (s.aborted ++ net.waiting.toList)).Perm _
    rw [hasked, hwaiting, List.map_append, List.append_assoc, Option.toList_none, List.append_nil]
    refine (List.perm_append_comm.append_left _).trans heach
  ordered := by
    rw [List.map_append]
    refine List.pairwise_append.mpr ⟨haccounts.ordered, List.pairwise_singleton _ _, ?_⟩
    intro n hn m hm
    rw [List.mem_singleton.mp hm]
    exact h.number_lt haccounts hawaited n hn

/-! ## The steps -/

/-- The worker sends a poll. -/
theorem Sound.sent (h : Sound site moves network cmd server s) (haccounts : Accounts outcomes s)
    (hphase : Phase network cmd outcomes s') (hnet : s'.net = s.net.send (poll network cmd))
    (haborted : s'.aborted = s.aborted ++ s.net.waiting.toList) :
    Sound site moves network cmd server s' where
  net := by
    rw [hnet]
    exact h.net.step (.send _)
  asked := by
    intro request hrequest
    rw [hnet] at hrequest
    rcases List.mem_append.mp hrequest with hold | hnew
    · exact h.asked request hold
    · exact List.mem_singleton.mp hnew
  phase := by
    refine ⟨outcomes, (haccounts.sent (poll network cmd)).congr ?_ haborted ?_ ?_, hphase⟩ <;>
      rw [hnet] <;> rfl

theorem Sound.message (h : Sound site moves network cmd server s) {command : Command}
    {rest : List Command} (hrunning : s.worker.closed = false) (hnext : s.inbox = command :: rest) :
    Sound site moves network cmd server
      ({ s with inbox := rest }.afterTask (s.worker.onMessage command)) := by
  obtain ⟨outcomes, haccounts, hphase⟩ := h.phase
  cases hphase with
  | starting n hworker hinbox hposts hasked =>
    rw [hinbox] at hnext
    obtain ⟨rfl, rfl⟩ := List.cons.inj hnext
    obtain rfl := haccounts.eq_nil hasked
    by_cases hlegal : Ajax.Legal cmd.type cmd.sensorId
    · rw [hworker, (onMessage_new network cmd).1 hlegal]
      exact h.sent haccounts (.polling hlegal n rfl rfl (by rw [afterTask, hposts]; rfl)) rfl rfl
    · rw [hworker, (onMessage_new network cmd).2 hlegal]
      have hwaiting := h.waiting_eq_none hasked
      refine ⟨h.net.step .giveUp, h.asked, [], haccounts.congr rfl ?_ ?_ rfl,
        .idle hlegal n rfl rfl (by rw [afterTask, hposts]; rfl) hasked⟩
      · show s.aborted ++ s.net.waiting.toList = s.aborted
        rw [hwaiting]
        exact List.append_nil _
      · exact hwaiting.symm
  | polling hlegal n hworker hinbox hposts =>
    rw [hinbox] at hnext
    cases n with
    | zero => cases hnext
    | succ n =>
      obtain ⟨rfl, rfl⟩ := List.cons.inj hnext
      refine ⟨h.net, h.asked, outcomes, haccounts.congr rfl rfl rfl rfl, .stopped hlegal rfl ?_⟩
      show s.posts ++ _ = _
      rw [hposts]
      rfl
  | idle hillegal n hworker hinbox hposts hasked =>
    rw [hinbox] at hnext
    cases n with
    | zero => cases hnext
    | succ n =>
      obtain ⟨rfl, rfl⟩ := List.cons.inj hnext
      refine ⟨h.net, h.asked, outcomes, haccounts.congr rfl rfl rfl rfl,
        .idleStopped hillegal rfl ?_ hasked⟩
      show s.posts ++ _ = _
      rw [hposts]
      rfl
  | stopped _ hclosed | idleStopped _ hclosed =>
    rw [hclosed] at hrunning
    cases hrunning

theorem Sound.timeout (h : Sound site moves network cmd server s)
    (hrunning : s.worker.closed = false) (hpending : 0 < s.worker.timeouts) :
    Sound site moves network cmd server (s.afterTask s.worker.onTimeout) := by
  obtain ⟨outcomes, haccounts, hphase⟩ := h.phase
  cases hphase with
  | starting n hworker | idle _ n hworker =>
    rw [hworker] at hpending
    exact absurd hpending (lt_irrefl 0)
  | polling hlegal n hworker hinbox hposts =>
    rw [hworker, onTimeout_running network cmd hlegal]
    refine h.sent haccounts (.polling hlegal n rfl hinbox ?_) rfl rfl
    rw [← hposts]
    exact List.append_nil _
  | stopped _ hclosed | idleStopped _ hclosed =>
    rw [hclosed] at hrunning
    cases hrunning

/-- The server has moved on. -/
theorem Sound.withNet (h : Sound site moves network cmd server s)
    {net : State Poll Reply (Server K)} (hstep : Polling.Step (Serves site) moves s.net net)
    (hasked : net.asked = s.net.asked) (hshown : net.shown = s.net.shown)
    (hwaiting : net.waiting = s.net.waiting) :
    Sound site moves network cmd server { s with net := net } where
  net := h.net.step hstep
  asked := by
    show ∀ request ∈ net.asked, _
    rw [hasked]
    exact h.asked
  phase := by
    obtain ⟨outcomes, haccounts, hphase⟩ := h.phase
    refine ⟨outcomes, haccounts.congr hshown rfl hwaiting hasked, ?_⟩
    cases hphase with
    | starting n hworker hinbox hposts hempty =>
      exact .starting n hworker hinbox hposts (hasked.trans hempty)
    | polling hlegal n hworker hinbox hposts => exact .polling hlegal n hworker hinbox hposts
    | stopped hlegal hclosed hposts => exact .stopped hlegal hclosed hposts
    | idle hillegal n hworker hinbox hposts hempty =>
      exact .idle hillegal n hworker hinbox hposts (hasked.trans hempty)
    | idleStopped hillegal hclosed hposts hempty =>
      exact .idleStopped hillegal hclosed hposts (hasked.trans hempty)

/-- The request that the worker waits for has ended. -/
theorem Sound.ended (h : Sound site moves network cmd server s) (outcome : Outcome)
    {net : State Poll Reply (Server K)} (hstep : Polling.Step (Serves site) moves s.net net)
    (hrunning : s.worker.closed = false) (hawaited : s.net.waiting = some outcome.number)
    (hown : ∀ a, outcome.answer = some a → a.number = outcome.number)
    (hasked : net.asked = s.net.asked) (hwaiting : net.waiting = none)
    (hshown : net.shown = s.net.shown ++ outcome.answer.toList) :
    Sound site moves network cmd server
      { s with
        posts := s.posts ++ CommWorker.sceneCallback (outcome.answer.map Answer.reply)
        net := net } where
  net := h.net.step hstep
  asked := by
    show ∀ request ∈ net.asked, _
    rw [hasked]
    exact h.asked
  phase := by
    obtain ⟨outcomes, haccounts, hphase⟩ := h.phase
    refine ⟨outcomes ++ [outcome],
      Accounts.ended h haccounts outcome hawaited hown hasked hwaiting hshown, ?_⟩
    cases hphase with
    | starting _ _ _ _ hempty | idle _ _ _ _ _ hempty =>
      rw [h.waiting_eq_none hempty] at hawaited
      cases hawaited
    | polling hlegal n hworker hinbox hposts =>
      refine .polling hlegal n hworker hinbox ?_
      show s.posts ++ _ = _
      rw [hposts, reports_append, List.cons_append]
    | stopped _ hclosed | idleStopped _ hclosed =>
      rw [hclosed] at hrunning
      cases hrunning

theorem Sound.step (h : Sound site moves network cmd server s) (hstep : Step site moves s s') :
    Sound site moves network cmd server s' := by
  cases hstep with
  | message hrunning hnext => exact h.message hrunning hnext
  | timeout hrunning hpending => exact h.timeout hrunning hpending
  | stopped =>
    have hstop : ∀ n, List.replicate n Network.stopCommWorker ++ [Network.stopCommWorker] =
        List.replicate (n + 1) Network.stopCommWorker := fun n => List.replicate_succ'.symm
    obtain ⟨outcomes, haccounts, hphase⟩ := h.phase
    refine ⟨h.net, h.asked, outcomes, haccounts.congr rfl rfl rfl rfl, ?_⟩
    cases hphase with
    | starting n hworker hinbox hposts hasked =>
      refine .starting (n + 1) hworker ?_ hposts hasked
      rw [hinbox, List.cons_append, hstop]
    | polling hlegal n hworker hinbox hposts =>
      exact .polling hlegal (n + 1) hworker (by rw [hinbox, hstop]) hposts
    | stopped hlegal hclosed hposts => exact .stopped hlegal hclosed hposts
    | idle hillegal n hworker hinbox hposts hasked =>
      exact .idle hillegal (n + 1) hworker (by rw [hinbox, hstop]) hposts hasked
    | idleStopped hillegal hclosed hposts hasked =>
      exact .idleStopped hillegal hclosed hposts hasked
  | answered hasked hserved => exact h.withNet (.answer hasked hserved) rfl rfl rfl
  | moved hmoved => exact h.withNet (.move hmoved) rfl rfl rfl
  | @arrived a hrunning harrived hawaited =>
    refine h.ended ⟨a.number, some a⟩ (.display harrived hawaited) hrunning hawaited ?_ rfl rfl rfl
    exact fun b hb => congrArg Answer.number (Option.some.inj hb).symm
  | @failed number hrunning hawaited =>
    exact h.ended ⟨number, none⟩ .giveUp hrunning hawaited (fun _ ha => nomatch ha) rfl rfl
      (List.append_nil _).symm

theorem Runs.sound (h : Runs site moves (Polls.start network cmd server) s) :
    Sound site moves network cmd server s := by
  induction h with
  | refl => exact .start
  | step _ hstep ih => exact ih.step hstep

/-! ## What the page gets -/

/-- The messages of a worker.  With texts that headers can have: that it has
started, how its requests have ended, each at most once and never one that
`open` has ended, and that it stops, after which there is nothing.  As long as
it runs one timeout is pending.  With other texts: an exception, and that it
stops, and it asks for nothing. -/
theorem posts_of_runs (h : Runs site moves (Polls.start network cmd server) s) :
    ∃ outcomes : List Outcome, Accounts outcomes s ∧
      (s.posts = [] ∧ s.net.asked = [] ∨
        Ajax.Legal cmd.type cmd.sensorId ∧
          (s.worker.closed = false ∧ s.worker.timeouts = 1 ∧
              s.posts = .status "Worker Started".toList :: reports outcomes ∨
            s.worker.closed ∧ s.posts = .status "Worker Started".toList :: reports outcomes ++
              [.status "Worker Stopping".toList]) ∨
        ¬ Ajax.Legal cmd.type cmd.sensorId ∧ s.net.asked = [] ∧
          (s.worker.closed = false ∧ s.worker.timeouts = 0 ∧ s.posts = [.uncaught] ∨
            s.worker.closed ∧ s.posts = [.uncaught, .status "Worker Stopping".toList])) := by
  obtain ⟨outcomes, haccounts, hphase⟩ := h.sound.phase
  refine ⟨outcomes, haccounts, ?_⟩
  cases hphase with
  | starting n hworker hinbox hposts hasked => exact Or.inl ⟨hposts, hasked⟩
  | polling hlegal n hworker hinbox hposts =>
    exact Or.inr (Or.inl ⟨hlegal, Or.inl ⟨by rw [hworker]; rfl, by rw [hworker]; rfl, hposts⟩⟩)
  | stopped hlegal hclosed hposts =>
    exact Or.inr (Or.inl ⟨hlegal, Or.inr ⟨hclosed, hposts⟩⟩)
  | idle hillegal n hworker hinbox hposts hasked =>
    exact Or.inr (Or.inr ⟨hillegal, hasked,
      Or.inl ⟨by rw [hworker]; rfl, by rw [hworker]; rfl, hposts⟩⟩)
  | idleStopped hillegal hclosed hposts hasked =>
    exact Or.inr (Or.inr ⟨hillegal, hasked, Or.inr ⟨hclosed, hposts⟩⟩)

omit [Json.Machine] [Field K] [LinearOrder K] [FloorRing K] in
theorem data_reports {outcomes : List Outcome}
    (h : ∀ a ∈ outcomes.filterMap Outcome.answer, a.reply.status = .ok) :
    (reports outcomes).filterMap Post.data? =
      (outcomes.filterMap Outcome.answer).map fun a => a.reply.content := by
  induction outcomes with
  | nil => rfl
  | cons outcome outcomes ih =>
    obtain ⟨number, answer⟩ := outcome
    unfold reports at ih ⊢
    rw [List.flatMap_cons, List.filterMap_append]
    cases answer with
    | none => exact ih h
    | some a =>
      have hcons : (⟨number, some a⟩ :: outcomes : List Outcome).filterMap Outcome.answer =
          a :: outcomes.filterMap Outcome.answer := rfl
      rw [hcons] at h ⊢
      obtain ⟨ha, hrest⟩ := List.forall_mem_cons.mp h
      rw [ih hrest]
      simp only [Option.map_some, CommWorker.sceneCallback, ha]
      rfl

/-- The type that the server reads. -/
def sentType (cmd : Network.Cmd) : Str := Ajax.normalize cmd.type

/-- The sensor that the server reads. -/
def sentSensorId (cmd : Network.Cmd) : Str :=
  if cmd.type = "single".toList then Ajax.normalize cmd.sensorId else []

omit [Json.Machine] [Field K] [LinearOrder K] [FloorRing K] in
theorem requestHeaderVal_of_carries {req : Request} (h : Carries req (poll network cmd)) :
    requestHeaderVal req "Request-Type" = sentType cmd ∧
      requestHeaderVal req "Sensor-Id" = sentSensorId cmd := by
  rw [h.header "Request-Type" (by decide), h.header "Sensor-Id" (by decide), sentSensorId]
  unfold poll Ajax.headers
  by_cases hsingle : cmd.type = "single".toList
  · rw [if_pos hsingle, if_pos hsingle]
    exact ⟨rfl, rfl⟩
  · rw [if_neg hsingle, if_neg hsingle]
    exact ⟨rfl, rfl⟩

theorem shows_of_serves {before after : Server K} {reply : Reply}
    (hwritable : site.writable (Api.file site .visualisationsData))
    (h : Serves site before (poll network cmd) reply after) :
    ∃ text, reply = .ofContent .ok text "text/plain".toList ∧
      (text = [] ∨
        ∃ scene, Shows (sentSensorId cmd) before.viewport after.viewport (sentType cmd) scene ∧
          text = scene.toJSON) := by
  obtain ⟨world, req, hcarries, hrun⟩ := h
  have hpath : urlDecode req.uri = some Endpoint.visualisationsData.path := by
    rw [hcarries.uri]
    show urlDecode Endpoint.visualisationsData.path = _
    decide +kernel
  obtain ⟨htype, hsensor⟩ := requestHeaderVal_of_carries hcarries
  rw [← htype, ← hsensor]
  exact shows_of_poll hwritable hpath hrun

/-- What is shown has been made for a poll of this worker. -/
theorem Sound.made (h : Sound site moves network cmd server s) {a : Answer Reply}
    (ha : a ∈ s.net.shown) :
    ∃ before after, s.net.asked[a.number]? = some (poll network cmd) ∧
      s.net.states[a.time]? = some before ∧ s.net.states[a.time + 1]? = some after ∧
      Serves site before (poll network cmd) a.reply after := by
  obtain ⟨request, before, after, hasked, hbefore, hafter, hserves⟩ :=
    h.net.sound.made a (h.net.sound.arrived a ha)
  obtain rfl := h.asked request (List.mem_of_getElem? hasked)
  exact ⟨before, after, hasked, hbefore, hafter, hserves⟩

/-- The data messages are what is shown. -/
theorem Sound.data (h : Sound site moves network cmd server s)
    (hwritable : site.writable (Api.file site .visualisationsData)) :
    s.posts.filterMap Post.data? = s.net.shown.map fun a => a.reply.content := by
  obtain ⟨outcomes, haccounts, hphase⟩ := h.phase
  have hdata : (reports outcomes).filterMap Post.data? =
      s.net.shown.map fun a => a.reply.content := by
    rw [← haccounts.shown]
    refine data_reports fun a ha => ?_
    rw [haccounts.shown] at ha
    obtain ⟨_, _, -, -, -, hserves⟩ := h.made ha
    obtain ⟨text, hreply, -⟩ := shows_of_serves hwritable hserves
    rw [hreply]
    rfl
  have hnothing : s.net.asked = [] → s.net.shown = [] := by
    intro hasked
    rw [← haccounts.shown, haccounts.eq_nil hasked]
    rfl
  cases hphase with
  | starting n hworker hinbox hposts hasked => rw [hposts, hnothing hasked]; rfl
  | polling hlegal n hworker hinbox hposts => rw [hposts]; exact hdata
  | stopped hlegal hclosed hposts =>
    rw [hposts, List.filterMap_append, List.filterMap_cons_none rfl, hdata]
    exact List.append_nil _
  | idle hillegal n hworker hinbox hposts hasked => rw [hposts, hnothing hasked]; rfl
  | idleStopped hillegal hclosed hposts hasked => rw [hposts, hnothing hasked]; rfl

/-- The data that a page gets are the answers that the worker has shown.  Each
of them is the server's answer to a poll of this worker: nothing, or the scene
in the state that the server was in.  From one to the next both the poll and
the state are later ones, so a page never sees an older scene after a newer
one, in whatever order its requests are answered. -/
theorem data_of_runs (hwritable : site.writable (Api.file site .visualisationsData))
    (h : Runs site moves (Polls.start network cmd server) s) :
    s.posts.filterMap Post.data? = s.net.shown.map (fun a => a.reply.content) ∧
      s.net.shown.Pairwise Later ∧
      ∀ a ∈ s.net.shown, ∃ before after,
        s.net.asked[a.number]? = some (poll network cmd) ∧
        s.net.states[a.time]? = some before ∧ s.net.states[a.time + 1]? = some after ∧
        Serves site before (poll network cmd) a.reply after ∧
        (a.reply.content = [] ∨ ∃ scene,
          Shows (sentSensorId cmd) before.viewport after.viewport (sentType cmd) scene ∧
          a.reply.content = scene.toJSON) := by
  refine ⟨h.sound.data hwritable, h.sound.net.sound.ordered, fun a ha => ?_⟩
  obtain ⟨before, after, hasked, hbefore, hafter, hserves⟩ := h.sound.made ha
  obtain ⟨text, hreply, htext⟩ := shows_of_serves hwritable hserves
  refine ⟨before, after, hasked, hbefore, hafter, hserves, ?_⟩
  rw [hreply]
  exact htext

end Sound

/-- The first sensor is watched. -/
def watched : Network.Cmd := ⟨"single".toList, "a".toList⟩

def localClient : Network := .initClient "localhost".toList 80

def registered : Server ℚ := ⟨.empty, stateAfter Viewport.start Viewport.registration⟩

theorem legal_watched : Ajax.Legal watched.type watched.sensorId :=
  ⟨by decide +kernel, fun _ => by decide +kernel⟩

theorem carries_pollRequest : Carries pollRequest (poll localClient watched) where
  uri := rfl
  header := by decide +kernel

/-- The worker has got one answer. -/
def watchedState (reply : Reply) (server : Server ℚ) : Polls ℚ where
  worker := running localClient watched 1
  inbox := []
  posts := [.status "Worker Started".toList] ++ CommWorker.sceneCallback (some reply)
  net := (((State.start registered).send (poll localClient watched)).answer 0 reply server).display
    ⟨0, 0, reply⟩
  aborted := []

theorem runs_watched : ∃ reply server, Runs quietSite (fun _ _ => False)
    (start localClient watched registered) (watchedState reply server) := by
  obtain ⟨reply, server, hrun⟩ := returns_pollRequest
  refine ⟨reply, server, ?_⟩
  have hstart : Runs quietSite (fun _ _ => False) (start localClient watched registered)
      ⟨running localClient watched 1, [], [.status "Worker Started".toList],
        (State.start registered).send (poll localClient watched), []⟩ := by
    have hstep := @Step.message ℚ _ _ _ _ quietSite (fun _ _ => False)
      (start localClient watched registered) _ _ rfl rfl
    rw [show (start localClient watched registered).worker = CommWorker.new from rfl,
      (onMessage_new localClient watched).1 legal_watched] at hstep
    exact .step .refl hstep
  have hanswered := Runs.step hstart
    (.answered (show [poll localClient watched][0]? = some _ from rfl)
      ⟨quietWorld, pollRequest, carries_pollRequest, hrun⟩)
  exact .step hanswered (@Step.arrived ℚ _ _ _ _ quietSite _ _ ⟨0, 0, reply⟩ rfl
    (List.mem_singleton_self _) rfl)

theorem posts_of_runs_watched : ∃ reply server, ∃ outcomes : List Outcome,
    Accounts outcomes (watchedState reply server) ∧
      ((watchedState reply server).posts = [] ∧ (watchedState reply server).net.asked = [] ∨
        Ajax.Legal watched.type watched.sensorId ∧
          ((watchedState reply server).worker.closed = false ∧
              (watchedState reply server).worker.timeouts = 1 ∧
              (watchedState reply server).posts =
                .status "Worker Started".toList :: reports outcomes ∨
            (watchedState reply server).worker.closed ∧
              (watchedState reply server).posts =
                .status "Worker Started".toList :: reports outcomes ++
                  [.status "Worker Stopping".toList]) ∨
        ¬ Ajax.Legal watched.type watched.sensorId ∧ (watchedState reply server).net.asked = [] ∧
          ((watchedState reply server).worker.closed = false ∧
              (watchedState reply server).worker.timeouts = 0 ∧
              (watchedState reply server).posts = [.uncaught] ∨
            (watchedState reply server).worker.closed ∧
              (watchedState reply server).posts =
                [.uncaught, .status "Worker Stopping".toList])) := by
  obtain ⟨reply, server, hruns⟩ := runs_watched
  exact ⟨reply, server, posts_of_runs hruns⟩

/-- It hands on the scene of the first sensor. -/
theorem data_of_runs_watched : ∃ (reply : Reply) (server : Server ℚ),
    (watchedState reply server).posts.filterMap Post.data? = [reply.content] ∧
      ∃ before after, [registered, server][0]? = some before ∧
        [registered, server][1]? = some after ∧
        Serves quietSite before (poll localClient watched) reply after ∧
        (reply.content = [] ∨ ∃ scene,
          Shows (sentSensorId watched) before.viewport after.viewport (sentType watched) scene ∧
          reply.content = scene.toJSON) := by
  obtain ⟨reply, server, hruns⟩ := runs_watched
  obtain ⟨hposts, -, hscenes⟩ := data_of_runs rfl hruns
  obtain ⟨before, after, -, hbefore, hafter, hserves, htext⟩ :=
    hscenes _ (List.mem_singleton_self _)
  exact ⟨reply, server, hposts, before, after, hbefore, hafter, hserves, htext⟩

end Polls

end MinorityViewport
