import MinorityViewport.Lib.Simulation
import MinorityViewport.Networks.SharedEndpoint
import MinorityViewport.Networks.RequestSafety
import MinorityViewport.Networks.ReplyText
import MinorityViewport.Algorithms.SceneText

/-!
# The API without its files

An endpoint hands its result over through a file.  `answer` is the API as its
callers see it: a request to an endpoint runs its calls and gets their text,
and all other requests leave the viewport alone.  The two endpoints that write
no file have an empty text, if there is a file of theirs.

`Clean` says that the files of the endpoints are empty, as far as there are
any, which every request that runs alone leaves so.  `simulates_handleRequest`
goes from one request to the other level, and `run_requests` from a list of
requests that are handled one after the other.
-/

namespace MinorityViewport.Http

open Exec Simulation

variable {K : Type}

namespace Api

/-- The file of an endpoint. -/
def file (site : Site) (e : Endpoint) : Str := cStr (site.docRoot ++ e.path)

/-- No endpoint finds a text in its file. -/
def Clean (site : Site) (files : Files) : Prop :=
  ∀ e content, files.find? (file site e) = some content → content = []

theorem clean_empty (site : Site) : Clean site .empty := fun _ _ h => by cases h

theorem Clean.assign {site : Site} {files : Files} (h : Clean site files) (name : Str) :
    Clean site (files.assign name []) := by
  intro e content hfind
  rw [OrdMap.find?_assign] at hfind
  split_ifs at hfind
  · exact (Option.some.inj hfind).symm
  · exact h e content hfind

theorem Clean.truncate {site : Site} {files : Files} (h : Clean site files) (fullPath : Str) :
    Clean site (site.truncate fullPath files) := by
  unfold Site.truncate
  split_ifs
  · exact h.assign _
  · exact h

/-- No file comes or goes. -/
def SameNames (files files' : Files) : Prop :=
  ∀ name, (files'.find? name).isSome = (files.find? name).isSome

theorem sameNames_truncate {site : Site} {files : Files} {fullPath : Str}
    (h : (files.find? (cStr fullPath)).isSome) :
    SameNames files (site.truncate fullPath files) := by
  intro name
  unfold Site.truncate
  split_ifs
  · rw [OrdMap.find?_assign]
    split_ifs with hname
    · rw [hname, h]
      rfl
    · rfl
  · rfl

/-- The endpoint that a request is for. -/
def endpoint? (uri : Str) : Option Endpoint :=
  (urlDecode uri).bind fun path => Endpoint.all.find? (path = Endpoint.path ·)

theorem endpoint?_eq_some_iff {uri : Str} {e : Endpoint} :
    endpoint? uri = some e ↔ urlDecode uri = some e.path := by
  unfold endpoint?
  rw [Option.bind_eq_some_iff]
  constructor
  · rintro ⟨path, hpath, hfind⟩
    rw [hpath, show path = e.path by simpa using List.find?_some hfind]
  · intro h
    exact ⟨_, h, Endpoint.find?_path e⟩

section

variable [Json.Machine] [Field K] [LinearOrder K] [FloorRing K]

/-- The viewport, and the endpoints for which there is a file. -/
structure State (K : Type) where
  viewport : Viewport K
  made : Endpoint → Bool

def State.ofFiles (site : Site) (files : Files) (σ : Viewport K) : State K :=
  ⟨σ, fun e => (files.find? (file site e)).isSome⟩

/-- The file of an endpoint is made. -/
def State.make (site : Site) (e : Endpoint) (s : State K) : State K :=
  { s with made := fun e' => file site e' = file site e || s.made e' }

/-- The API as its callers see it.  An endpoint answers with a text, or its
file is not found. -/
def answer (site : Site) (call : World K × Request) :
    EStateM Fault (State K) (Option (Option Str)) :=
  match endpoint? call.2.uri with
  | some e => do
    let text ← zoom State.viewport (fun σ s => { s with viewport := σ }) (e.text call.1 call.2)
    if e.writesFile then do
      modify (State.make site e)
      pure (some (some text))
    else do
      let s ← get
      pure (some (if s.made e then some [] else none))
  | none => pure none

/-- A reply hands a text over. -/
def Meets (reply : Reply) : Option (Option Str) → Prop
  | some (some text) => reply = .ofContent .ok text "text/plain".toList
  | some none => reply = stockReply .notFound
  | none => True

/-- The files are clean, and the rest is the state of the API. -/
structure Related (site : Site) (s : Server K) (a : State K) : Prop where
  clean : Clean site s.files
  state : a = .ofFiles site s.files s.viewport

/-! ## One request -/

omit [Json.Machine] [Field K] [LinearOrder K] [FloorRing K] in
theorem SameNames.ofFiles {site : Site} {files files' : Files} (h : SameNames files files')
    (σ : Viewport K) : State.ofFiles site files' σ = .ofFiles site files σ :=
  congrArg (State.mk σ) (funext fun e => h (file site e))

omit [Json.Machine] [Field K] [LinearOrder K] [FloorRing K] in
theorem make_ofFiles (site : Site) (e : Endpoint) (files : Files) (σ : Viewport K)
    (content : Str) :
    (State.ofFiles site files σ).make site e =
      .ofFiles site (files.assign (file site e) content) σ := by
  refine congrArg (State.mk σ) (funext fun e' => ?_)
  rw [OrdMap.find?_assign]
  by_cases h : file site e' = file site e
  · simp [h]
  · simp [h, State.ofFiles]

omit [Json.Machine] [Field K] [LinearOrder K] [FloorRing K] in
theorem run_sendFile (site : Site) (requestPath : Str) {s : Server K} (h : Clean site s.files) :
    ∃ rep files', (sendFile site requestPath).run s = .ok rep ⟨files', s.viewport⟩ ∧
      Clean site files' ∧ SameNames s.files files' := by
  unfold sendFile
  simp only [EStateM.run_bind, EStateM.run_get]
  cases hread : Site.read (site.docRoot ++ requestPath) s.files with
  | none => exact ⟨_, _, rfl, h, fun _ => rfl⟩
  | some content =>
    have hthere : (s.files.find? (cStr (site.docRoot ++ requestPath))).isSome :=
      Option.isSome_iff_exists.mpr ⟨content, hread⟩
    by_cases hjson : extension requestPath = "json".toList
    · simp only [if_pos hjson]
      exact ⟨_, _, rfl, h.truncate _, sameNames_truncate hthere⟩
    · simp only [if_neg hjson]
      exact ⟨_, _, rfl, h, fun _ => rfl⟩

/-- An endpoint without a file of its own is followed by `sendFile`. -/
theorem run_of_text {site : Site} {world : World K} {req : Request} {e : Endpoint}
    (hpath : urlDecode req.uri = some e.path) (he : e.writesFile = false) {s : Server K}
    {σ' : Viewport K} {text : Str} (h : (e.text world req).run s.viewport = .ok text σ') :
    (handleRequest site world req).run s = (sendFile site e.path).run ⟨s.files, σ'⟩ := by
  rw [handleRequest_eq hpath, EStateM.run_bind, Endpoint.action, he]
  simp only [Bool.false_eq_true, if_false, EStateM.run_bind, run_zoom, h]
  rfl

theorem run_of_fault {site : Site} {world : World K} {req : Request} {e : Endpoint}
    (hpath : urlDecode req.uri = some e.path) (he : e.writesFile = false) {s : Server K}
    {σ' : Viewport K} {fault : Fault} (h : (e.text world req).run s.viewport = .error fault σ') :
    (handleRequest site world req).run s = .error fault ⟨s.files, σ'⟩ := by
  rw [handleRequest_eq hpath, EStateM.run_bind, Endpoint.action, he]
  simp only [Bool.false_eq_true, if_false, EStateM.run_bind, run_zoom, h]

/-- An endpoint that returns answers as the API does. -/
theorem run_endpoint {site : Site} {world : World K} {req : Request} {e : Endpoint}
    (hpath : urlDecode req.uri = some e.path)
    (hwritable : site.writable (file site e)) {s : Server K} (h : Clean site s.files)
    {text : Str} {σ' : Viewport K} (htext : (e.text world req).run s.viewport = .ok text σ') :
    ∃ reply files', (handleRequest site world req).run s = .ok reply ⟨files', σ'⟩ ∧
      Clean site files' ∧
      if e.writesFile then files' = s.files.assign (file site e) [] ∧ Meets reply (some (some text))
      else SameNames s.files files' ∧
        Meets reply (some (if (s.files.find? (file site e)).isSome then some [] else none)) := by
  cases he : e.writesFile with
  | true =>
    have hrun := @run_handleRequest K _ _ _ _ site world req e he hpath hwritable s.files []
      s.viewport
    rw [Stage.run_steps, htext] at hrun
    exact ⟨_, _, hrun, h.assign _, rfl, rfl⟩
  | false =>
    obtain ⟨hext, htype⟩ := extension_path e
    rw [run_of_text hpath he htext]
    unfold sendFile
    simp only [EStateM.run_bind, EStateM.run_get]
    cases hread : Site.read (site.docRoot ++ e.path) s.files with
    | none =>
      have hnone : s.files.find? (file site e) = none := hread
      refine ⟨_, _, rfl, h, fun _ => rfl, ?_⟩
      rw [hnone]
      rfl
    | some content =>
      have hsome : s.files.find? (file site e) = some content := hread
      obtain rfl : content = [] := h e content hsome
      simp only [hext, htype, if_true]
      refine ⟨_, _, rfl, h.truncate _,
        sameNames_truncate (Option.isSome_iff_exists.mpr ⟨_, hsome⟩), ?_⟩
      rw [hsome]
      rfl

theorem run_endpoint_fault {site : Site} {world : World K} {req : Request} {e : Endpoint}
    (hpath : urlDecode req.uri = some e.path)
    (hwritable : site.writable (file site e)) {s : Server K} {fault : Fault} {σ' : Viewport K}
    (htext : (e.text world req).run s.viewport = .error fault σ') :
    ∃ s', (handleRequest site world req).run s = .error fault s' := by
  cases he : e.writesFile with
  | true =>
    have hrun := @run_handleRequest K _ _ _ _ site world req e he hpath hwritable s.files []
      s.viewport
    rw [Stage.run_steps, htext] at hrun
    exact ⟨_, hrun⟩
  | false => exact ⟨_, run_of_fault hpath he htext⟩

theorem simulates_handleRequest {site : Site} (hwritable : ∀ e, site.writable (file site e))
    (call : World K × Request) :
    Simulates (Related site) Meets (handleRequest site call.1 call.2) (answer site call) := by
  rintro s _ ⟨hclean, rfl⟩
  unfold answer
  cases hendpoint : endpoint? call.2.uri with
  | none =>
    rw [handleRequest_eq_served]
    cases hserved : servedPath call.2.uri with
    | none => exact .ok ⟨hclean, rfl⟩ trivial
    | some path =>
      have hfind : Endpoint.all.find? (path = Endpoint.path ·) = none := by
        cases hfind : Endpoint.all.find? (path = Endpoint.path ·) with
        | none => rfl
        | some e =>
          rw [show path = e.path by simpa using List.find?_some hfind,
            servedPath_eq_path_iff, ← endpoint?_eq_some_iff, hendpoint] at hserved
          cases hserved
      obtain ⟨rep, files', hrun, hclean', hnames⟩ := run_sendFile site path hclean
      simp only [hfind, Option.elim_none, pure_bind, hrun]
      exact .ok ⟨hclean', (hnames.ofFiles s.viewport).symm⟩ trivial
  | some e =>
    have hpath := endpoint?_eq_some_iff.mp hendpoint
    have hview : (State.ofFiles site s.files s.viewport).viewport = s.viewport := rfl
    simp only [EStateM.run_bind, run_zoom, hview]
    cases htext : (e.text call.1 call.2).run s.viewport with
    | ok text σ' =>
      obtain ⟨reply, files', hrun, hclean', hmeets⟩ :=
        run_endpoint hpath (hwritable e) hclean htext
      rw [hrun]
      cases he : e.writesFile with
      | true =>
        rw [he, if_pos rfl] at hmeets
        obtain ⟨rfl, hreply⟩ := hmeets
        exact .ok ⟨hclean', make_ofFiles site e s.files σ' []⟩ hreply
      | false =>
        rw [he, if_neg Bool.false_ne_true] at hmeets
        exact .ok ⟨hclean', (hmeets.1.ofFiles σ').symm⟩ hmeets.2
    | error fault σ' =>
      obtain ⟨s', hrun⟩ := run_endpoint_fault hpath (hwritable e) htext
      rw [hrun]
      exact .error fault s' _

/-! ## Requests in turn -/

/-- Requests that are handled one after the other are answered as the API
answers them, whatever other files there are. -/
theorem run_requests (site : Site) (hwritable : ∀ e, site.writable (file site e))
    (files : Files) (hclean : Clean site files) (σ : Viewport K)
    (calls : List (World K × Request)) :
    match (calls.mapM (answer site)).run (State.ofFiles site files σ) with
    | .ok texts a => ∃ replies files',
        (calls.mapM fun call => handleRequest site call.1 call.2).run ⟨files, σ⟩ =
          .ok replies ⟨files', a.viewport⟩ ∧
        Clean site files' ∧ a = .ofFiles site files' a.viewport ∧ List.Forall₂ Meets replies texts
    | .error fault _ => ∃ s',
        (calls.mapM fun call => handleRequest site call.1 call.2).run ⟨files, σ⟩ =
          .error fault s' := by
  have hagrees := simulates_mapM calls (fun call _ => simulates_handleRequest hwritable call)
    ⟨files, σ⟩ (State.ofFiles site files σ) ⟨hclean, rfl⟩
  generalize (calls.mapM fun call => handleRequest site call.1 call.2).run ⟨files, σ⟩ = r at hagrees
  generalize (calls.mapM (answer site)).run (State.ofFiles site files σ) = r' at hagrees
  cases hagrees with
  | @ok replies texts s a hrelated hmeets =>
    obtain ⟨hclean', rfl⟩ := hrelated
    exact ⟨replies, s.files, rfl, hclean', rfl, hmeets⟩
  | error fault s a => exact ⟨s, rfl⟩

end

/-- A client that comes and goes, a listing, and a page that the site does not
have. -/
def listingCalls : List (World ℚ × Request) :=
  [(quietWorld, ⟨Endpoint.clientsRegister.path, []⟩),
    (quietWorld, ⟨Endpoint.clientsDeregister.path, [⟨"CLIENT_ID".toList, "1".toList⟩]⟩),
    (quietWorld, ⟨Endpoint.clientsListing.path, []⟩), (quietWorld, ⟨"/index.html".toList, []⟩)]

/-- Nobody has made the file of the deregistration. -/
def listingTexts : List (Option (Option Str)) :=
  [some (some "\x7b\"client_id\":1\x7d".toList), some none,
    some (some "\x7b\"clients\":[]\x7d".toList), none]

theorem run_answer_listingCalls :
    ∃ a, (listingCalls.mapM (answer quietSite)).run (.ofFiles quietSite .empty Viewport.start) =
      .ok listingTexts a :=
  ⟨_, rfl⟩

theorem run_requests_listing :
    ∃ (replies : List Reply) (files' : Files) (a : State ℚ),
      (listingCalls.mapM fun call => handleRequest quietSite call.1 call.2).run
          ⟨.empty, Viewport.start⟩ = .ok replies ⟨files', a.viewport⟩ ∧
      Clean quietSite files' ∧ a = .ofFiles quietSite files' a.viewport ∧
      List.Forall₂ Meets replies listingTexts := by
  have hruns := run_requests quietSite (fun _ => rfl) .empty (clean_empty quietSite)
    Viewport.start listingCalls
  obtain ⟨a, hanswer⟩ := run_answer_listingCalls
  rw [hanswer] at hruns
  obtain ⟨replies, files', hrun, hrest⟩ := hruns
  exact ⟨replies, files', a, hrun, hrest⟩

end Api

/-! ## Polls -/

section Polls

variable [Json.Machine] [Field K] [LinearOrder K] [FloorRing K]

/-- The scene that is shown for a `Request-Type` and a sensor. -/
inductive Shows (sensorId : Str) (σ σ' : Viewport K) : Str → Scene K → Prop
  | globalScene : Shows sensorId σ σ' "global".toList σ'.globalScene
  | single {scenePtr : Addr} {scene : Scene K}
      (found : σ.getLocalSceneBySensorId sensorId = some scenePtr)
      (deref : σ.scenes.deref scenePtr = .ok scene) : Shows sensorId σ σ' "single".toList scene

omit [Json.Machine] in
theorem shows_of_sceneText {world : World K} {req : Request} {σ σ' : Viewport K} {text : Str}
    (h : (Endpoint.sceneText world req).run σ = .ok text σ') :
    text = [] ∨ ∃ scene, Shows (requestHeaderVal req "Sensor-Id") σ σ'
      (requestHeaderVal req "Request-Type") scene ∧ text = scene.toJSON := by
  unfold Endpoint.sceneText at h
  dsimp only at h
  split_ifs at h with hglobal hsingle
  · rw [hglobal]
    obtain ⟨found, σ₁, -, hrest⟩ := run_bind_eq_ok_iff.mp h
    rw [run_get_bind_eq_ok_iff] at hrest
    obtain ⟨rfl, rfl⟩ := run_pure_eq_ok_iff.mp hrest
    cases found with
    | true => exact Or.inr ⟨_, .globalScene, if_pos rfl⟩
    | false => exact Or.inl (if_neg Bool.false_ne_true)
  · rw [hsingle]
    rw [run_get_bind_eq_ok_iff] at h
    cases hscene : σ.getLocalSceneBySensorId (requestHeaderVal req "Sensor-Id") with
    | none =>
      rw [hscene] at h
      exact Or.inl (run_pure_eq_ok_iff.mp h).1
    | some scenePtr =>
      rw [hscene] at h
      obtain ⟨scene, _, hderef, hrest⟩ := run_bind_eq_ok_iff.mp h
      obtain ⟨hderef, rfl⟩ := run_ofExcept_eq_ok_iff.mp hderef
      exact Or.inr ⟨scene, .single hscene hderef, (run_pure_eq_ok_iff.mp hrest).1⟩
  · exact absurd h not_run_throw_eq_ok

/-- An answered request for scene data. -/
theorem shows_of_poll {site : Site} {world : World K} {req : Request} {files : Files}
    {σ : Viewport K} (hwritable : site.writable (Api.file site .visualisationsData))
    (hpath : urlDecode req.uri = some Endpoint.visualisationsData.path)
    {reply : Reply} {s' : Server K}
    (hrun : (handleRequest site world req).run ⟨files, σ⟩ = .ok reply s') :
    ∃ text, reply = .ofContent .ok text "text/plain".toList ∧
      (text = [] ∨ ∃ scene, Shows (requestHeaderVal req "Sensor-Id") σ s'.viewport
        (requestHeaderVal req "Request-Type") scene ∧ text = scene.toJSON) := by
  have halone := @run_handleRequest K _ _ _ _ site world req _ rfl hpath hwritable files [] σ
  rw [Stage.run_steps, hrun] at halone
  cases htext : (Endpoint.visualisationsData.text world req).run σ with
  | error fault σ' =>
    rw [htext] at halone
    cases halone
  | ok text σ' =>
    rw [htext] at halone
    cases halone
    exact ⟨text, rfl, shows_of_sceneText htext⟩

/-- What a client gets that asks for scene data: nothing, or the text of the
scene that it has asked for, which is JSON exactly if the scene is
printable. -/
theorem poll_reply (site : Site) (world : World K) (req : Request) (files : Files)
    (σ : Viewport K) (hwritable : site.writable (Api.file site .visualisationsData))
    (hpath : urlDecode req.uri = some Endpoint.visualisationsData.path)
    {reply : Reply} {s' : Server K}
    (hrun : (handleRequest site world req).run ⟨files, σ⟩ = .ok reply s') :
    (∀ more, readReply (reply.bytes ++ more) = some reply) ∧
      (reply.content = [] ∨ ∃ scene, Shows (requestHeaderVal req "Sensor-Id") σ s'.viewport
          (requestHeaderVal req "Request-Type") scene ∧
        reply.content = scene.toJSON ∧
        (StrictJson.parse reply.content = some scene.document ↔ scene.Printable)) := by
  refine ⟨readReply_bytes (framed_handleRequest hrun), ?_⟩
  obtain ⟨text, rfl, hnone | ⟨scene, hshows, hscene⟩⟩ := shows_of_poll hwritable hpath hrun
  · exact Or.inl hnone
  · refine Or.inr ⟨scene, hshows, hscene, ?_⟩
    show StrictJson.parse text = some scene.document ↔ scene.Printable
    rw [hscene]
    exact scene.parse_exact_iff

end Polls

def pollRequest : Request :=
  ⟨Endpoint.visualisationsData.path,
    [⟨"Content-Type".toList, "application/javascript".toList⟩,
      ⟨"Request-Type".toList, "single".toList⟩, ⟨"Sensor-Id".toList, "a".toList⟩]⟩

theorem requestSafe_pollRequest :
    RequestSafe quietWorld (stateAfter Viewport.start Viewport.registration) pollRequest := by
  intro e he
  have hpath : Endpoint.visualisationsData.path = e.path :=
    Option.some.inj (Eq.trans (by decide +kernel) he)
  obtain rfl := Endpoint.path_injective hpath
  exact Or.inl (by decide +kernel)

theorem returns_pollRequest :
    Returns (handleRequest quietSite quietWorld pollRequest)
      ⟨.empty, stateAfter Viewport.start Viewport.registration⟩ :=
  returns_of_requestSafe quietSite .empty Viewport.reachable_registration requestSafe_pollRequest

/-- The scene of a sensor that has just been registered. -/
theorem poll_reply_registered :
    ∃ (reply : Reply) (s' : Server ℚ), (∀ more, readReply (reply.bytes ++ more) = some reply) ∧
      (reply.content = [] ∨ ∃ scene,
        Shows (requestHeaderVal pollRequest "Sensor-Id")
          (stateAfter Viewport.start Viewport.registration) s'.viewport
          (requestHeaderVal pollRequest "Request-Type") scene ∧
        reply.content = scene.toJSON ∧
        (StrictJson.parse reply.content = some scene.document ↔ scene.Printable)) := by
  obtain ⟨reply, s', hrun⟩ := returns_pollRequest
  exact ⟨reply, s', poll_reply quietSite quietWorld pollRequest .empty _ rfl (by decide +kernel)
    hrun⟩

end MinorityViewport.Http
