import MinorityViewport.Networks.RequestHandler

/-!
# Requests that are answered

`Endpoint.Safe` says for each endpoint which headers it needs in which state
of the viewport, and `handleRequest_returns_iff` that these are the requests
that `handle_request` ends with a reply.  On all others an exception leaves
the handler, or a pointer or an iterator is used that C++ gives no meaning
to.

* `servedPath` is the path of a request that passes the checks, and
  `handleRequest_eq_served` is the request in its terms.
* `returns_handleRequest` leads the question to the calls of the endpoint.
* `reachable_handleRequest` is what a request that is answered preserves.
-/

namespace MinorityViewport.Http

open Exec Json Viewport

variable {K : Type} [Field K] [LinearOrder K] [FloorRing K]

/-! ## The paths of the endpoints -/

namespace Endpoint

theorem mem_all (e : Endpoint) : e ∈ all := by
  cases e <;> decide

theorem nodup_path : (all.map path).Nodup := by
  decide +kernel

/-- An endpoint passes the checks on a path. -/
theorem path_wellFormed (e : Endpoint) :
    ¬ (e.path = [] ∨ e.path.head? ≠ some '/' ∨ "..".toList <:+: e.path) ∧
      e.path.getLast? = some 'n' := by
  cases e <;> decide +kernel

theorem path_injective {e e' : Endpoint} (h : e.path = e'.path) : e = e' :=
  List.inj_on_of_nodup_map nodup_path (mem_all e) (mem_all e') h

theorem find?_path (e : Endpoint) : all.find? (e.path = path ·) = some e := by
  cases h : all.find? (e.path = path ·) with
  | none => exact absurd (List.find?_eq_none.mp h e (mem_all e)) (by simp)
  | some e' => rw [path_injective (by simpa using List.find?_some h : e.path = e'.path)]

end Endpoint

/-! ## The path of a request -/

/-- The path that `handle_request` works with, where it does not answer
`bad_request`. -/
def servedPath (uri : Str) : Option Str :=
  match urlDecode uri with
  | none => none
  | some requestPath =>
    if requestPath = [] ∨ requestPath.head? ≠ some '/' ∨ "..".toList <:+: requestPath then none
    else if requestPath.getLast? = some '/' then some (requestPath ++ "index.html".toList)
    else some requestPath

theorem handleRequest_eq_served [Machine] (site : Site) (world : World K) (req : Request) :
    handleRequest site world req =
      match servedPath req.uri with
      | none => pure (stockReply .badRequest)
      | some path =>
        (Endpoint.all.find? (path = Endpoint.path ·)).elim (pure ⟨⟩)
          (Endpoint.action site world req) >>= fun _ => sendFile site path := by
  unfold handleRequest servedPath
  cases urlDecode req.uri with
  | none => rfl
  | some requestPath =>
    simp only [forM_ite_eq_find? Endpoint.nodup_path]
    split_ifs <;> rfl

/-- A path that is completed to an index page is no endpoint. -/
theorem append_index_ne_path (requestPath : Str) (e : Endpoint) :
    requestPath ++ "index.html".toList ≠ e.path := by
  intro h
  have hlast := (Endpoint.path_wellFormed e).2
  rw [← h, List.getLast?_append_of_ne_nil _ (by decide)] at hlast
  exact absurd hlast (by decide)

/-- A request is served as an endpoint when its path decodes to that of the
endpoint. -/
theorem servedPath_eq_path_iff (uri : Str) (e : Endpoint) :
    servedPath uri = some e.path ↔ urlDecode uri = some e.path := by
  unfold servedPath
  cases urlDecode uri with
  | none => rfl
  | some requestPath =>
    simp only [Option.some.injEq]
    split_ifs with hbad hslash
    · refine iff_of_false (fun h => by cases h) fun h => ?_
      exact absurd (h ▸ hbad) (Endpoint.path_wellFormed e).1
    · refine iff_of_false (fun h => ?_) fun h => ?_
      · exact append_index_ne_path requestPath e (Option.some.inj h)
      · rw [h, (Endpoint.path_wellFormed e).2] at hslash
        exact absurd hslash (by decide)
    · exact Option.some_inj

/-! ## The reduction to the endpoint -/

section Machines

variable [Machine]

omit [Field K] [LinearOrder K] [FloorRing K] [Machine] in
theorem returns_sendFile (site : Site) (requestPath : Str) (s : Server K) :
    Returns (sendFile site requestPath) s := by
  rw [sendFile, returns_get_bind]
  cases Site.read (site.docRoot ++ requestPath) s.files with
  | none => exact returns_pure _ _
  | some content =>
    by_cases h : extension requestPath = "json".toList
    · simp only [if_pos h]
      exact ⟨_, _, rfl⟩
    · simp only [if_neg h]
      exact ⟨_, _, rfl⟩

/-- A handled request runs the calls of its endpoint. -/
theorem returns_action_iff (site : Site) (world : World K) (req : Request) (e : Endpoint)
    (s : Server K) :
    Returns (e.action site world req) s ↔ Returns (e.text world req) s.viewport := by
  unfold Endpoint.action
  cases e.writesFile with
  | true =>
    rw [if_pos rfl, returns_modify_bind, returns_bind_iff_left fun _ _ => returns_modify _ _,
      returns_zoom_iff]
  | false =>
    rw [if_neg (by decide), returns_bind_iff_left fun _ _ => returns_pure _ _,
      returns_zoom_iff]

/-- A path that is no endpoint runs none. -/
theorem returns_endpoint_iff (site : Site) (world : World K) (req : Request) (path : Str)
    (s : Server K) :
    Returns ((Endpoint.all.find? (path = Endpoint.path ·)).elim (pure ⟨⟩)
        (Endpoint.action site world req)) s ↔
      ∀ e : Endpoint, path = e.path → Returns (e.text world req) s.viewport := by
  cases h : Endpoint.all.find? (path = Endpoint.path ·) with
  | none =>
    refine iff_of_true (returns_pure _ _) fun e he => ?_
    rw [he, Endpoint.find?_path] at h
    cases h
  | some e =>
    obtain rfl : path = e.path := by simpa using List.find?_some h
    rw [Option.elim_some, returns_action_iff]
    constructor
    · intro hret e' he'
      rwa [← Endpoint.path_injective he']
    · exact fun hall => hall e rfl

theorem returns_handleRequest (site : Site) (world : World K) (req : Request) (s : Server K) :
    Returns (handleRequest site world req) s ↔
      ∀ e : Endpoint, urlDecode req.uri = some e.path → Returns (e.text world req) s.viewport := by
  rw [handleRequest_eq_served]
  simp only [← servedPath_eq_path_iff]
  cases servedPath req.uri with
  | none => exact iff_of_true (returns_pure _ _) fun e h => by cases h
  | some path =>
    simp only [Option.some.injEq]
    rw [returns_bind_iff_left fun _ s => returns_sendFile _ _ s, returns_endpoint_iff]

/-! ## What a request preserves -/

omit [FloorRing K] in
/-- A call of an event that returns is a step. -/
theorem reachable_of_call {α : Type} {σ σ' : Viewport K} {a : α}
    {x : EStateM Fault (Viewport K) α} (event : Event K)
    (hevent : event.call = (x >>= fun _ => pure ⟨⟩)) (h : Reachable σ)
    (hrun : x.run σ = .ok a σ') : Reachable σ' := by
  refine h.step (e := event) (Or.inl ?_)
  rw [hevent]
  exact run_bind_eq_ok_iff.mpr ⟨a, σ', hrun, rfl⟩

theorem reachable_sceneText {world : World K} {req : Request} {σ σ' : Viewport K} {t : Str}
    (h : Reachable σ) (hrun : (Endpoint.sceneText world req).run σ = .ok t σ') :
    Reachable σ' := by
  rw [Endpoint.sceneText] at hrun
  split_ifs at hrun
  · obtain ⟨found, σ₁, hcall, hrest⟩ := run_bind_eq_ok_iff.mp hrun
    obtain rfl : σ' = σ₁ := (run_pure_eq_ok_iff.mp hrest).2
    exact reachable_of_call (.getGlobalScene world.rand world.now) rfl h hcall
  · rw [run_get_bind_eq_ok_iff] at hrun
    cases hscene : σ.getLocalSceneBySensorId (requestHeaderVal req "Sensor-Id") with
    | none =>
      rw [hscene] at hrun
      obtain ⟨_, rfl⟩ := run_pure_eq_ok_iff.mp hrun
      exact h
    | some a =>
      rw [hscene] at hrun
      obtain ⟨_, _, hderef, hrest⟩ := run_bind_eq_ok_iff.mp hrun
      obtain ⟨_, rfl⟩ := run_ofExcept_eq_ok_iff.mp hderef
      obtain ⟨_, rfl⟩ := run_pure_eq_ok_iff.mp hrest
      exact h
  · exact absurd hrun not_run_throw_eq_ok

theorem reachable_text {world : World K} {req : Request} {e : Endpoint} {σ σ' : Viewport K}
    {t : Str} (h : Reachable σ) (hrun : (e.text world req).run σ = .ok t σ') :
    Reachable σ' := by
  cases e with
  | clientsRegister =>
    simp only [Endpoint.text, run_bind_eq_ok_iff, run_pure_eq_ok_iff] at hrun
    obtain ⟨_, _, hcall, _, rfl⟩ := hrun
    exact reachable_of_call (.registerClient _ _ _) rfl h hcall
  | clientsDeregister =>
    simp only [Endpoint.text, run_bind_eq_ok_iff, run_ofExcept_eq_ok_iff,
      run_pure_eq_ok_iff] at hrun
    obtain ⟨id, _, ⟨_, rfl⟩, _, _, hcall, _, rfl⟩ := hrun
    exact h.step (e := .deregisterClient (toUnsigned id)) (Or.inl hcall)
  | sensorsRegister =>
    simp only [Endpoint.text, run_bind_eq_ok_iff, run_ofExcept_eq_ok_iff,
      run_pure_eq_ok_iff] at hrun
    obtain ⟨id, _, ⟨_, rfl⟩, _, _, hcall, _, rfl⟩ := hrun
    exact h.step (e := .registerSensors world.alloc (toUnsigned id) _) (Or.inl hcall)
  | clientsListing =>
    rw [Endpoint.text, run_get_bind_eq_ok_iff, run_ofExcept_eq_ok_iff] at hrun
    rw [hrun.2]
    exact h
  | visualisationsOrder =>
    simp only [Endpoint.text, run_bind_eq_ok_iff, run_pure_eq_ok_iff] at hrun
    obtain ⟨_, _, hcall, _, rfl⟩ := hrun
    exact reachable_of_call .calibrateSceneOrder rfl h hcall
  | visualisationsCalibrate =>
    simp only [Endpoint.text, run_bind_eq_ok_iff, run_ofExcept_eq_ok_iff,
      run_pure_eq_ok_iff] at hrun
    obtain ⟨_, _, ⟨_, rfl⟩, _, _, ⟨_, rfl⟩, _, _, hcall, _, rfl⟩ := hrun
    exact reachable_of_call (.calibrateScenes world.svd _ _ _ _) rfl h hcall
  | visualisationsData => exact reachable_sceneText h hrun

theorem reachable_action {site : Site} {world : World K} {req : Request} {e : Endpoint}
    {s s' : Server K} {u : PUnit} (h : Reachable s.viewport)
    (hrun : (e.action site world req).run s = .ok u s') : Reachable s'.viewport := by
  have hcalls : ∀ {s₁ s₂ : Server K} {t : Str}, Reachable s₁.viewport →
      (zoom Server.viewport (fun σ s => { s with viewport := σ })
        (e.text world req)).run s₁ = .ok t s₂ → Reachable s₂.viewport := by
    intro s₁ s₂ t h₁ hzoom
    rw [run_zoom] at hzoom
    cases htext : (e.text world req).run s₁.viewport with
    | error fault σ =>
      rw [htext] at hzoom
      cases hzoom
    | ok t' σ =>
      rw [htext] at hzoom
      cases hzoom
      exact reachable_text h₁ htext
  unfold Endpoint.action at hrun
  split_ifs at hrun
  · obtain ⟨_, _, hopen, hrun⟩ := run_bind_eq_ok_iff.mp hrun
    cases hopen
    obtain ⟨_, _, htext, hclose⟩ := run_bind_eq_ok_iff.mp hrun
    cases hclose
    have hreach := fun h₁ => hcalls h₁ htext
    exact hreach h
  · obtain ⟨_, _, htext, hrest⟩ := run_bind_eq_ok_iff.mp hrun
    cases hrest
    exact hcalls h htext

omit [Field K] [LinearOrder K] [FloorRing K] [Machine] in
theorem viewport_sendFile {site : Site} {requestPath : Str} {s s' : Server K} {rep : Reply}
    (hrun : (sendFile site requestPath).run s = .ok rep s') : s'.viewport = s.viewport := by
  rw [sendFile, run_get_bind_eq_ok_iff] at hrun
  cases hread : Site.read (site.docRoot ++ requestPath) s.files with
  | none =>
    rw [hread] at hrun
    cases hrun
    rfl
  | some content =>
    simp only [hread] at hrun
    split_ifs at hrun
    · cases hrun
      rfl
    · cases hrun
      rfl

/-- A request that is answered leaves a state that the events can reach. -/
theorem reachable_handleRequest {site : Site} {world : World K} {req : Request}
    {s s' : Server K} {rep : Reply} (h : Reachable s.viewport)
    (hrun : (handleRequest site world req).run s = .ok rep s') : Reachable s'.viewport := by
  rw [handleRequest_eq_served] at hrun
  cases hserved : servedPath req.uri with
  | none =>
    rw [hserved] at hrun
    cases hrun
    exact h
  | some path =>
    simp only [hserved] at hrun
    obtain ⟨_, s₁, hendpoint, hsend⟩ := run_bind_eq_ok_iff.mp hrun
    rw [viewport_sendFile hsend]
    cases hfind : Endpoint.all.find? (path = Endpoint.path ·) with
    | none =>
      rw [hfind] at hendpoint
      cases hendpoint
      exact h
    | some e =>
      rw [hfind] at hendpoint
      exact reachable_action h hendpoint

/-! ## The condition -/

/-- What an endpoint asks of the headers and of the viewport. -/
def Endpoint.Safe (world : World K) (req : Request) (σ : Viewport K) : Endpoint → Prop
  | clientsRegister =>
    σ.clients.avaliableIDs ≠ [] ∨
      ∃ draw ∈ world.draws, ¬ σ.clients.clientIdIsPrevAssigned (draw % 1000 + 1)
  | clientsDeregister =>
    ∃ id, stoi (requestHeaderVal req "CLIENT_ID") = .ok id ∧
      (σ.clients.find (toUnsigned id)).isSome
  | sensorsRegister =>
    ∃ id, stoi (requestHeaderVal req "CLIENT_ID") = .ok id ∧
      (σ.clients.find (toUnsigned id)).isSome ∧
      SensorListSafe (requestHeaderVal req "SENSOR_LIST")
  | clientsListing => ∀ client ∈ σ.clients.rawClientList, client.sensors.size ≠ 0
  | visualisationsOrder => True
  | visualisationsCalibrate =>
    ∃ a b, stoi (requestHeaderVal req "SCENE_A_ORDER") = .ok a ∧
      stoi (requestHeaderVal req "SCENE_B_ORDER") = .ok b ∧
      (σ.orderedScenes ≠ [] →
        OkWith (Reader.read (requestHeaderVal req "SKELETONS_A")) fun rootA => ∀ vA ∈ rootA,
          OkWith (Reader.read (requestHeaderVal req "SKELETONS_B")) fun rootB => ∀ vB ∈ rootB,
            CalibrationSafe σ (toUnsigned a) vA (toUnsigned b) vB)
  | visualisationsData =>
    requestHeaderVal req "Request-Type" = "single".toList ∨
      requestHeaderVal req "Request-Type" = "global".toList ∧
        (σ.orderedScenes = [] ∨ AllReady σ.scenes σ.orderedScenes.reverse)

theorem returns_sceneText_iff (world : World K) (req : Request) {σ : Viewport K}
    (hwf : WellFormed σ) :
    Returns (Endpoint.sceneText world req) σ ↔
      Endpoint.Safe world req σ .visualisationsData := by
  unfold Endpoint.sceneText Endpoint.Safe
  by_cases hglobal : requestHeaderVal req "Request-Type" = "global".toList
  · have hne : "global".toList ≠ "single".toList := by decide
    simp only [hglobal, if_true]
    rw [or_iff_right hne, true_and, ← returns_getGlobalScene_iff world.rand world.now]
    exact returns_bind_iff_left (fun _ s => (returns_get_bind _ s).mpr (returns_pure _ s)) σ
  · simp only [hglobal, if_false, false_and, or_false]
    by_cases hsingle : requestHeaderVal req "Request-Type" = "single".toList
    · simp only [hsingle, if_true, iff_true, returns_get_bind]
      cases hscene : σ.getLocalSceneBySensorId (requestHeaderVal req "Sensor-Id") with
      | none => exact returns_pure _ _
      | some a =>
        obtain ⟨scene, hfind⟩ := Option.isSome_iff_exists.mp
          (hwf.live a (mem_owned_of_getLocalScene hscene))
        rw [returns_ofExcept_bind_iff]
        exact ⟨scene, Heap.deref_eq_ok_iff.mpr hfind, returns_pure _ _⟩
    · simp only [hsingle, if_false, iff_false]
      exact not_returns_throw _ _

/-- Each endpoint returns when its own condition holds. -/
theorem returns_text_iff (world : World K) (req : Request) {σ : Viewport K}
    (hwf : WellFormed σ) (e : Endpoint) :
    Returns (e.text world req) σ ↔ e.Safe world req σ := by
  cases e with
  | clientsRegister =>
    rw [Endpoint.text, returns_bind_iff_left fun _ _ => returns_pure _ _,
      returns_registerClient_iff]
    rfl
  | clientsDeregister =>
    simp only [Endpoint.text, Endpoint.Safe, returns_ofExcept_bind_iff,
      returns_bind_iff_left fun _ _ => returns_pure _ _, returns_deregisterClient_iff]
  | sensorsRegister =>
    simp only [Endpoint.text, Endpoint.Safe, returns_ofExcept_bind_iff,
      returns_bind_iff_left fun _ _ => returns_pure _ _, returns_registerSensors_iff]
  | clientsListing =>
    rw [Endpoint.text, returns_get_bind, Endpoint.Safe, ← getClientListing_isOk_iff hwf,
      returns_ofExcept_iff]
  | visualisationsOrder =>
    refine iff_of_true ?_ trivial
    rw [Endpoint.text, returns_bind_iff_left fun _ _ => returns_pure _ _]
    exact returns_calibrateSceneOrder hwf
  | visualisationsCalibrate =>
    simp only [Endpoint.text, Endpoint.Safe, returns_ofExcept_bind_iff,
      returns_bind_iff_left fun _ _ => returns_pure _ _, returns_calibrateScenes_iff _ hwf,
      exists_and_left]
  | visualisationsData => exact returns_sceneText_iff world req hwf

/-- The request names no endpoint, or one that is safe. -/
def RequestSafe (world : World K) (σ : Viewport K) (req : Request) : Prop :=
  ∀ e : Endpoint, urlDecode req.uri = some e.path → e.Safe world req σ

theorem returns_iff_requestSafe (site : Site) (world : World K) (req : Request) {s : Server K}
    (hwf : WellFormed s.viewport) :
    Returns (handleRequest site world req) s ↔ RequestSafe world s.viewport req := by
  rw [returns_handleRequest, RequestSafe]
  exact forall₂_congr fun e _ => returns_text_iff world req hwf e

theorem returns_of_requestSafe (site : Site) {world : World K} {req : Request} (files : Files)
    {σ : Viewport K} (h : Reachable σ) (hsafe : RequestSafe world σ req) :
    Returns (handleRequest site world req) ⟨files, σ⟩ :=
  (returns_iff_requestSafe site world req (wellFormed_of_reachable h)).mpr hsafe

/-- A request is answered exactly when it is safe. -/
theorem handleRequest_returns_iff (site : Site) (world : World K) (req : Request)
    (files : Files) {σ : Viewport K} (h : Reachable σ) :
    Returns (handleRequest site world req) ⟨files, σ⟩ ↔ RequestSafe world σ req :=
  returns_iff_requestSafe site world req (wellFormed_of_reachable h)

end Machines

/-! ## Two requests -/

def quietSite : Site := ⟨"doc".toList, fun _ => true⟩

def quietWorld : World ℚ := ⟨[0], .next, fun _ => ⟨fun _ => 0, 1, 1⟩, fun _ => 7, 5⟩

theorem requestSafe_listing [Machine] {σ : Viewport ℚ}
    (h : ∀ client ∈ σ.clients.rawClientList, client.sensors.size ≠ 0) :
    RequestSafe quietWorld σ ⟨Endpoint.clientsListing.path, []⟩ := by
  intro e he
  have hpath : Endpoint.clientsListing.path = e.path :=
    Option.some.inj (Eq.trans (by decide +kernel) he)
  obtain rfl := Endpoint.path_injective hpath
  exact h

/-- A listing of a client that has a sensor. -/
theorem handleRequest_returns_iff_listing :
    letI := Machine.small
    Returns (handleRequest quietSite quietWorld ⟨Endpoint.clientsListing.path, []⟩)
      ⟨.empty, stateAfter start registration⟩ :=
  letI := Machine.small
  have hreachable : Reachable (stateAfter start registration) :=
    Reachable.start.stateAfter (by decide +kernel)
  (handleRequest_returns_iff quietSite quietWorld _ _ hreachable).mpr
    (requestSafe_listing (by decide +kernel))

/-- A deregistration without the header `CLIENT_ID`. -/
theorem not_answered_noClientId :
    Reachable (start : Viewport ℚ) ∧
      ¬ Returns (handleRequest quietSite quietWorld ⟨Endpoint.clientsDeregister.path, []⟩)
        ⟨.empty, start⟩ := by
  refine ⟨.start, fun h => ?_⟩
  have htext := (returns_handleRequest quietSite quietWorld _ _).mp h .clientsDeregister
    (by decide +kernel)
  obtain ⟨id, hid, _⟩ :=
    (returns_text_iff quietWorld _ wellFormed_start .clientsDeregister).mp htext
  cases hid

end MinorityViewport.Http
