import MinorityViewport.Networks.RequestSafety
import MinorityViewport.Algorithms.ClientIds

/-!
# Requests on one endpoint

The threads of the server may handle requests to one endpoint at the same
time, and all of them go through the file of the endpoint.  A request is a
`Stage` that takes five steps: open and truncate the file, write the own
result, close, open and read back, truncate again.  `run_handleRequest` says
that a request that takes its steps alone is a call of `handle_request`.

A `System` is the shared state with the stages of all requests, and `exec`
runs a schedule of their steps.  `history` records what the steps did to the
file.  No step reads it.

* `Consistent` leads the content of the file to the layers of the history.
* `Registered` says that two registrations have different texts.
* `exec_repliesOwn_iff` is about all schedules.
-/

namespace MinorityViewport.Http

open Exec Viewport SharedFile

variable {K ι : Type}

/-! ## The steps of a request -/

/-- The file of an endpoint and the viewport. -/
structure Shared (K : Type) where
  content : Str
  viewport : Viewport K

/-- How far a request has come.  `text` is the result of its own calls, and
`body` is what it has read back. -/
inductive Stage where
  | arrived
  | opened
  | written (text : Str)
  | closed (text : Str)
  | answered (text body : Str)
  | finished (text body : Str)
  deriving DecidableEq, Repr

namespace Stage

/-- The result of the calls of the request. -/
def text? : Stage → Option Str
  | arrived | opened => none
  | written text | closed text | answered text _ | finished text _ => some text

/-- The body of the reply. -/
def body? : Stage → Option Str
  | answered _ body | finished _ body => some body
  | _ => none

/-- The next step, with what it does to the file. -/
def next (calls : EStateM Fault (Viewport K) Str) :
    Stage → EStateM Fault (Shared K) (Access Char × Stage)
  | arrived => do
    modify fun s => { s with content := [] }
    pure (.truncate, opened)
  | opened => do
    let text ← zoom Shared.viewport (fun σ s => { s with viewport := σ }) calls
    modify fun s => { s with content := overlay text s.content }
    pure (.write text, written text)
  | written text => pure (.pass, closed text)
  | closed text => do
    let s ← get
    pure (.read s.content, answered text s.content)
  | answered text body => do
    modify fun s => { s with content := [] }
    pure (.truncate, finished text body)
  | finished text body => pure (.pass, finished text body)

/-- Some steps in a row. -/
def steps (calls : EStateM Fault (Viewport K) Str) :
    Nat → Stage → EStateM Fault (Shared K) Stage
  | 0, stage => pure stage
  | n + 1, stage => do
    let r ← next calls stage
    steps calls n r.2

/-- A request that is alone reads its own text. -/
theorem run_steps (calls : EStateM Fault (Viewport K) Str) (content : Str) (σ : Viewport K) :
    (steps calls 5 arrived).run ⟨content, σ⟩ =
      match calls.run σ with
      | .ok text σ' => .ok (finished text text) ⟨[], σ'⟩
      | .error fault σ' => .error fault ⟨[], σ'⟩ := by
  have hopened : (steps calls 5 arrived).run ⟨content, σ⟩ =
      (steps calls 4 opened).run ⟨[], σ⟩ := rfl
  rw [hopened, steps, next]
  simp only [EStateM.run_bind, run_zoom]
  cases calls.run σ with
  | error fault σ' => rfl
  | ok text σ' =>
    show (steps calls 3 (written text)).run ⟨overlay text [], σ'⟩ = _
    rw [overlay_nil]
    rfl

end Stage

theorem extension_path (e : Endpoint) :
    extension e.path = "json".toList ∧ extensionToType "json".toList = "text/plain".toList := by
  cases e <;> decide +kernel

section Handler

variable [Json.Machine] [Field K] [LinearOrder K] [FloorRing K]

/-- A request to an endpoint runs its action and sends the file. -/
theorem handleRequest_eq {site : Site} {world : World K} {req : Request} {e : Endpoint}
    (hpath : urlDecode req.uri = some e.path) :
    handleRequest site world req = (do
      e.action site world req
      sendFile site e.path) := by
  rw [handleRequest_eq_served, (servedPath_eq_path_iff req.uri e).mpr hpath]
  simp only [Endpoint.find?_path, Option.elim_some]

/-- A handled request is a request that takes its steps alone. -/
theorem run_handleRequest {site : Site} {world : World K} {req : Request} {e : Endpoint}
    (he : e.writesFile) (hpath : urlDecode req.uri = some e.path)
    (hwritable : site.writable (cStr (site.docRoot ++ e.path))) (files : Files)
    (content : Str) (σ : Viewport K) :
    let file := cStr (site.docRoot ++ e.path)
    (handleRequest site world req).run ⟨files, σ⟩ =
      match (Stage.steps (e.text world req) 5 .arrived).run ⟨content, σ⟩ with
      | .ok stage s =>
        .ok (.ofContent .ok (stage.body?.getD []) "text/plain".toList)
          ⟨files.assign file s.content, s.viewport⟩
      | .error fault s => .error fault ⟨files.assign file s.content, s.viewport⟩ := by
  obtain ⟨hext, htype⟩ := extension_path e
  have hsend : ∀ (files : Files) (σ : Viewport K) (text : Str),
      (sendFile site e.path).run
          (⟨files.assign (cStr (site.docRoot ++ e.path)) text, σ⟩ : Server K) =
        .ok (.ofContent .ok text "text/plain".toList)
          ⟨files.assign (cStr (site.docRoot ++ e.path)) [], σ⟩ := by
    intro files σ text
    unfold sendFile
    simp only [EStateM.run_bind, EStateM.run_get, Site.read, OrdMap.find?_assign_self, hext,
      if_true, htype, EStateM.run_modify, Site.truncate, if_pos hwritable,
      OrdMap.assign_assign]
    rfl
  rw [handleRequest_eq hpath, Stage.run_steps]
  simp only [Endpoint.action, if_pos he, EStateM.run_bind, EStateM.run_modify, run_zoom]
  cases (e.text world req).run σ with
  | error fault σ' =>
    simp only [Site.truncate, if_pos hwritable]
  | ok text σ' =>
    simp only [Site.truncate, Site.overwrite, if_pos hwritable, OrdMap.find?_assign_self,
      Option.getD_some, overlay_nil, OrdMap.assign_assign, hsend]
    rfl

end Handler

/-! ## The requests together -/

/-- The shared state, the stages of the requests, and what has happened to
the file, with the newest access in front. -/
structure System (K ι : Type) where
  shared : Shared K
  stage : ι → Stage
  history : List (ι × Access Char)

namespace System

/-- No request has taken a step. -/
def start (content : Str) (σ : Viewport K) : System K ι := ⟨⟨content, σ⟩, fun _ => .arrived, []⟩

variable [DecidableEq ι]

/-- The state after request `i` has come to a stage. -/
def moved (s : System K ι) (i : ι) (access : Access Char) (stage : Stage) (shared : Shared K) :
    System K ι where
  shared := shared
  stage := Function.update s.stage i stage
  history := (i, access) :: s.history

/-- Request `i` takes its next step. -/
def advance (calls : ι → EStateM Fault (Viewport K) Str) (i : ι) :
    EStateM Fault (System K ι) PUnit := do
  let s ← get
  let r ← zoom System.shared (fun shared s => { s with shared := shared })
    ((s.stage i).next (calls i))
  modify fun s => s.moved i r.1 r.2 s.shared

/-- The requests take their steps in the order of a schedule. -/
def exec (calls : ι → EStateM Fault (Viewport K) Str) (schedule : List ι) :
    EStateM Fault (System K ι) PUnit :=
  schedule.forM (advance calls)

/-- Every reply that has been made up is the own text of its request. -/
def RepliesOwn (s : System K ι) : Prop :=
  ∀ i body, (s.stage i).body? = some body → (s.stage i).text? = some body

/-- What a step of request `i` can do. -/
inductive Advanced (calls : EStateM Fault (Viewport K) Str) (s : System K ι) (i : ι) :
    System K ι → Prop
  | truncated : s.stage i = .arrived →
      Advanced calls s i (s.moved i .truncate .opened ⟨[], s.shared.viewport⟩)
  | wrote (text : Str) (σ : Viewport K) : s.stage i = .opened →
      calls.run s.shared.viewport = .ok text σ →
      Advanced calls s i
        (s.moved i (.write text) (.written text) ⟨overlay text s.shared.content, σ⟩)
  | closed (text : Str) : s.stage i = .written text →
      Advanced calls s i (s.moved i .pass (.closed text) s.shared)
  | read (text : Str) : s.stage i = .closed text →
      Advanced calls s i (s.moved i (.read s.shared.content)
        (.answered text s.shared.content) s.shared)
  | erased (text body : Str) : s.stage i = .answered text body →
      Advanced calls s i
        (s.moved i .truncate (.finished text body) ⟨[], s.shared.viewport⟩)
  | stayed (text body : Str) : s.stage i = .finished text body →
      Advanced calls s i (s.moved i .pass (.finished text body) s.shared)

theorem advance_cases {calls : ι → EStateM Fault (Viewport K) Str} {i : ι}
    {s s' : System K ι} {u : PUnit} (h : (advance calls i).run s = .ok u s') :
    Advanced (calls i) s i s' := by
  obtain ⟨r, s₁, hzoom, h⟩ := run_bind_eq_ok_iff.mp (run_get_bind_eq_ok_iff.mp h)
  cases h
  rw [run_zoom] at hzoom
  cases hstage : s.stage i with
  | arrived =>
    rw [hstage] at hzoom
    cases hzoom
    exact .truncated hstage
  | opened =>
    rw [hstage, Stage.next] at hzoom
    simp only [EStateM.run_bind, run_zoom] at hzoom
    cases hcalls : (calls i).run s.shared.viewport with
    | error fault σ =>
      rw [hcalls] at hzoom
      cases hzoom
    | ok text σ =>
      rw [hcalls] at hzoom
      cases hzoom
      exact .wrote text σ hstage hcalls
  | written text =>
    rw [hstage] at hzoom
    cases hzoom
    exact .closed text hstage
  | closed text =>
    rw [hstage] at hzoom
    cases hzoom
    exact .read text hstage
  | answered text body =>
    rw [hstage] at hzoom
    cases hzoom
    exact .erased text body hstage
  | finished text body =>
    rw [hstage] at hzoom
    cases hzoom
    exact .stayed text body hstage

/-! ## What the file holds -/

/-- The content is what the layers of the history leave, and each layer is
the own text of the request that wrote it. -/
structure Consistent (s : System K ι) : Prop where
  fresh : s.history = [] → ∀ i, s.stage i = .arrived
  content : s.history ≠ [] → s.shared.content = laid (layers s.history)
  own : ∀ l ∈ layers s.history, (s.stage l.1).text? = some l.2

omit [DecidableEq ι] in
theorem consistent_start (content : Str) (σ : Viewport K) :
    Consistent (start content σ : System K ι) :=
  ⟨fun _ _ => rfl, fun h => absurd rfl h, fun _ h => absurd h List.not_mem_nil⟩

theorem stage_moved (s : System K ι) (i j : ι) (access : Access Char) (stage : Stage)
    (shared : Shared K) :
    (s.moved i access stage shared).stage j = if j = i then stage else s.stage j :=
  Function.update_apply _ _ _ _

theorem Consistent.moved {s : System K ι} (h : Consistent s) {i : ι} {access : Access Char}
    {stage : Stage} {shared : Shared K}
    (hfirst : s.stage i = .arrived → access = .truncate)
    (hcontent : shared.content = access.apply s.shared.content)
    (htext : ∀ text, (s.stage i).text? = some text ∨ access = .write text →
      stage.text? = some text) : Consistent (s.moved i access stage shared) := by
  refine ⟨fun hnil => absurd hnil (List.cons_ne_nil _ _), fun _ => ?_, fun l hl => ?_⟩
  · show shared.content = laid (layers ((i, access) :: s.history))
    rw [laid_layers_cons, hcontent]
    by_cases hnil : s.history = []
    · rw [hfirst (h.fresh hnil i)]
      rfl
    · rw [h.content hnil]
  · rw [stage_moved]
    rcases mem_layers_cons hl with hl | ⟨hi, hwrite⟩
    · split_ifs with hi
      · exact htext l.2 (Or.inl (hi ▸ h.own l hl))
      · exact h.own l hl
    · rw [if_pos hi]
      exact htext l.2 (Or.inr hwrite)

theorem Consistent.advanced {s s' : System K ι} {calls : EStateM Fault (Viewport K) Str} {i : ι}
    (h : Consistent s) (hstep : Advanced calls s i s') : Consistent s' := by
  cases hstep with
  | truncated hs => exact h.moved (fun _ => rfl) rfl (by simp [hs, Stage.text?])
  | wrote text σ hs _ => exact h.moved (by simp [hs]) rfl (by simp [hs, Stage.text?])
  | closed text hs => exact h.moved (by simp [hs]) rfl (by simp [hs, Stage.text?])
  | read text hs => exact h.moved (by simp [hs]) rfl (by simp [hs, Stage.text?])
  | erased text body hs => exact h.moved (by simp [hs]) rfl (by simp [hs, Stage.text?])
  | stayed text body hs => exact h.moved (by simp [hs]) rfl (by simp [hs, Stage.text?])

/-! ## Replies -/

theorem repliesOwn_moved {s : System K ι} (h : RepliesOwn s) {i : ι} {access : Access Char}
    {stage : Stage} {shared : Shared K}
    (hi : ∀ body, stage.body? = some body → stage.text? = some body) :
    RepliesOwn (s.moved i access stage shared) := by
  intro j body hbody
  rw [stage_moved] at hbody ⊢
  split_ifs at hbody ⊢
  · exact hi body hbody
  · exact h j body hbody

/-- A reader that is on top replies with its own text. -/
theorem repliesOwn_advanced {s s' : System K ι} {calls : EStateM Fault (Viewport K) Str} {i : ι}
    (hs : Consistent s) (hown : Undisturbed s.history → RepliesOwn s)
    (hstep : Advanced calls s i s') (hu : Undisturbed s'.history) : RepliesOwn s' := by
  cases hstep with
  | truncated hstage => exact repliesOwn_moved (hown hu) fun _ h => by cases h
  | wrote text σ hstage _ => exact repliesOwn_moved (hown hu) fun _ h => by cases h
  | closed text hstage => exact repliesOwn_moved (hown hu) fun _ h => by cases h
  | read text hstage =>
    obtain ⟨htop, hu⟩ := hu
    obtain ⟨text', hmem, hlaid⟩ := laid_of_onTop htop
    have hne : s.history ≠ [] := fun hnil => by
      rw [hs.fresh hnil i] at hstage
      cases hstage
    have htext : some text = some text' := by
      rw [← hs.own _ hmem, hstage]
      rfl
    refine repliesOwn_moved (hown hu) fun body h => ?_
    rw [Stage.text?, htext, ← hlaid, ← hs.content hne]
    exact h
  | erased text body hstage =>
    refine repliesOwn_moved (hown hu) fun body h => ?_
    have := hown hu i body
    rw [hstage] at this
    exact this h
  | stayed text body hstage =>
    refine repliesOwn_moved (hown hu) fun body h => ?_
    have := hown hu i body
    rw [hstage] at this
    exact this h

/-- A reply that has been made up stays. -/
theorem repliesOwn_of_advanced {s s' : System K ι} {calls : EStateM Fault (Viewport K) Str}
    {i : ι} (hstep : Advanced calls s i s') (h : RepliesOwn s') : RepliesOwn s := by
  have hkeep : ∀ {access stage shared}, s' = s.moved i access stage shared →
      (∀ body, (s.stage i).body? = some body →
        stage.body? = some body ∧ stage.text? = (s.stage i).text?) → RepliesOwn s := by
    rintro access stage shared rfl hi j body hbody
    have hj := h j body
    rw [stage_moved] at hj
    split_ifs at hj with hji
    · subst hji
      obtain ⟨hbody', htext⟩ := hi body hbody
      rw [← htext]
      exact hj hbody'
    · exact hj hbody
  cases hstep with
  | truncated hs => exact hkeep rfl (by simp [hs, Stage.body?])
  | wrote text σ hs _ => exact hkeep rfl (by simp [hs, Stage.body?])
  | closed text hs => exact hkeep rfl (by simp [hs, Stage.body?])
  | read text hs => exact hkeep rfl (by simp [hs, Stage.body?])
  | erased text body hs => exact hkeep rfl (by simp [hs, Stage.body?, Stage.text?])
  | stayed text body hs => exact hkeep rfl (by simp [hs, Stage.body?, Stage.text?])

/-! ## Registrations -/

/-- The own texts of two requests start differently, and none is empty. -/
def Apart (s : System K ι) : Prop :=
  ∀ i j t u, (s.stage i).text? = some t → (s.stage j).text? = some u →
    t ≠ [] ∧ (t <+: u → i = j)

/-- With such texts a reader that replies with its own text is on top. -/
theorem undisturbed_advanced {s s' : System K ι} {calls : EStateM Fault (Viewport K) Str}
    {i : ι} (hs : Consistent s) (hapart : Apart s)
    (hu : RepliesOwn s → Undisturbed s.history) (hstep : Advanced calls s i s')
    (hown : RepliesOwn s') : Undisturbed s'.history := by
  have hold := hu (repliesOwn_of_advanced hstep hown)
  cases hstep with
  | truncated hstage => exact hold
  | wrote text σ hstage _ => exact hold
  | closed text hstage => exact hold
  | read text hstage =>
    have hne : s.history ≠ [] := fun hnil => by
      rw [hs.fresh hnil i] at hstage
      cases hstage
    have htext : (s.stage i).text? = some text := by
      rw [hstage]
      rfl
    have hlaid : laid (layers s.history) = text := by
      have hi := hown i s.shared.content
      rw [stage_moved, if_pos rfl] at hi
      rw [← hs.content hne]
      exact (Option.some.inj (hi rfl)).symm
    refine ⟨onTop_of_laid (hapart i i text text htext htext).1 (fun l hl hstarts => ?_) hlaid, hold⟩
    obtain rfl : l.1 = i := (hapart _ i l.2 text (hs.own l hl) htext).2 hstarts
    exact Prod.ext rfl (Option.some.inj ((hs.own l hl).symm.trans htext))
  | erased text body hstage => exact hold
  | stayed text body hstage => exact hold

end System

/-- No text of a registration starts another one. -/
theorem eq_of_prefix_clientIdText {a b : Nat}
    (h : Endpoint.clientIdText a <+: Endpoint.clientIdText b) : a = b := by
  have hdigits : toStringNat a ++ "\x7d".toList <+: toStringNat b ++ "\x7d".toList := by
    simpa [Endpoint.clientIdText] using h
  have hinj : toStringNat a = toStringNat b → a = b := fun heq => by
    rw [← Nat.ofDigitChars_ten_toDigits (n := a), ← Nat.ofDigitChars_ten_toDigits (n := b)]
    exact congrArg (Nat.ofDigitChars 10 · 0) heq
  rcases List.prefix_concat_iff.mp hdigits with heq | hshort
  · exact hinj (List.append_cancel_right heq)
  · -- the brace would be a digit
    have hbrace : '}' ∈ toStringNat b := hshort.subset (by simp)
    have hdigit := Nat.isDigit_of_mem_toDigits (by decide) (by decide) hbrace
    exact absurd hdigit (by decide)

section Registration

variable [Json.Machine] [Field K] [LinearOrder K] [FloorRing K]

/-- A registration that returns writes an id that was not in use. -/
theorem run_clientsRegister {world : World K} {req : Request} {σ σ' : Viewport K} {t : Str}
    (hd : σ.clients.Distinct)
    (hrun : (Endpoint.text world req .clientsRegister).run σ = .ok t σ') :
    ∃ id, t = Endpoint.clientIdText id ∧ id ∉ σ.clients.clientIds ∧
      σ'.clients.clientIds = σ.clients.clientIds ++ [id] ∧ σ'.clients.Distinct := by
  simp only [Endpoint.text, run_bind_eq_ok_iff, run_pure_eq_ok_iff] at hrun
  obtain ⟨id, σ₁, hregister, rfl, rfl⟩ := hrun
  obtain ⟨r, _, hadd, hset⟩ := run_bind_eq_ok_iff.mp (run_get_bind_eq_ok_iff.mp hregister)
  obtain ⟨hadd, rfl⟩ := run_ofExcept_eq_ok_iff.mp hadd
  cases hset
  obtain ⟨hnew, hids, hdistinct⟩ := ClientsList.addClient_new hd hadd
  exact ⟨r.1, rfl, hnew, hids, hdistinct⟩

variable [DecidableEq ι]

namespace System

/-- The texts of the requests are those of different registered clients. -/
structure Registered (s : System K ι) : Prop where
  distinct : s.shared.viewport.clients.Distinct
  texts : ∀ i t, (s.stage i).text? = some t →
    ∃ id ∈ s.shared.viewport.clients.clientIds, t = Endpoint.clientIdText id
  single : ∀ i j t, (s.stage i).text? = some t → (s.stage j).text? = some t → i = j

omit [Json.Machine] [Field K] [LinearOrder K] [FloorRing K] [DecidableEq ι] in
theorem Registered.apart {s : System K ι} (h : Registered s) : Apart s := by
  intro i j t u ht hu
  obtain ⟨a, _, rfl⟩ := h.texts i t ht
  obtain ⟨b, _, rfl⟩ := h.texts j u hu
  refine ⟨by simp [Endpoint.clientIdText], fun hstarts => ?_⟩
  obtain rfl := eq_of_prefix_clientIdText hstarts
  exact h.single i j _ ht hu

omit [Json.Machine] [Field K] [LinearOrder K] [FloorRing K] in
/-- A step that leaves the viewport alone and keeps the texts. -/
theorem Registered.moved {s : System K ι} (h : Registered s) {i : ι} {access : Access Char}
    {stage : Stage} {shared : Shared K} (hviewport : shared.viewport = s.shared.viewport)
    (htext : stage.text? = (s.stage i).text?) :
    Registered (s.moved i access stage shared) := by
  have hsame : ∀ j, ((s.moved i access stage shared).stage j).text? = (s.stage j).text? := by
    intro j
    rw [stage_moved]
    split_ifs with hj
    · rw [htext, hj]
    · rfl
  refine ⟨?_, fun j t ht => ?_, fun j k t hj hk => ?_⟩
  · show shared.viewport.clients.Distinct
    rw [hviewport]
    exact h.distinct
  · show ∃ id ∈ shared.viewport.clients.clientIds, _
    rw [hviewport]
    exact h.texts j t (hsame j ▸ ht)
  · exact h.single j k t (hsame j ▸ hj) (hsame k ▸ hk)

theorem Registered.advanced {s s' : System K ι} {world : World K} {req : Request} {i : ι}
    (h : Registered s)
    (hstep : Advanced (Endpoint.text world req .clientsRegister) s i s') : Registered s' := by
  cases hstep with
  | truncated hs => exact h.moved rfl (by simp [hs, Stage.text?])
  | closed text hs => exact h.moved rfl (by simp [hs, Stage.text?])
  | read text hs => exact h.moved rfl (by simp [hs, Stage.text?])
  | erased text body hs => exact h.moved rfl (by simp [hs, Stage.text?])
  | stayed text body hs => exact h.moved rfl (by simp [hs, Stage.text?])
  | wrote text σ hs hcalls =>
    obtain ⟨id, rfl, hnew, hids, hdistinct⟩ := run_clientsRegister h.distinct hcalls
    -- an older text has the id of a client that was there
    have hold : ∀ j, (s.stage j).text? ≠ some (Endpoint.clientIdText id) := by
      intro j hj
      obtain ⟨id', hmem, heq⟩ := h.texts j _ hj
      obtain rfl : id = id' := eq_of_prefix_clientIdText (by rw [← heq])
      exact hnew hmem
    refine ⟨hdistinct, fun j t ht => ?_, fun j k t hj hk => ?_⟩
    · change ∃ id' ∈ σ.clients.clientIds, _
      rw [stage_moved] at ht
      rw [hids]
      split_ifs at ht
      · obtain rfl := Option.some.inj ht
        exact ⟨id, by simp, rfl⟩
      · obtain ⟨id', hmem, heq⟩ := h.texts j t ht
        exact ⟨id', by simp [hmem], heq⟩
    · rw [stage_moved] at hj hk
      split_ifs at hj hk with hji hki hki
      · rw [hji, hki]
      · obtain rfl := Option.some.inj hj
        exact absurd hk (hold k)
      · obtain rfl := Option.some.inj hk
        exact absurd hj (hold j)
      · exact h.single j k t hj hk

/-! ## All schedules -/

/-- In every run in which each reader is on top, all replies are own texts.
For registrations these are the only such runs. -/
theorem exec_repliesOwn_iff {σ : Viewport K} (h : Reachable σ)
    (e : {e : Endpoint // e.writesFile}) (worlds : ι → World K) (reqs : ι → Request)
    (content : Str) {schedule : List ι} {s : System K ι} {u : PUnit}
    (hrun : (exec (fun i => e.1.text (worlds i) (reqs i)) schedule).run (start content σ) =
      .ok u s) :
    (Undisturbed s.history → RepliesOwn s) ∧
      (e.1 = .clientsRegister → RepliesOwn s → Undisturbed s.history) := by
  have hconsistent := inv_of_run_forM (I := fun s : System K ι =>
      Consistent s ∧ (Undisturbed s.history → RepliesOwn s))
    (fun i s s' hs hstep => ⟨hs.1.advanced (advance_cases hstep),
      repliesOwn_advanced hs.1 hs.2 (advance_cases hstep)⟩)
    ⟨consistent_start content σ, fun _ _ _ hbody => nomatch hbody⟩ hrun
  refine ⟨hconsistent.2, fun he => ?_⟩
  rw [he] at hrun
  have hregistered := inv_of_run_forM (I := fun s : System K ι =>
      (Consistent s ∧ Registered s) ∧ (RepliesOwn s → Undisturbed s.history))
    (fun i s s' hs hstep => ⟨⟨hs.1.1.advanced (advance_cases hstep),
        hs.1.2.advanced (advance_cases hstep)⟩,
      undisturbed_advanced hs.1.1 hs.1.2.apart hs.2 (advance_cases hstep)⟩)
    ⟨⟨consistent_start content σ, distinct_of_reachable h, fun _ _ ht => (nomatch ht),
      fun _ _ _ ht => (nomatch ht)⟩, fun _ => trivial⟩ hrun
  exact hregistered.2

end System

end Registration

/-! ## Two registrations -/

def register : {e : Endpoint // e.writesFile} := ⟨.clientsRegister, rfl⟩

/-- The two requests draw different ids. -/
def registerWorlds (i : Bool) : World ℚ := { quietWorld with draws := [i.toNat] }

def registerRequests (_ : Bool) : Request := ⟨Endpoint.clientsRegister.path, []⟩

/-- The state after a schedule of the two registrations. -/
def registered (schedule : List Bool) : System ℚ Bool :=
  after (System.exec (fun i => register.1.text (registerWorlds i) (registerRequests i)) schedule)
    (System.start [] Viewport.start)

/-- The schedule comes to its end. -/
def Completes (schedule : List Bool) : Prop :=
  (value? (System.exec (fun i => register.1.text (registerWorlds i) (registerRequests i)) schedule)
    (System.start [] (Viewport.start : Viewport ℚ))).isSome

instance (schedule : List Bool) : Decidable (Completes schedule) :=
  inferInstanceAs (Decidable (Option.isSome _))

theorem run_registered {schedule : List Bool} (h : Completes schedule) :
    (System.exec (fun i => register.1.text (registerWorlds i) (registerRequests i)) schedule).run
      (System.start [] Viewport.start) = .ok ⟨⟩ (registered schedule) := by
  obtain ⟨u, hu⟩ := Option.isSome_iff_exists.mp h
  exact run_eq_ok_of_value? hu

/-- One registration after the other. -/
theorem exec_repliesOwn_iff_inTurn :
    (registered [false, false, false, false, false, true, true, true, true, true]).RepliesOwn :=
  (System.exec_repliesOwn_iff .start register registerWorlds registerRequests []
    (run_registered (by decide +kernel))).1 (by decide +kernel)

/-- Both registrations at once: each client gets the id of the second one. -/
theorem not_repliesOwn_atOnce :
    Completes [false, true, false, true, false, true, false, true, false, true] ∧
      ¬ (registered
        [false, true, false, true, false, true, false, true, false, true]).RepliesOwn := by
  refine ⟨by decide +kernel, fun h => ?_⟩
  have hstage : (registered [false, true, false, true, false, true, false, true, false,
      true]).stage false = .finished (Endpoint.clientIdText 1) (Endpoint.clientIdText 2) := by
    decide +kernel
  have hown := h false (Endpoint.clientIdText 2)
  rw [hstage] at hown
  exact absurd (hown rfl) (by decide +kernel)

end MinorityViewport.Http
