import MinorityViewport.Algorithms.Ingest

/-!
# The UDP server

`Networks/UdpServer.cpp`.  The server reads datagram after datagram into one
buffer, ends the text with a zero, and hands the text up to its first zero to
`ProcessSensorData`.  The loop has no handler, so the first call that does
not return is the last one.

* `text_received` says that a text has nothing of the earlier datagrams, which
  the buffer still holds.
* `run_listen` gets through what the registry accepts.  No ingest changes the
  registry, so every datagram is judged as if it had come alone.
* `run_listen_refused` is the first datagram that is not accepted, and
  `listen_cases` puts the two together.
-/

namespace MinorityViewport.Udp

open Exec Json Viewport

/-- `sizeof(Buffer)`. -/
def bufferSize : Nat := 65536

/-- The length of a datagram stands in 16 bits, with that of its headers. -/
structure Datagram where
  bytes : Str
  fits : bytes.length ≤ 65507

/-- What `recvfrom` comes back with. -/
inductive Received where
  | datagram (d : Datagram)
  | socketError

structure UdpServer (K : Type) where
  buffer : Str
  size_buffer : buffer.length = bufferSize
  viewport : Viewport K

/-- The bytes of a datagram go to the start of the buffer, with a zero behind
them. -/
def receive (buffer bytes : Str) : Str := bytes ++ '\x00' :: buffer.drop (bytes.length + 1)

theorem length_receive {buffer : Str} (h : buffer.length = bufferSize) (d : Datagram) :
    (receive buffer d.bytes).length = bufferSize := by
  have hfits := d.fits
  unfold bufferSize at h ⊢
  rw [receive, List.length_append, List.length_cons, List.length_drop]
  omega

variable {K : Type}

def UdpServer.receive (s : UdpServer K) (d : Datagram) : UdpServer K :=
  ⟨Udp.receive s.buffer d.bytes, length_receive s.size_buffer d, s.viewport⟩

/-- One round of the loop. -/
def round [Machine] [Field K] (now : Nat → Int) : Received → EStateM Fault (UdpServer K) PUnit
  | .datagram d =>
    if 0 < d.bytes.length then do
      modify (·.receive d)
      let s ← get
      let rawRecv := cStr s.buffer
      zoom UdpServer.viewport (fun σ s => { s with viewport := σ })
        (processSensorData now rawRecv)
    else pure ⟨⟩
  | .socketError => pure ⟨⟩

/-- The loop over what arrives, with the timer readings of each call. -/
def listen [Machine] [Field K] (arrivals : List (Received × (Nat → Int))) :
    EStateM Fault (UdpServer K) PUnit :=
  arrivals.forM fun a => round a.2 a.1

/-! ## Texts -/

/-- The text of an arrival. -/
def Received.text : Received → Str
  | datagram d => cStr d.bytes
  | socketError => []

theorem cStr_append_zero (bytes rest : Str) : cStr (bytes ++ '\x00' :: rest) = cStr bytes := by
  induction bytes with
  | nil => rfl
  | cons c bytes ih =>
    unfold cStr at ih ⊢
    rw [List.cons_append, List.takeWhile_cons, List.takeWhile_cons, ih]

/-- A text has nothing of the earlier datagrams. -/
theorem text_received (buffer bytes : Str) : cStr (receive buffer bytes) = cStr bytes :=
  cStr_append_zero bytes _

/-! ## A round -/

section Rounds

variable [Field K]

theorem touches_ingest (now : Nat → Int) (σ : Viewport K) (sensorData : Str) :
    Touches Scene.SameFrame σ (ingest now σ sensorData) := by
  have hfold : ∀ (timeStamp : Int) (ps : List (Value × Nat)) (σ : Viewport K),
      Touches Scene.SameFrame σ (ps.foldl (storeJson timeStamp now) σ) := by
    intro timeStamp ps
    induction ps with
    | nil => exact refl_of _
    | cons p ps ih => exact fun σ => trans_of _ (touches_storeJson timeStamp now σ p) (ih _)
  unfold ingest
  split
  · split
    · exact hfold _ _ _
    · exact refl_of _ σ
  · exact refl_of _ σ

variable [Machine]

theorem run_round (now : Nat → Int) (a : Received) (s : UdpServer K) :
    ∃ buffer size, (round now a).run s =
      match (processSensorData now a.text).run s.viewport with
      | .ok u σ => .ok u ⟨buffer, size, σ⟩
      | .error fault σ => .error fault ⟨buffer, size, σ⟩ := by
  cases a with
  | socketError => exact ⟨s.buffer, s.size_buffer, rfl⟩
  | datagram d =>
    by_cases hlen : 0 < d.bytes.length
    · refine ⟨_, length_receive s.size_buffer d, ?_⟩
      have hreceived : cStr (s.receive d).buffer = cStr d.bytes := text_received s.buffer d.bytes
      have hviewport : (s.receive d).viewport = s.viewport := rfl
      rw [round, if_pos hlen, Received.text]
      simp only [EStateM.run_bind, EStateM.run_modify, EStateM.run_get, run_zoom, hreceived,
        hviewport]
      cases (processSensorData now (cStr d.bytes)).run s.viewport <;> rfl
    · refine ⟨s.buffer, s.size_buffer, ?_⟩
      have hnil : d.bytes = [] := List.length_eq_zero_iff.mp (by omega)
      rw [round, if_neg hlen, Received.text, hnil]
      rfl

/-! ## The loop -/

/-- The state after some arrivals that the loop gets through. -/
def ingestAll (σ : Viewport K) (arrivals : List (Received × (Nat → Int))) : Viewport K :=
  arrivals.foldl (fun σ a => ingest a.2 σ a.1.text) σ

theorem listen_cons (a : Received × (Nat → Int)) (rest : List (Received × (Nat → Int))) :
    (listen (a :: rest) : EStateM Fault (UdpServer K) PUnit) =
      round a.2 a.1 >>= fun _ => listen rest := rfl

/-- The registry decides about a text. -/
theorem accepts_ingest_iff (now : Nat → Int) (σ : Viewport K) (sensorData text : Str) :
    (ingest now σ sensorData).Accepts text ↔ σ.Accepts text := by
  unfold Accepts
  rw [(touches_ingest now σ sensorData).clients]

theorem run_listen {s : UdpServer K} (hwf : WellFormed s.viewport)
    {before rest : List (Received × (Nat → Int))}
    (hbefore : ∀ a ∈ before, s.viewport.Accepts a.1.text) :
    ∃ buffer size, (listen (before ++ rest)).run s =
      (listen rest).run ⟨buffer, size, ingestAll s.viewport before⟩ := by
  induction before generalizing s with
  | nil => exact ⟨s.buffer, s.size_buffer, rfl⟩
  | cons a before ih =>
    obtain ⟨ha, hbefore⟩ := List.forall_mem_cons.mp hbefore
    obtain ⟨buffer, size, hround⟩ := run_round a.2 a.1 s
    rw [(run_ingest_iff a.2 hwf _).mpr ⟨ha, rfl⟩] at hround
    have hquiet := (touches_ingest a.2 s.viewport a.1.text).quiet_of_sameFrame
    obtain ⟨buffer', size', hrest⟩ :=
      @ih ⟨buffer, size, ingest a.2 s.viewport a.1.text⟩ (hwf.quiet hquiet)
        fun b hb => (accepts_ingest_iff a.2 _ _ _).mpr (hbefore b hb)
    refine ⟨buffer', size', ?_⟩
    rw [List.cons_append, listen_cons, EStateM.run_bind, hround]
    exact hrest

/-- Ingest keeps the state well-formed and judges as before. -/
theorem ingestAll_spec {σ : Viewport K} (hwf : WellFormed σ)
    (arrivals : List (Received × (Nat → Int))) :
    WellFormed (ingestAll σ arrivals) ∧
      ∀ text, (ingestAll σ arrivals).Accepts text ↔ σ.Accepts text := by
  induction arrivals generalizing σ with
  | nil => exact ⟨hwf, fun _ => Iff.rfl⟩
  | cons a rest ih =>
    have hquiet := (touches_ingest a.2 σ a.1.text).quiet_of_sameFrame
    obtain ⟨hwf', haccepts⟩ := ih (hwf.quiet hquiet)
    exact ⟨hwf', fun text => (haccepts text).trans (accepts_ingest_iff a.2 σ _ text)⟩

omit [Field K] in
theorem exists_first_refused (σ : Viewport K) {arrivals : List (Received × (Nat → Int))}
    (h : ¬ ∀ a ∈ arrivals, σ.Accepts a.1.text) :
    ∃ before a rest, arrivals = before ++ a :: rest ∧
      (∀ b ∈ before, σ.Accepts b.1.text) ∧ ¬ σ.Accepts a.1.text := by
  induction arrivals with
  | nil => exact absurd (List.forall_mem_nil _) h
  | cons a rest ih =>
    by_cases ha : σ.Accepts a.1.text
    · obtain ⟨before, b, rest', rfl, hbefore, hb⟩ :=
        ih fun hrest => h (List.forall_mem_cons.mpr ⟨ha, hrest⟩)
      exact ⟨a :: before, b, rest', rfl, List.forall_mem_cons.mpr ⟨ha, hbefore⟩, hb⟩
    · exact ⟨[], a, rest, rfl, List.forall_mem_nil _, ha⟩

/-- What is not accepted ends the loop. -/
theorem run_listen_refused {s : UdpServer K} (hwf : WellFormed s.viewport)
    {a : Received × (Nat → Int)} (ha : ¬ s.viewport.Accepts a.1.text)
    (rest : List (Received × (Nat → Int))) :
    ∃ fault s', (listen (a :: rest)).run s = .error fault s' ∧
      (processSensorData a.2 a.1.text).run s.viewport = .error fault s'.viewport := by
  obtain ⟨buffer, size, hround⟩ := run_round a.2 a.1 s
  cases hcall : (processSensorData a.2 a.1.text).run s.viewport with
  | ok u σ => exact absurd ((run_ingest_iff a.2 hwf _).mp hcall).1 ha
  | error fault σ =>
    rw [hcall] at hround
    refine ⟨fault, ⟨buffer, size, σ⟩, ?_, rfl⟩
    rw [listen_cons, EStateM.run_bind, hround]

end Rounds

section Runs

variable [Machine] [Field K] [LinearOrder K]

/-- The loop ends at the first text that the registry does not accept.  All
texts before it are ingested in turn, each judged by the registry that the loop
has started with, and what comes after it is not read. -/
theorem listen_cases (s : UdpServer K) (hs : Reachable s.viewport)
    (arrivals : List (Received × (Nat → Int))) :
    ((∀ a ∈ arrivals, s.viewport.Accepts a.1.text) ∧
      ∃ s', (listen arrivals).run s = .ok ⟨⟩ s' ∧
        s'.viewport = ingestAll s.viewport arrivals) ∨
    ∃ before a rest, arrivals = before ++ a :: rest ∧
      (∀ b ∈ before, s.viewport.Accepts b.1.text) ∧ ¬ s.viewport.Accepts a.1.text ∧
      ∃ fault s', (listen arrivals).run s = .error fault s' ∧
        (processSensorData a.2 a.1.text).run (ingestAll s.viewport before) =
          .error fault s'.viewport := by
  have hwf := wellFormed_of_reachable hs
  by_cases hall : ∀ a ∈ arrivals, s.viewport.Accepts a.1.text
  · obtain ⟨buffer, size, hrun⟩ := @run_listen K _ _ s hwf arrivals [] hall
    rw [List.append_nil] at hrun
    exact Or.inl ⟨hall, _, hrun, rfl⟩
  · obtain ⟨before, a, rest, rfl, hbefore, ha⟩ := exists_first_refused s.viewport hall
    obtain ⟨buffer, size, hrun⟩ := @run_listen K _ _ s hwf before (a :: rest) hbefore
    obtain ⟨hwf', haccepts⟩ := ingestAll_spec hwf before
    obtain ⟨fault, s', hrefused, hcall⟩ :=
      @run_listen_refused K _ _ ⟨buffer, size, ingestAll s.viewport before⟩ hwf' a
        (fun h => ha ((haccepts _).mp h)) rest
    exact Or.inr ⟨before, a, rest, rfl, hbefore, ha, fault, s', hrun.trans hrefused, hcall⟩

end Runs

/-- A failed read, a text that is not JSON, and a number of 32 characters in
front of a zero. -/
def arrivals : List (Received × (Nat → Int)) :=
  [(.socketError, fun _ => 5),
    (.datagram ⟨['x'], by decide⟩, fun _ => 5),
    (.datagram ⟨"0.000000000000000000000000000001".toList ++ ['\x00', 'x'], by decide⟩,
      fun _ => 5)]

def idle : UdpServer ℚ := ⟨List.replicate bufferSize 'x', List.length_replicate, start⟩

theorem listen_cases_arrivals :
    letI := Machine.small
    ∃ fault s', (listen arrivals).run idle = .error fault s' := by
  let machine := Machine.small
  rcases listen_cases idle .start arrivals with ⟨hall, -⟩ |
    ⟨before, a, rest, -, -, -, fault, s', hrun, -⟩
  · refine absurd (hall _ (List.mem_cons_of_mem _ (List.mem_cons_of_mem _ List.mem_cons_self))) ?_
    decide +kernel
  · exact ⟨fault, s', hrun⟩

end MinorityViewport.Udp
