import MinorityViewport.Algorithms.Events
import MinorityViewport.Json.Refusals

/-!
# The ingest of sensor data

`ingest` is what a datagram should do: every skeleton in it that decodes and
names a sensor of a registered client is stored, and everything else is
ignored.  `run_processSensorData_iff` says on which datagrams the code does
this.  On all others it does not return, because a conversion throws, the
loop is not left, the pointer to the sensor is `NULL`, or the reader does not
come to its end: `not_accepts_brackets` and `not_accepts_decimal`.
-/

namespace MinorityViewport.Viewport

open Exec Json

variable {K : Type}

/-! ## The intended effect -/

/-- The registered sensor that a skeleton names. -/
def sensorOf (σ : Viewport K) (skeleton : Skeleton K) : Option Sensor :=
  (σ.clients.find skeleton.clientId).bind (·.sensors.find? skeleton.sensorId)

/-- Store a skeleton if its sensor is registered. -/
def store (σ : Viewport K) (skeleton : Skeleton K) (now : Int) : Viewport K :=
  (σ.sensorOf skeleton).elim σ fun sensor =>
    σ.write sensor.scene (·.update skeleton.skeletonId skeleton now)

/-- Store the skeleton that a value decodes to. -/
def storeJson [Field K] (timeStamp : Int) (now : Nat → Int) (σ : Viewport K)
    (p : Value × Nat) : Viewport K :=
  match Skeleton.ofJson p.1 timeStamp with
  | .ok skeleton => σ.store skeleton (now p.2)
  | .error _ => σ

/-- Store what is registered and ignore the rest. -/
def ingest [Field K] (now : Nat → Int) (σ : Viewport K) (sensorData : Str) : Viewport K :=
  match sensorData, Reader.parse sensorData with
  | _ :: _, some root =>
    match (root.memberD "TIME_STAMP" (.string "0".toList)).asDouble with
    | .ok timeStamp =>
      (root.memberD "SENSOR_JSON" .null).elements.zipIdx.foldl
        (storeJson (Value.truncate timeStamp) now) σ
    | .error _ => σ
  | _, _ => σ

/-! ## A single skeleton -/

/-- The client is not registered, or has the sensor. -/
def Lands (clients : ClientsList) (clientId : Nat) (sensorId : Str) : Prop :=
  ∀ client, clients.find clientId = some client → (client.sensors.find? sensorId).isSome

instance (clients : ClientsList) (clientId : Nat) (sensorId : Str) :
    Decidable (Lands clients clientId sensorId) :=
  inferInstanceAs (Decidable (∀ client ∈ clients.find clientId,
    (client.sensors.find? sensorId).isSome))

theorem touches_store (σ : Viewport K) (skeleton : Skeleton K) (now : Int) :
    Touches Scene.SameFrame σ (σ.store skeleton now) := by
  unfold store
  cases σ.sensorOf skeleton with
  | none => exact refl_of _ σ
  | some sensor =>
    exact touches_write (fun s => s.sameFrame_update skeleton.skeletonId skeleton now) σ
      sensor.scene

theorem scene_mem_owned {σ : Viewport K} {clientId : Nat} {client : Client}
    (hclient : σ.clients.find clientId = some client) {id : Str} {sensor : Sensor}
    (hsensor : client.sensors.find? id = some sensor) : sensor.scene ∈ σ.owned := by
  refine List.mem_flatMap.mpr ⟨client, ClientsList.mem_of_find hclient, ?_⟩
  exact List.mem_map_of_mem (List.mem_map.mpr ⟨_, OrdMap.find?_eq_some_iff.mp hsensor, rfl⟩)

theorem run_loadSkeleton_eq_ok_iff {σ σ' : Viewport K} (hwf : WellFormed σ)
    (skeleton : Skeleton K) (now : Int) :
    (loadSkeleton skeleton now).run σ = .ok ⟨⟩ σ' ↔
      Lands σ.clients skeleton.clientId skeleton.sensorId ∧ σ' = σ.store skeleton now := by
  rw [loadSkeleton, run_get_bind_eq_ok_iff, store, sensorOf, Lands]
  cases hclient : σ.clients.find skeleton.clientId with
  | none =>
    rw [run_pure_eq_ok_iff]
    simp
  | some client =>
    simp only [run_bind_eq_ok_iff, run_ofExcept_eq_ok_iff, Option.bind_some]
    cases hsensor : client.sensors.find? skeleton.sensorId with
    | none =>
      refine iff_of_false ?_ fun h => by
        have := h.1 client rfl
        rw [hsensor] at this
        cases this
      rintro ⟨sensor, _, ⟨hextract, rfl⟩, hrun⟩
      rw [Client.extractSensor, hsensor] at hextract
      split_ifs at hextract
      obtain rfl := Except.ok.inj hextract
      exact not_run_throw_eq_ok hrun
    | some sensor =>
      have hsize : client.sensors.size ≠ 0 := by
        have hmem := OrdMap.find?_eq_some_iff.mp hsensor
        exact fun h0 => absurd (List.eq_nil_of_length_eq_zero h0 ▸ hmem) List.not_mem_nil
      have hextract : client.extractSensor skeleton.sensorId = .ok (some sensor) := by
        rw [Client.extractSensor, if_pos hsize, hsensor]
      have hlive := hwf.live _ (scene_mem_owned hclient hsensor)
      rw [hextract]
      constructor
      · rintro ⟨_, _, ⟨h, rfl⟩, hrun⟩
        obtain rfl := Except.ok.inj h
        refine ⟨fun c hc => ?_, (run_writeScene_eq_ok_iff.mp hrun).2⟩
        obtain rfl := Option.some.inj hc
        rw [hsensor]
        rfl
      · rintro ⟨_, rfl⟩
        exact ⟨_, σ, ⟨rfl, rfl⟩, run_writeScene_eq_ok_iff.mpr ⟨hlive, rfl⟩⟩

/-! ## A datagram -/

variable [Field K]

/-- A value that decodes to a skeleton whose client is not registered or has
its sensor. -/
def Storable (clients : ClientsList) (raw : Value) : Prop :=
  Skeleton.Decodes raw ∧ ∀ clientId sensorId,
    (raw.memberD "client_id" .zero).asUInt = .ok clientId →
      (raw.memberD "sensor_id" .zero).asString = .ok sensorId →
        Lands clients clientId sensorId

omit [Field K] in
theorem mem_toOption_iff {α : Type} {x : Except Fault α} {a : α} :
    a ∈ x.toOption ↔ x = .ok a := by
  cases x <;> simp [Except.toOption]

instance (clients : ClientsList) (raw : Value) : Decidable (Storable clients raw) :=
  decidable_of_iff (Skeleton.Decodes raw ∧
      ∀ clientId ∈ (raw.memberD "client_id" .zero).asUInt.toOption,
        ∀ sensorId ∈ (raw.memberD "sensor_id" .zero).asString.toOption,
          Lands clients clientId sensorId) <| by
    simp only [mem_toOption_iff, Storable]
    exact and_congr_right fun _ => ⟨fun h c i hc hi => h c hc i hi, fun h c hc i hi => h c i hc hi⟩

/-- One round of the loop over the skeletons. -/
theorem run_round_eq_ok_iff {σ σ' : Viewport K} (hwf : WellFormed σ) (timeStamp : Int)
    (now : Nat → Int) (p : Value × Nat) :
    (do let newSkeleton ← ofExcept (Skeleton.ofJson p.1 timeStamp)
        loadSkeleton newSkeleton (now p.2) : EStateM Fault (Viewport K) PUnit).run σ =
      .ok ⟨⟩ σ' ↔ Storable σ.clients p.1 ∧ σ' = storeJson timeStamp now σ p := by
  rw [run_bind_eq_ok_iff, Storable, ← Skeleton.ofJson_isOk_iff (K := K) p.1 timeStamp,
    storeJson]
  cases hs : Skeleton.ofJson (K := K) p.1 timeStamp with
  | error e =>
    refine iff_of_false ?_ fun h => not_isOk_error e h.1.1
    rintro ⟨_, _, hrun, _⟩
    cases (run_ofExcept_eq_ok_iff.mp hrun).1
  | ok skeleton =>
    obtain ⟨hclient, hsensor, _⟩ := Skeleton.ids_of_ofJson hs
    rw [and_iff_right (isOk_ok skeleton), hclient, hsensor]
    constructor
    · rintro ⟨_, _, hrun, hload⟩
      obtain ⟨hsame, rfl⟩ := run_ofExcept_eq_ok_iff.mp hrun
      obtain rfl := Except.ok.inj hsame
      obtain ⟨hlands, rfl⟩ := (run_loadSkeleton_eq_ok_iff hwf _ _).mp hload
      refine ⟨fun clientId sensorId hc hi => ?_, rfl⟩
      obtain rfl := Except.ok.inj hc
      obtain rfl := Except.ok.inj hi
      exact hlands
    · rintro ⟨hlands, rfl⟩
      exact ⟨skeleton, σ, run_ofExcept_eq_ok_iff.mpr ⟨rfl, rfl⟩,
        (run_loadSkeleton_eq_ok_iff hwf _ _).mpr ⟨hlands _ _ rfl rfl, rfl⟩⟩

theorem touches_storeJson (timeStamp : Int) (now : Nat → Int) (σ : Viewport K)
    (p : Value × Nat) : Touches Scene.SameFrame σ (storeJson timeStamp now σ p) := by
  unfold storeJson
  cases Skeleton.ofJson (K := K) p.1 timeStamp with
  | error e => exact refl_of _ σ
  | ok skeleton => exact touches_store σ skeleton (now p.2)

/-- The whole loop: no round changes the registered clients, so each tests
the same. -/
theorem run_rounds_eq_ok_iff (timeStamp : Int) (now : Nat → Int) (ps : List (Value × Nat)) :
    ∀ {σ σ' : Viewport K}, WellFormed σ →
      ((ps.foldlM (fun _ p => do
          let newSkeleton ← ofExcept (Skeleton.ofJson (K := K) p.1 timeStamp)
          loadSkeleton newSkeleton (now p.2)) PUnit.unit :
            EStateM Fault (Viewport K) PUnit).run σ = .ok ⟨⟩ σ' ↔
        (∀ p ∈ ps, Storable σ.clients p.1) ∧ σ' = ps.foldl (storeJson timeStamp now) σ) := by
  induction ps with
  | nil =>
    intro σ σ' _
    rw [List.foldlM_nil, run_pure_eq_ok_iff]
    simp
  | cons p rest ih =>
    intro σ σ' hwf
    have hq := (touches_storeJson timeStamp now σ p).quiet_of_sameFrame
    rw [List.foldlM_cons, run_bind_eq_ok_iff, List.forall_mem_cons, List.foldl_cons]
    constructor
    · rintro ⟨_, τ, hround, hrest⟩
      obtain ⟨hp, rfl⟩ := (run_round_eq_ok_iff hwf timeStamp now p).mp hround
      obtain ⟨hall, rfl⟩ := (ih (hwf.quiet hq)).mp hrest
      rw [hq.clients] at hall
      exact ⟨⟨hp, hall⟩, rfl⟩
    · rintro ⟨⟨hp, hall⟩, rfl⟩
      refine ⟨⟨⟩, _, (run_round_eq_ok_iff hwf timeStamp now p).mpr ⟨hp, rfl⟩, ?_⟩
      refine (ih (hwf.quiet hq)).mpr ⟨?_, rfl⟩
      rwa [hq.clients]

/-- An object with a time stamp and an array of storable skeletons. -/
def AcceptsRoot (clients : ClientsList) (root : Value) : Prop :=
  root.isObject ∧
    (root.memberD "TIME_STAMP" (.string "0".toList)).convertsToDouble ∧
    (root.memberD "SENSOR_JSON" .null).Loops ∧
    ∀ raw ∈ (root.memberD "SENSOR_JSON" .null).elements, Storable clients raw

instance (clients : ClientsList) (root : Value) : Decidable (AcceptsRoot clients root) :=
  inferInstanceAs (Decidable (_ ∧ _))

/-- The datagrams that are ingested: the text is empty, or the reader comes to
the end of it, and it is not JSON or its root is acceptable. -/
def Accepts [Machine] (σ : Viewport K) (sensorData : Str) : Prop :=
  sensorData ≠ [] → OkWith (Reader.read sensorData) fun root =>
    ∀ v ∈ root, AcceptsRoot σ.clients v

instance [Machine] (σ : Viewport K) (sensorData : Str) : Decidable (σ.Accepts sensorData) :=
  inferInstanceAs (Decidable (sensorData ≠ [] → OkWith _ _))

section

variable [Machine]

theorem run_processSensorData_root (now : Nat → Int) {σ σ' : Viewport K} (hwf : WellFormed σ)
    {c : Char} {rest : Str} {root : Value} (hroot : Reader.read (c :: rest) = .ok (some root)) :
    (processSensorData now (c :: rest)).run σ = .ok ⟨⟩ σ' ↔
      AcceptsRoot σ.clients root ∧ σ' = ingest now σ (c :: rest) := by
  simp only [processSensorData, hroot, ofExcept_ok_bind, ingest, AcceptsRoot,
    Reader.parse_of_read hroot, Value.member, run_bind_eq_ok_iff, run_ofExcept_eq_ok_iff,
    Value.get_eq_ok_iff, run_forElements_eq_ok_iff, ← Value.asDouble_isOk_iff]
  constructor
  · rintro ⟨_, _, ⟨⟨hobj, rfl⟩, rfl⟩, timeStamp, _, ⟨htime, rfl⟩, _, _, ⟨⟨_, rfl⟩, rfl⟩,
      hloops, hrun⟩
    obtain ⟨hall, rfl⟩ := (run_rounds_eq_ok_iff _ now _ hwf).mp hrun
    refine ⟨⟨hobj, ⟨timeStamp, htime⟩, hloops, fun raw hraw => ?_⟩, by rw [htime]⟩
    obtain ⟨i, hi⟩ := List.mem_iff_getElem?.mp hraw
    exact hall (raw, i) (List.mem_zipIdx_iff_getElem?.mpr hi)
  · rintro ⟨⟨hobj, ⟨timeStamp, htime⟩, hloops, hall⟩, rfl⟩
    refine ⟨_, σ, ⟨⟨hobj, rfl⟩, rfl⟩, timeStamp, σ, ⟨htime, rfl⟩, _, σ, ⟨⟨hobj, rfl⟩, rfl⟩,
      hloops, ?_⟩
    rw [htime]
    refine (run_rounds_eq_ok_iff _ now _ hwf).mpr ⟨fun p hp => hall p.1 ?_, rfl⟩
    exact List.mem_of_getElem? (List.mem_zipIdx_iff_getElem?.mp hp)

theorem run_ingest_iff (now : Nat → Int) {σ σ' : Viewport K} (hwf : WellFormed σ)
    (sensorData : Str) :
    (processSensorData now sensorData).run σ = .ok ⟨⟩ σ' ↔
      σ.Accepts sensorData ∧ σ' = ingest now σ sensorData := by
  cases sensorData with
  | nil =>
    refine run_pure_eq_ok_iff.trans (and_congr ?_ Iff.rfl)
    exact iff_of_true rfl fun hnil => absurd rfl hnil
  | cons c rest =>
    rw [Accepts, imp_iff_right (List.cons_ne_nil c rest)]
    cases hread : Reader.read (c :: rest) with
    | error fault =>
      refine iff_of_false (fun hrun => ?_) fun h => not_okWith_error _ _ h.1
      rw [processSensorData, hread] at hrun
      cases hrun
    | ok root =>
      rw [okWith_ok]
      cases root with
      | none =>
        simp only [processSensorData, hread, ofExcept_ok_bind, ingest, Reader.parse_of_read hread]
        refine run_pure_eq_ok_iff.trans (and_congr ?_ Iff.rfl)
        exact iff_of_true rfl fun v hv => by cases hv
      | some root =>
        rw [run_processSensorData_root now hwf hread]
        refine and_congr_left fun _ => ?_
        simp

/-- A datagram is ingested exactly when it is acceptable. -/
theorem run_processSensorData_iff [LinearOrder K] {σ : Viewport K} (h : Reachable σ)
    (now : Nat → Int) (sensorData : Str) :
    (processSensorData now sensorData).run σ = .ok ⟨⟩ (ingest now σ sensorData) ↔
      σ.Accepts sensorData :=
  (run_ingest_iff now (wellFormed_of_reachable h) sensorData).trans (and_iff_left rfl)

omit [Field K] in
theorem not_accepts_of_read {sensorData : Str} (hne : sensorData ≠ []) {fault : Fault}
    (hread : Reader.read sensorData = .error fault) (σ : Viewport K) : ¬ σ.Accepts sensorData := by
  intro h
  have hok := h hne
  rw [hread] at hok
  exact not_okWith_error _ _ hok

omit [Field K] in
/-- A datagram that opens as many arrays as the stack has room for. -/
theorem not_accepts_brackets {n k : Nat} (hstack : Machine.stack = some n) (hk : n ≤ k)
    (hpos : 0 < k) (σ : Viewport K) : ¬ σ.Accepts (List.replicate k '[') := by
  have hread : Reader.read (List.replicate k '[') = .error .stackOverflow := by
    rw [Reader.read, hstack]
    exact Reader.parseIn_brackets hk
  have hne : List.replicate k '[' ≠ [] := by
    rw [ne_eq, List.replicate_eq_nil_iff]
    omega
  exact not_accepts_of_read hne hread σ

omit [Field K] in
/-- A datagram that is a number of 32 characters. -/
theorem not_accepts_decimal {n : Nat} (hstack : Machine.stack = some (n + 1)) {number : Str}
    (h : Reader.IsDecimal number) (hoverruns : Reader.Overruns number) (σ : Viewport K) :
    ¬ σ.Accepts number := by
  have hread : Reader.read number = .error .bufferOverrun := by
    have hvalue := Reader.readValueIn_overruns (n := n) h Reader.delimited_nil hoverruns
      (2 * number.length)
    rw [List.append_nil] at hvalue
    rw [Reader.read, Reader.parseIn, hstack, hvalue]
  have hne : number ≠ [] := by
    rintro rfl
    cases h
  exact not_accepts_of_read hne hread σ

end

/-- A client with one sensor. -/
def registration : List (Event ℚ) :=
  [.registerClient [0] [] [],
    .registerSensors .next 1 "\x7b\"Sensors\":[\x7b\"id\":\"a\"\x7d]\x7d".toList]

theorem reachable_registration : Reachable (stateAfter start registration) :=
  Reachable.start.stateAfter (by decide +kernel)

/-- A person before this sensor, and one before a sensor of another client. -/
def twoPersons : Str :=
  ("\x7b\"TIME_STAMP\":1,\"SENSOR_JSON\":[\x7b\"client_id\":1,\"sensor_id\":\"a\"\x7d," ++
    "\x7b\"client_id\":2,\"sensor_id\":\"b\"\x7d]\x7d").toList

theorem run_processSensorData_iff_twoPersons :
    letI := Machine.small
    (processSensorData (fun _ => 5) twoPersons).run (stateAfter start registration) =
      .ok ⟨⟩ (ingest (fun _ => 5) (stateAfter start registration) twoPersons) :=
  letI := Machine.small
  have hreachable : Reachable (stateAfter start registration) :=
    Reachable.start.stateAfter (by decide +kernel)
  (run_processSensorData_iff hreachable _ _).mpr (by decide +kernel)

/-- A datagram without a time stamp: the default is a string, and its
conversion to a number throws. -/
theorem not_ingested_noTimeStamp :
    Reachable (start : Viewport ℚ) ∧
      (processSensorData (fun _ => 5) "\x7b\x7d".toList).run (start : Viewport ℚ) ≠
        .ok ⟨⟩ (ingest (fun _ => 5) start "\x7b\x7d".toList) := by
  refine ⟨.start, fun h => ?_⟩
  have hnone : value? (processSensorData (K := ℚ) (fun _ => 5) "\x7b\x7d".toList) start = none := by
    decide +kernel
  rw [value?, h] at hnone
  cases hnone

end MinorityViewport.Viewport
