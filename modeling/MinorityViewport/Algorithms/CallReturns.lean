import MinorityViewport.Algorithms.Ingest

/-!
# When the calls of a request return

One condition for each call of the viewport that a request makes, on the
texts of the request and on the state before the call.

* `Viewport.SensorListSafe` is about the list of sensors of a registration.
* `Viewport.PairsSafe` is about the two lists of skeletons of a calibration:
  every pair decodes, some pair is usable, and the usable skeletons of the
  two sides have the same number of points.
* `AllReady` of the merge is the condition of `GetGlobalScene`.
-/

namespace MinorityViewport

open Exec Json

variable {K : Type}

namespace Viewport

/-! ## Clients and sensors -/

theorem returns_registerClient_iff (draws : List Nat) (phyLocation ipAddr : Str)
    (σ : Viewport K) :
    Returns (registerClient draws phyLocation ipAddr) σ ↔
      σ.clients.avaliableIDs ≠ [] ∨
        ∃ draw ∈ draws, ¬ σ.clients.clientIdIsPrevAssigned (draw % 1000 + 1) := by
  rw [← ClientsList.addClient_isOk_iff σ.clients draws phyLocation ipAddr, registerClient,
    returns_get_bind, returns_ofExcept_bind_iff]
  constructor
  · rintro ⟨r, h, _⟩
    exact ⟨r, h⟩
  · rintro ⟨r, h⟩
    exact ⟨r, h, r.1, _, rfl⟩

theorem returns_deregisterClient_iff (clientId : Nat) (σ : Viewport K) :
    Returns (deregisterClient clientId) σ ↔ (σ.clients.find clientId).isSome := by
  cases h : σ.clients.find clientId with
  | none =>
    refine iff_of_false ?_ (by simp)
    rintro ⟨u, σ', hrun⟩
    rw [not_returns_deregisterClient h] at hrun
    cases hrun
  | some client => exact iff_of_true ⟨_, _, run_deregisterClient h⟩ rfl

/-- A text that the reader comes to the end of, and that does not parse or is
an object with a list of sensors that have ids. -/
def SensorListSafe [Machine] (rawSensorsList : Str) : Prop :=
  OkWith (Reader.read rawSensorsList) fun root => ∀ v ∈ root,
    v.isObject ∧ (v.memberD "Sensors" .zero).Loops ∧
      ∀ sensorJson ∈ (v.memberD "Sensors" .zero).elements,
        sensorJson.isObject ∧ (sensorJson.memberD "id" .zero).convertsToString

instance [Machine] (rawSensorsList : Str) : Decidable (SensorListSafe rawSensorsList) :=
  inferInstanceAs (Decidable (OkWith _ _))

/-- An element of a list of sensors that is read without a throw. -/
def SensorDecodes (sensorJson : Value) : Prop :=
  sensorJson.isObject ∧ (sensorJson.memberD "id" .zero).convertsToString

/-- A round of the loop over the sensors tests its own element only. -/
theorem returns_sensorRound_iff (alloc : Allocator) (sensorJson : Value) (s : Heap K × Client) :
    Returns (do
        let id ← ofExcept (sensorJson.get "id" .zero)
        let id ← ofExcept id.asString
        modify (Client.addSensor alloc id) : EStateM Fault (Heap K × Client) PUnit) s ↔
      SensorDecodes sensorJson := by
  simp only [SensorDecodes, returns_ofExcept_bind_iff, Value.get_eq_ok_iff, returns_modify,
    and_true, ← Value.asString_isOk_iff, IsOk]
  constructor
  · rintro ⟨_, ⟨hobj, rfl⟩, h⟩
    exact ⟨hobj, h⟩
  · rintro ⟨hobj, h⟩
    exact ⟨_, ⟨hobj, rfl⟩, h⟩

theorem returns_initialSensorsList_iff [Machine] (alloc : Allocator) (rawSensorsJson : Str)
    (s : Heap K × Client) :
    Returns (Client.initialSensorsList alloc rawSensorsJson) s ↔
      SensorListSafe rawSensorsJson := by
  rw [Client.initialSensorsList, returns_ofExcept_bind_iff, SensorListSafe, OkWith]
  refine exists_congr fun root => and_congr_right fun _ => ?_
  cases root with
  | none => exact iff_of_true (returns_pure _ _) fun v hv => by cases hv
  | some root =>
    simp only [returns_ofExcept_bind_iff, Value.get_eq_ok_iff, returns_forElements_iff,
      Option.mem_some_iff, forall_eq', ← Value.forall_mem_zipIdx_elements
        (C := fun e => e.isObject ∧ (e.memberD "id" .zero).convertsToString)]
    constructor
    · rintro ⟨_, ⟨hobj, rfl⟩, hloops, hret⟩
      exact ⟨hobj, hloops,
        (returns_foldlM_iff (fun _ p _ => returns_sensorRound_iff alloc p.1) _ _).mp hret⟩
    · rintro ⟨hobj, hloops, hall⟩
      exact ⟨_, ⟨hobj, rfl⟩, hloops,
        (returns_foldlM_iff (fun _ p _ => returns_sensorRound_iff alloc p.1) _ _).mpr hall⟩

theorem returns_registerSensors_iff [Machine] (alloc : Allocator) (clientId : Nat)
    (rawSensorsList : Str) (σ : Viewport K) :
    Returns (registerSensors alloc clientId rawSensorsList) σ ↔
      (σ.clients.find clientId).isSome ∧ SensorListSafe rawSensorsList := by
  rw [registerSensors, returns_get_bind]
  cases σ.clients.find clientId with
  | none => exact iff_of_false (not_returns_throw _ _) fun h => by cases h.1
  | some client =>
    rw [returns_zoom_iff, returns_initialSensorsList_iff]
    exact (and_iff_right rfl).symm

/-- A listing needs a sensor for each client. -/
theorem getClientListing_isOk_iff {σ : Viewport K} (hwf : WellFormed σ) :
    IsOk σ.getClientListing ↔ ∀ client ∈ σ.clients.rawClientList, client.sensors.size ≠ 0 := by
  rw [getClientListing, isOk_bind_iff_and (C := True) fun _ => iff_of_true (isOk_pure _) trivial,
    and_true, isOk_mapM_iff]
  refine forall₂_congr fun client hclient => ?_
  unfold Client.toJSON
  split_ifs with hsize
  · exact iff_of_false (not_isOk_error _) fun h => h hsize
  · refine iff_of_true ?_ hsize
    rw [isOk_bind_iff_and (C := True) fun _ => iff_of_true (isOk_pure _) trivial, and_true,
      isOk_mapM_iff]
    intro sensor hsensor
    have howned : sensor.scene ∈ σ.owned :=
      List.mem_flatMap.mpr ⟨client, hclient, List.mem_map_of_mem hsensor⟩
    obtain ⟨scene, hscene⟩ := Option.isSome_iff_exists.mp (hwf.live _ howned)
    rw [Client.sensorToJSON, Heap.deref_eq_ok_iff.mpr hscene]
    exact isOk_ok _

theorem returns_calibrateSceneOrder {σ : Viewport K} (hwf : WellFormed σ) :
    Returns calibrateSceneOrder σ := by
  rw [Returns, run_calibrateSceneOrder hwf.live]
  split_ifs
  · exact ⟨_, _, rfl⟩
  · exact ⟨_, _, rfl⟩

/-- A sensor that is found is registered. -/
theorem mem_owned_of_getLocalScene {σ : Viewport K} {sensorId : Str} {a : Addr}
    (h : σ.getLocalSceneBySensorId sensorId = some a) : a ∈ σ.owned := by
  obtain ⟨client, hclient, h⟩ := List.exists_of_findSome?_eq_some h
  obtain ⟨entry, hentry, h⟩ := List.exists_of_findSome?_eq_some h
  split_ifs at h
  obtain rfl := Option.some.inj h
  exact List.mem_flatMap.mpr ⟨client, hclient,
    List.mem_map_of_mem (List.mem_map_of_mem hentry)⟩

theorem returns_getGlobalScene_iff [Field K] [LinearOrder K] (rand : Nat → Nat) (now : Int)
    (σ : Viewport K) :
    Returns (getGlobalScene rand now) σ ↔
      σ.orderedScenes = [] ∨ AllReady σ.scenes σ.orderedScenes.reverse := by
  rw [getGlobalScene, returns_get_bind]
  by_cases h : σ.orderedScenes = []
  · rw [if_neg (by simp [h])]
    exact iff_of_true (returns_pure _ _) (Or.inl h)
  · rw [if_pos (by simpa using h), or_iff_right h, ← returns_mergeScenes_iff rand now,
      returns_bind_iff]
    constructor
    · rintro ⟨u, σ', hrun, _⟩
      exact (returns_zoom_iff _ _ _ σ).mp ⟨u, σ', hrun⟩
    · intro hret
      obtain ⟨u, σ', hrun⟩ := (returns_zoom_iff (fun σ : Viewport K => (σ, []))
        (fun s _ => s.1) _ σ).mpr hret
      exact ⟨u, σ', hrun, returns_pure _ _⟩

/-! ## The pairs of a calibration -/

section Pairs

variable [Field K] [DecidableEq K]

omit [Field K] [DecidableEq K] in
/-- The values at the same index of the two lists. -/
def partners (skeletonsA skeletonsB : Value) : List (Value × Value) :=
  skeletonsA.elements.zipIdx.map fun p => (p.1, skeletonsB.elements.getD p.2 .null)

/-- The two skeletons of a pair, when both have all their joints. -/
def usable? (p : Value × Value) : Option (Skeleton K × Skeleton K) :=
  match Skeleton.ofJson p.1 0, Skeleton.ofJson p.2 0 with
  | .ok skeletonA, .ok skeletonB =>
    if skeletonA.checkFullSetOfJoints && skeletonB.checkFullSetOfJoints then
      some (skeletonA, skeletonB)
    else none
  | _, _ => none

variable (K) in
def usablePartners (skeletonsA skeletonsB : Value) : List (Skeleton K × Skeleton K) :=
  (partners skeletonsA skeletonsB).filterMap usable?

/-- The number of points of a list of skeletons. -/
def pointCount (skeletons : List (Skeleton K)) : Nat :=
  (skeletons.flatMap Skeleton.points).length

variable (K) in
/-- All pairs decode, one of them is usable, and the usable skeletons have
as many points on one side as on the other. -/
structure PairsSafe (skeletonsA skeletonsB : Value) : Prop where
  loops : skeletonsA.Loops
  decode : ∀ p ∈ partners skeletonsA skeletonsB, Skeleton.Decodes p.1 ∧ Skeleton.Decodes p.2
  usable : usablePartners K skeletonsA skeletonsB ≠ []
  points : pointCount ((usablePartners K skeletonsA skeletonsB).map Prod.fst) =
    pointCount ((usablePartners K skeletonsA skeletonsB).map Prod.snd)

omit [DecidableEq K] in
/-- A partner that is missing reads as the null value, which is no
skeleton. -/
theorem atIndex_bind_ofJson_eq_ok_iff (v : Value) (i : Nat) (s : Skeleton K) :
    (v.atIndex i >>= fun element => Skeleton.ofJson element 0) = .ok s ↔
      Skeleton.ofJson (v.elements.getD i .null) 0 = .ok s := by
  have hnull : ¬ IsOk (Skeleton.ofJson (K := K) .null 0) := by
    rw [Skeleton.ofJson_isOk_iff]
    decide
  cases v with
  | null => rfl
  | array xs => rfl
  | _ => exact iff_of_false (fun h => by cases h) fun h => hnull ⟨s, h⟩

/-- What a round of the loop over the pairs collects. -/
def collect (pairs : List (Skeleton K) × List (Skeleton K)) (p : Value × Value) :
    List (Skeleton K) × List (Skeleton K) :=
  match usable? p with
  | some (skeletonA, skeletonB) => (skeletonA :: pairs.1, skeletonB :: pairs.2)
  | none => pairs

theorem foldl_collect (ps : List (Value × Value))
    (pairs : List (Skeleton K) × List (Skeleton K)) :
    ps.foldl collect pairs =
      ((ps.filterMap usable?).reverse.map Prod.fst ++ pairs.1,
        (ps.filterMap usable?).reverse.map Prod.snd ++ pairs.2) := by
  induction ps generalizing pairs with
  | nil => rfl
  | cons p rest ih =>
    rw [List.foldl_cons, ih, collect, List.filterMap_cons]
    cases usable? (K := K) p with
    | none => rfl
    | some r => simp

/-- A round of the loop over the pairs. -/
theorem pairRound_eq_ok_iff (skeletonsB : Value) (pairs : List (Skeleton K) × List (Skeleton K))
    (elementA : Value) (i : Nat) (pairs' : List (Skeleton K) × List (Skeleton K)) :
    (do let skeletonFromSceneA ← Skeleton.ofJson elementA 0
        let elementB ← skeletonsB.atIndex i
        let skeletonFromSceneB ← Skeleton.ofJson elementB 0
        if skeletonFromSceneA.checkFullSetOfJoints && skeletonFromSceneB.checkFullSetOfJoints
        then pure (skeletonFromSceneA :: pairs.1, skeletonFromSceneB :: pairs.2)
        else pure pairs) = .ok pairs' ↔
      (Skeleton.Decodes elementA ∧ Skeleton.Decodes (skeletonsB.elements.getD i .null)) ∧
        pairs' = collect pairs (elementA, skeletonsB.elements.getD i .null) := by
  rw [← Skeleton.ofJson_isOk_iff (K := K) elementA 0,
    ← Skeleton.ofJson_isOk_iff (K := K) (skeletonsB.elements.getD i .null) 0, collect, usable?]
  simp only [bind_eq_ok_iff]
  constructor
  · rintro ⟨a, ha, elementB, helement, b, hb, h⟩
    have hb' := (atIndex_bind_ofJson_eq_ok_iff skeletonsB i b).mp
      (bind_eq_ok_iff.mpr ⟨elementB, helement, hb⟩)
    refine ⟨⟨⟨a, ha⟩, ⟨b, hb'⟩⟩, ?_⟩
    rw [ha, hb']
    split_ifs at h with hfull
    · simp only [hfull, if_true]
      exact (Except.ok.inj h).symm
    · simp only [hfull]
      exact (Except.ok.inj h).symm
  · rintro ⟨⟨⟨a, ha⟩, ⟨b, hb⟩⟩, h⟩
    obtain ⟨elementB, helement, hb'⟩ := bind_eq_ok_iff.mp
      ((atIndex_bind_ofJson_eq_ok_iff skeletonsB i b).mpr hb)
    refine ⟨a, ha, elementB, helement, b, hb', ?_⟩
    rw [ha, hb] at h
    split_ifs with hfull
    · simp only [hfull, if_true] at h
      exact congrArg Except.ok h.symm
    · simp only [hfull] at h
      exact congrArg Except.ok h.symm

theorem usablePairs_eq_ok_iff (skeletonsA skeletonsB : Value)
    (r : List (Skeleton K) × List (Skeleton K)) :
    usablePairs skeletonsA skeletonsB = .ok r ↔
      skeletonsA.Loops ∧
        (∀ p ∈ partners skeletonsA skeletonsB,
          Skeleton.Decodes p.1 ∧ Skeleton.Decodes p.2) ∧
        r = ((usablePartners K skeletonsA skeletonsB).reverse.map Prod.fst,
          (usablePartners K skeletonsA skeletonsB).reverse.map Prod.snd) := by
  rw [usablePairs, forElements_eq_ok_iff,
    foldlM_eq_ok_iff fun pairs p _ => pairRound_eq_ok_iff skeletonsB pairs p.1 p.2,
    partners, List.forall_mem_map, usablePartners, ← List.foldl_map, ← partners,
    foldl_collect, List.append_nil, List.append_nil]

/-! ## A calibration -/

omit [Field K] [DecidableEq K] in
theorem pointCount_eq_zero_iff {skeletons : List (Skeleton K)} :
    pointCount skeletons = 0 ↔ skeletons = [] := by
  rw [pointCount, List.length_eq_zero_iff, List.flatMap_eq_nil_iff, List.eq_nil_iff_forall_not_mem]
  exact forall₂_congr fun s _ => iff_of_false s.points_ne_nil id

omit [DecidableEq K] in
/-- A matrix of points has a row for each of them. -/
theorem exists_stackPoints (skeletons : List (Skeleton K)) :
    ∃ A, stackPoints skeletons = .ok A ∧ A.rows = pointCount skeletons := by
  by_cases h : skeletons = []
  · subst h
    exact ⟨.empty, rfl, rfl⟩
  · exact ⟨_, stackPoints_eq h, rfl⟩

omit [Field K] [DecidableEq K] in
theorem pointCount_reverse_map (f : Skeleton K × Skeleton K → Skeleton K)
    (pairs : List (Skeleton K × Skeleton K)) :
    pointCount (pairs.reverse.map f) = pointCount (pairs.map f) := by
  rw [pointCount, pointCount]
  exact (((List.reverse_perm pairs).map f).flatMap_right _).length_eq

omit [DecidableEq K] in
/-- Which operands the two lists of usable skeletons give. -/
theorem exists_operands (sceneAOrder sceneBOrder : Nat)
    (skeletonsA skeletonsB : List (Skeleton K)) :
    ∃ m, operands sceneAOrder skeletonsA sceneBOrder skeletonsB = .ok m ∧
      (m.A.rows = pointCount skeletonsA ∧ m.B.rows = pointCount skeletonsB ∧
          m.refFrameOrder = sceneAOrder ∧ m.bodyFrameOrder = sceneBOrder ∨
        m.A.rows = pointCount skeletonsB ∧ m.B.rows = pointCount skeletonsA ∧
          m.refFrameOrder = sceneBOrder ∧ m.bodyFrameOrder = sceneAOrder) := by
  obtain ⟨A, hA, hArows⟩ := exists_stackPoints skeletonsA
  obtain ⟨B, hB, hBrows⟩ := exists_stackPoints skeletonsB
  by_cases h : sceneAOrder < sceneBOrder
  · refine ⟨⟨A, B, sceneAOrder, sceneBOrder⟩, ?_, Or.inl ⟨hArows, hBrows, rfl, rfl⟩⟩
    rw [operands, if_pos h, hA, hB]
    rfl
  · refine ⟨⟨B, A, sceneBOrder, sceneAOrder⟩, ?_, Or.inr ⟨hBrows, hArows, rfl, rfl⟩⟩
    rw [operands, if_neg h, hA, hB]
    rfl

/-- The matrices of two texts that are read. -/
theorem assemble_eq_ok_iff [Machine] {sceneAOrder sceneBOrder : Nat} {textA textB : Str}
    {rootA rootB : Value} (hA : Reader.read textA = .ok (some rootA))
    (hB : Reader.read textB = .ok (some rootB)) {r : Option (Operands K)} :
    let skeletonsA := rootA.memberD "skeletons" .null
    let skeletonsB := rootB.memberD "skeletons" .null
    assemble sceneAOrder textA sceneBOrder textB = .ok r ↔
      rootA.isObject ∧ rootB.isObject ∧ skeletonsA.Loops ∧
        (∀ p ∈ partners skeletonsA skeletonsB,
          Skeleton.Decodes p.1 ∧ Skeleton.Decodes p.2) ∧
        ∃ m, r = some m ∧
          operands sceneAOrder ((usablePartners K skeletonsA skeletonsB).reverse.map Prod.fst)
            sceneBOrder ((usablePartners K skeletonsA skeletonsB).reverse.map Prod.snd) =
            .ok m := by
  have hsome : ∀ {x : Except Fault (Operands K)}, some <$> x = .ok r ↔
      ∃ m, r = some m ∧ x = .ok m := by
    intro x
    cases x with
    | error e => exact iff_of_false (fun h => by cases h) fun ⟨m, _, h⟩ => by cases h
    | ok m =>
      constructor
      · exact fun h => ⟨m, (Except.ok.inj h).symm, rfl⟩
      · rintro ⟨m', rfl, h⟩
        exact congrArg (some <$> ·) h
  simp only [assemble_of_read hA hB, bind_eq_ok_iff, Value.member, Value.get_eq_ok_iff,
    usablePairs_eq_ok_iff, hsome]
  constructor
  · rintro ⟨_, ⟨hobjA, rfl⟩, _, ⟨hobjB, rfl⟩, pairs, ⟨hloops, hdecode, rfl⟩, h⟩
    exact ⟨hobjA, hobjB, hloops, hdecode, h⟩
  · rintro ⟨hobjA, hobjB, hloops, hdecode, h⟩
    exact ⟨_, ⟨hobjA, rfl⟩, _, ⟨hobjB, rfl⟩, _, ⟨hloops, hdecode, rfl⟩, h⟩

omit [DecidableEq K] in
/-- The scene with the smaller order is the reference. -/
theorem orders_of_operands {sceneAOrder sceneBOrder : Nat}
    {skeletonsA skeletonsB : List (Skeleton K)} {m : Operands K}
    (h : operands sceneAOrder skeletonsA sceneBOrder skeletonsB = .ok m) :
    m.refFrameOrder = min sceneAOrder sceneBOrder ∧
      m.bodyFrameOrder = max sceneAOrder sceneBOrder := by
  unfold operands at h
  split_ifs at h with hlt
  · obtain ⟨A, _, h⟩ := bind_eq_ok_iff.mp h
    obtain ⟨B, _, h⟩ := bind_eq_ok_iff.mp h
    obtain rfl := Except.ok.inj h
    exact ⟨(min_eq_left hlt.le).symm, (max_eq_right hlt.le).symm⟩
  · have hle := Nat.le_of_not_lt hlt
    obtain ⟨A, _, h⟩ := bind_eq_ok_iff.mp h
    obtain ⟨B, _, h⟩ := bind_eq_ok_iff.mp h
    obtain rfl := Except.ok.inj h
    exact ⟨(min_eq_right hle).symm, (max_eq_left hle).symm⟩

theorem orders_of_assemble [Machine] {sceneAOrder sceneBOrder : Nat} {textA textB : Str}
    {m : Operands K}
    (h : assemble sceneAOrder textA sceneBOrder textB = .ok (some m)) :
    m.refFrameOrder = min sceneAOrder sceneBOrder ∧
      m.bodyFrameOrder = max sceneAOrder sceneBOrder := by
  obtain ⟨rootA, rootB, hA, hB⟩ := read_of_assemble h
  obtain ⟨_, _, _, _, m', hm', hoperands⟩ := (assemble_eq_ok_iff hA hB).mp h
  obtain rfl := Option.some.inj hm'
  exact orders_of_operands hoperands

variable (K) in
/-- Two texts with lists of skeletons that have a fit. -/
def Fits [Machine] (textA textB : Str) : Prop :=
  ∃ rootA rootB, Reader.read textA = .ok (some rootA) ∧ Reader.read textB = .ok (some rootB) ∧
    rootA.isObject ∧ rootB.isObject ∧
      PairsSafe K (rootA.memberD "skeletons" .null) (rootB.memberD "skeletons" .null)

instance (skeletonsA skeletonsB : Value) : Decidable (PairsSafe K skeletonsA skeletonsB) :=
  decidable_of_iff (skeletonsA.Loops ∧
      (∀ p ∈ partners skeletonsA skeletonsB, Skeleton.Decodes p.1 ∧ Skeleton.Decodes p.2) ∧
      usablePartners K skeletonsA skeletonsB ≠ [] ∧
      pointCount ((usablePartners K skeletonsA skeletonsB).map Prod.fst) =
        pointCount ((usablePartners K skeletonsA skeletonsB).map Prod.snd))
    ⟨fun h => ⟨h.1, h.2.1, h.2.2.1, h.2.2.2⟩, fun h => ⟨h.loops, h.decode, h.usable, h.points⟩⟩

instance [Machine] (textA textB : Str) : Decidable (Fits K textA textB) :=
  decidable_of_iff (OkWith (Reader.read textA) fun rootA => ∃ vA ∈ rootA,
      OkWith (Reader.read textB) fun rootB => ∃ vB ∈ rootB,
        vA.isObject ∧ vB.isObject ∧
          PairsSafe K (vA.memberD "skeletons" .null) (vB.memberD "skeletons" .null))
    ⟨fun ⟨_, hA, vA, hvA, _, hB, vB, hvB, h⟩ => ⟨vA, vB, hvA ▸ hA, hvB ▸ hB, h⟩,
      fun ⟨vA, vB, hA, hB, h⟩ => ⟨_, hA, vA, rfl, _, hB, vB, rfl, h⟩⟩

omit [DecidableEq K] in
/-- As many rows on both sides, and not none. -/
theorem rows_of_operands {sceneAOrder sceneBOrder : Nat}
    {pairs : List (Skeleton K × Skeleton K)} {m : Operands K}
    (h : operands sceneAOrder (pairs.reverse.map Prod.fst) sceneBOrder
      (pairs.reverse.map Prod.snd) = .ok m) :
    (m.A.rows ≠ 0 ∧ m.B.rows = m.A.rows) ↔
      pairs ≠ [] ∧ pointCount (pairs.map Prod.fst) = pointCount (pairs.map Prod.snd) := by
  obtain ⟨m', hm', hrows⟩ := exists_operands sceneAOrder sceneBOrder
    (pairs.reverse.map Prod.fst) (pairs.reverse.map Prod.snd)
  obtain rfl : m = m' := Except.ok.inj (h.symm.trans hm')
  have hzero : pointCount (pairs.map Prod.fst) = 0 ↔ pairs = [] := by
    rw [pointCount_eq_zero_iff, List.map_eq_nil_iff]
  rw [pointCount_reverse_map, pointCount_reverse_map] at hrows
  rw [ne_eq, ne_eq, ← hzero]
  omega

theorem fits_iff [Machine] (svd : SvdCompute K) (sceneAOrder : Nat) (textA : Str)
    (sceneBOrder : Nat) (textB : Str) :
    Fits K textA textB ↔ ∃ m, assemble sceneAOrder textA sceneBOrder textB = .ok (some m) ∧
      IsOk (rigidFit svd m.A m.B) := by
  constructor
  · rintro ⟨rootA, rootB, hA, hB, hobjA, hobjB, hloops, hdecode, husable, hpoints⟩
    obtain ⟨m, hm, _⟩ := exists_operands sceneAOrder sceneBOrder
      ((usablePartners K (rootA.memberD "skeletons" .null)
        (rootB.memberD "skeletons" .null)).reverse.map Prod.fst)
      ((usablePartners K (rootA.memberD "skeletons" .null)
        (rootB.memberD "skeletons" .null)).reverse.map Prod.snd)
    have hassemble := (assemble_eq_ok_iff hA hB).mpr ⟨hobjA, hobjB, hloops, hdecode, m, rfl, hm⟩
    obtain ⟨hAsize, hBsize⟩ := assemble_size hassemble
    refine ⟨m, hassemble, (rigidFit_isOk_iff svd hAsize hBsize).mpr ?_⟩
    exact (rows_of_operands hm).mpr ⟨husable, hpoints⟩
  · rintro ⟨m, hassemble, hfit⟩
    obtain ⟨rootA, rootB, hA, hB⟩ := read_of_assemble hassemble
    obtain ⟨hAsize, hBsize⟩ := assemble_size hassemble
    obtain ⟨hobjA, hobjB, hloops, hdecode, m', hm', hm⟩ := (assemble_eq_ok_iff hA hB).mp hassemble
    obtain rfl := Option.some.inj hm'
    obtain ⟨husable, hpoints⟩ :=
      (rows_of_operands hm).mp ((rigidFit_isOk_iff svd hAsize hBsize).mp hfit)
    exact ⟨rootA, rootB, hA, hB, hobjA, hobjB, hloops, hdecode, husable, hpoints⟩

omit [Field K] [DecidableEq K] in
theorem sceneAt_isOk_iff (σ : Viewport K) (order : Nat) :
    IsOk (σ.sceneAt order) ↔ 1 ≤ order ∧ order ≤ σ.orderedScenes.length := by
  simp only [IsOk, sceneAt_eq_ok_iff, exists_and_left, ← Option.isSome_iff_exists,
    isSome_getElem?]
  omega

/-- What a calibration asks of an order that is not empty and of two texts
that parse. -/
structure CalibrationSafe (σ : Viewport K) (sceneAOrder : Nat) (rootA : Value)
    (sceneBOrder : Nat) (rootB : Value) : Prop where
  objectA : rootA.isObject
  objectB : rootB.isObject
  pairs : PairsSafe K (rootA.memberD "skeletons" .null) (rootB.memberD "skeletons" .null)
  orderA : 1 ≤ sceneAOrder ∧ sceneAOrder ≤ σ.orderedScenes.length
  orderB : 1 ≤ sceneBOrder ∧ sceneBOrder ≤ σ.orderedScenes.length

theorem calibrationSafe_iff [Machine] {σ : Viewport K} {sceneAOrder sceneBOrder : Nat}
    {textA textB : Str} {rootA rootB : Value} (hA : Reader.read textA = .ok (some rootA))
    (hB : Reader.read textB = .ok (some rootB)) :
    CalibrationSafe σ sceneAOrder rootA sceneBOrder rootB ↔
      Fits K textA textB ∧ IsOk (σ.sceneAt sceneAOrder) ∧ IsOk (σ.sceneAt sceneBOrder) := by
  rw [sceneAt_isOk_iff, sceneAt_isOk_iff]
  constructor
  · rintro ⟨hobjA, hobjB, hpairs, horderA, horderB⟩
    exact ⟨⟨rootA, rootB, hA, hB, hobjA, hobjB, hpairs⟩, horderA, horderB⟩
  · rintro ⟨⟨rootA', rootB', hA', hB', hobjA, hobjB, hpairs⟩, horderA, horderB⟩
    obtain rfl : rootA = rootA' := Option.some.inj (Except.ok.inj (hA.symm.trans hA'))
    obtain rfl : rootB = rootB' := Option.some.inj (Except.ok.inj (hB.symm.trans hB'))
    exact ⟨hobjA, hobjB, hpairs, horderA, horderB⟩

omit [Field K] [DecidableEq K] in
/-- The smaller and the larger order are the two orders. -/
theorem sceneAt_min_max_iff (σ : Viewport K) (a b : Nat) :
    (IsOk (σ.sceneAt (max a b)) ∧ IsOk (σ.sceneAt (min a b))) ↔
      IsOk (σ.sceneAt a) ∧ IsOk (σ.sceneAt b) := by
  rcases le_total a b with h | h
  · rw [max_eq_right h, min_eq_left h, and_comm]
  · rw [max_eq_left h, min_eq_right h]

/-- A calibration that has its matrices needs the fit and both scenes. -/
theorem returns_calibrateScenes_of_assemble [Machine] {svd : SvdCompute K} {σ : Viewport K}
    (hwf : WellFormed σ) {sceneAOrder sceneBOrder : Nat} {textA textB : Str} {m : Operands K}
    (hm : assemble sceneAOrder textA sceneBOrder textB = .ok (some m))
    (hpos : σ.orderedScenes ≠ []) :
    Returns (calibrateScenes svd sceneAOrder textA sceneBOrder textB) σ ↔
      IsOk (rigidFit svd m.A m.B) ∧ IsOk (σ.sceneAt sceneAOrder) ∧
        IsOk (σ.sceneAt sceneBOrder) := by
  obtain ⟨href, hbody⟩ := orders_of_assemble hm
  rw [← sceneAt_min_max_iff, ← href, ← hbody]
  constructor
  · intro hret
    rw [calibrateScenes, returns_get_bind, if_pos (List.length_pos_of_ne_nil hpos),
      returns_ofExcept_bind_iff] at hret
    obtain ⟨r, hr, hret⟩ := hret
    obtain rfl : some m = r := Except.ok.inj (hm.symm.trans hr)
    obtain ⟨F, hF, hret⟩ := returns_ofExcept_bind_iff.mp hret
    obtain ⟨body, hbody, hret⟩ := returns_ofExcept_bind_iff.mp hret
    obtain ⟨_, _, hset, hret⟩ := returns_bind_iff.mp hret
    obtain ⟨ref, href, _⟩ := returns_ofExcept_bind_iff.mp hret
    exact ⟨⟨F, hF⟩, ⟨body, hbody⟩, ⟨ref, href⟩⟩
  · rintro ⟨⟨F, hF⟩, ⟨body, hbody⟩, ⟨ref, href⟩⟩
    have hlive : ∀ {order a}, σ.sceneAt order = .ok a → (σ.scenes.find? a).isSome :=
      fun h => hwf.live _ (hwf.ordered _ (List.mem_of_getElem? (sceneAt_eq_ok_iff.mp h).2))
    exact ⟨_, _, run_calibrateScenes hm hF hbody href (hlive hbody) (hlive href)⟩

/-- A calibration of two texts that are read. -/
theorem returns_calibrateScenes_of_read [Machine] (svd : SvdCompute K) {σ : Viewport K}
    (hwf : WellFormed σ) (hpos : σ.orderedScenes ≠ []) (sceneAOrder sceneBOrder : Nat)
    {textA textB : Str} {rootA rootB : Value} (hA : Reader.read textA = .ok (some rootA))
    (hB : Reader.read textB = .ok (some rootB)) :
    Returns (calibrateScenes svd sceneAOrder textA sceneBOrder textB) σ ↔
      CalibrationSafe σ sceneAOrder rootA sceneBOrder rootB := by
  rw [calibrationSafe_iff hA hB, fits_iff svd sceneAOrder textA sceneBOrder textB]
  constructor
  · intro hret
    have hsome : ∃ r, assemble (K := K) sceneAOrder textA sceneBOrder textB = .ok r := by
      rw [calibrateScenes, returns_get_bind, if_pos (List.length_pos_of_ne_nil hpos),
        returns_ofExcept_bind_iff] at hret
      obtain ⟨r, hr, _⟩ := hret
      exact ⟨r, hr⟩
    obtain ⟨r, hr⟩ := hsome
    obtain ⟨_, _, _, _, m, rfl, _⟩ := (assemble_eq_ok_iff hA hB).mp hr
    obtain ⟨hfit, hscenes⟩ := (returns_calibrateScenes_of_assemble hwf hr hpos).mp hret
    exact ⟨⟨m, hr, hfit⟩, hscenes⟩
  · rintro ⟨⟨m, hm, hfit⟩, hscenes⟩
    exact (returns_calibrateScenes_of_assemble hwf hm hpos).mpr ⟨hfit, hscenes⟩

/-- The second text is read only if the first one parses. -/
theorem returns_calibrateScenes_iff [Machine] (svd : SvdCompute K) {σ : Viewport K}
    (hwf : WellFormed σ) (sceneAOrder : Nat) (textA : Str) (sceneBOrder : Nat) (textB : Str) :
    Returns (calibrateScenes svd sceneAOrder textA sceneBOrder textB) σ ↔
      (σ.orderedScenes ≠ [] → OkWith (Reader.read textA) fun rootA => ∀ vA ∈ rootA,
        OkWith (Reader.read textB) fun rootB => ∀ vB ∈ rootB,
          CalibrationSafe σ sceneAOrder vA sceneBOrder vB) := by
  by_cases hpos : σ.orderedScenes = []
  · refine iff_of_true ?_ fun h => absurd hpos h
    rw [calibrateScenes, returns_get_bind, if_neg (by simp [hpos])]
    exact returns_pure _ _
  rw [imp_iff_right hpos]
  have hfault : ∀ fault, assemble (K := K) sceneAOrder textA sceneBOrder textB = .error fault →
      ¬ Returns (calibrateScenes svd sceneAOrder textA sceneBOrder textB) σ := by
    intro fault hassemble hret
    rw [calibrateScenes, returns_get_bind, if_pos (List.length_pos_of_ne_nil hpos),
      returns_ofExcept_bind_iff, hassemble] at hret
    obtain ⟨r, hr, _⟩ := hret
    cases hr
  have hnone : assemble (K := K) sceneAOrder textA sceneBOrder textB = .ok none →
      Returns (calibrateScenes svd sceneAOrder textA sceneBOrder textB) σ := by
    intro hassemble
    rw [calibrateScenes, returns_get_bind, if_pos (List.length_pos_of_ne_nil hpos),
      returns_ofExcept_bind_iff]
    exact ⟨none, hassemble, returns_pure _ _⟩
  cases hA : Reader.read textA with
  | error fault =>
    refine iff_of_false (hfault fault ?_) (not_okWith_error _ _)
    rw [assemble, hA]
    rfl
  | ok rootA =>
    cases rootA with
    | none => exact iff_of_true (hnone (assemble_of_read_none (Or.inl hA) _ _)) (by simp)
    | some rootA =>
      simp only [okWith_ok, Option.mem_some_iff, forall_eq']
      cases hB : Reader.read textB with
      | error fault =>
        refine iff_of_false (hfault fault ?_) (not_okWith_error _ _)
        rw [assemble, hA, ok_bind]
        simp only [hB]
        rfl
      | ok rootB =>
        cases rootB with
        | none =>
          exact iff_of_true (hnone (assemble_of_read_none (Or.inr ⟨rootA, hA, hB⟩) _ _)) (by simp)
        | some rootB =>
          simp only [okWith_ok, Option.mem_some_iff, forall_eq']
          exact returns_calibrateScenes_of_read svd hwf hpos sceneAOrder sceneBOrder hA hB

end Pairs

end Viewport

end MinorityViewport
