import MinorityViewport.Algorithms.NeighbourLinks

/-!
# The owners of the listed scenes

The algorithm keeps two collections of scene pointers beside the registry:
the order, and the set that `RefreshScenesSet` fills and an accepted order
empties.  A refused order leaves the set filled, so a later
`DeregisterClient` has to take the scenes of its client out of both.

`scenes_owned_of_reachable` says that neither ever names a scene that is
gone.
-/

namespace MinorityViewport

open Exec Viewport

variable {K : Type}

/-- The scene is alive, and a sensor of a registered client owns it. -/
def Owned (σ : Viewport K) (a : Addr) : Prop :=
  (σ.scenes.find? a).isSome ∧
    ∃ client ∈ σ.clients.rawClientList, ∃ sensor ∈ client.sensors.values, sensor.scene = a

theorem WellFormed.owned_of_mem {σ : Viewport K} (h : WellFormed σ) {a : Addr}
    (ha : a ∈ σ.owned) : Owned σ a := by
  refine ⟨h.live a ha, ?_⟩
  obtain ⟨client, hclient, ha⟩ := List.mem_flatMap.mp ha
  obtain ⟨sensor, hsensor, rfl⟩ := List.mem_map.mp ha
  exact ⟨client, hclient, sensor, hsensor, rfl⟩

/-- The set names only scenes of registered sensors. -/
def SetOwned (σ : Viewport K) : Prop := ∀ a ∈ σ.scenesSet.keys, a ∈ σ.owned

theorem SetOwned.withoutClient {σ : Viewport K} (h : SetOwned σ) {clientId : Nat}
    {client : Client} (hfind : σ.clients.find clientId = some client) :
    SetOwned (σ.withoutClient clientId client) := by
  intro a ha
  obtain ⟨hmem, hout⟩ := OrdMap.mem_keys_foldl_erase.mp ha
  exact mem_owned_withoutClient hfind (h a hmem) hout

variable [Field K] [LinearOrder K]

theorem SetOwned.step {σ σ' : Viewport K} {e : Event K} (hwf : WellFormed σ) (h : SetOwned σ)
    (hstep : Step σ e σ') : SetOwned σ' := by
  cases hstep.effect hwf with
  | registered hadd =>
    intro a ha
    rw [Viewport.owned, scenes_addClient hadd]
    exact h a ha
  | enrolled henr =>
    intro a ha
    rw [henr.set] at ha
    exact henr.owned (h a ha)
  | deregistered hfind => exact h.withoutClient hfind
  | unregistered | unknown => exact h
  | accepted => exact fun a ha => absurd ha List.not_mem_nil
  | refused => exact fun a ha => mem_keys_refreshScenesSet.mp ha
  | recalibrated ht | quiet _ ht =>
    intro a ha
    rw [ht.set] at ha
    rw [ht.owned]
    exact h a ha

theorem setOwned_of_reachable {σ : Viewport K} (h : Reachable σ) : SetOwned σ := by
  induction h with
  | start => exact fun a ha => absurd ha List.not_mem_nil
  | step hreach hstep ih => exact ih.step (wellFormed_of_reachable hreach) hstep

/-- In every reachable state the order and the set name only scenes that a
sensor of a registered client owns. -/
theorem scenes_owned_of_reachable {σ : Viewport K} (h : Reachable σ) :
    (∀ a ∈ σ.orderedScenes, Owned σ a) ∧ ∀ a ∈ σ.scenesSet.keys, Owned σ a := by
  have hwf := wellFormed_of_reachable h
  exact ⟨fun a ha => hwf.owned_of_mem (hwf.ordered a ha),
    fun a ha => hwf.owned_of_mem (setOwned_of_reachable h a ha)⟩

/-- Two clients register a sensor each, both sensors see a person, their
scenes are ordered, and the first client leaves. -/
def leaveAfterOrder : List (Event ℚ) :=
  [.registerClient [0] [] [],
    .registerSensors .next 1 "\x7b\"Sensors\":[\x7b\"id\":\"a\"\x7d]\x7d".toList,
    .registerClient [1] [] [],
    .registerSensors .next 2 "\x7b\"Sensors\":[\x7b\"id\":\"b\"\x7d]\x7d".toList,
    .processSensorData (fun _ => 5)
      ("\x7b\"TIME_STAMP\":1,\"SENSOR_JSON\":[" ++
        "\x7b\"client_id\":1,\"sensor_id\":\"a\"\x7d]\x7d").toList,
    .processSensorData (fun _ => 6)
      ("\x7b\"TIME_STAMP\":1,\"SENSOR_JSON\":[" ++
        "\x7b\"client_id\":2,\"sensor_id\":\"b\"\x7d]\x7d").toList,
    .calibrateSceneOrder, .deregisterClient 1]

/-- A client registers its sensor twice and is ordered, another one joins,
the next order is refused, and the first client leaves. -/
def leaveAfterRefusal : List (Event ℚ) :=
  orderOf "\x7b\"Sensors\":[\x7b\"id\":\"a\"\x7d,\x7b\"id\":\"a\"\x7d]\x7d" [(5, "a")] ++
    [.registerClient [1] [] [],
      .registerSensors .next 2 "\x7b\"Sensors\":[\x7b\"id\":\"b\"\x7d]\x7d".toList,
      .calibrateSceneOrder, .deregisterClient 1]

/-- The order of the first run and the set of the second still name the scene
of the client that stays. -/
theorem scenes_owned_of_reachable_leave :
    ((stateAfter start leaveAfterOrder).orderedScenes = [2] ∧
      ∀ a ∈ (stateAfter start leaveAfterOrder).orderedScenes,
        Owned (stateAfter start leaveAfterOrder) a) ∧
    (stateAfter start leaveAfterRefusal).scenesSet.keys = [3] ∧
      ∀ a ∈ (stateAfter start leaveAfterRefusal).scenesSet.keys,
        Owned (stateAfter start leaveAfterRefusal) a :=
  ⟨⟨by decide +kernel,
      (scenes_owned_of_reachable (Reachable.start.stateAfter (by decide +kernel))).1⟩,
    by decide +kernel,
    (scenes_owned_of_reachable (Reachable.start.stateAfter (by decide +kernel))).2⟩

end MinorityViewport
