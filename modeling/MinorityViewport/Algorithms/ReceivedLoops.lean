import MinorityViewport.Algorithms.CallReturns
import MinorityViewport.Algorithms.PointPairs
import MinorityViewport.Json.Printed
import MinorityViewport.Lib.NarrowLoop

/-!
# The loops over received arrays

Three loops with a 16-bit counter walk arrays that a client has sent: the
sensors of a registration, the skeletons of a calibration, and the joints of
a skeleton.  Each is a `NarrowLoop.Loop`, and `forElements` of the model runs
it (`forElements_eq_forCounter`, `observe_forElements`).

`RunsOver` says what the rounds of such a loop test, and
`RunsOver.endsAfter_iff` and `RunsOver.neverEnds_iff` say for the three of
them at once when the loop ends after a round for each element, and when it
is never left.
-/

namespace MinorityViewport

open Exec Json Viewport NarrowLoop

variable {K ε S α β σ : Type}

/-! ## Loops over the elements of a value -/

section Elements

/-- The loop over `v` as a transition system. -/
def elementLoop (v : Value) (body : Nat → Value → β → Except Fault β) : Loop Fault β where
  modulus := 65536
  size := v.size
  round i b := match v.atIndex i with
    | .ok element => body i element b
    | .error fault => .error fault

/-- The loop over `v` with a body that has a state. -/
def elementLoopWithState (v : Value) (body : Nat → Value → β → EStateM Fault σ β) :
    Loop Fault (β × σ) :=
  elementLoop v fun i element p => observe (body i element p.1) p.2

theorem observe_forElements (v : Value) (body : Nat → Value → β → EStateM Fault σ β) (b : β)
    (s : σ) :
    observe (forElements v body b) s =
      forCounter 65536 v.size (.error .endlessLoop) (elementLoopWithState v body).round
        (b, s) := by
  rw [forElements, forCounter, observe_countLoop, forCounter]
  congr 1
  funext i p
  unfold elementLoopWithState elementLoop
  simp only
  cases v.atIndex i <;> rfl

/-- A loop over the elements of `v` whose round `i` tests `xs[i]`. -/
structure RunsOver (L : Loop ε S) (v : Value) (xs : List α) (Good : α → Prop) : Prop where
  modulus : L.modulus = 65536
  size : L.size = v.size
  length : xs.length = v.elements.length
  round : ∀ i < v.size, ∀ s,
    IsOk (L.round i s) ↔ v.isArray ∧ ∃ x, xs[i]? = some x ∧ Good x

variable {L : Loop ε S} {v : Value} {xs : List α} {Good : α → Prop}

theorem RunsOver.tests (h : RunsOver L v xs Good) :
    L.Tests fun i => v.isArray ∧ ∃ x, xs[i]? = some x ∧ Good x :=
  fun i hi s => h.round i (h.size ▸ hi) s

theorem runsOver_elementLoop {body : Nat → Value → β → Except Fault β}
    (hlength : xs.length = v.elements.length)
    (hbody : ∀ i element x, v.elements[i]? = some element → xs[i]? = some x →
      ∀ b, IsOk (body i element b) ↔ Good x) :
    RunsOver (elementLoop v body) v xs Good where
  modulus := rfl
  size := rfl
  length := hlength
  round i hi b := by
    unfold elementLoop
    by_cases harr : v.isArray
    · rw [Value.size_of_isArray harr] at hi
      have hx : i < xs.length := hlength ▸ hi
      simp only [Value.atIndex_of_lt hi, harr, true_and, List.getElem?_eq_getElem hx,
        Option.some.injEq, exists_eq_left']
      exact hbody i _ _ (List.getElem?_eq_getElem hi) (List.getElem?_eq_getElem hx) b
    · refine iff_of_false ?_ fun h => harr h.1
      cases v with
      | object members => exact not_isOk_error _
      | null => exact absurd rfl harr
      | array elements => exact absurd rfl harr
      | _ => exact absurd hi (Nat.not_lt_zero i)

theorem RunsOver.pos (h : RunsOver L v xs Good) : 0 < L.modulus := by
  rw [h.modulus]
  decide

/-- The loop ends after a round for each element exactly when the array is
not too long and every element passes. -/
theorem RunsOver.endsAfter_iff (h : RunsOver L v xs Good) (s : S) :
    (∃ t, L.EndsAfter v.elements.length s t) ↔ v.Loops ∧ ∀ x ∈ xs, Good x := by
  constructor
  · rintro ⟨t, hends⟩
    obtain ⟨hmod, hsize⟩ := Loop.eq_size_of_endsAfter h.pos hends
    obtain ⟨_, hall⟩ := (Loop.endsAfter_iff h.tests h.pos).mp ⟨t, hsize ▸ hends⟩
    rw [h.modulus] at hmod
    have hloops : v.Loops := by
      refine ⟨by rw [← h.size]; exact hmod, ?_⟩
      by_cases h0 : v.size = 0
      · exact Or.inl h0
      · exact Or.inr (hall 0 (by rw [h.size]; omega)).1
    refine ⟨hloops, fun x hx => ?_⟩
    obtain ⟨i, hi, rfl⟩ := List.getElem_of_mem hx
    obtain ⟨_, y, hy, hgood⟩ := hall i (by rw [← hsize, ← h.length]; exact hi)
    rw [List.getElem?_eq_getElem hi] at hy
    exact Option.some.inj hy ▸ hgood
  · rintro ⟨hloops, hall⟩
    rw [← hloops.size_eq, ← h.size]
    refine (Loop.endsAfter_iff h.tests h.pos).mpr ⟨?_, fun i hi => ?_⟩
    · rw [h.size, h.modulus]
      exact hloops.1
    · rw [h.size] at hi
      have hlt : i < xs.length := by
        rw [h.length, ← hloops.size_eq]
        exact hi
      refine ⟨hloops.2.resolve_left (by omega), xs[i], List.getElem?_eq_getElem hlt, ?_⟩
      exact hall _ (List.getElem_mem hlt)

/-- The loop is never left exactly when the array has more elements than
the counter has values, and the first of them pass. -/
theorem RunsOver.neverEnds_iff (h : RunsOver L v xs Good) (s : S) :
    L.NeverEnds s ↔ 65536 ≤ v.elements.length ∧ ∀ x ∈ xs.take 65536, Good x := by
  rw [Loop.neverEnds_iff h.tests h.pos, h.modulus, h.size]
  constructor
  · rintro ⟨hsize, hall⟩
    have hlen := Value.size_of_isArray (hall 0 (by decide)).1
    refine ⟨by rw [← hlen]; exact hsize, fun x hx => ?_⟩
    obtain ⟨i, hi, rfl⟩ := List.getElem_of_mem hx
    rw [List.length_take] at hi
    obtain ⟨_, y, hy, hgood⟩ := hall i (by omega)
    rw [List.getElem_take]
    rw [List.getElem?_eq_getElem (by omega)] at hy
    exact Option.some.inj hy ▸ hgood
  · rintro ⟨hlen, hall⟩
    have harr : v.isArray := by
      cases v with
      | array elements => rfl
      | _ => exact absurd hlen (by simp [Value.elements])
    refine ⟨by rw [Value.size_of_isArray harr]; exact hlen, fun i hi => ?_⟩
    have hlt : i < xs.length := by
      rw [h.length]
      omega
    refine ⟨harr, xs[i], List.getElem?_eq_getElem hlt, hall _ ?_⟩
    exact List.mem_take_iff_getElem.mpr ⟨i, by omega, rfl⟩

end Elements

/-! ## The three loops -/

/-- The loop of `Client::InitialSensorsList`. -/
def Client.sensorLoop (alloc : Allocator) (sensorsJson : Value) :
    Loop Fault (PUnit × Heap K × Client) :=
  elementLoopWithState sensorsJson fun _ sensorJson _ => do
    let id ← ofExcept (sensorJson.get "id" .zero)
    let id ← ofExcept id.asString
    modify (addSensor alloc id)

theorem runsOver_sensorLoop (alloc : Allocator) (sensorsJson : Value) :
    RunsOver (Client.sensorLoop (K := K) alloc sensorsJson) sensorsJson sensorsJson.elements
      SensorDecodes := by
  refine runsOver_elementLoop rfl fun i element x helement hx p => ?_
  obtain rfl := Option.some.inj (helement.symm.trans hx)
  rw [isOk_observe_iff]
  exact returns_sensorRound_iff alloc element p.2

section Skeletons

variable [Field K]

/-- The loop over the pairs in `CalibrateScenes`. -/
def pairLoop [DecidableEq K] (skeletonsA skeletonsB : Value) :
    Loop Fault (List (Skeleton K) × List (Skeleton K)) :=
  elementLoop skeletonsA fun skeleton elementA pairs => do
    let skeletonFromSceneA ← Skeleton.ofJson elementA 0
    let elementB ← skeletonsB.atIndex skeleton
    let skeletonFromSceneB ← Skeleton.ofJson elementB 0
    if skeletonFromSceneA.checkFullSetOfJoints && skeletonFromSceneB.checkFullSetOfJoints
    then pure (skeletonFromSceneA :: pairs.1, skeletonFromSceneB :: pairs.2)
    else pure pairs

theorem runsOver_pairLoop [DecidableEq K] (skeletonsA skeletonsB : Value) :
    RunsOver (pairLoop (K := K) skeletonsA skeletonsB) skeletonsA (partners skeletonsA skeletonsB)
      fun p => Skeleton.Decodes p.1 ∧ Skeleton.Decodes p.2 := by
  refine runsOver_elementLoop (by simp [partners]) fun i element x helement hx pairs => ?_
  have hpair : x = (element, skeletonsB.elements.getD i .null) := by
    rw [partners, List.getElem?_map, List.getElem?_zipIdx, helement] at hx
    simpa using hx.symm
  rw [hpair]
  constructor
  · rintro ⟨pairs', h⟩
    exact ((pairRound_eq_ok_iff skeletonsB pairs element i pairs').mp h).1
  · exact fun h => ⟨_, (pairRound_eq_ok_iff skeletonsB pairs element i _).mpr ⟨h, rfl⟩⟩

/-- The loop over the joints in the constructor of a skeleton. -/
def Skeleton.jointLoop (jointsJson : Value) : Loop Fault (List (Joint K)) :=
  elementLoop jointsJson fun index element joints => do
    let newJoint ← Joint.ofJson index element
    pure (joints ++ [newJoint])

theorem runsOver_jointLoop (jointsJson : Value) :
    RunsOver (Skeleton.jointLoop (K := K) jointsJson) jointsJson jointsJson.elements
      Joint.Decodes := by
  refine runsOver_elementLoop rfl fun i element x helement hx joints => ?_
  obtain rfl := Option.some.inj (helement.symm.trans hx)
  rw [isOk_bind_iff_and fun _ => iff_of_true (isOk_pure _) trivial, and_true]
  exact Joint.ofJson_isOk_iff i element

/-- Each of the three loops ends after one round for each element exactly
when the array has at most `65535` elements and no element throws, and it
is never left exactly when the array is longer and none of the first `65536`
elements throws. -/
theorem received_loops_iff [DecidableEq K] (alloc : Allocator) (s : Heap K × Client)
    (sensors skeletonsA skeletonsB joints : Value) :
    (((∃ t, (Client.sensorLoop alloc sensors).EndsAfter sensors.elements.length (⟨⟩, s) t) ↔
        sensors.Loops ∧ ∀ sensorJson ∈ sensors.elements, SensorDecodes sensorJson) ∧
      ((Client.sensorLoop alloc sensors).NeverEnds (⟨⟩, s) ↔
        65536 ≤ sensors.elements.length ∧
          ∀ sensorJson ∈ sensors.elements.take 65536, SensorDecodes sensorJson)) ∧
    (((∃ t, (pairLoop (K := K) skeletonsA skeletonsB).EndsAfter skeletonsA.elements.length
          ([], []) t) ↔
        skeletonsA.Loops ∧ ∀ p ∈ partners skeletonsA skeletonsB,
          Skeleton.Decodes p.1 ∧ Skeleton.Decodes p.2) ∧
      ((pairLoop (K := K) skeletonsA skeletonsB).NeverEnds ([], []) ↔
        65536 ≤ skeletonsA.elements.length ∧
          ∀ p ∈ (partners skeletonsA skeletonsB).take 65536,
            Skeleton.Decodes p.1 ∧ Skeleton.Decodes p.2)) ∧
    ((∃ t, (Skeleton.jointLoop (K := K) joints).EndsAfter joints.elements.length [] t) ↔
        joints.Loops ∧ ∀ element ∈ joints.elements, Joint.Decodes element) ∧
      ((Skeleton.jointLoop (K := K) joints).NeverEnds [] ↔
        65536 ≤ joints.elements.length ∧
          ∀ element ∈ joints.elements.take 65536, Joint.Decodes element) :=
  ⟨⟨(runsOver_sensorLoop alloc sensors).endsAfter_iff (⟨⟩, s),
      (runsOver_sensorLoop alloc sensors).neverEnds_iff (⟨⟩, s)⟩,
    ⟨(runsOver_pairLoop skeletonsA skeletonsB).endsAfter_iff ([], []),
      (runsOver_pairLoop skeletonsA skeletonsB).neverEnds_iff ([], [])⟩,
    (runsOver_jointLoop joints).endsAfter_iff [], (runsOver_jointLoop joints).neverEnds_iff []⟩

end Skeletons

/-! ## What the model makes of them -/

/-- A registration whose loop is never left ends with this fault. -/
theorem initialSensorsList_of_neverEnds {alloc : Allocator} {text : Str} {root : Value}
    (hparse : Reader.parse text = some root) (hobj : root.isObject) {s : Heap K × Client}
    (h : (Client.sensorLoop alloc (root.memberD "Sensors" .zero)).NeverEnds (⟨⟩, s)) :
    observe (Client.initialSensorsList alloc text) s = .error .endlessLoop := by
  simp only [Client.initialSensorsList, Reader.read_of_parse hparse, ofExcept_ok_bind,
    Value.get_of_isObject hobj]
  rw [observe_forElements]
  exact Loop.forCounter_of_neverEnds Fault.endlessLoop h

/-- A registration of `n` sensors with one id. -/
def manySensors (n : Nat) : Str :=
  StrictJson.printObject [("Sensors".toList, StrictJson.printArray
    (List.replicate n (StrictJson.printObject [("id".toList, "\"a\"".toList)])))]

theorem parse_manySensors (n : Nat) :
    Reader.parse (manySensors n) = some (.object [("Sensors".toList,
      .array (List.replicate n (.object [("id".toList, .string "a".toList)])))]) := by
  have hplain : Reader.PlainKey "a".toList := by decide
  have hid : Reader.Reads "\"a\"".toList (.string "a".toList) :=
    Reader.reads_string hplain.body hplain.decodeChars
  exact Reader.parse_of_reads (Reader.reads_member (by decide)
    (Reader.reads_replicate (Reader.reads_member (by decide) hid) n))

/-- The counter never reaches `65536`. -/
theorem not_endsAfter_manySensors :
    ∃ root, Reader.parse (manySensors 65536) = some root ∧
      (root.memberD "Sensors" .zero).elements.length = 65536 ∧
      ∀ s : Heap ℚ × Client,
        (Client.sensorLoop .next (root.memberD "Sensors" .zero)).NeverEnds (⟨⟩, s) ∧
        (¬ ∃ t, (Client.sensorLoop .next (root.memberD "Sensors" .zero)).EndsAfter 65536
          (⟨⟩, s) t) ∧
        observe (Client.initialSensorsList .next (manySensors 65536)) s =
          .error .endlessLoop := by
  have hlength : ∀ n : Nat, (Value.array (List.replicate n
      (.object [("id".toList, .string "a".toList)]))).elements.length = n := fun n =>
    List.length_replicate
  have hgood : ∀ sensorJson, sensorJson = .object [("id".toList, .string "a".toList)] →
      SensorDecodes sensorJson := by
    rintro _ rfl
    exact ⟨rfl, by decide⟩
  refine ⟨_, parse_manySensors 65536, hlength 65536, fun s => ?_⟩
  have hnever : (Client.sensorLoop .next (.array (List.replicate 65536
      (.object [("id".toList, .string "a".toList)])))).NeverEnds (PUnit.unit, s) := by
    refine ((runsOver_sensorLoop .next _).neverEnds_iff _).mpr ⟨(hlength 65536).ge, ?_⟩
    exact fun sensorJson hmem => hgood _ (List.eq_of_mem_replicate (List.mem_of_mem_take hmem))
  refine ⟨hnever, fun ⟨t, i, hrun, hle⟩ => ?_, initialSensorsList_of_neverEnds
    (parse_manySensors 65536) rfl hnever⟩
  obtain ⟨j, t', hrun', hlt⟩ := hnever 65536
  obtain ⟨rfl, _⟩ := Prod.mk.inj (Option.some.inj (hrun.symm.trans hrun'))
  exact hle hlt

end MinorityViewport
