import MinorityViewport.Data.EncodedSkeleton
import MinorityViewport.Lib.FixedPoint

/-!
# The points of a skeleton that has been encoded

An encoded skeleton that is decoded has the points it had, with six decimals
(`EncodedPoints.points`), and from then on they do not change
(`sixDecimals_sixDecimals`).  A coordinate below half a millionth comes back
as zero, which `checkFullSetOfJoints` takes for a missing one.

The decoder counts the joints with sixteen bits.  `geometrySurvives_iff` says
that this is the only limit.
-/

namespace MinorityViewport

open Exec Json Reader
open FixedPoint (rounded rounded_rounded)
open StrictJson (Plain)

variable {K : Type} [Field K] [LinearOrder K] [IsStrictOrderedRing K] [FloorRing K]

/-! ## Printed coordinates -/

theorem cast_floor_millionths {y : K} (hy : 0 ≤ y) :
    ((⌊y * 1000000 + 1 / 2⌋.toNat : ℕ) : K) = (round (y * (1000000 : ℕ)) : ℤ) := by
  have hnonneg : 0 ≤ ⌊y * 1000000 + 1 / 2⌋ := Int.floor_nonneg.mpr (by positivity)
  rw [round_eq, Nat.cast_ofNat, ← Int.cast_natCast, Int.toNat_of_nonneg hnonneg]

/-- What is printed is the coordinate with six decimals. -/
theorem cast_printedDouble (x : K) : ((printedDouble x : ℚ) : K) = rounded 1000000 x := by
  unfold printedDouble rounded
  split_ifs with hx
  · rw [neg_one_mul, Rat.cast_neg, Rat.cast_div, Rat.cast_natCast,
      cast_floor_millionths (neg_nonneg.mpr hx.le)]
    norm_num
  · rw [one_mul, Rat.cast_div, Rat.cast_natCast, cast_floor_millionths (not_lt.mp hx)]
    norm_num

/-- A point with six decimals. -/
def sixDecimals (p : Fin 3 → K) : Fin 3 → K := fun i => rounded 1000000 (p i)

theorem sixDecimals_sixDecimals (p : Fin 3 → K) : sixDecimals (sixDecimals p) = sixDecimals p :=
  funext fun _ => rounded_rounded (by decide) _

theorem sixDecimals_eq {x y z : K} :
    sixDecimals ![x, y, z] =
      ![((printedDouble x : ℚ) : K), ((printedDouble y : ℚ) : K), ((printedDouble z : ℚ) : K)] := by
  simp only [cast_printedDouble]
  funext i
  fin_cases i <;> rfl

/-! ## The points that come back -/

theorem Joint.EncodedPoint.position {j j' : Joint K} {v : Value}
    (h : j.EncodedPoint printedDouble v) {index : Nat} (hj' : Joint.ofJson index v = .ok j') :
    j'.position = sixDecimals j.position := by
  simp only [Joint.ofJson, Joint.coordinateOfJson, bind_eq_ok_iff, Value.get_eq_ok_iff] at hj'
  obtain ⟨_, _, _, _, x, ⟨_, ⟨_, rfl⟩, hx⟩, y, ⟨_, ⟨_, rfl⟩, hy⟩, z, ⟨_, ⟨_, rfl⟩, hz⟩, hj'⟩ :=
    hj'
  rw [h.x] at hx
  rw [h.y] at hy
  rw [h.z] at hz
  obtain rfl := Except.ok.inj hx
  obtain rfl := Except.ok.inj hy
  obtain rfl := Except.ok.inj hz
  obtain rfl := Except.ok.inj hj'
  exact sixDecimals_eq.symm

theorem positions_of_forall₂ {joints js : List (Joint K)} {es : List Value} {n : Nat}
    (h : List.Forall₂ (Joint.EncodedPoint printedDouble) joints es)
    (hjs : List.Forall₂ (fun p j => Joint.ofJson p.2 p.1 = .ok j) (es.zipIdx n) js) :
    js.map Joint.position = joints.map fun j => sixDecimals j.position := by
  induction h generalizing n js with
  | nil =>
    cases hjs
    rfl
  | cons hpoint _ ih =>
    rw [List.zipIdx_cons] at hjs
    cases hjs with
    | cons hj hjs => rw [List.map_cons, List.map_cons, hpoint.position hj, ih hjs]

namespace Skeleton

theorem EncodedPoints.points {s s' : Skeleton K} {root : Value}
    (h : s.EncodedPoints printedDouble root) {timeStamp : Int}
    (hs' : ofJson root timeStamp = .ok s') :
    s'.points = s.points.map sixDecimals := by
  obtain ⟨_, hloop, x, y, z, hx, hy, hz, hposition⟩ := parts_of_ofJson hs'
  obtain ⟨_, hrounds⟩ := (forElements_eq_ok_iff _).mp hloop
  obtain ⟨js, hjs, hdecoded⟩ := exists_joints_of_loop _ hrounds
  have hjoints := positions_of_forall₂ h.joints hdecoded
  rw [h.posX] at hx
  rw [h.posY] at hy
  rw [h.posZ] at hz
  obtain rfl := Except.ok.inj hx
  obtain rfl := Except.ok.inj hy
  obtain rfl := Except.ok.inj hz
  unfold Skeleton.points
  rw [hposition, ← sixDecimals_eq, hjs, List.nil_append, hjoints, List.map_cons, List.map_map]
  rfl

/-- The text of the first skeleton is read, and decodes to the second. -/
def DecodesTo (s : Skeleton K) (timeStamp : Int) (s' : Skeleton K) : Prop :=
  ∃ root, parse s.toJSON = some root ∧ ofJson root timeStamp = .ok s'

/-- What the way there and back makes of a skeleton. -/
structure Kept (s s' : Skeleton K) : Prop where
  clientId : s'.clientId = s.clientId
  sensorId : s'.sensorId = s.sensorId
  points : s'.points = s.points.map sixDecimals

section

variable {s s' : Skeleton K} (hclient : s.clientId < 2 ^ 32) (hplain : Plain s.sensorId)

include hclient hplain

omit [IsStrictOrderedRing K] in
theorem exists_encoded :
    ∃ root, parse s.toJSON = some root ∧ s.Encoded root ∧ s.EncodedPoints printedDouble root := by
  have hescape : '\\' ∉ s.sensorId := fun hmem => (hplain _ hmem).2.1 rfl
  refine exists_parse hclient (fun hmem => (hplain _ hmem).1 rfl) ?_
  intro i j _ hi _
  exact absurd (List.mem_of_getElem? hi) hescape

theorem DecodesTo.kept {timeStamp : Int} (h : s.DecodesTo timeStamp s') :
    s.Kept s' ∧ s.joints.length < 65536 := by
  obtain ⟨root, hparse, hencoded, hpoints⟩ := exists_encoded hclient hplain
  obtain ⟨root', hparse', hs'⟩ := h
  obtain rfl := Option.some.inj (hparse.symm.trans hparse')
  obtain ⟨hclientId, hsensor, _, _, hfew, _⟩ := hencoded.identity hs'
  have hnul : '\x00' ∉ s.sensorId := fun hmem => absurd (hplain _ hmem).2.2 (by decide)
  exact ⟨⟨hclientId, hsensor.trans (cStr_eq_self hnul), hpoints.points hs'⟩, hfew⟩

omit [IsStrictOrderedRing K] in
theorem exists_decodesTo (hfew : s.joints.length < 65536) (timeStamp : Int) :
    ∃ s', s.DecodesTo timeStamp s' := by
  obtain ⟨root, hparse, hencoded, _⟩ := exists_encoded hclient hplain
  obtain ⟨s', hs'⟩ := (ofJson_isOk_iff (K := K) root timeStamp).mpr (hencoded.decodes hfew)
  exact ⟨s', root, hparse, hs'⟩

end

/-! ## Joints that count as missing -/

omit [IsStrictOrderedRing K] [FloorRing K] in
theorem checkFullSetOfJoints_iff (s : Skeleton K) :
    s.checkFullSetOfJoints ↔ ∀ p ∈ s.points.tail, ∀ i, p i ≠ 0 := by
  have hjoint : ∀ j : Joint K,
      (!(j.x = 0 || j.y = 0 || j.z = 0)) = true ↔ ∀ i, j.position i ≠ 0 := by
    intro j
    simp [Joint.position, Fin.forall_fin_succ, and_assoc]
  rw [checkFullSetOfJoints, List.all_eq_true, points, List.tail_cons, List.forall_mem_map]
  exact forall₂_congr fun j _ => hjoint j

/-- The geometry of a skeleton that has been encoded and decoded. -/
structure Rounded (s s' : Skeleton K) : Prop where
  count : s'.joints.length = s.joints.length
  position : s'.position = sixDecimals s.position
  joints : s'.joints.map Joint.position = s.joints.map fun j => sixDecimals j.position
  full : s'.checkFullSetOfJoints ↔ ∀ j ∈ s.joints, ∀ i, rounded 1000000 (j.position i) ≠ 0

omit [IsStrictOrderedRing K] in
theorem Kept.rounded {s s' : Skeleton K} (h : s.Kept s') : s.Rounded s' := by
  obtain ⟨hposition, hjoints⟩ := List.cons.inj h.points
  rw [List.map_map] at hjoints
  refine ⟨?_, hposition, hjoints, ?_⟩
  · have hlen := congrArg List.length hjoints
    rwa [List.length_map, List.length_map] at hlen
  · rw [checkFullSetOfJoints_iff, Skeleton.points, List.tail_cons, hjoints, List.forall_mem_map]
    rfl

/-- The skeleton is encoded and decoded, and what comes back once more. -/
def GeometrySurvives (s : Skeleton K) (timeStamp timeStamp' : Int) : Prop :=
  ∃ s' s'', s.DecodesTo timeStamp s' ∧ s.Rounded s' ∧
    s'.DecodesTo timeStamp' s'' ∧ s''.points = s'.points

/-- The geometry survives exactly if the decoder can count the joints. -/
theorem geometrySurvives_iff (s : Skeleton K) (hclient : s.clientId < 2 ^ 32)
    (hplain : Plain s.sensorId) (timeStamp timeStamp' : Int) :
    s.GeometrySurvives timeStamp timeStamp' ↔ s.joints.length < 65536 := by
  constructor
  · rintro ⟨s', _, hs', _⟩
    exact (hs'.kept hclient hplain).2
  · intro hfew
    obtain ⟨s', hs'⟩ := exists_decodesTo hclient hplain hfew timeStamp
    obtain ⟨hkept, _⟩ := hs'.kept hclient hplain
    have hclient' : s'.clientId < 2 ^ 32 := hkept.clientId ▸ hclient
    have hplain' : Plain s'.sensorId := hkept.sensorId ▸ hplain
    have hfew' : s'.joints.length < 65536 := hkept.rounded.count ▸ hfew
    obtain ⟨s'', hs''⟩ := exists_decodesTo hclient' hplain' hfew' timeStamp'
    refine ⟨s', s'', hs', hkept.rounded, hs'', ?_⟩
    calc s''.points = s'.points.map sixDecimals := (hs''.kept hclient' hplain').1.points
      _ = s.points.map (sixDecimals ∘ sixDecimals) := by rw [hkept.points, List.map_map]
      _ = s.points.map sixDecimals := List.map_congr_left fun p _ => sixDecimals_sixDecimals p
      _ = s'.points := hkept.points.symm

/-- One joint, with a coordinate that rounds to zero. -/
def withTinyJoint : Skeleton ℚ :=
  { standingAt ![1 / 3, 2, 5 / 2] with joints := [⟨0, 1 / 7, -2 / 3, 1 / 3000000, none⟩] }

theorem geometrySurvives_withTinyJoint : withTinyJoint.GeometrySurvives 5 7 :=
  (geometrySurvives_iff withTinyJoint (by decide) (by decide) 5 7).mpr (by decide)

/-- More joints than the decoder counts. -/
def crowded : Skeleton ℚ :=
  { standingAt 0 with joints := List.replicate 65536 ⟨0, 1, 1, 1, none⟩ }

theorem not_geometrySurvives_crowded :
    crowded.clientId < 2 ^ 32 ∧ Plain crowded.sensorId ∧ ¬ crowded.GeometrySurvives 5 7 := by
  have hclient : crowded.clientId < 2 ^ 32 := by decide
  have hplain : Plain crowded.sensorId := fun c hc => by cases hc
  refine ⟨hclient, hplain, ?_⟩
  rintro ⟨s', _, hs', _⟩
  have hfew := (hs'.kept hclient hplain).2
  rw [crowded, List.length_replicate] at hfew
  exact lt_irrefl _ hfew

end Skeleton

end MinorityViewport
