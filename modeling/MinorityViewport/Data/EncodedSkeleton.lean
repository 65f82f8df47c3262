import MinorityViewport.Json.Printed
import MinorityViewport.Data.Skeleton
import Mathlib.Data.List.Forall2

/-!
# Encoded skeletons

A skeleton leaves the server as the text of `toJSON`, and comes back with the
skeletons of a calibration, where `ofJson` decodes it.

* `Skeleton.exists_parseIn` says what the reader makes of an encoded skeleton
  whose sensor id is harmless and whose numbers it can decode.
* `Encoded.identity` says what the decoder makes of that.

The encoder and the decoder do not agree on all names.  The skeleton id is
written as `id` and read as `skeleton_id`, and the tracking modes are not
written at all.
-/

namespace MinorityViewport

open Exec Json Reader
open StrictJson (printArray printMember printObject)

variable {C K : Type}

/-! ## The printed members -/

def quoted (text : Str) : Str := '"' :: text ++ ['"']

section Printed

variable [Coordinate C]

namespace Joint

/-- The members of an encoded joint. -/
def members (j : Joint C) : List (Str × Str) :=
  [("type:".toList, toStringNat j.type), ("X".toList, Coordinate.text j.x),
    ("Y".toList, Coordinate.text j.y), ("Z".toList, Coordinate.text j.z)]

theorem toJSON_eq (j : Joint C) : j.toJSON = printObject j.members := by
  unfold toJSON members printObject
  simp [printMember]

end Joint

namespace Skeleton

/-- The members behind the sensor id. -/
def laterMembers (s : Skeleton C) : List (Str × Str) :=
  [("time_stamp".toList, toStringInt s.timeStamp),
    ("shared".toList, quoted (if s.shared then "true".toList else "false".toList)),
    ("pos_x".toList, Coordinate.text s.posX),
    ("pos_y".toList, Coordinate.text s.posY),
    ("pos_z".toList, Coordinate.text s.posZ),
    ("joints".toList, printArray (s.joints.map Joint.toJSON))]

/-- The members of an encoded skeleton. -/
def members (s : Skeleton C) : List (Str × Str) :=
  ("id".toList, toStringNat s.skeletonId) :: ("client_id".toList, toStringNat s.clientId) ::
    ("sensor_id".toList, quoted (escapeFrom 0 s.sensorId)) :: s.laterMembers

theorem toJSON_eq (s : Skeleton C) : s.toJSON = printObject s.members := by
  unfold toJSON members laterMembers printObject
  rw [escapeSensorId_eq]
  cases s.shared <;> simp [printMember, printArray, quoted]

end Skeleton

end Printed

/-! ## What the reader makes of them -/

section Read

variable [Coordinate C] {room : Option Nat}

/-- The coordinate is printed as a decimal that is read as this number. -/
structure PrintsAs (room : Option Nat) (c : C) (q : ℚ) : Prop where
  decimal : IsDecimal (Coordinate.text c)
  decodes : decodeNumber (Coordinate.text c) = some (.real q)
  fits : FitsBuffer room (Coordinate.text c)

theorem PrintsAs.readsIn {c : C} {q : ℚ} (h : PrintsAs room c q) (hroom : room ≠ some 0) :
    ReadsIn room (Coordinate.text c) (.real q) :=
  readsIn_decimal hroom h.decimal h.fits h.decodes

theorem PrintsAs.inner {c : C} {q : ℚ} (h : PrintsAs room c q) : PrintsAs (inner room) c q :=
  ⟨h.decimal, h.decodes, h.fits.inner⟩

/-- A printed number is read. -/
theorem exists_readsIn_decimal {text : Str} (hroom : room ≠ some 0) (h : IsDecimal text)
    (hfits : FitsBuffer room text) : ∃ v, ReadsIn room text v := by
  obtain ⟨v, hv⟩ := decodeNumber_of_decimal h
  exact ⟨v, readsIn_decimal hroom h hfits hv⟩

/-- The coordinates in the value that an encoded joint is read as. -/
structure Joint.EncodedPoint (number : C → ℚ) (j : Joint C) (v : Value) : Prop where
  x : v.memberD "X" .zero = .real (number j.x)
  y : v.memberD "Y" .zero = .real (number j.y)
  z : v.memberD "Z" .zero = .real (number j.z)

/-- The numbers of a joint are read, its coordinates as these. -/
structure Joint.FitsIn (room : Option Nat) (number : C → ℚ) (j : Joint C) : Prop where
  type : FitsBuffer room (toStringNat j.type)
  x : PrintsAs room j.x (number j.x)
  y : PrintsAs room j.y (number j.y)
  z : PrintsAs room j.z (number j.z)

theorem Joint.FitsIn.inner {number : C → ℚ} {j : Joint C} (h : j.FitsIn room number) :
    j.FitsIn (inner room) number := ⟨h.type.inner, h.x.inner, h.y.inner, h.z.inner⟩

/-- An encoded joint decodes, and has no member for its tracking mode. -/
theorem Joint.exists_readsIn {number : C → ℚ} {j : Joint C} (h : j.FitsIn room number)
    (hroom : Deep 2 room) :
    ∃ v, (ReadsIn room j.toJSON v ∧ Joint.Decodes v ∧ v.memberD "trackedMode" .zero = .zero) ∧
      j.EncodedPoint number v := by
  have hinner := hroom.inner.ne_zero
  obtain ⟨type, htype⟩ := exists_readsIn_decimal hinner (isDecimal_toStringNat j.type) h.type.inner
  refine ⟨.object [("type:".toList, type), ("X".toList, .real (number j.x)),
      ("Y".toList, .real (number j.y)), ("Z".toList, .real (number j.z))],
    ⟨?_, ⟨rfl, (fun h => by cases h), rfl, rfl, rfl⟩, rfl⟩, ⟨rfl, rfl, rfl⟩⟩
  rw [Joint.toJSON_eq]
  refine readsIn_printObject hroom.ne_zero [("type:".toList, toStringNat j.type, type),
    ("X".toList, Coordinate.text j.x, .real (number j.x)),
    ("Y".toList, Coordinate.text j.y, .real (number j.y)),
    ("Z".toList, Coordinate.text j.z, .real (number j.z))] (List.cons_ne_nil _ _) ?_ ?_
  · simp only [List.map_cons, List.map_nil]
    decide
  · simp only [List.forall_mem_cons]
    exact ⟨⟨by decide, htype⟩, ⟨by decide, h.x.inner.readsIn hinner⟩,
      ⟨by decide, h.y.inner.readsIn hinner⟩, ⟨by decide, h.z.inner.readsIn hinner⟩,
      fun m hm => by cases hm⟩

theorem exists_readsIn_joints {number : C → ℚ} {joints : List (Joint C)}
    (h : ∀ j ∈ joints, j.FitsIn room number) (hroom : Deep 2 room) :
    ∃ es : List (Str × Value), es.map Prod.fst = joints.map Joint.toJSON ∧
      (∀ e ∈ es, ReadsIn room e.1 e.2 ∧ Joint.Decodes e.2 ∧
        e.2.memberD "trackedMode" .zero = .zero) ∧
      List.Forall₂ (Joint.EncodedPoint number) joints (es.map Prod.snd) := by
  induction joints with
  | nil => exact ⟨[], rfl, (fun e he => by cases he), .nil⟩
  | cons j joints ih =>
    obtain ⟨hj, hjoints⟩ := List.forall_mem_cons.mp h
    obtain ⟨v, hv, hpoint⟩ := Joint.exists_readsIn hj hroom
    obtain ⟨es, hfst, hes, hpoints⟩ := ih hjoints
    refine ⟨(j.toJSON, v) :: es, ?_, List.forall_mem_cons.mpr ⟨hv, hes⟩, .cons hpoint hpoints⟩
    rw [List.map_cons, List.map_cons, hfst]

/-- The members of the value that an encoded skeleton is read as. -/
structure Skeleton.Encoded (s : Skeleton C) (root : Value) : Prop where
  isObject : root.isObject
  clientId : (root.memberD "client_id" .zero).asUInt = .ok s.clientId
  sensorId : root.memberD "sensor_id" .zero = .string s.sensorId
  skeletonId : root.memberD "skeleton_id" .zero = .zero
  trackingMode : root.memberD "trackingMode" .zero = .zero
  posX : (root.memberD "pos_x" .zero).convertsToDouble
  posY : (root.memberD "pos_y" .zero).convertsToDouble
  posZ : (root.memberD "pos_z" .zero).convertsToDouble
  joints : ∃ es, root.memberD "joints" .zero = .array es ∧ es.length = s.joints.length ∧
    ∀ e ∈ es, Joint.Decodes e ∧ e.memberD "trackedMode" .zero = .zero

/-- The points in this value. -/
structure Skeleton.EncodedPoints (number : C → ℚ) (s : Skeleton C) (root : Value) : Prop where
  posX : root.memberD "pos_x" .zero = .real (number s.posX)
  posY : root.memberD "pos_y" .zero = .real (number s.posY)
  posZ : root.memberD "pos_z" .zero = .real (number s.posZ)
  joints : List.Forall₂ (Joint.EncodedPoint number) s.joints
    (root.memberD "joints" .zero).elements

/-- The numbers of a skeleton are read, its coordinates as these. -/
structure Skeleton.FitsIn (room : Option Nat) (number : C → ℚ) (s : Skeleton C) : Prop where
  skeletonId : FitsBuffer room (toStringNat s.skeletonId)
  clientId : FitsBuffer room (toStringNat s.clientId)
  timeStamp : FitsBuffer room (toStringInt s.timeStamp)
  posX : PrintsAs room s.posX (number s.posX)
  posY : PrintsAs room s.posY (number s.posY)
  posZ : PrintsAs room s.posZ (number s.posZ)
  joints : ∀ j ∈ s.joints, j.FitsIn room number

/-- An encoded skeleton whose sensor id is harmless is read. -/
theorem Skeleton.exists_parseIn {number : C → ℚ} {s : Skeleton C} (h : s.FitsIn room number)
    (hroom : Deep 4 room) (hclient : s.clientId < 2 ^ 32) (hquote : '"' ∉ s.sensorId)
    (hspaced : Spaced s.sensorId) :
    ∃ root, parseIn room s.toJSON = .ok (some root) ∧ s.Encoded root ∧
      s.EncodedPoints number root := by
  have hinner := hroom.inner.ne_zero
  obtain ⟨id, hid⟩ :=
    exists_readsIn_decimal hinner (isDecimal_toStringNat s.skeletonId) h.skeletonId.inner
  obtain ⟨client, hclient, hclientId⟩ := decodeNumber_toStringNat hclient
  obtain ⟨time, htime⟩ :=
    exists_readsIn_decimal hinner (isDecimal_toStringInt s.timeStamp) h.timeStamp.inner
  obtain ⟨es, hfst, hes, hpoints⟩ :=
    exists_readsIn_joints (fun j hj => (h.joints j hj).inner.inner) hroom.inner.inner
  have hspacedFrom := (spacedFrom_zero_iff s.sensorId).mpr hspaced
  have hsensor : ReadsIn (inner room) (quoted (escapeFrom 0 s.sensorId)) (.string s.sensorId) :=
    readsIn_string hinner (body_escapeFrom hquote 0 hspacedFrom)
      (decodeChars_escapeFrom hquote 0 hspacedFrom)
  obtain ⟨shared, hshared⟩ : ∃ v, ReadsIn (inner room)
      (quoted (if s.shared then "true".toList else "false".toList)) v := by
    have hplain : PlainKey (if s.shared then "true".toList else "false".toList) := by
      cases s.shared <;> decide
    exact ⟨_, readsIn_string hinner hplain.body hplain.decodeChars⟩
  have hjoints : ReadsIn (inner room) (printArray (s.joints.map Joint.toJSON))
      (.array (es.map Prod.snd)) :=
    hfst ▸ readsIn_printArray hinner fun e he => (hes e he).1
  refine ⟨_, parseIn_of_readsIn (v := .object [("id".toList, id), ("client_id".toList, client),
    ("sensor_id".toList, .string s.sensorId), ("time_stamp".toList, time),
    ("shared".toList, shared), ("pos_x".toList, .real (number s.posX)),
    ("pos_y".toList, .real (number s.posY)), ("pos_z".toList, .real (number s.posZ)),
    ("joints".toList, .array (es.map Prod.snd))]) ?_, ?_, ⟨rfl, rfl, rfl, hpoints⟩⟩
  · rw [Skeleton.toJSON_eq]
    refine readsIn_printObject hroom.ne_zero [("id".toList, toStringNat s.skeletonId, id),
      ("client_id".toList, toStringNat s.clientId, client),
      ("sensor_id".toList, quoted (escapeFrom 0 s.sensorId), .string s.sensorId),
      ("time_stamp".toList, toStringInt s.timeStamp, time),
      ("shared".toList, quoted (if s.shared then "true".toList else "false".toList), shared),
      ("pos_x".toList, Coordinate.text s.posX, .real (number s.posX)),
      ("pos_y".toList, Coordinate.text s.posY, .real (number s.posY)),
      ("pos_z".toList, Coordinate.text s.posZ, .real (number s.posZ)),
      ("joints".toList, printArray (s.joints.map Joint.toJSON), .array (es.map Prod.snd))]
      (List.cons_ne_nil _ _) ?_ ?_
    · simp only [List.map_cons, List.map_nil]
      decide
    · simp only [List.forall_mem_cons]
      exact ⟨⟨by decide, hid⟩,
        ⟨by decide, readsIn_decimal hinner (isDecimal_toStringNat _) h.clientId.inner hclient⟩,
        ⟨by decide, hsensor⟩, ⟨by decide, htime⟩, ⟨by decide, hshared⟩,
        ⟨by decide, h.posX.inner.readsIn hinner⟩, ⟨by decide, h.posY.inner.readsIn hinner⟩,
        ⟨by decide, h.posZ.inner.readsIn hinner⟩, ⟨by decide, hjoints⟩, fun m hm => by cases hm⟩
  · refine ⟨rfl, hclientId, rfl, rfl, rfl, rfl, rfl, rfl, _, rfl, ?_, fun e he => ?_⟩
    · rw [List.length_map, ← List.length_map Prod.fst, hfst, List.length_map]
    · obtain ⟨p, hp, rfl⟩ := List.mem_map.mp he
      exact (hes p hp).2

end Read

/-! ## Coordinates without an exception -/

section Exact

variable [Field K] [LinearOrder K] [FloorRing K]

theorem printsAs_field (x : K) : PrintsAs none x (printedDouble x) :=
  ⟨isDecimal_toStringDouble x, decodeNumber_toStringDouble x, fitsBuffer_none _⟩

/-- Without limits, every skeleton with exact coordinates is read. -/
theorem Skeleton.fitsIn_none (s : Skeleton K) : s.FitsIn none printedDouble where
  skeletonId := fitsBuffer_none _
  clientId := fitsBuffer_none _
  timeStamp := fitsBuffer_none _
  posX := printsAs_field _
  posY := printsAs_field _
  posZ := printsAs_field _
  joints _ _ := ⟨fitsBuffer_none _, printsAs_field _, printsAs_field _, printsAs_field _⟩

theorem Skeleton.exists_parse {s : Skeleton K} (hclient : s.clientId < 2 ^ 32)
    (hquote : '"' ∉ s.sensorId) (hspaced : Spaced s.sensorId) :
    ∃ root, parse s.toJSON = some root ∧ s.Encoded root ∧ s.EncodedPoints printedDouble root := by
  obtain ⟨root, hparse, hroot⟩ :=
    exists_parseIn s.fitsIn_none (deep_none 4) hclient hquote hspaced
  exact ⟨root, parse_of_parseIn hparse, hroot⟩

end Exact

/-! ## What the decoder makes of them -/

section Decoded

variable [Field K]

/-- What a joint should keep. -/
def Joint.identity (j : Joint K) : Nat × Option Joint.Mode := (j.type, j.trackingMode)

/-- A joint is numbered by its place.  Without the member it is not tracked. -/
theorem Joint.identity_of_ofJson {index : Nat} {raw : Value} {j : Joint K}
    (h : Joint.ofJson index raw = .ok j) (hmode : raw.memberD "trackedMode" .zero = .zero) :
    j.identity = (index, some .notTracked) := by
  unfold Joint.ofJson at h
  obtain ⟨v, hv, h⟩ := bind_eq_ok_iff.mp h
  rw [(Value.get_eq_ok_iff.mp hv).2, hmode] at h
  obtain ⟨mode, hm, h⟩ := bind_eq_ok_iff.mp h
  obtain rfl := Except.ok.inj hm
  obtain ⟨x, _, h⟩ := bind_eq_ok_iff.mp h
  obtain ⟨y, _, h⟩ := bind_eq_ok_iff.mp h
  obtain ⟨z, _, h⟩ := bind_eq_ok_iff.mp h
  obtain rfl := Except.ok.inj h
  rfl

/-- The loop decodes the elements one by one. -/
theorem exists_joints_of_loop (ps : List (Value × Nat)) {joints joints' : List (Joint K)}
    (h : ps.foldlM (fun joints p => do
      let newJoint ← Joint.ofJson p.2 p.1
      pure (joints ++ [newJoint])) joints = .ok joints') :
    ∃ js, joints' = joints ++ js ∧
      List.Forall₂ (fun p j => Joint.ofJson p.2 p.1 = .ok j) ps js := by
  induction ps generalizing joints with
  | nil =>
    obtain rfl := Except.ok.inj h
    exact ⟨[], (List.append_nil _).symm, .nil⟩
  | cons p ps ih =>
    rw [List.foldlM_cons] at h
    obtain ⟨_, hround, h⟩ := bind_eq_ok_iff.mp h
    obtain ⟨j, hj, hround⟩ := bind_eq_ok_iff.mp hround
    obtain rfl := Except.ok.inj hround
    obtain ⟨js, rfl, hjs⟩ := ih h
    exact ⟨j :: js, by rw [List.append_assoc, List.singleton_append], .cons hj hjs⟩

theorem identities_of_forall₂ {ps : List (Value × Nat)} {js : List (Joint K)}
    (h : List.Forall₂ (fun p j => Joint.ofJson p.2 p.1 = .ok j) ps js)
    (hps : ∀ p ∈ ps, p.1.memberD "trackedMode" .zero = .zero) :
    js.map Joint.identity = ps.map fun p => (p.2, some .notTracked) := by
  induction h with
  | nil => rfl
  | cons hj _ ih =>
    obtain ⟨hp, hps⟩ := List.forall_mem_cons.mp hps
    rw [List.map_cons, List.map_cons, Joint.identity_of_ofJson hj hp, ih hps]

namespace Skeleton

theorem parts_of_ofJson {raw : Value} {timeStamp : Int} {s : Skeleton K}
    (h : ofJson raw timeStamp = .ok s) :
    trackingOfJson (raw.memberD "trackingMode" .zero) = .ok s.trackingMode ∧
      forElements (raw.memberD "joints" .zero) (fun index element joints => do
        let newJoint ← Joint.ofJson index element
        pure (joints ++ [newJoint])) [] = .ok s.joints ∧
      ∃ x y z : ℚ, (raw.memberD "pos_x" .zero).asDouble = .ok x ∧
        (raw.memberD "pos_y" .zero).asDouble = .ok y ∧
        (raw.memberD "pos_z" .zero).asDouble = .ok z ∧
        s.position = ![(x : K), (y : K), (z : K)] := by
  have hobj : raw.isObject := ((ofJson_isOk_iff raw timeStamp).mp ⟨s, h⟩).1
  simp only [ofJson, Value.get_of_isObject hobj, ok_bind, bind_eq_ok_iff] at h
  obtain ⟨joints, hjoints, mode, hmode, clientId, _, posX, hx, posY, hy, posZ, hz, skeletonId, _,
    sensorId, _, hs⟩ := h
  obtain rfl := Except.ok.inj hs
  exact ⟨hmode, appending_eq_ok_iff.mp hjoints, posX, posY, posZ, hx, hy, hz, rfl⟩

omit [Field K] in
theorem Encoded.decodes {s : Skeleton C} {root : Value} (h : s.Encoded root)
    (hfew : s.joints.length < 65536) : Decodes root := by
  obtain ⟨es, hjoints, hlen, hes⟩ := h.joints
  refine ⟨h.isObject, ?_, ?_, ?_, ?_, h.posX, h.posY, h.posZ, ?_, ?_⟩
  · rw [hjoints]
    exact ⟨hlen.trans_lt hfew, Or.inr rfl⟩
  · rw [hjoints]
    exact fun e he => (hes e he).1
  · rw [h.trackingMode]
    exact fun hnull => by cases hnull
  · rw [← Value.asUInt_isOk_iff, h.clientId]
    exact isOk_ok _
  · rw [h.skeletonId]
    rfl
  · rw [h.sensorId]
    rfl

/-- What comes back. -/
theorem Encoded.identity {s : Skeleton C} {s' : Skeleton K} {root : Value} (h : s.Encoded root)
    {timeStamp : Int} (hs' : ofJson root timeStamp = .ok s') :
    s'.clientId = s.clientId ∧ s'.sensorId = cStr s.sensorId ∧ s'.skeletonId = 0 ∧
      s'.trackingMode = .positionOnly ∧ s.joints.length < 65536 ∧
      s'.joints.map Joint.identity =
        (List.range s.joints.length).map fun i => (i, some .notTracked) := by
  obtain ⟨es, hjoints, hlen, hes⟩ := h.joints
  obtain ⟨hclient, hsensor, skeletonId, hskeleton, hid⟩ := ids_of_ofJson hs'
  obtain ⟨htracking, hloop, _⟩ := parts_of_ofJson hs'
  rw [h.clientId] at hclient
  rw [h.sensorId] at hsensor
  rw [h.skeletonId] at hskeleton
  rw [h.trackingMode] at htracking
  rw [hjoints, forElements_eq_ok_iff] at hloop
  obtain ⟨hloops, hrounds⟩ := hloop
  have hmodes : ∀ p ∈ es.zipIdx, p.1.memberD "trackedMode" .zero = .zero := fun p hp =>
    (hes p.1 (List.mem_of_getElem? (List.mem_zipIdx_iff_getElem?.mp hp))).2
  obtain ⟨js, hjs, hdecoded⟩ := exists_joints_of_loop es.zipIdx hrounds
  have hidentities := identities_of_forall₂ hdecoded hmodes
  refine ⟨(Except.ok.inj hclient).symm, (Except.ok.inj hsensor).symm, ?_,
    (Except.ok.inj htracking).symm, hlen ▸ hloops.1, ?_⟩
  · rw [hid, ← Except.ok.inj hskeleton]
    rfl
  · rw [hjs, List.nil_append, hidentities, ← hlen, List.range_eq_range',
      ← List.zipIdx_map_snd 0 es, List.map_map]
    rfl

end Skeleton

end Decoded

end MinorityViewport
