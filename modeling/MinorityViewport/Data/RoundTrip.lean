import MinorityViewport.Json.Provenance
import MinorityViewport.Json.Refusals
import MinorityViewport.Data.EncodedSkeleton

/-!
# The round trip of a skeleton

`SameIdentity` is what a skeleton should keep on its way to the browser and
back.  `roundTrips_iff` says which skeletons do.

A coordinate is a `Double` here.  An infinite one is printed without digits,
and one that is printed in 32 characters fills the buffer of the reader.
-/

namespace MinorityViewport

open Exec Json Reader
open StrictJson (printArray printMember printObject)

variable {K : Type} [Field K] [LinearOrder K] [FloorRing K]

/-! ## Printed doubles -/

namespace Double

/-- The number that a coordinate is read as. -/
def number : Double K → ℚ
  | .finite x => printedDouble x
  | _ => 0

/-- A finite coordinate whose text fits into the buffer of the reader. -/
def Survives (c : Double K) : Prop :=
  ∃ x, c = .finite x ∧ (toStringDouble x).length ≠ bufferSize

theorem overruns_toStringDouble {x : K} (h : (toStringDouble x).length = bufferSize) :
    Overruns (toStringDouble x) := by
  have hpoint : (toStringDouble x).any (fun c => c = '.' || c = 'e' || c = 'E' || c = '+') := by
    rw [List.any_eq_true, toStringDouble]
    exact ⟨'.', List.mem_append_right _ List.mem_cons_self, rfl⟩
  refine ⟨?_, h⟩
  unfold reachesDouble
  rw [hpoint]
  rfl

theorem Survives.printsAs {c : Double K} (h : c.Survives) (room : Option Nat) :
    PrintsAs room c c.number := by
  obtain ⟨x, rfl, hlength⟩ := h
  exact ⟨isDecimal_toStringDouble x, decodeNumber_toStringDouble x,
    fitsBuffer_of_length hlength room⟩

theorem startsWrong_inf : StartsWrong "inf".toList := fun _ => rfl

theorem startsWrong_nan : StartsWrong "nan".toList := fun _ => rfl

theorem fails_of_not_survives {c : Double K} (h : ¬ c.Survives) (n : Nat) :
    Fails (some (n + 1)) (Coordinate.text c) := by
  cases c with
  | finite x =>
    have hlength : (toStringDouble x).length = bufferSize :=
      not_not.mp fun hne => h ⟨x, rfl, hne⟩
    refine Refused.fails fun fuel rest hrest hfuel p => ?_
    obtain ⟨fuel, rfl⟩ : ∃ f, fuel = f + 1 := ⟨fuel - 1, by omega⟩
    have hread := @readValueIn_overruns n _ rest (isDecimal_toStringDouble x) hrest
      (overruns_toStringDouble hlength) fuel
    exact fun hok => by cases hread.symm.trans hok
  | infinite negative =>
    cases negative with
    | false => exact (refused_of_startsWrong startsWrong_inf _).fails
    | true => exact fails_minus (delimited_cons (by decide) _) (by decide) startsWrong_inf _
  | nan negative =>
    cases negative with
    | false => exact (refused_of_startsWrong startsWrong_nan _).fails
    | true => exact fails_minus (delimited_cons (by decide) _) (by decide) startsWrong_nan _

end Double

/-! ## Backslashes in an encoded skeleton -/

theorem notMem_of_isDecimal {text : Str} (h : IsDecimal text) : '\\' ∉ text := by
  have hdigits : ∀ {d : Char} {ds : Str}, d.isDigit → (∀ c ∈ ds, c.isDigit ∨ c = '.') →
      '\\' ∉ d :: ds := by
    intro d ds hd hds hmem
    rcases List.mem_cons.mp hmem with rfl | hmem
    · cases hd
    · rcases hds _ hmem with hdigit | hpoint
      · cases hdigit
      · cases hpoint
  cases h with
  | positive hd hds => exact hdigits hd hds
  | negative hd hds =>
    rw [List.mem_cons, not_or]
    exact ⟨by decide, hdigits hd hds⟩

theorem notMem_intercalate {parts : List Str} (h : ∀ part ∈ parts, '\\' ∉ part) :
    '\\' ∉ List.intercalate [','] parts := by
  induction parts with
  | nil => exact List.not_mem_nil
  | cons part parts ih =>
    obtain ⟨hpart, hparts⟩ := List.forall_mem_cons.mp h
    cases parts with
    | nil => rwa [List.intercalate_singleton]
    | cons next parts =>
      rw [List.intercalate_cons_cons]
      simp [hpart, ih hparts]

theorem notMem_printObject {members : List (Str × Str)}
    (h : ∀ m ∈ members, '\\' ∉ m.1 ∧ '\\' ∉ m.2) : '\\' ∉ printObject members := by
  have hparts : '\\' ∉ List.intercalate [','] (members.map fun m => printMember m.1 m.2) := by
    refine notMem_intercalate fun part hpart => ?_
    obtain ⟨m, hm, rfl⟩ := List.mem_map.mp hpart
    simp [printMember, h m hm]
  simp [printObject, hparts]

theorem Double.notMem_text (c : Double K) : '\\' ∉ Coordinate.text c := by
  cases c with
  | finite x => exact notMem_of_isDecimal (isDecimal_toStringDouble x)
  | infinite negative | nan negative => cases negative <;> simp [Coordinate.text, text]

theorem Joint.notMem_toJSON (j : Joint (Double K)) : '\\' ∉ j.toJSON := by
  rw [toJSON_eq]
  refine notMem_printObject ?_
  simp only [members, List.forall_mem_cons]
  exact ⟨⟨by decide, notMem_of_isDecimal (isDecimal_toStringNat _)⟩,
    ⟨by decide, Double.notMem_text _⟩,
    ⟨by decide, Double.notMem_text _⟩,
    ⟨by decide, Double.notMem_text _⟩, fun m hm => by cases hm⟩

namespace Skeleton

theorem notMem_printObject_laterMembers (s : Skeleton (Double K)) :
    '\\' ∉ printObject s.laterMembers := by
  have hjoints : '\\' ∉ printArray (s.joints.map Joint.toJSON) := by
    have hparts : '\\' ∉ List.intercalate [','] (s.joints.map Joint.toJSON) := by
      refine notMem_intercalate fun part hpart => ?_
      obtain ⟨j, _, rfl⟩ := List.mem_map.mp hpart
      exact j.notMem_toJSON
    simp [printArray, hparts]
  refine notMem_printObject ?_
  simp only [laterMembers, List.forall_mem_cons]
  refine ⟨⟨by decide, notMem_of_isDecimal (isDecimal_toStringInt _)⟩, ⟨by decide, ?_⟩,
    ⟨by decide, Double.notMem_text _⟩,
    ⟨by decide, Double.notMem_text _⟩,
    ⟨by decide, Double.notMem_text _⟩, ⟨by decide, hjoints⟩,
    fun m hm => by cases hm⟩
  cases s.shared <;> decide

/-- The text before the sensor id. -/
def beforeSensorId (s : Skeleton (Double K)) : Str :=
  "\x7b\"id\":".toList ++ toStringNat s.skeletonId ++ ",\"client_id\":".toList ++
    toStringNat s.clientId ++ ",\"sensor_id\":".toList

/-- The text behind the sensor id, from the name of the next member on. -/
def behindSensorId (s : Skeleton (Double K)) : Str := (printObject s.laterMembers).drop 2

theorem toJSON_split (s : Skeleton (Double K)) :
    s.toJSON = s.beforeSensorId ++ '"' :: escapeFrom 0 s.sensorId ++
      '"' :: ',' :: '"' :: s.behindSensorId := by
  have hbehind : printObject s.laterMembers = '{' :: '"' :: s.behindSensorId := rfl
  have hlater : List.intercalate [','] (s.laterMembers.map fun m => printMember m.1 m.2) ++ ['}'] =
      '"' :: s.behindSensorId := (List.cons.inj hbehind).2
  have hcons : ∃ m ms, s.laterMembers = m :: ms := ⟨_, _, rfl⟩
  obtain ⟨m, ms, hms⟩ := hcons
  rw [toJSON_eq]
  unfold members beforeSensorId printObject
  rw [hms] at hlater ⊢
  simp only [List.map_cons, List.intercalate_cons_cons] at hlater ⊢
  simp only [List.append_assoc, List.cons_append, hlater]
  simp [printMember, quoted]

omit [Field K] [LinearOrder K] [FloorRing K] in
theorem notMem_beforeSensorId (s : Skeleton (Double K)) : '\\' ∉ s.beforeSensorId := by
  have hid := notMem_of_isDecimal (isDecimal_toStringNat s.skeletonId)
  have hclient := notMem_of_isDecimal (isDecimal_toStringNat s.clientId)
  unfold beforeSensorId
  simp [hid, hclient]

theorem notMem_behindSensorId (s : Skeleton (Double K)) : '\\' ∉ s.behindSensorId := fun hmem =>
  s.notMem_printObject_laterMembers (List.mem_of_mem_drop hmem)

theorem not_endsMember_behindSensorId (s : Skeleton (Double K)) :
    ¬ EndsMember s.behindSensorId := by
  have herror : (readToken s.behindSensorId).1.type = .error := rfl
  rw [EndsMember, herror]
  rintro (h | h | h) <;> cases h

/-! ## Skeletons that are not read -/

/-- The text is read in this room, or an object that has it as a member is no
value. -/
abbrev ReadsOrFails (room : Option Nat) (text : Str) : Prop :=
  (∃ v, ReadsIn room text v) ∨ Fails room text

end Skeleton

theorem Double.readsOrFails (c : Double K) (n : Nat) :
    Skeleton.ReadsOrFails (some (n + 1)) (Coordinate.text c) := by
  by_cases h : c.Survives
  · exact Or.inl ⟨_, (h.printsAs _).readsIn (by simp)⟩
  · exact Or.inr (fails_of_not_survives h n)

namespace Joint

theorem readsOrFails_members (j : Joint (Double K)) (n : Nat) :
    ∀ m ∈ j.members, PlainKey m.1 ∧ Skeleton.ReadsOrFails (some (n + 1)) m.2 := by
  simp only [members, List.forall_mem_cons]
  exact ⟨⟨by decide, readsIn_or_fails_decimal (isDecimal_toStringNat _)⟩,
    ⟨by decide, j.x.readsOrFails n⟩, ⟨by decide, j.y.readsOrFails n⟩,
    ⟨by decide, j.z.readsOrFails n⟩, List.forall_mem_nil _⟩

theorem readsIn_or_refused (j : Joint (Double K)) (n : Nat) :
    (∃ v, ReadsIn (some (n + 2)) j.toJSON v) ∨ Refused (some (n + 2)) j.toJSON := by
  rw [toJSON_eq]
  exact readsIn_or_refused_printObject (by simp) (List.cons_ne_nil _ _)
    (by simp only [members, List.map_cons, List.map_nil]; decide) (j.readsOrFails_members n)

theorem refused_of_not_survives {j : Joint (Double K)} {i : Fin 3}
    (h : ¬ (j.position i).Survives) (n : Nat) : Refused (some (n + 2)) j.toJSON := by
  have hfails := Double.fails_of_not_survives h n
  rw [toJSON_eq]
  refine refused_printObject (j.readsOrFails_members n) ?_
  fin_cases i
  · exact ⟨("X".toList, Coordinate.text j.x), by simp [members], hfails⟩
  · exact ⟨("Y".toList, Coordinate.text j.y), by simp [members], hfails⟩
  · exact ⟨("Z".toList, Coordinate.text j.z), by simp [members], hfails⟩

end Joint

namespace Skeleton

theorem head?_joint {joints : List (Joint (Double K))} :
    ∀ text ∈ joints.map Joint.toJSON, text.head? = some '{' := by
  intro text htext
  obtain ⟨j, -, rfl⟩ := List.mem_map.mp htext
  rw [Joint.toJSON_eq]
  rfl

theorem readsIn_or_refused_joint {joints : List (Joint (Double K))} (n : Nat) :
    ∀ text ∈ joints.map Joint.toJSON,
      (∃ v, ReadsIn (some (n + 2)) text v) ∨ Refused (some (n + 2)) text := by
  intro text htext
  obtain ⟨j, -, rfl⟩ := List.mem_map.mp htext
  exact j.readsIn_or_refused n

section

variable {s : Skeleton (Double K)} (hquote : '"' ∉ s.sensorId) (hspaced : Spaced s.sensorId)

include hquote hspaced

theorem readsOrFails_members (n : Nat) :
    ∀ m ∈ s.members, PlainKey m.1 ∧ ReadsOrFails (some (n + 3)) m.2 := by
  have hspacedFrom := (spacedFrom_zero_iff s.sensorId).mpr hspaced
  have hsensor : ReadsOrFails (some (n + 3)) (quoted (escapeFrom 0 s.sensorId)) :=
    Or.inl ⟨_, readsIn_string (by simp) (body_escapeFrom hquote 0 hspacedFrom)
      (decodeChars_escapeFrom hquote 0 hspacedFrom)⟩
  have hshared : ReadsOrFails (some (n + 3))
      (quoted (if s.shared then "true".toList else "false".toList)) := by
    have hplain : PlainKey (if s.shared then "true".toList else "false".toList) := by
      cases s.shared <;> decide
    exact Or.inl ⟨_, readsIn_string (by simp) hplain.body hplain.decodeChars⟩
  have hjoints : ReadsOrFails (some (n + 3)) (printArray (s.joints.map Joint.toJSON)) :=
    (readsIn_or_refused_printArray (by simp) head?_joint (readsIn_or_refused_joint n)).imp_right
      Refused.fails
  simp only [members, laterMembers, List.forall_mem_cons]
  exact ⟨⟨by decide, readsIn_or_fails_decimal (isDecimal_toStringNat _)⟩,
    ⟨by decide, readsIn_or_fails_decimal (isDecimal_toStringNat _)⟩, ⟨by decide, hsensor⟩,
    ⟨by decide, readsIn_or_fails_decimal (isDecimal_toStringInt _)⟩, ⟨by decide, hshared⟩,
    ⟨by decide, s.posX.readsOrFails _⟩, ⟨by decide, s.posY.readsOrFails _⟩,
    ⟨by decide, s.posZ.readsOrFails _⟩, ⟨by decide, hjoints⟩, List.forall_mem_nil _⟩

/-- One coordinate that is not read is enough. -/
theorem refused_of_not_survives {p : Fin 3 → Double K} (hp : p ∈ s.points) {i : Fin 3}
    (h : ¬ (p i).Survives) (n : Nat) : Refused (some (n + 4)) s.toJSON := by
  rw [toJSON_eq]
  refine refused_printObject (readsOrFails_members hquote hspaced n) ?_
  rcases List.mem_cons.mp hp with rfl | hp
  · have hfails := Double.fails_of_not_survives h (n + 2)
    fin_cases i
    · exact ⟨("pos_x".toList, Coordinate.text s.posX), by simp [members, laterMembers], hfails⟩
    · exact ⟨("pos_y".toList, Coordinate.text s.posY), by simp [members, laterMembers], hfails⟩
    · exact ⟨("pos_z".toList, Coordinate.text s.posZ), by simp [members, laterMembers], hfails⟩
  · obtain ⟨j, hj, rfl⟩ := List.mem_map.mp hp
    have hjoints : Refused (some (n + 3)) (printArray (s.joints.map Joint.toJSON)) :=
      refused_printArray head?_joint (readsIn_or_refused_joint n)
        ⟨_, List.mem_map_of_mem hj, Joint.refused_of_not_survives h n⟩
    exact ⟨("joints".toList, printArray (s.joints.map Joint.toJSON)),
      by simp [members, laterMembers], hjoints.fails⟩

end

/-- The numbers of a skeleton are short enough. -/
theorem fitsIn_of_survives {room : Option Nat} {s : Skeleton (Double K)}
    (hnumbers : ∀ n, n = s.skeletonId ∨ n = s.clientId ∨ (∃ j ∈ s.joints, n = j.type) →
      FitsBuffer room (toStringNat n))
    (htime : FitsBuffer room (toStringInt s.timeStamp))
    (h : ∀ p ∈ s.points, ∀ i, (p i).Survives) : s.FitsIn room Double.number := by
  obtain ⟨hposition, hjoints⟩ := List.forall_mem_cons.mp h
  refine ⟨hnumbers _ (Or.inl rfl), hnumbers _ (Or.inr (Or.inl rfl)), htime,
    (hposition 0).printsAs room, (hposition 1).printsAs room, (hposition 2).printsAs room,
    fun j hj => ?_⟩
  have hj' := hjoints _ (List.mem_map_of_mem hj)
  exact ⟨hnumbers _ (Or.inr (Or.inr ⟨j, hj, rfl⟩)), (hj' 0).printsAs room, (hj' 1).printsAs room,
    (hj' 2).printsAs room⟩

/-! ## The round trip -/

/-- The two skeletons agree in what identifies them. -/
structure SameIdentity (s : Skeleton (Double K)) (s' : Skeleton K) : Prop where
  clientId : s'.clientId = s.clientId
  sensorId : s'.sensorId = s.sensorId
  skeletonId : s'.skeletonId = s.skeletonId
  trackingMode : s'.trackingMode = s.trackingMode
  joints : s'.joints.map Joint.identity = s.joints.map Joint.identity

/-- The encoded skeleton is read and decodes to one of the same identity.
The stack has room for the four values that are open at a coordinate of a
joint. -/
def RoundTrips (stack : Nat) (timeStamp : Int) (s : Skeleton (Double K)) : Prop :=
  ∃ root, parseIn (some (stack + 4)) s.toJSON = .ok (some root) ∧
    ∃ s' : Skeleton K, ofJson root timeStamp = .ok s' ∧ s.SameIdentity s'

/-- Everything that is not written has its default, the joints are numbered
by their places, the sensor id is spelled by its escape, and the coordinates
are read. -/
structure Survives (s : Skeleton (Double K)) : Prop where
  skeletonId : s.skeletonId = 0
  trackingMode : s.trackingMode = .positionOnly
  few : s.joints.length < 65536
  joints : ∀ (i : Nat) (j : Joint (Double K)), s.joints[i]? = some j →
    j.type = i ∧ j.trackingMode = some .notTracked
  noQuote : '"' ∉ s.sensorId
  noNul : '\x00' ∉ s.sensorId
  spaced : Spaced s.sensorId
  coordinates : ∀ p ∈ s.points, ∀ i, (p i).Survives

omit [Field K] [LinearOrder K] [FloorRing K] in
theorem map_identity_iff (joints : List (Joint (Double K))) :
    (List.range joints.length).map (fun i => (i, some Joint.Mode.notTracked)) =
        joints.map Joint.identity ↔
      ∀ (i : Nat) (j : Joint (Double K)), joints[i]? = some j →
        j.type = i ∧ j.trackingMode = some .notTracked := by
  rw [List.ext_getElem?_iff]
  refine forall_congr' fun i => ?_
  rw [List.getElem?_map, List.getElem?_map]
  cases hj : joints[i]? with
  | none =>
    have hle := List.getElem?_eq_none_iff.mp hj
    simp [hle]
  | some j =>
    have hlt := (List.getElem?_eq_some_iff.mp hj).1
    rw [List.getElem?_range hlt]
    simp [Joint.identity, eq_comm]

/-- The sensor id that comes back is the one that went out only if the escape
spells it. -/
theorem plain_of_sameSensorId {s : Skeleton (Double K)} {s' : Skeleton K} {root : Value}
    {timeStamp : Int} (hparse : parse s.toJSON = some root) (hs' : ofJson root timeStamp = .ok s')
    (hsensor : s'.sensorId = s.sensorId) :
    '"' ∉ s.sensorId ∧ '\x00' ∉ s.sensorId ∧ Spaced s.sensorId := by
  obtain ⟨_, hid, _⟩ := ids_of_ofJson hs'
  rw [hsensor] at hid
  cases hmember : root.memberD "sensor_id" .zero with
  | string r =>
    rw [hmember] at hid
    have hfrom := fromToken_of_parse hparse hmember (by simp [Value.zero])
    rw [toJSON_split] at hfrom
    exact plain_of_fromToken s.notMem_beforeSensorId s.notMem_behindSensorId
      s.not_endsMember_behindSensorId hfrom (Except.ok.inj hid)
  | null =>
    rw [hmember] at hid
    rw [← Except.ok.inj hid]
    exact ⟨by decide, by decide, fun i j _ hi _ => by cases hi⟩
  | boolean b =>
    rw [hmember] at hid
    rw [← Except.ok.inj hid]
    have hnot : ∀ text : Str, '\\' ∉ text → Spaced text := fun text hnot i j _ hi _ =>
      absurd (List.mem_of_getElem? hi) hnot
    cases b <;> exact ⟨by decide, by decide, hnot _ (by decide)⟩
  | int | uint | real | array | object =>
    rw [hmember] at hid
    cases hid

theorem fitsBuffer_toStringNat {n : Nat} (h : n < 10 ^ 31) (room : Option Nat) :
    FitsBuffer room (toStringNat n) := by
  refine fitsBuffer_of_length (fun hlength => ?_) room
  have hle : (toStringNat n).length ≤ 31 :=
    (Nat.length_toDigits_le_iff (by decide) (by decide)).mpr h
  rw [hlength] at hle
  exact absurd hle (by decide)

/-- A `long` is printed in less than 32 characters. -/
theorem fitsBuffer_toStringInt {i : Int} (h : i.natAbs < 2 ^ 64) (room : Option Nat) :
    FitsBuffer room (toStringInt i) := by
  have hle : (toStringNat i.natAbs).length ≤ 30 :=
    (Nat.length_toDigits_le_iff (by decide) (by decide)).mpr (h.trans (by norm_num))
  have hlength : (toStringInt i).length ≤ 31 := by
    rw [toStringInt]
    split_ifs
    · rw [List.length_cons]
      omega
    · omega
  refine fitsBuffer_of_length (fun heq => ?_) room
  rw [heq] at hlength
  exact absurd hlength (by decide)

/-- A skeleton survives the round trip exactly when it has the defaults of
everything that is not written, a harmless sensor id, and coordinates that the
reader takes. -/
theorem roundTrips_iff (stack : Nat) (s : Skeleton (Double K)) (hclient : s.clientId < 2 ^ 32)
    (htime : s.timeStamp.natAbs < 2 ^ 64) (timeStamp : Int) :
    s.RoundTrips stack timeStamp ↔ s.Survives := by
  constructor
  · rintro ⟨root, hparse, s', hs', hsame⟩
    have hparse' := parse_of_parseIn hparse
    obtain ⟨hquote, hnul, hspaced⟩ := plain_of_sameSensorId hparse' hs' hsame.sensorId
    have hcoordinates : ∀ p ∈ s.points, ∀ i, (p i).Survives := fun p hp i => by
      by_contra h
      exact (refused_of_not_survives hquote hspaced hp h stack).parseIn_ne root hparse
    have hfits : s.FitsIn none Double.number :=
      fitsIn_of_survives (fun _ _ => fitsBuffer_none _) (fitsBuffer_none _) hcoordinates
    obtain ⟨root', hroot', hencoded, _⟩ :=
      exists_parseIn hfits (deep_none 4) hclient hquote hspaced
    obtain rfl := Option.some.inj (hparse'.symm.trans (parse_of_parseIn hroot'))
    obtain ⟨_, _, hid, htracking, hfew, hjoints⟩ := hencoded.identity hs'
    exact ⟨hsame.skeletonId.symm.trans hid, hsame.trackingMode.symm.trans htracking, hfew,
      (map_identity_iff s.joints).mp (hjoints.symm.trans hsame.joints), hquote, hnul, hspaced,
      hcoordinates⟩
  · intro h
    have hnumbers : ∀ n, n = s.skeletonId ∨ n = s.clientId ∨ (∃ j ∈ s.joints, n = j.type) →
        n < 10 ^ 31 := by
      rintro n (rfl | rfl | ⟨j, hj, rfl⟩)
      · rw [h.skeletonId]
        norm_num
      · exact hclient.trans (by norm_num)
      · obtain ⟨i, hi⟩ := List.mem_iff_getElem?.mp hj
        have hlt := (List.getElem?_eq_some_iff.mp hi).1
        rw [(h.joints i j hi).1]
        exact (hlt.trans h.few).trans (by norm_num)
    have hfits : s.FitsIn (some (stack + 4)) Double.number :=
      fitsIn_of_survives (fun n hn => fitsBuffer_toStringNat (hnumbers n hn) _)
        (fitsBuffer_toStringInt htime _) h.coordinates
    obtain ⟨root, hparse, hencoded, _⟩ :=
      exists_parseIn hfits (deep_some 4 stack) hclient h.noQuote h.spaced
    obtain ⟨s', hs'⟩ := (ofJson_isOk_iff (K := K) root timeStamp).mpr (hencoded.decodes h.few)
    obtain ⟨hclientId, hsensor, hid, htracking, _, hjoints⟩ := hencoded.identity hs'
    exact ⟨root, hparse, s', hs', hclientId, hsensor.trans (cStr_eq_self h.noNul),
      hid.trans h.skeletonId.symm, htracking.trans h.trackingMode.symm,
      hjoints.trans ((map_identity_iff s.joints).mpr h.joints)⟩

/-- A skeleton without joints that stands in the origin. -/
def atOrigin : Skeleton (Double ℚ) := standingAt fun _ => .finite 0

theorem survives_atOrigin : ∀ p ∈ atOrigin.points, ∀ i, (p i).Survives := by
  intro p hp i
  rw [atOrigin, points_standingAt] at hp
  obtain rfl := List.mem_singleton.mp hp
  exact ⟨0, rfl, by decide +kernel⟩

theorem roundTrips_iff_standing : atOrigin.RoundTrips 0 5 :=
  (roundTrips_iff 0 atOrigin (by decide) (by decide) 5).mpr
    { skeletonId := rfl
      trackingMode := rfl
      few := by decide
      joints := fun i j h => by cases h
      noQuote := List.not_mem_nil
      noNul := List.not_mem_nil
      spaced := fun i j _ h => by cases h
      coordinates := survives_atOrigin }

/-- A skeleton with another id than `0`. -/
def withId (skeletonId : Nat) : Skeleton (Double ℚ) :=
  { atOrigin with skeletonId := skeletonId }

theorem not_roundTrips_withId : ¬ (withId 1).RoundTrips 0 5 := by
  rintro ⟨root, hparse, s', hs', hsame⟩
  have hparse' := parse_of_parseIn hparse
  obtain ⟨hquote, _, hspaced⟩ := plain_of_sameSensorId hparse' hs' hsame.sensorId
  have hfits : (withId 1).FitsIn none Double.number :=
    fitsIn_of_survives (fun _ _ => fitsBuffer_none _) (fitsBuffer_none _) survives_atOrigin
  obtain ⟨root', hroot', hencoded, _⟩ :=
    exists_parseIn hfits (deep_none 4) (by decide) hquote hspaced
  obtain rfl := Option.some.inj (hparse'.symm.trans (parse_of_parseIn hroot'))
  obtain ⟨_, _, hid, _⟩ := hencoded.identity hs'
  exact absurd (hid.symm.trans hsame.skeletonId) (by decide)

end Skeleton

end MinorityViewport
