import MinorityViewport.Data.Scene

/-!
# Histories of a scene

What happens to the skeletons of a scene is a list of `Op`.  A round of the
refresh thread empties the scene if the refresh interval has lapsed, and
does nothing otherwise.

* `keepsFirstThree` compares the map of a scene with a list of entries in the
  order in which people came.
* `firstObserved_foldl_run` says that the first-observed time is written by
  the first `Update`.  Its invariant is that a scene without that time is
  empty (`Unseen`).
-/

namespace MinorityViewport.Scene

variable {K : Type}

inductive Op (K : Type) where
  | update (serverSkeletonId : Nat) (newPerson : Skeleton K) (now : Int)
  | remove (serverSkeletonId : Nat)
  | manualClear
  | clear (lapsed : Bool)

/-- The operation on a scene. -/
def Op.run (scene : Scene K) : Op K → Scene K
  | update serverSkeletonId newPerson now => scene.update serverSkeletonId newPerson now
  | remove serverSkeletonId => scene.remove serverSkeletonId
  | manualClear => scene.manualClear
  | clear lapsed => if lapsed then scene.manualClear else scene

/-- The scene after a history. -/
def runAll (scene : Scene K) (ops : List (Op K)) : Scene K := ops.foldl Op.run scene

/-! ## The people that are kept -/

/-- The operation on the list of entries. -/
def Op.onList (l : List (Nat × Skeleton K)) : Op K → List (Nat × Skeleton K)
  | update serverSkeletonId newPerson _ => OrdMap.listPlace 3 l serverSkeletonId newPerson
  | remove serverSkeletonId => OrdMap.listErase l serverSkeletonId
  | manualClear => []
  | clear lapsed => if lapsed then [] else l

/-- An operation that takes an entry out whatever its id, or this one. -/
def Op.TakesOut (serverSkeletonId : Nat) : Op K → Prop
  | remove id => id = serverSkeletonId
  | manualClear => True
  | clear lapsed => lapsed
  | update .. => False

/-- The map of the scene holds the entries of the list, at most three. -/
structure Follows (scene : Scene K) (l : List (Nat × Skeleton K)) : Prop where
  entries : scene.skeletons.entries.Perm l
  size : scene.skeletons.size ≤ 3

theorem follows_manualClear (scene : Scene K) : Follows scene.manualClear [] :=
  ⟨.refl _, Nat.zero_le 3⟩

theorem Follows.run {scene : Scene K} {l : List (Nat × Skeleton K)} (h : Follows scene l)
    (op : Op K) : Follows (op.run scene) (op.onList l) := by
  cases op with
  | update id person now =>
    constructor
    · show (scene.update id person now).skeletons.entries.Perm _
      rw [skeletons_update]
      exact OrdMap.perm_place h.entries h.size id person
    · show (scene.update id person now).skeletons.size ≤ 3
      rw [skeletons_update]
      exact OrdMap.size_place_le h.size id person
  | remove id =>
    exact ⟨OrdMap.perm_erase h.entries id, Nat.le_trans (List.length_filter_le _ _) h.size⟩
  | manualClear => exact follows_manualClear scene
  | clear lapsed =>
    cases lapsed with
    | true => exact follows_manualClear scene
    | false => exact h

theorem Follows.runAll {scene : Scene K} {l : List (Nat × Skeleton K)} (h : Follows scene l)
    (ops : List (Op K)) : Follows (scene.runAll ops) (ops.foldl Op.onList l) := by
  induction ops generalizing scene l with
  | nil => exact h
  | cons op rest ih => exact ih (h.run op)

/-- An id goes only by an operation that takes it out. -/
theorem Follows.takesOut {scene : Scene K} {l : List (Nat × Skeleton K)} (h : Follows scene l)
    {op : Op K} {id : Nat} (hin : id ∈ scene.skeletons.keys)
    (hout : id ∉ (op.run scene).skeletons.keys) : op.TakesOut id := by
  cases op with
  | update serverSkeletonId person now =>
    refine absurd ?_ hout
    show id ∈ (scene.update serverSkeletonId person now).skeletons.keys
    rw [skeletons_update, OrdMap.mem_keys_place_iff h.size]
    by_cases hid : id = serverSkeletonId
    · exact Or.inl ⟨hid, Or.inl (hid ▸ hin)⟩
    · exact Or.inr ⟨hin, hid⟩
  | remove serverSkeletonId =>
    by_contra hid
    refine hout ?_
    have hne : id ≠ serverSkeletonId := fun heq => hid heq.symm
    show id ∈ (scene.skeletons.erase serverSkeletonId).keys
    rwa [← OrdMap.isSome_find?_iff, OrdMap.find?_erase, if_neg hne, OrdMap.isSome_find?_iff]
  | manualClear => trivial
  | clear lapsed =>
    cases lapsed with
    | true => rfl
    | false => exact absurd hin hout

/-- A history of updates, each with its id, its person and its reading. -/
def updatesOf (sent : List (Nat × Skeleton K × Int)) : List (Op K) :=
  sent.map fun u => .update u.1 u.2.1 u.2.2

theorem skeletons_runAll_updatesOf (sent : List (Nat × Skeleton K × Int)) (scene : Scene K) :
    (scene.runAll (updatesOf sent)).skeletons =
      scene.skeletons.placeAll 3 (sent.map fun u => (u.1, u.2.1)) := by
  induction sent generalizing scene with
  | nil => rfl
  | cons u rest ih =>
    have hfirst := skeletons_update scene u.1 u.2.1 u.2.2
    show ((scene.update u.1 u.2.1 u.2.2).runAll (updatesOf rest)).skeletons = _
    rw [ih, hfirst]
    rfl

/-- A scene keeps the first three people with their latest data, from a clear
on. -/
structure KeepsFirstThree (scene : Scene K) : Prop where
  follows : ∀ ops, Follows (scene.manualClear.runAll ops) (ops.foldl Op.onList [])
  lost : ∀ (ops : List (Op K)) (op : Op K) (id : Nat),
    id ∈ (scene.manualClear.runAll ops).skeletons.keys →
    id ∉ (op.run (scene.manualClear.runAll ops)).skeletons.keys → op.TakesOut id
  updates : ∀ sent id, (scene.manualClear.runAll (updatesOf sent)).skeletons.find? id =
    if id ∈ (sent.map Prod.fst).eraseDups.take 3 then
      (sent.reverse.find? (·.1 = id)).map (·.2.1)
    else none

theorem keepsFirstThree (scene : Scene K) : KeepsFirstThree scene where
  follows ops := (follows_manualClear scene).runAll ops
  lost ops _ _ hin hout := ((follows_manualClear scene).runAll ops).takesOut hin hout
  updates sent id := by
    rw [skeletons_runAll_updatesOf, manualClear, OrdMap.find?_placeAll_eq, List.map_map,
      ← List.map_reverse, List.find?_map, Option.map_map]
    rfl

/-! ## The first-observed time -/

/-- The reading at the first update. -/
def firstReading : List (Op K) → Option Int
  | [] => none
  | .update _ _ now :: _ => some now
  | .remove _ :: rest | .manualClear :: rest | .clear _ :: rest => firstReading rest

/-- Nobody was observed yet, and nobody is there. -/
structure Unseen (scene : Scene K) : Prop where
  time : scene.firstSkeletonObservedTime = 0
  empty : scene.skeletons.size = 0

theorem unseen_ofSensor (sensorId : Str) : Unseen (ofSensor sensorId : Scene K) := ⟨rfl, rfl⟩

/-- The first update writes its reading. -/
theorem Unseen.time_update {scene : Scene K} (h : Unseen scene) (id : Nat) (person : Skeleton K)
    (now : Int) : (scene.update id person now).firstSkeletonObservedTime = now := by
  rw [update, if_pos ⟨h.time, h.empty⟩]

theorem Unseen.remove {scene : Scene K} (h : Unseen scene) (id : Nat) : Unseen (scene.remove id) :=
  ⟨h.time, Nat.eq_zero_of_le_zero (h.empty ▸ List.length_filter_le _ scene.skeletons.entries)⟩

theorem Unseen.manualClear {scene : Scene K} (h : Unseen scene) : Unseen scene.manualClear :=
  ⟨h.time, rfl⟩

/-- A time that is set stays. -/
theorem time_run_of_ne_zero {scene : Scene K} (h : scene.firstSkeletonObservedTime ≠ 0)
    (op : Op K) :
    (op.run scene).firstSkeletonObservedTime = scene.firstSkeletonObservedTime := by
  cases op with
  | update id person now =>
    show (scene.update id person now).firstSkeletonObservedTime = _
    rw [update, if_neg fun hunset => h hunset.1]
  | remove | manualClear => rfl
  | clear lapsed => cases lapsed <;> rfl

theorem time_runAll_of_ne_zero {scene : Scene K} (h : scene.firstSkeletonObservedTime ≠ 0)
    (ops : List (Op K)) :
    (scene.runAll ops).firstSkeletonObservedTime = scene.firstSkeletonObservedTime := by
  induction ops generalizing scene with
  | nil => rfl
  | cons op rest ih =>
    have hop := time_run_of_ne_zero h op
    exact (ih (hop ▸ h)).trans hop

theorem Unseen.time_runAll {scene : Scene K} (h : Unseen scene) {ops : List (Op K)}
    (hreadings : ∀ id person now, Op.update id person now ∈ ops → now ≠ 0) :
    (scene.runAll ops).firstSkeletonObservedTime = (firstReading ops).getD 0 := by
  induction ops generalizing scene with
  | nil => exact h.time
  | cons op rest ih =>
    have hrest : ∀ id person now, Op.update id person now ∈ rest → now ≠ 0 :=
      fun id person now hmem => hreadings id person now (List.mem_cons_of_mem _ hmem)
    cases op with
    | update id person now =>
      have htime : (Op.run scene (.update id person now)).firstSkeletonObservedTime = now :=
        h.time_update id person now
      have hset : (Op.run scene (.update id person now)).firstSkeletonObservedTime ≠ 0 := by
        rw [htime]
        exact hreadings id person now List.mem_cons_self
      exact (time_runAll_of_ne_zero hset rest).trans htime
    | remove id => exact ih (h.remove id) hrest
    | manualClear => exact ih h.manualClear hrest
    | clear lapsed =>
      cases lapsed with
      | true => exact ih h.manualClear hrest
      | false => exact ih h hrest

theorem firstReading_eq_none_iff {ops : List (Op K)} :
    firstReading ops = none ↔ ∀ id person now, Op.update id person now ∉ ops := by
  induction ops with
  | nil => exact iff_of_true rfl fun _ _ _ => List.not_mem_nil
  | cons op rest ih =>
    cases op with
    | update id person now =>
      exact iff_of_false (fun h => by cases h) fun h => h id person now List.mem_cons_self
    | remove | manualClear | clear => simp [firstReading, ih]

theorem mem_of_firstReading {ops : List (Op K)} {now : Int} (h : firstReading ops = some now) :
    ∃ id person, Op.update id person now ∈ ops := by
  induction ops with
  | nil => cases h
  | cons op rest ih =>
    cases op with
    | update id person first =>
      obtain rfl := Option.some.inj h
      exact ⟨id, person, List.mem_cons_self⟩
    | remove | manualClear | clear =>
      obtain ⟨id, person, hmem⟩ := ih h
      exact ⟨id, person, List.mem_cons_of_mem _ hmem⟩

/-- The first-observed time of a sensor is zero until the first update, and
always its reading from there on. -/
theorem firstObserved_writtenOnce (sensorId : Str) (ops : List (Op K))
    (hreadings : ∀ id person now, Op.update id person now ∈ ops → now ≠ 0) :
    ((ofSensor sensorId : Scene K).runAll ops).firstSkeletonObservedTime =
        (firstReading ops).getD 0 ∧
      (((ofSensor sensorId : Scene K).runAll ops).firstSkeletonObservedTime = 0 ↔
        ∀ id person now, Op.update id person now ∉ ops) := by
  have htime := (unseen_ofSensor sensorId : Unseen (ofSensor sensorId : Scene K)).time_runAll
    hreadings
  refine ⟨htime, ?_⟩
  rw [htime, ← firstReading_eq_none_iff]
  cases hfirst : firstReading ops with
  | none => exact iff_of_true rfl rfl
  | some now =>
    obtain ⟨id, person, hmem⟩ := mem_of_firstReading hfirst
    exact iff_of_false (hreadings id person now hmem) fun h => by cases h

/-- Two people, one after the other, with clears before and between. -/
def twoVisits : List (Op ℚ) :=
  [.clear true, .update 1 ⟨1, 1, [], 0, false, 0, 0, 0, .positionOnly, []⟩ 5, .manualClear,
    .update 2 ⟨1, 2, [], 0, false, 0, 0, 0, .positionOnly, []⟩ 9, .remove 2]

theorem firstObserved_writtenOnce_twoVisits :
    ((ofSensor [] : Scene ℚ).runAll twoVisits).firstSkeletonObservedTime =
        (firstReading twoVisits).getD 0 ∧
      (((ofSensor [] : Scene ℚ).runAll twoVisits).firstSkeletonObservedTime = 0 ↔
        ∀ id person now, Op.update id person now ∉ twoVisits) :=
  firstObserved_writtenOnce [] twoVisits fun id person now hmem => by
    simp only [twoVisits, List.mem_cons, List.not_mem_nil, reduceCtorEq, Op.update.injEq,
      false_or, or_false] at hmem
    omega

end MinorityViewport.Scene
