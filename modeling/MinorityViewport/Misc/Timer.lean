import MinorityViewport.Data.SceneHistory

/-!
# The timer

`Misc/Timer.cpp` with `clock_t` and `long` of 32 bits.  The timer adds the
time in seconds that it starts with and the milliseconds of `clock()` since
then.  `getTicksMs` is `none` where C++ gives the result no meaning: where
the difference of two `clock_t` overflows, or the sum does not fit into one.

* `usable_iff` says up to which uptime the readings are usable: they have
  values, they do not decrease, and the time of the next refresh is after
  the time that it is computed from.
* Up to there `cleared_apart` says that a scene is not refreshed again before
  the interval is over, and `time_runAll_of_timer` that a scene keeps its
  first-observed time, if the timer starts with a positive time.
-/

namespace MinorityViewport

/-- The values of `clock_t`, and of `long`. -/
def InClockT (x : Int) : Prop := -2 ^ 31 ≤ x ∧ x < 2 ^ 31

instance (x : Int) : Decidable (InClockT x) := inferInstanceAs (Decidable (_ ∧ _))

/-- A result that has to be a `clock_t`. -/
def toClockT? (x : Int) : Option Int := if InClockT x then some x else none

structure Timer where
  startedAt : Int
  pausedAt : Int
  internalCounter : Option Int
  started : Bool
  paused : Bool

namespace Timer

/-- `Timer::Timer`, which leaves the counter unassigned. -/
def new (startAt : Int) : Timer := ⟨startAt, 0, none, false, false⟩

/-- `Timer::Start` at the reading `clock` of `clock()`. -/
def start (timer : Timer) (clock : Int) : Timer :=
  if timer.started then timer
  else { timer with started := true, paused := false, internalCounter := some clock }

/-- `Timer::GetTicks_ms`.  The sum is one of `double`, which is exact here. -/
def getTicksMs (timer : Timer) (clock : Int) : Option Int :=
  if ¬ timer.started then some 0
  else if timer.paused then toClockT? (timer.pausedAt - timer.startedAt)
  else do
    let internalCounter ← timer.internalCounter
    let secondsPassed ← toClockT? (clock - internalCounter)
    toClockT? (timer.startedAt + secondsPassed)

/-- The timer that `Core` builds: it starts at once. -/
def ofCore (startAt clock : Int) : Timer := (new startAt).start clock

theorem getTicksMs_ofCore (startAt first clock : Int) :
    (ofCore startAt first).getTicksMs clock =
      (toClockT? (clock - first)).bind fun passed => toClockT? (startAt + passed) := rfl

end Timer

/-! ## The refresh thread -/

/-- The conversion of an `unsigned long` to a `long`. -/
def toLong (x : Int) : Int := if x < 2 ^ 31 then x else x - 2 ^ 32

/-- `_refreshRate_ms`. -/
def refreshRateMs : Int := 3000

/-- `curTime + _refreshRate_ms`, a sum of `unsigned long`, as a `long`. -/
def nextLapse (curTime : Int) : Int := toLong ((curTime % 2 ^ 32 + refreshRateMs) % 2 ^ 32)

theorem nextLapse_eq {curTime : Int} (h : InClockT curTime) :
    nextLapse curTime =
      if curTime + refreshRateMs < 2 ^ 31 then curTime + refreshRateMs
      else curTime + refreshRateMs - 2 ^ 32 := by
  unfold nextLapse toLong refreshRateMs
  unfold InClockT at h
  split_ifs <;> omega

theorem lt_nextLapse_iff {curTime : Int} (h : InClockT curTime) :
    curTime < nextLapse curTime ↔ curTime + refreshRateMs < 2 ^ 31 := by
  rw [nextLapse_eq h]
  unfold refreshRateMs
  split_ifs <;> omega

theorem nextLapse_eq_add {curTime : Int} (h : InClockT curTime ∧ curTime < nextLapse curTime) :
    nextLapse curTime = curTime + refreshRateMs := by
  rw [nextLapse_eq h.1, if_pos ((lt_nextLapse_iff h.1).mp h.2)]

theorem nextLapse_le_nextLapse {curTime later : Int}
    (h : InClockT curTime ∧ curTime < nextLapse curTime)
    (h' : InClockT later ∧ later < nextLapse later) (hle : curTime ≤ later) :
    nextLapse curTime ≤ nextLapse later := by
  rw [nextLapse_eq_add h, nextLapse_eq_add h']
  omega

/-- The rounds of `Scene::Clear`, each with its two readings: whether they
clear the scene.  `lapse` is the variable `nextLapse`. -/
def refresh (lapse : Int) : List (Int × Int) → List Bool
  | [] => []
  | (curTime, now) :: rest =>
    if lapse < now then true :: refresh (nextLapse curTime) rest
    else false :: refresh lapse rest

/-- Where the lapse fits into a `long`, it does not go back, so a round that
clears has read a later time. -/
theorem lt_of_refresh {rounds : List (Int × Int)} {lapse : Int}
    (hfit : ∀ r ∈ rounds, InClockT r.1 ∧ r.1 < nextLapse r.1)
    (hmono : rounds.Pairwise fun r r' => r.1 ≤ r'.1)
    (hlapse : ∀ r ∈ rounds, lapse ≤ nextLapse r.1) {r : Int × Int}
    (hr : (r, true) ∈ rounds.zip (refresh lapse rounds)) : lapse < r.2 := by
  induction rounds generalizing lapse with
  | nil => cases hr
  | cons first rest ih =>
    obtain ⟨curTime, now⟩ := first
    obtain ⟨hfirst, hfit⟩ := List.forall_mem_cons.mp hfit
    obtain ⟨hle, hmono⟩ := List.pairwise_cons.mp hmono
    obtain ⟨hnext, hlapse⟩ := List.forall_mem_cons.mp hlapse
    unfold refresh at hr
    split_ifs at hr with hlt
    · rcases List.mem_cons.mp hr with heq | hr
      · rw [(Prod.mk.inj heq).1]
        exact hlt
      · refine Int.lt_of_le_of_lt hnext (ih hfit hmono (fun r hmem => ?_) hr)
        exact nextLapse_le_nextLapse hfirst (hfit r hmem) (hle r hmem)
    · rcases List.mem_cons.mp hr with heq | hr
      · cases (Prod.mk.inj heq).2
      · exact ih hfit hmono hlapse hr

/-- Between two refreshes the interval goes by. -/
theorem cleared_apart {rounds : List (Int × Int)}
    (hfit : ∀ r ∈ rounds, InClockT r.1 ∧ r.1 < nextLapse r.1)
    (hmono : rounds.Pairwise fun r r' => r.1 ≤ r'.1) (lapse : Int) :
    (rounds.zip (refresh lapse rounds)).Pairwise fun p q =>
      p.2 → q.2 → p.1.1 + refreshRateMs < q.1.2 := by
  induction rounds generalizing lapse with
  | nil => exact List.Pairwise.nil
  | cons first rest ih =>
    obtain ⟨curTime, now⟩ := first
    obtain ⟨hfirst, hfit⟩ := List.forall_mem_cons.mp hfit
    obtain ⟨hle, hmono⟩ := List.pairwise_cons.mp hmono
    unfold refresh
    split_ifs with hlt
    · refine List.Pairwise.cons (fun q hq _ hcleared => ?_) (ih hfit hmono _)
      obtain ⟨r, cleared⟩ := q
      obtain rfl : cleared = true := hcleared
      have hnext := lt_of_refresh hfit hmono
        (fun r hmem => nextLapse_le_nextLapse hfirst (hfit r hmem) (hle r hmem)) hq
      rwa [nextLapse_eq_add hfirst] at hnext
    · exact List.Pairwise.cons (fun q _ h => by cases h) (ih hfit hmono _)

/-! ## Usable readings -/

namespace Timer

/-- The readings have values that do not decrease, and the next refresh is
always to come. -/
def Usable (timer : Timer) (clock : Nat → Int) : Prop :=
  ∃ ticks : Nat → Int, (∀ i, timer.getTicksMs (clock i) = some (ticks i)) ∧
    (∀ i j, i ≤ j → ticks i ≤ ticks j) ∧ ∀ i, ticks i < nextLapse (ticks i)

theorem toClockT?_eq_some_iff {x y : Int} : toClockT? x = some y ↔ InClockT x ∧ y = x := by
  unfold toClockT?
  split_ifs with h
  · simp [h, eq_comm]
  · simp [h]

theorem getTicksMs_ofCore_eq_some_iff {startAt first clock v : Int} :
    (ofCore startAt first).getTicksMs clock = some v ↔
      InClockT (clock - first) ∧ InClockT (startAt + (clock - first)) ∧
        v = startAt + (clock - first) := by
  rw [getTicksMs_ofCore, Option.bind_eq_some_iff]
  constructor
  · intro h
    obtain ⟨passed, hpassed, hsum⟩ := h
    obtain ⟨hfit, rfl⟩ := toClockT?_eq_some_iff.mp hpassed
    exact ⟨hfit, toClockT?_eq_some_iff.mp hsum⟩
  · intro h
    exact ⟨_, toClockT?_eq_some_iff.mpr ⟨h.1, rfl⟩, toClockT?_eq_some_iff.mpr h.2⟩

/-- The readings of the timer of `Core` are usable exactly as long as the
uptime fits into a `clock_t`, and the start time, the uptime and the refresh
interval together do. -/
theorem usable_iff {startAt first : Int} {clock : Nat → Int} (hstart : InClockT startAt)
    (hle : first ≤ clock 0) (hmono : ∀ i j, i ≤ j → clock i ≤ clock j) :
    (ofCore startAt first).Usable clock ↔
      ∀ i, clock i - first < 2 ^ 31 ∧ startAt + (clock i - first) + refreshRateMs < 2 ^ 31 := by
  constructor
  · intro h i
    obtain ⟨ticks, hticks, _, hnext⟩ := h
    obtain ⟨hfit, hsum, hv⟩ := getTicksMs_ofCore_eq_some_iff.mp (hticks i)
    have hlt := hnext i
    rw [hv, lt_nextLapse_iff hsum] at hlt
    exact ⟨hfit.2, hlt⟩
  · intro h
    have hpos : ∀ i, 0 ≤ clock i - first := fun i => by
      have := hmono 0 i (Nat.zero_le i)
      omega
    have hsum : ∀ i, InClockT (startAt + (clock i - first)) := fun i => by
      have hi := hpos i
      have hbound := (h i).2
      unfold refreshRateMs at hbound
      exact ⟨by have := hstart.1; omega, by omega⟩
    refine ⟨fun i => startAt + (clock i - first), fun i => ?_, fun i j hij => ?_, fun i => ?_⟩
    · refine getTicksMs_ofCore_eq_some_iff.mpr ⟨⟨?_, (h i).1⟩, hsum i, rfl⟩
      have hi := hpos i
      omega
    · have hij := hmono i j hij
      show startAt + (clock i - first) ≤ startAt + (clock j - first)
      omega
    · exact (lt_nextLapse_iff (hsum i)).mpr (h i).2

/-- The first day of a server that is started in September 2013. -/
theorem usable_firstDay : (ofCore 1380000000 0).Usable fun i => min (i : Int) 86400000 :=
  (usable_iff (by decide) (by decide) fun i j hij => by
    show min (i : Int) 86400000 ≤ min (j : Int) 86400000
    omega).mpr fun i => by
      unfold refreshRateMs
      omega

/-- A reading on each of nine days. -/
def nineDays (i : Nat) : Int := 86400000 * min i 9

/-- On the ninth day the sum does not fit any more. -/
theorem not_usable_nineDays :
    (InClockT 1380000000 ∧ InClockT 0 ∧ 0 ≤ nineDays 0) ∧
      (∀ i, InClockT (nineDays i)) ∧ (∀ i j, i ≤ j → nineDays i ≤ nineDays j) ∧
        (ofCore 1380000000 0).getTicksMs (nineDays 9) = none ∧
          ¬ (ofCore 1380000000 0).Usable nineDays := by
  have hnone : (ofCore 1380000000 0).getTicksMs (nineDays 9) = none := by decide
  refine ⟨by decide, fun i => ?_, fun i j hij => ?_, hnone, fun h => ?_⟩
  · unfold InClockT nineDays
    omega
  · unfold nineDays
    omega
  · obtain ⟨ticks, hticks, _⟩ := h
    rw [hticks 9] at hnone
    cases hnone

/-- A timer that starts with a positive time has positive readings, so a
scene that reads it keeps its first-observed time. -/
theorem time_runAll_of_timer {K : Type} {startAt first : Int} {clock : Nat → Int}
    (hpos : 0 < startAt) (hle : first ≤ clock 0) (hmono : ∀ i j, i ≤ j → clock i ≤ clock j)
    (sensorId : Str) {ops : List (Scene.Op K)}
    (hops : ∀ id person now, Scene.Op.update id person now ∈ ops →
      ∃ i, (ofCore startAt first).getTicksMs (clock i) = some now) :
    ((Scene.ofSensor sensorId : Scene K).runAll ops).firstSkeletonObservedTime =
      (Scene.firstReading ops).getD 0 := by
  refine (Scene.unseen_ofSensor sensorId).time_runAll fun id person now hmem => ?_
  obtain ⟨i, hticks⟩ := hops id person now hmem
  obtain ⟨_, _, rfl⟩ := getTicksMs_ofCore_eq_some_iff.mp hticks
  have := hmono 0 i (Nat.zero_le i)
  omega

end Timer

end MinorityViewport
