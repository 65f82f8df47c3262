import MinorityViewport.Algorithms.WellFormed
import MinorityViewport.Algorithms.RigidCalibration

/-!
# Runs of the viewport

An `Event` is a call of the viewport from outside, or a round of the thread
that clears a scene.  A step ends in a state, or in a C++ exception that
keeps the writes before it.  Faults that C++ gives no meaning to end the run.

`Effect` lists what an event does to a well-formed state.  An invariant of
the runs is shown case by case over it, and `wellFormed_of_reachable` is the
first one.
-/

namespace MinorityViewport

open Exec Json Viewport

variable {K : Type} [Field K] [LinearOrder K] [Machine]

/-! ## Events -/

inductive Event (K : Type) where
  | registerClient (draws : List Nat) (phyLocation ipAddr : Str)
  | registerSensors (alloc : Allocator) (clientId : Nat) (rawSensorsList : Str)
  | deregisterClient (clientId : Nat)
  | processSensorData (now : Nat → Int) (sensorData : Str)
  | calibrateSceneOrder
  | calibrateScenes (svd : SvdCompute K) (sceneAOrder : Nat) (skeletonsA : Str)
      (sceneBOrder : Nat) (skeletonsB : Str)
  | getGlobalScene (rand : Nat → Nat) (now : Int)
  | clear (scenePtr : Addr)

/-- The call of an event. -/
def Event.call : Event K → EStateM Fault (Viewport K) PUnit
  | .registerClient draws phyLocation ipAddr => do
    let _ ← Viewport.registerClient draws phyLocation ipAddr
    pure ⟨⟩
  | .registerSensors alloc clientId rawSensorsList =>
    Viewport.registerSensors alloc clientId rawSensorsList
  | .deregisterClient clientId => Viewport.deregisterClient clientId
  | .processSensorData now sensorData => Viewport.processSensorData now sensorData
  | .calibrateSceneOrder => do
    let _ ← Viewport.calibrateSceneOrder
    pure ⟨⟩
  | .calibrateScenes svd sceneAOrder skeletonsA sceneBOrder skeletonsB => do
    let _ ← Viewport.calibrateScenes svd sceneAOrder skeletonsA sceneBOrder skeletonsB
    pure ⟨⟩
  | .getGlobalScene rand now => do
    let _ ← Viewport.getGlobalScene rand now
    pure ⟨⟩
  | .clear scenePtr => modify (·.write scenePtr Scene.manualClear)

/-- An event takes a state to another one. -/
def Step (σ : Viewport K) (e : Event K) (σ' : Viewport K) : Prop :=
  e.call.run σ = .ok ⟨⟩ σ' ∨
    ∃ fault : Fault, e.call.run σ = .error fault σ' ∧ fault.isException

theorem Step.after_eq {σ σ' : Viewport K} {e : Event K} (h : Step σ e σ') :
    after e.call σ = σ' := by
  rcases h with h | ⟨fault, h, _⟩ <;> rw [after, h]

/-- What stops a step is an exception. -/
theorem Step.isException {σ σ' s : Viewport K} {e : Event K} (h : Step σ e σ') {fault : Fault}
    (hrun : e.call.run σ = .error fault s) : fault.isException := by
  rcases h with h | ⟨fault', h, hexc⟩
  · rw [h] at hrun
    cases hrun
  · rw [h] at hrun
    cases hrun
    exact hexc

/-- The states that a server can come to. -/
inductive Reachable : Viewport K → Prop
  | start : Reachable start
  | step {σ σ' : Viewport K} {e : Event K} : Reachable σ → Step σ e σ' → Reachable σ'

/-- A run: the events and the states that they lead to. -/
inductive Run : Viewport K → List (Event K × Viewport K) → Prop
  | nil (σ : Viewport K) : Run σ []
  | cons {σ σ' : Viewport K} {e : Event K} {trace : List (Event K × Viewport K)} :
      Step σ e σ' → Run σ' trace → Run σ ((e, σ') :: trace)

/-- The run of a list of events. -/
def trail : Viewport K → List (Event K) → List (Event K × Viewport K)
  | _, [] => []
  | σ, e :: rest => (e, after e.call σ) :: trail (after e.call σ) rest

/-- Every event of the list returns. -/
def AllReturn : Viewport K → List (Event K) → Prop
  | _, [] => True
  | σ, e :: rest => (value? e.call σ).isSome ∧ AllReturn (after e.call σ) rest

theorem run_trail {σ : Viewport K} {events : List (Event K)} (h : AllReturn σ events) :
    Run σ (trail σ events) := by
  induction events generalizing σ with
  | nil => exact .nil σ
  | cons e rest ih =>
    obtain ⟨u, hu⟩ := Option.isSome_iff_exists.mp h.1
    exact .cons (Or.inl (run_eq_ok_of_value? hu)) (ih h.2)

instance : (σ : Viewport K) → (events : List (Event K)) → Decidable (AllReturn σ events)
  | _, [] => isTrue trivial
  | σ, e :: rest =>
    have := instDecidableAllReturn (after e.call σ) rest
    inferInstanceAs (Decidable ((value? e.call σ).isSome ∧ AllReturn (after e.call σ) rest))

/-- The state after a list of events. -/
def stateAfter (σ : Viewport K) (events : List (Event K)) : Viewport K :=
  events.foldl (fun σ e => after e.call σ) σ

theorem Reachable.stateAfter {σ : Viewport K} (hσ : Reachable σ) {events : List (Event K)}
    (h : AllReturn σ events) : Reachable (stateAfter σ events) := by
  induction events generalizing σ with
  | nil => exact hσ
  | cons e rest ih =>
    obtain ⟨u, hu⟩ := Option.isSome_iff_exists.mp h.1
    exact ih (hσ.step (Or.inl (run_eq_ok_of_value? hu))) h.2

/-! ## What an event does -/

/-- The events that do more than to write skeletons. -/
def Event.Loud : Event K → Prop
  | .registerClient .. | .registerSensors .. | .deregisterClient .. | .calibrateSceneOrder
  | .calibrateScenes .. => True
  | _ => False

/-- The outcomes of an event.  `quiet` is the outcome of the events that
only write skeletons. -/
inductive Effect (σ : Viewport K) : Event K → Viewport K → Prop
  | registered {draws : List Nat} {phyLocation ipAddr : Str} {id : Nat} {clients : ClientsList} :
      σ.clients.addClient draws phyLocation ipAddr = .ok (id, clients) →
      Effect σ (.registerClient draws phyLocation ipAddr) { σ with clients := clients }
  | unregistered {draws : List Nat} {phyLocation ipAddr : Str} :
      Effect σ (.registerClient draws phyLocation ipAddr) σ
  | enrolled {alloc : Allocator} {clientId : Nat} {rawSensorsList : Str} {σ' : Viewport K} :
      Enrolled σ σ' → Effect σ (.registerSensors alloc clientId rawSensorsList) σ'
  | deregistered {clientId : Nat} {client : Client} :
      σ.clients.find clientId = some client →
      Effect σ (.deregisterClient clientId) (σ.withoutClient clientId client)
  | unknown {clientId : Nat} :
      σ.clients.find clientId = none → Effect σ (.deregisterClient clientId) σ
  | accepted :
      (∀ a ∈ σ.owned, 0 < σ.scenes.firstObserved a) →
      Effect σ .calibrateSceneOrder σ.acceptedOrder
  | refused :
      (¬ ∀ a ∈ σ.owned, 0 < σ.scenes.firstObserved a) →
      Effect σ .calibrateSceneOrder σ.refusedOrder
  | recalibrated {svd : SvdCompute K} {sceneAOrder : Nat} {skeletonsA : Str}
      {sceneBOrder : Nat} {skeletonsB : Str} {σ' : Viewport K} :
      Touches Scene.SameExceptCalibration σ σ' →
      Effect σ (.calibrateScenes svd sceneAOrder skeletonsA sceneBOrder skeletonsB) σ'
  | quiet {e : Event K} {σ' : Viewport K} :
      ¬ e.Loud → Touches Scene.SameFrame σ σ' → Effect σ e σ'

theorem Step.effect {σ σ' : Viewport K} {e : Event K} (hwf : WellFormed σ)
    (h : Step σ e σ') : Effect σ e σ' := by
  rw [← h.after_eq]
  cases e with
  | registerClient draws phyLocation ipAddr =>
    rw [Event.call, after_bind_pure, Viewport.registerClient, after_get_bind]
    cases hadd : σ.clients.addClient draws phyLocation ipAddr with
    | error e => exact .unregistered
    | ok r => exact .registered hadd
  | registerSensors alloc clientId rawSensorsList =>
    exact .enrolled (hwf.registerSensors alloc clientId rawSensorsList).2
  | deregisterClient clientId =>
    rw [Event.call, after_deregisterClient]
    cases hfind : σ.clients.find clientId with
    | none => exact .unknown hfind
    | some client => exact .deregistered hfind
  | processSensorData now sensorData =>
    exact .quiet id (moves_processSensorData now sensorData σ)
  | calibrateSceneOrder =>
    rw [Event.call, after_bind_pure, hwf.after_calibrateSceneOrder]
    split_ifs with hpos
    · exact .accepted hpos
    · exact .refused hpos
  | calibrateScenes svd sceneAOrder skeletonsA sceneBOrder skeletonsB =>
    rw [Event.call, after_bind_pure]
    exact .recalibrated
      (moves_calibrateScenes svd sceneAOrder skeletonsA sceneBOrder skeletonsB σ)
  | getGlobalScene rand now =>
    rw [Event.call, after_bind_pure]
    exact .quiet id (moves_getGlobalScene rand now σ)
  | clear scenePtr => exact .quiet id (touches_write Scene.sameFrame_manualClear σ scenePtr)

theorem WellFormed.step {σ σ' : Viewport K} {e : Event K} (h : WellFormed σ)
    (hstep : Step σ e σ') : WellFormed σ' := by
  cases hstep.effect h with
  | registered hadd => exact h.registered hadd
  | unregistered => exact h
  | enrolled =>
    rw [← hstep.after_eq]
    exact (h.registerSensors _ _ _).1
  | deregistered hfind => exact h.withoutClient hfind
  | unknown => exact h
  | accepted => exact h.acceptedOrder
  | refused => exact h.refusedOrder
  | recalibrated ht => exact h.quiet ht.quiet_of_sameExceptCalibration
  | quiet _ ht => exact h.quiet ht.quiet_of_sameFrame

theorem wellFormed_of_reachable {σ : Viewport K} (h : Reachable σ) : WellFormed σ := by
  induction h with
  | start => exact wellFormed_start
  | step _ hstep ih => exact ih.step hstep

/-! ## Conditions on the steps of a run -/

/-- Every step of a run meets the condition. -/
def StepsMeet (C : Viewport K → Event K → Prop) : Viewport K → List (Event K × Viewport K) → Prop
  | _, [] => True
  | σ, (e, σ') :: trace => C σ e ∧ StepsMeet C σ' trace

instance (C : Viewport K → Event K → Prop) [∀ σ e, Decidable (C σ e)] :
    (σ : Viewport K) → (trace : List (Event K × Viewport K)) → Decidable (StepsMeet C σ trace)
  | _, [] => isTrue trivial
  | σ, (e, σ') :: trace =>
    have := instDecidableStepsMeet C σ' trace
    inferInstanceAs (Decidable (C σ e ∧ StepsMeet C σ' trace))

/-- A property that a step from a good state keeps exactly under a condition,
where the condition keeps the state good. -/
theorem Run.forall_iff {C : Viewport K → Event K → Prop} {I P : Viewport K → Prop}
    (hstep : ∀ σ e σ', WellFormed σ → I σ → Step σ e σ' → (P σ' ↔ C σ e) ∧ (C σ e → I σ'))
    {σ : Viewport K} {trace : List (Event K × Viewport K)} (hrun : Run σ trace)
    (hwf : WellFormed σ) (h : I σ) :
    (∀ p ∈ trace, P p.2) ↔ StepsMeet C σ trace := by
  induction hrun with
  | nil σ => exact iff_of_true (fun _ hp => absurd hp List.not_mem_nil) trivial
  | cons hs _ ih =>
    obtain ⟨hiff, hnext⟩ := hstep _ _ _ hwf h hs
    rw [List.forall_mem_cons, StepsMeet, hiff]
    exact and_congr_right fun hC => ih (hwf.step hs) (hnext hC)

end MinorityViewport
