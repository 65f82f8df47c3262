import MinorityViewport.Algorithms.CallReturns
import MinorityViewport.Algorithms.NeighbourCalibration
import MinorityViewport.Lib.Blocks

/-!
# Which points a calibration pairs

Row `r` of `A` and row `r` of `B` are taken for the same point of the same
pair of skeletons.  `blockLabels` of the stacked skeletons says which point
a row really is.

* `stackedPairs` are the usable pairs in the order of the rows, each with its
  index in the two lists, and `matrices_of_assemble` says that the matrices
  are stacked from them.
* `PairsSamePoints` and `OnlyFullSets` are the two halves of the property.
* `pairsSamePoints_iff` and `onlyFullSets_iff` say when they hold.  The test
  for a full set of joints looks at the coordinates of the joints and never
  at their number, and the sizes of the matrices add up over all pairs.
-/

namespace MinorityViewport

open Exec Json Viewport Blocks

variable {K : Type}

/-- The joint types before `None`. -/
def Joint.typeCount : Nat := 20

/-- A joint type is missing, or a joint has not been seen. -/
def Skeleton.LacksJoints [Zero K] [DecidableEq K] (s : Skeleton K) : Prop :=
  s.joints.length < Joint.typeCount ∨ s.checkFullSetOfJoints = false

section PointPairs

variable [Field K] [DecidableEq K]

namespace Viewport

/-! ## The rows and where they come from -/

/-- The list of skeletons of a text. -/
def skeletonsOf (text : Str) : Value :=
  ((Reader.parse text).getD .null).memberD "skeletons" .null

variable (K) in
/-- The usable pairs with their index.  The last pair comes first. -/
def stackedPairs (skeletonsA skeletonsB : Value) : List (Nat × Skeleton K × Skeleton K) :=
  ((partners skeletonsA skeletonsB).zipIdx.filterMap fun p =>
    (usable? p.1).map fun pair => (p.2, pair)).reverse

theorem map_snd_stackedPairs (skeletonsA skeletonsB : Value) :
    (stackedPairs K skeletonsA skeletonsB).map Prod.snd =
      (usablePartners K skeletonsA skeletonsB).reverse := by
  rw [stackedPairs, List.map_reverse, List.map_filterMap, usablePartners]
  conv_rhs => rw [← List.zipIdx_map_fst 0 (partners skeletonsA skeletonsB), List.filterMap_map]
  refine congrArg List.reverse (List.filterMap_congr fun p _ => ?_)
  rw [Option.map_map, Function.comp_apply]
  exact Option.map_id'

theorem mem_stackedPairs {skeletonsA skeletonsB : Value} {k : Nat}
    {pair : Skeleton K × Skeleton K} :
    (k, pair) ∈ stackedPairs K skeletonsA skeletonsB ↔
      ∃ p, (partners skeletonsA skeletonsB)[k]? = some p ∧ usable? p = some pair := by
  rw [stackedPairs, List.mem_reverse, List.mem_filterMap]
  constructor
  · rintro ⟨⟨p, i⟩, hmem, h⟩
    obtain ⟨pair', husable, heq⟩ := Option.map_eq_some_iff.mp h
    obtain ⟨rfl, rfl⟩ := Prod.mk.inj heq
    exact ⟨p, List.mk_mem_zipIdx_iff_getElem?.mp hmem, husable⟩
  · rintro ⟨p, hget, husable⟩
    refine ⟨(p, k), List.mk_mem_zipIdx_iff_getElem?.mpr hget, ?_⟩
    rw [husable, Option.map_some]

theorem nodup_stackedPairs (skeletonsA skeletonsB : Value) :
    ((stackedPairs K skeletonsA skeletonsB).map Prod.fst).Nodup := by
  rw [stackedPairs, List.map_reverse, List.nodup_reverse, List.Nodup, List.pairwise_map,
    List.pairwise_filterMap]
  have hindices : ((partners skeletonsA skeletonsB).zipIdx.map Prod.snd).Nodup := by
    rw [List.zipIdx_map_snd]
    exact List.nodup_range'
  rw [List.Nodup, List.pairwise_map] at hindices
  refine hindices.imp fun hne x hx y hy => ?_
  obtain ⟨_, _, rfl⟩ := Option.map_eq_some_iff.mp hx
  obtain ⟨_, _, rfl⟩ := Option.map_eq_some_iff.mp hy
  exact hne

variable (K) in
/-- The skeleton of the reference scene comes first. -/
def operandPairs (sceneAOrder sceneBOrder : Nat) (skeletonsA skeletonsB : Value) :
    List (Nat × Skeleton K × Skeleton K) :=
  if sceneAOrder < sceneBOrder then stackedPairs K skeletonsA skeletonsB
  else (stackedPairs K skeletonsA skeletonsB).map fun p => (p.1, p.2.swap)

omit [DecidableEq K] in
theorem stackPoints_eq_ok_iff {skeletons : List (Skeleton K)} {A : DynMat K} (hA : A.rows ≠ 0) :
    stackPoints skeletons = .ok A ↔ A = DynMat.ofRows 3 (skeletons.flatMap Skeleton.points) := by
  by_cases h : skeletons = []
  · subst h
    constructor
    · intro hstack
      rw [← Except.ok.inj hstack] at hA
      exact absurd rfl hA
    · intro hrows
      rw [hrows] at hA
      exact absurd rfl hA
  · rw [stackPoints_eq h]
    exact ⟨fun h => (Except.ok.inj h).symm, fun h => congrArg Except.ok h.symm⟩

/-- The rows of a matrix with points are those of its skeletons. -/
theorem matrices_of_assemble [Machine] {sceneAOrder sceneBOrder : Nat} {textA textB : Str}
    {m : Operands K} (h : assemble sceneAOrder textA sceneBOrder textB = .ok (some m))
    (hA : m.A.rows ≠ 0) (hB : m.B.rows ≠ 0) :
    let pairs := operandPairs K sceneAOrder sceneBOrder (skeletonsOf textA) (skeletonsOf textB)
    m.A = DynMat.ofRows 3 (pairs.flatMap fun p => p.2.1.points) ∧
      m.B = DynMat.ofRows 3 (pairs.flatMap fun p => p.2.2.points) := by
  obtain ⟨rootA, rootB, hA', hB'⟩ := read_of_assemble h
  obtain ⟨_, _, _, _, m', hm', hoperands⟩ := (assemble_eq_ok_iff hA' hB').mp h
  obtain rfl := Option.some.inj hm'
  have hlistA : skeletonsOf textA = rootA.memberD "skeletons" .null := by
    rw [skeletonsOf, Reader.parse_of_read hA', Option.getD_some]
  have hlistB : skeletonsOf textB = rootB.memberD "skeletons" .null := by
    rw [skeletonsOf, Reader.parse_of_read hB', Option.getD_some]
  rw [← hlistA, ← hlistB, ← map_snd_stackedPairs, List.map_map, List.map_map, operands]
    at hoperands
  unfold operandPairs
  split_ifs at hoperands ⊢
  all_goals
    obtain ⟨A, hstackA, hoperands⟩ := bind_eq_ok_iff.mp hoperands
    obtain ⟨B, hstackB, hoperands⟩ := bind_eq_ok_iff.mp hoperands
    obtain rfl := Except.ok.inj hoperands
    rw [stackPoints_eq_ok_iff hA, List.flatMap_map] at hstackA
    rw [stackPoints_eq_ok_iff hB, List.flatMap_map] at hstackB
  · exact ⟨hstackA, hstackB⟩
  · simp only [List.flatMap_map]
    exact ⟨hstackA, hstackB⟩

/-! ## The property -/

/-- A call gets as far as `H`, with these matrices.  Nothing behind `H`
throws before the scenes are looked up. -/
def ReachesH (svd : SvdCompute K) (σ : Viewport K) (sceneAOrder : Nat) (textA : Str)
    (sceneBOrder : Nat) (textB : Str) (m : Operands K) : Prop :=
  σ.orderedScenes ≠ [] ∧ assemble sceneAOrder textA sceneBOrder textB = .ok (some m) ∧
    IsOk (rigidFit svd m.A m.B)

omit [Field K] [DecidableEq K] in
/-- The pair and the place among the points of its reference skeleton, for
each row of `A`. -/
def refLabels (pairs : List (Nat × Skeleton K × Skeleton K)) : List (Nat × Nat) :=
  blockLabels Prod.fst (fun p => p.2.1.points) pairs

/-- The pair and the place among the points of its body skeleton, for each
row of `B`. -/
def bodyLabels (pairs : List (Nat × Skeleton K × Skeleton K)) : List (Nat × Nat) :=
  blockLabels Prod.fst (fun p => p.2.2.points) pairs

/-- Row `r` is point `j` of both skeletons of one pair. -/
def SamePoint (pairs : List (Nat × Skeleton K × Skeleton K)) (m : Operands K) (r : Nat) : Prop :=
  ∃ pair ∈ pairs, ∃ j, (refLabels pairs)[r]? = some (pair.1, j) ∧
    (bodyLabels pairs)[r]? = some (pair.1, j) ∧
      pair.2.1.points[j]? = some (m.A.row 3 r) ∧ pair.2.2.points[j]? = some (m.B.row 3 r)

structure PairsSamePoints (pairs : List (Nat × Skeleton K × Skeleton K)) (m : Operands K) :
    Prop where
  rows : m.A.rows = m.B.rows
  points : ∀ r < m.A.rows, SamePoint pairs m r

/-- A pair with a skeleton that lacks joints gives no row. -/
def OnlyFullSets (skeletonsA skeletonsB : Value) (pairs : List (Nat × Skeleton K × Skeleton K)) :
    Prop :=
  ∀ k p (skeletonA skeletonB : Skeleton K), (partners skeletonsA skeletonsB)[k]? = some p →
    Skeleton.ofJson p.1 0 = .ok skeletonA → Skeleton.ofJson p.2 0 = .ok skeletonB →
      skeletonA.LacksJoints ∨ skeletonB.LacksJoints →
        ∀ j, (k, j) ∉ refLabels pairs ∧ (k, j) ∉ bodyLabels pairs

/-! ## When it holds -/

omit [DecidableEq K] in
theorem pairsSamePoints_iff_labels {pairs : List (Nat × Skeleton K × Skeleton K)} {m : Operands K}
    (hkeys : (pairs.map Prod.fst).Nodup)
    (hA : m.A = DynMat.ofRows 3 (pairs.flatMap fun p => p.2.1.points))
    (hB : m.B = DynMat.ofRows 3 (pairs.flatMap fun p => p.2.2.points))
    (hrows : m.B.rows = m.A.rows) :
    PairsSamePoints pairs m ↔ refLabels pairs = bodyLabels pairs := by
  have hlenA : m.A.rows = (pairs.flatMap fun p => p.2.1.points).length := by
    rw [hA, DynMat.ofRows_rows]
  have hlenB : m.B.rows = (pairs.flatMap fun p => p.2.2.points).length := by
    rw [hB, DynMat.ofRows_rows]
  have hrefs : (refLabels pairs).length = m.A.rows := by
    rw [refLabels, length_blockLabels, hlenA]
  have hbodies : (bodyLabels pairs).length = m.A.rows := by
    rw [bodyLabels, length_blockLabels, ← hrows, hlenB]
  constructor
  · intro h
    refine List.ext_getElem? fun r => ?_
    by_cases hr : r < m.A.rows
    · obtain ⟨pair, _, j, href, hbody, _⟩ := h.points r hr
      rw [href, hbody]
    · rw [List.getElem?_eq_none (by omega), List.getElem?_eq_none (by omega)]
  · intro h
    refine ⟨hrows.symm, fun r hr => ?_⟩
    have href : (refLabels pairs)[r]? = some (refLabels pairs)[r] :=
      List.getElem?_eq_getElem (by omega)
    have hbody : (bodyLabels pairs)[r]? = some (refLabels pairs)[r] := by
      rw [← h, href]
    obtain ⟨pair, hpair, hkey, hpoint⟩ := exists_of_getElem?_blockLabels href
    obtain ⟨pair', hpair', hkey', hpoint'⟩ := exists_of_getElem?_blockLabels hbody
    obtain rfl : pair = pair' :=
      List.inj_on_of_nodup_map hkeys hpair hpair' (hkey.trans hkey'.symm)
    refine ⟨pair, hpair, (refLabels pairs)[r].2, ?_, ?_, ?_, ?_⟩
    · rw [href, hkey]
    · rw [hbody, hkey]
    · rw [← hpoint, hA, DynMat.ofRows_row 3 _ (by omega)]
      exact List.getElem?_eq_getElem (by omega)
    · rw [← hpoint', hB, DynMat.ofRows_row 3 _ (by omega)]
      exact List.getElem?_eq_getElem (by omega)

theorem nodup_operandPairs (sceneAOrder sceneBOrder : Nat) (skeletonsA skeletonsB : Value) :
    ((operandPairs K sceneAOrder sceneBOrder skeletonsA skeletonsB).map Prod.fst).Nodup := by
  unfold operandPairs
  split_ifs
  · exact nodup_stackedPairs skeletonsA skeletonsB
  · rw [List.map_map]
    exact nodup_stackedPairs skeletonsA skeletonsB

/-- A statement about both skeletons of a pair. -/
theorem forall_operandPairs_iff (sceneAOrder sceneBOrder : Nat) {skeletonsA skeletonsB : Value}
    {C : Skeleton K → Skeleton K → Prop} (hsymm : ∀ s s', C s s' → C s' s) :
    (∀ pair ∈ operandPairs K sceneAOrder sceneBOrder skeletonsA skeletonsB,
        C pair.2.1 pair.2.2) ↔
      ∀ pair ∈ usablePartners K skeletonsA skeletonsB, C pair.1 pair.2 := by
  have hstacked : (∀ pair ∈ stackedPairs K skeletonsA skeletonsB, C pair.2.1 pair.2.2) ↔
      ∀ pair ∈ usablePartners K skeletonsA skeletonsB, C pair.1 pair.2 := by
    have hmap := List.forall_mem_map (f := Prod.snd) (l := stackedPairs K skeletonsA skeletonsB)
      (P := fun p => C p.1 p.2)
    rw [← hmap, map_snd_stackedPairs]
    simp only [List.mem_reverse]
  rw [operandPairs, ← hstacked]
  split_ifs
  · exact Iff.rfl
  · rw [List.forall_mem_map]
    exact forall₂_congr fun pair _ => ⟨hsymm _ _, hsymm _ _⟩

/-- The rows of a call that reaches `H` correspond exactly when the skeletons
of each usable pair have equally many joints. -/
theorem pairsSamePoints_iff {svd : SvdCompute K} {σ : Viewport K} {sceneAOrder sceneBOrder : Nat}
    {textA textB : Str} {m : Operands K}
    (h : ReachesH svd σ sceneAOrder textA sceneBOrder textB m) :
    PairsSamePoints (operandPairs K sceneAOrder sceneBOrder (skeletonsOf textA)
        (skeletonsOf textB)) m ↔
      ∀ pair ∈ usablePartners K (skeletonsOf textA) (skeletonsOf textB),
        pair.1.joints.length = pair.2.joints.length := by
  obtain ⟨_, hm, hfit⟩ := h
  obtain ⟨hsizeA, hsizeB⟩ := assemble_size hm
  obtain ⟨hA0, hrows⟩ := (rigidFit_isOk_iff svd hsizeA hsizeB).mp hfit
  obtain ⟨hA, hB⟩ := matrices_of_assemble hm hA0 (hrows ▸ hA0)
  have hkeys := nodup_operandPairs (K := K) sceneAOrder sceneBOrder (skeletonsOf textA)
    (skeletonsOf textB)
  rw [pairsSamePoints_iff_labels hkeys hA hB hrows, refLabels, bodyLabels,
    blockLabels_eq_iff hkeys, ← forall_operandPairs_iff sceneAOrder sceneBOrder
      (C := fun s s' => s.joints.length = s'.joints.length) fun _ _ h => h.symm]
  simp only [Skeleton.points, List.length_cons, List.length_map, Nat.add_right_cancel_iff]

theorem usable?_eq_some_iff {p : Value × Value} {skeletonA skeletonB : Skeleton K} :
    usable? p = some (skeletonA, skeletonB) ↔
      Skeleton.ofJson p.1 0 = .ok skeletonA ∧ Skeleton.ofJson p.2 0 = .ok skeletonB ∧
        skeletonA.checkFullSetOfJoints ∧ skeletonB.checkFullSetOfJoints := by
  unfold usable?
  cases Skeleton.ofJson (K := K) p.1 0 with
  | error e => exact iff_of_false (fun h => by cases h) fun h => by cases h.1
  | ok a =>
    cases Skeleton.ofJson (K := K) p.2 0 with
    | error e => exact iff_of_false (fun h => by cases h) fun h => by cases h.2.1
    | ok b =>
      simp only [Except.ok.injEq]
      split_ifs with hfull
      · rw [Bool.and_eq_true] at hfull
        constructor
        · intro h
          obtain ⟨rfl, rfl⟩ := Prod.mk.inj (Option.some.inj h)
          exact ⟨rfl, rfl, hfull⟩
        · rintro ⟨rfl, rfl, _⟩
          rfl
      · rw [Bool.and_eq_true] at hfull
        refine iff_of_false (fun h => by cases h) ?_
        rintro ⟨rfl, rfl, h⟩
        exact hfull h

/-- The pairs with rows are the usable ones. -/
theorem exists_mem_labels_iff (sceneAOrder sceneBOrder : Nat) (skeletonsA skeletonsB : Value)
    (k : Nat) :
    let pairs := operandPairs K sceneAOrder sceneBOrder skeletonsA skeletonsB
    (∃ j, (k, j) ∈ refLabels pairs ∨ (k, j) ∈ bodyLabels pairs) ↔
      ∃ pair, (k, pair) ∈ stackedPairs K skeletonsA skeletonsB := by
  have hkeys : (operandPairs K sceneAOrder sceneBOrder skeletonsA skeletonsB).map Prod.fst =
      (stackedPairs K skeletonsA skeletonsB).map Prod.fst := by
    unfold operandPairs
    split_ifs
    · rfl
    · rw [List.map_map]
      rfl
  simp only [exists_or, refLabels, bodyLabels,
    exists_mem_blockLabels_iff fun _ => Skeleton.points_ne_nil _, or_self, hkeys,
    List.mem_map, Prod.exists, exists_and_right, exists_eq_right]

/-- No row comes from a pair that lacks joints exactly when every usable
pair has all joint types. -/
theorem onlyFullSets_iff (sceneAOrder sceneBOrder : Nat) (skeletonsA skeletonsB : Value) :
    OnlyFullSets skeletonsA skeletonsB
        (operandPairs K sceneAOrder sceneBOrder skeletonsA skeletonsB) ↔
      ∀ pair ∈ usablePartners K skeletonsA skeletonsB,
        Joint.typeCount ≤ pair.1.joints.length ∧ Joint.typeCount ≤ pair.2.joints.length := by
  constructor
  · intro h pair hpair
    rw [← List.mem_reverse, ← map_snd_stackedPairs] at hpair
    obtain ⟨⟨k, pair⟩, hstacked, rfl⟩ := List.mem_map.mp hpair
    obtain ⟨p, hget, husable⟩ := mem_stackedPairs.mp hstacked
    obtain ⟨hA, hB, _⟩ := usable?_eq_some_iff.mp husable
    obtain ⟨j, hj⟩ := (exists_mem_labels_iff sceneAOrder sceneBOrder skeletonsA skeletonsB k).mpr
      ⟨pair, hstacked⟩
    by_contra hshort
    change ¬ (Joint.typeCount ≤ pair.1.joints.length ∧
      Joint.typeCount ≤ pair.2.joints.length) at hshort
    have hlacks : pair.1.LacksJoints ∨ pair.2.LacksJoints := by
      rw [Skeleton.LacksJoints, Skeleton.LacksJoints]
      omega
    obtain ⟨hnoRef, hnoBody⟩ := h k p pair.1 pair.2 hget hA hB hlacks j
    exact hj.elim hnoRef hnoBody
  · intro h k p skeletonA skeletonB hget hA hB hlacks j
    rw [← not_or]
    intro hj
    obtain ⟨pair, hstacked⟩ :=
      (exists_mem_labels_iff sceneAOrder sceneBOrder skeletonsA skeletonsB k).mp ⟨j, hj⟩
    obtain ⟨p', hget', husable⟩ := mem_stackedPairs.mp hstacked
    obtain rfl : p = p' := Option.some.inj (hget.symm.trans hget')
    obtain ⟨hA', hB', hfullA, hfullB⟩ := usable?_eq_some_iff.mp husable
    obtain rfl : skeletonA = pair.1 := Except.ok.inj (hA.symm.trans hA')
    obtain rfl : skeletonB = pair.2 := Except.ok.inj (hB.symm.trans hB')
    have hlong := h pair (by
      rw [← List.mem_reverse, ← map_snd_stackedPairs]
      exact List.mem_map_of_mem hstacked)
    simp only [Skeleton.LacksJoints, hfullA, hfullB, Bool.true_eq_false, or_false] at hlacks
    omega

theorem exists_reachesH_iff (svd : SvdCompute K) (σ : Viewport K) (sceneAOrder : Nat)
    (textA : Str) (sceneBOrder : Nat) (textB : Str) :
    (∃ m, ReachesH svd σ sceneAOrder textA sceneBOrder textB m) ↔
      σ.orderedScenes ≠ [] ∧ Fits K textA textB := by
  rw [fits_iff svd sceneAOrder textA sceneBOrder textB]
  exact exists_and_left

end Viewport

/-- For every call, what the matrices need to pair the same points, and what
the pairs need to be full sets. -/
theorem calibration_pairs_iff (svd : SvdCompute K) (σ : Viewport K) (sceneAOrder : Nat)
    (textA : Str) (sceneBOrder : Nat) (textB : Str) :
    let pairs := operandPairs K sceneAOrder sceneBOrder (skeletonsOf textA) (skeletonsOf textB)
    let usable := usablePartners K (skeletonsOf textA) (skeletonsOf textB)
    ((∀ m, ReachesH svd σ sceneAOrder textA sceneBOrder textB m → PairsSamePoints pairs m) ↔
        (σ.orderedScenes ≠ [] → Fits K textA textB →
          ∀ pair ∈ usable, pair.1.joints.length = pair.2.joints.length)) ∧
      ((∀ m, ReachesH svd σ sceneAOrder textA sceneBOrder textB m →
          OnlyFullSets (skeletonsOf textA) (skeletonsOf textB) pairs) ↔
        (σ.orderedScenes ≠ [] → Fits K textA textB →
          ∀ pair ∈ usable, Joint.typeCount ≤ pair.1.joints.length ∧
            Joint.typeCount ≤ pair.2.joints.length)) := by
  have hreach := exists_reachesH_iff svd σ sceneAOrder textA sceneBOrder textB
  intro pairs usable
  rw [← and_imp, ← and_imp, ← hreach]
  constructor
  · constructor
    · rintro h ⟨m, hm⟩
      exact (pairsSamePoints_iff hm).mp (h m hm)
    · exact fun h m hm => (pairsSamePoints_iff hm).mpr (h ⟨m, hm⟩)
  · rw [← onlyFullSets_iff sceneAOrder sceneBOrder]
    exact ⟨fun h ⟨m, hm⟩ => h m hm, fun h m hm => h ⟨m, hm⟩⟩

end PointPairs

/-- Two pairs of skeletons.  One joint more on one side of the first pair,
and on the other side of the second pair. -/
def offsetTexts : Str × Str :=
  let joints := ",\"joints\":[\x7b\"X\":1,\"Y\":1,\"Z\":1\x7d]"
  let first := "\x7b\"skeletons\":[\x7b\"sensor_id\":\"s\""
  let second := "\x7d,\x7b\"sensor_id\":\"s\""
  let last := "\x7d]\x7d"
  ((first ++ joints ++ second ++ last).toList, (first ++ second ++ joints ++ last).toList)

/-- Both matrices have three rows, and the second row of `A` is a position
where that of `B` is a joint. -/
theorem not_pairsSamePoints_offset :
    Reachable (stateAfter start (calibrationsOf [])) ∧
      ¬ ∀ m, ReachesH (fun _ => ⟨0, 1, 1⟩) (stateAfter start (calibrationsOf []))
          1 offsetTexts.1 2 offsetTexts.2 m →
        PairsSamePoints (operandPairs ℚ 1 2 (skeletonsOf offsetTexts.1)
          (skeletonsOf offsetTexts.2)) m := by
  obtain ⟨hreach, hordered⟩ := ordered_calibrationsOf_nil
  have hfits : Fits ℚ offsetTexts.1 offsetTexts.2 := by decide +kernel
  have hcounts : ¬ ∀ pair ∈ usablePartners ℚ (skeletonsOf offsetTexts.1)
      (skeletonsOf offsetTexts.2), pair.1.joints.length = pair.2.joints.length := by
    decide +kernel
  refine ⟨hreach, fun h => hcounts ?_⟩
  obtain ⟨m, hm⟩ := (exists_reachesH_iff (fun _ => ⟨0, 1, 1⟩)
    (stateAfter start (calibrationsOf [])) 1 offsetTexts.1 2 offsetTexts.2).mpr
    ⟨by rw [hordered]; exact List.cons_ne_nil 1 [2, 3], hfits⟩
  exact (pairsSamePoints_iff hm).mp (h m hm)

end MinorityViewport
