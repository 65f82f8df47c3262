import MinorityViewport.Algorithms.SceneOrder
import MinorityViewport.Lib.Neighbours
import Mathlib.Data.Rat.Defs

/-!
# When the order is a total order

A successful `CalibrateSceneOrder` always leaves the scenes of the
registered sensors in the order of their first observations.  It leaves each
of them once, and numbers them without a gap, exactly when no two of them
were first observed at the same timer reading.

`nodup_inOrder_iff` is the fact about the nested loop behind this.
`OrderedTotally` is the property of the state after the call.
`leftOf_newOrder_iff` says which scenes come to stand next to each other, in
terms of the times that they were first observed at.
-/

namespace MinorityViewport.Viewport

open Exec
open Neighbours (LeftOf)

variable {K : Type}

/-! ## The list that the nested loop builds -/

theorem mem_inOrder {t : Addr → Int} {scenesSet : List Addr} {a : Addr} :
    a ∈ inOrder t scenesSet ↔ a ∈ scenesSet := by
  simp only [inOrder, List.mem_flatMap, List.mem_insertionSort, List.mem_map,
    List.mem_filter, decide_eq_true_eq]
  constructor
  · rintro ⟨_, _, ha, _⟩
    exact ha
  · exact fun ha => ⟨t a, ⟨a, ha, rfl⟩, ha, rfl⟩

theorem pairwise_inOrder (t : Addr → Int) (scenesSet : List Addr) :
    (inOrder t scenesSet).Pairwise (fun a b => t a ≤ t b) := by
  rw [inOrder, List.pairwise_flatMap]
  constructor
  · intro timeStamp _
    refine List.Pairwise.imp_of_mem ?_ (List.pairwise_of_forall fun _ _ => trivial)
    intro a b ha hb _
    rw [List.mem_filter, decide_eq_true_eq] at ha hb
    exact le_of_eq (ha.2.trans hb.2.symm)
  · refine (List.pairwise_insertionSort (· ≤ ·) (scenesSet.map t)).imp ?_
    intro t₁ t₂ hle a ha b hb
    rw [List.mem_filter, decide_eq_true_eq] at ha hb
    rw [ha.2, hb.2]
    exact hle

/-- A stamp of two scenes is in the sorted list twice, and picks both of
them each time. -/
theorem nodup_inOrder_iff {t : Addr → Int} {scenesSet : List Addr}
    (hset : scenesSet.Nodup) :
    (inOrder t scenesSet).Nodup ↔ (scenesSet.map t).Nodup := by
  have hsort : ((scenesSet.map t).insertionSort (· ≤ ·)).Nodup ↔ (scenesSet.map t).Nodup :=
    (List.perm_insertionSort (· ≤ ·) (scenesSet.map t)).nodup_iff
  rw [inOrder, List.nodup_flatMap, ← hsort]
  constructor
  · rintro ⟨_, hdisjoint⟩
    refine hdisjoint.imp_of_mem ?_
    intro t₁ t₂ h₁ _ hdis heq
    obtain ⟨a, ha, hta⟩ := List.mem_map.mp (List.mem_insertionSort (· ≤ ·) |>.mp h₁)
    have hmem : a ∈ scenesSet.filter (t · = t₁) :=
      List.mem_filter.mpr ⟨ha, decide_eq_true hta⟩
    exact hdis hmem (heq ▸ hmem)
  · intro hnodup
    refine ⟨fun _ _ => hset.filter _, hnodup.imp ?_⟩
    intro t₁ t₂ hne a h₁ h₂
    rw [List.mem_filter, decide_eq_true_eq] at h₁ h₂
    exact hne (h₁.2.symm.trans h₂.2)

/-! ## The neighbours in the list -/

/-- An address comes before another: by the stamps, and within a stamp in the
order of the set. -/
def StampedBefore (t : Addr → Int) (b a : Addr) : Prop := t b < t a ∨ t b = t a ∧ b < a

/-- No scene comes between `b` and `a`.  As the scenes of a stamp are picked
again and again, the last of them comes before the first of them, too. -/
def StampedNext (t : Addr → Int) (scenesSet : List Addr) (b a : Addr) : Prop :=
  b ∈ scenesSet ∧ a ∈ scenesSet ∧
    (StampedBefore t b a ∧ (∀ c ∈ scenesSet, ¬ (StampedBefore t b c ∧ StampedBefore t c a)) ∨
      t b = t a ∧ a < b ∧ ∀ c ∈ scenesSet, t c = t a → a ≤ c ∧ c ≤ b)

instance (t : Addr → Int) (b a : Addr) : Decidable (StampedBefore t b a) :=
  inferInstanceAs (Decidable (_ ∨ _))

instance (t : Addr → Int) (scenesSet : List Addr) (b a : Addr) :
    Decidable (StampedNext t scenesSet b a) :=
  inferInstanceAs (Decidable (_ ∧ _))

section Stamps

variable {t : Addr → Int} {scenesSet : List Addr} {b a : Addr}

/-- The scenes of a stamp. -/
theorem mem_stamped {timeStamp : Int} :
    a ∈ scenesSet.filter (t · = timeStamp) ↔ a ∈ scenesSet ∧ t a = timeStamp := by
  rw [List.mem_filter, decide_eq_true_eq]

/-- A stamp is there for each of its scenes. -/
theorem two_le_count_iff (hset : scenesSet.Nodup) (hb : b ∈ scenesSet) (ha : a ∈ scenesSet)
    (htime : t b = t a) (hends : ∀ c ∈ scenesSet, t c = t a → a ≤ c ∧ c ≤ b) :
    2 ≤ (scenesSet.map t).count (t a) ↔ a < b := by
  have hcount : (scenesSet.map t).count (t a) = (scenesSet.filter (t · = t a)).length := by
    rw [List.count, List.countP_map, List.countP_eq_length_filter]
    rfl
  have hmem : ∀ c ∈ scenesSet.filter (t · = t a), a ≤ c ∧ c ≤ b := fun c hc =>
    hends c (mem_stamped.mp hc).1 (mem_stamped.mp hc).2
  rw [hcount, Nat.succ_le_iff]
  constructor
  · refine fun htwo => lt_of_le_of_ne (hends b hb htime).1 fun heq => ?_
    have hsub : scenesSet.filter (t · = t a) ⊆ [a] := fun c hc =>
      List.mem_singleton.mpr (le_antisymm (heq ▸ (hmem c hc).2) (hmem c hc).1)
    have hle := ((hset.filter _).subperm hsub).length_le
    rw [List.length_singleton] at hle
    omega
  · intro hlt
    have hnodup : [a, b].Nodup := by simpa using hlt.ne
    have hsub : [a, b] ⊆ scenesSet.filter (t · = t a) := by
      intro c hc
      rcases List.mem_pair.mp hc with rfl | rfl
      · exact mem_stamped.mpr ⟨ha, rfl⟩
      · exact mem_stamped.mpr ⟨hb, htime⟩
    exact (hnodup.subperm hsub).length_le

/-- The neighbours among the sorted stamps. -/
theorem leftOf_stamps_iff (hb : b ∈ scenesSet) (ha : a ∈ scenesSet) :
    LeftOf ((scenesSet.map t).insertionSort (· ≤ ·)) (t b) (t a) ↔
      t b < t a ∧ (∀ c ∈ scenesSet, ¬ (t b < t c ∧ t c < t a)) ∨
        t b = t a ∧ 2 ≤ (scenesSet.map t).count (t a) := by
  have hsorted : ((scenesSet.map t).insertionSort (· ≤ ·)).Pairwise (· ≤ ·) :=
    List.pairwise_insertionSort _ _
  by_cases htime : t b = t a
  · rw [htime, Neighbours.leftOf_self_iff_of_sorted hsorted,
      (List.perm_insertionSort (· ≤ ·) _).count_eq]
    simp
  · rw [Neighbours.leftOf_iff_of_sorted hsorted htime]
    simp only [List.mem_insertionSort, List.mem_map, forall_exists_index, and_imp,
      forall_apply_eq_imp_iff₂, htime, false_and, or_false]
    exact ⟨fun h => h.2.2, fun h => ⟨⟨b, hb, rfl⟩, ⟨a, ha, rfl⟩, h⟩⟩

/-- The stamps of two scenes that end a stamp and begin one are neighbours
exactly if the scenes are. -/
theorem leftOf_stamps_iff_stampedNext (hset : scenesSet.Nodup) (hb : b ∈ scenesSet)
    (ha : a ∈ scenesSet) (hlast : ∀ c ∈ scenesSet, t c = t b → c ≤ b)
    (hfirst : ∀ c ∈ scenesSet, t c = t a → a ≤ c) :
    LeftOf ((scenesSet.map t).insertionSort (· ≤ ·)) (t b) (t a) ↔
      t b < t a ∧ (∀ c ∈ scenesSet, ¬ (StampedBefore t b c ∧ StampedBefore t c a)) ∨
        t b = t a ∧ a < b := by
  rw [leftOf_stamps_iff hb ha]
  refine or_congr (and_congr_right fun hlt => forall₂_congr fun c hc => not_congr ?_)
    (and_congr_right fun htime => two_le_count_iff hset hb ha htime fun c hc h =>
      ⟨hfirst c hc h, hlast c hc (h.trans htime.symm)⟩)
  constructor
  · exact fun h => ⟨Or.inl h.1, Or.inl h.2⟩
  · rintro ⟨hbc | ⟨hbc, hblt⟩, hca | ⟨hca, halt⟩⟩
    · exact ⟨hbc, hca⟩
    · exact absurd halt (not_lt.mpr (hfirst c hc hca))
    · exact absurd hblt (not_lt.mpr (hlast c hc hbc.symm))
    · exact absurd (hbc.trans hca) hlt.ne

/-- The neighbours in the list that the nested loop builds. -/
theorem leftOf_inOrder_iff (hset : scenesSet.Pairwise (· < ·)) :
    LeftOf (inOrder t scenesSet) b a ↔ StampedNext t scenesSet b a := by
  have hnodup : scenesSet.Nodup := hset.imp ne_of_lt
  have hstamped : ∀ timeStamp, (scenesSet.filter (t · = timeStamp)).Pairwise (· ≤ ·) :=
    fun _ => (hset.imp le_of_lt).filter _
  have hstamps : ∀ timeStamp, timeStamp ∈ (scenesSet.map t).insertionSort (· ≤ ·) ↔
      ∃ c ∈ scenesSet, t c = timeStamp := by
    simp [List.mem_insertionSort]
  rw [inOrder, Neighbours.leftOf_flatMap_iff]
  · simp only [Neighbours.leftOf_iff_of_strictlySorted (hset.filter _),
      Neighbours.getLast?_eq_some_iff_of_sorted (hstamped _),
      Neighbours.head?_eq_some_iff_of_sorted (hstamped _), mem_stamped]
    constructor
    · rintro (⟨_, -, ⟨hb, rfl⟩, ⟨ha, htime⟩, hlt, hnone⟩ |
        ⟨_, _, hleft, ⟨⟨hb, rfl⟩, hlast⟩, ⟨ha, rfl⟩, hfirst⟩)
      · -- neighbours of one stamp
        refine ⟨hb, ha, Or.inl ⟨Or.inr ⟨htime.symm, hlt⟩, fun c hc hbetween => ?_⟩⟩
        obtain ⟨hbc | ⟨hbc, hblt⟩, hca | ⟨hca, halt⟩⟩ := hbetween
        · omega
        · omega
        · omega
        · exact hnone c ⟨hc, hbc.symm⟩ ⟨hblt, halt⟩
      · -- the last scene of a stamp, and the first one of the next
        have hlast' : ∀ c ∈ scenesSet, t c = t b → c ≤ b := fun c hc h => hlast c ⟨hc, h⟩
        have hfirst' : ∀ c ∈ scenesSet, t c = t a → a ≤ c := fun c hc h => hfirst c ⟨hc, h⟩
        rw [leftOf_stamps_iff_stampedNext hnodup hb ha hlast' hfirst'] at hleft
        refine ⟨hb, ha, hleft.imp (fun h => ⟨Or.inl h.1, h.2⟩) fun h => ⟨h.1, h.2, ?_⟩⟩
        exact fun c hc htime => ⟨hfirst' c hc htime, hlast' c hc (htime.trans h.1.symm)⟩
    · rintro ⟨hb, ha, ⟨hlt | ⟨htime, hlt⟩, hnone⟩ | ⟨htime, hlt, hends⟩⟩
      · have hlast : ∀ c ∈ scenesSet, t c = t b → c ≤ b := fun c hc h => not_lt.mp fun hbc =>
          hnone c hc ⟨Or.inr ⟨h.symm, hbc⟩, Or.inl (h ▸ hlt)⟩
        have hfirst : ∀ c ∈ scenesSet, t c = t a → a ≤ c := fun c hc h => not_lt.mp fun hca =>
          hnone c hc ⟨Or.inl (h ▸ hlt), Or.inr ⟨h, hca⟩⟩
        refine Or.inr ⟨t b, t a, ?_, ⟨⟨hb, rfl⟩, fun c hc => hlast c hc.1 hc.2⟩, ⟨ha, rfl⟩,
          fun c hc => hfirst c hc.1 hc.2⟩
        exact (leftOf_stamps_iff_stampedNext hnodup hb ha hlast hfirst).mpr (Or.inl ⟨hlt, hnone⟩)
      · refine Or.inl ⟨t a, (hstamps _).mpr ⟨a, ha, rfl⟩, ⟨hb, htime⟩, ⟨ha, rfl⟩, hlt, ?_⟩
        exact fun c hc hbetween => hnone c hc.1
          ⟨Or.inr ⟨htime.trans hc.2.symm, hbetween.1⟩, Or.inr ⟨hc.2, hbetween.2⟩⟩
      · have hlast : ∀ c ∈ scenesSet, t c = t b → c ≤ b := fun c hc h =>
          (hends c hc (h.trans htime)).2
        have hfirst : ∀ c ∈ scenesSet, t c = t a → a ≤ c := fun c hc h => (hends c hc h).1
        refine Or.inr ⟨t b, t a, ?_, ⟨⟨hb, rfl⟩, fun c hc => hlast c hc.1 hc.2⟩, ⟨ha, rfl⟩,
          fun c hc => hfirst c hc.1 hc.2⟩
        exact (leftOf_stamps_iff_stampedNext hnodup hb ha hlast hfirst).mpr (Or.inr ⟨htime, hlt⟩)
  · intro timeStamp htime hnone
    obtain ⟨c, hc, rfl⟩ := (hstamps timeStamp).mp htime
    exact List.not_mem_nil (hnone ▸ mem_stamped.mpr ⟨hc, rfl⟩)

end Stamps

/-- The neighbours in the order, by the first observations. -/
theorem leftOf_newOrder_iff {σ : Viewport K} {b a : Addr} :
    LeftOf σ.newOrder b a ↔ StampedNext σ.scenes.firstObserved σ.owned b a := by
  have hkeys : σ.refreshScenesSet.scenesSet.keys.Pairwise (· < ·) :=
    List.pairwise_map.mpr σ.refreshScenesSet.scenesSet.sorted
  rw [newOrder, leftOf_inOrder_iff hkeys]
  simp only [StampedNext, mem_keys_refreshScenesSet]

/-! ## The order after a call -/

/-- The ordering number of a live scene. -/
def orderingOf (σ : Viewport K) (a : Addr) : Nat :=
  (σ.scenes.find? a).elim 0 Scene.ordering

/-- Every scene of a registered sensor has exactly one place, the places are
in the order of the first observations, and the scene at index `i` holds the
ordering number `i + 1`. -/
structure OrderedTotally (σ : Viewport K) : Prop where
  once : σ.orderedScenes.Nodup
  complete : ∀ a, a ∈ σ.orderedScenes ↔ a ∈ σ.owned
  sorted : σ.orderedScenes.Pairwise fun a b =>
    σ.scenes.firstObserved a ≤ σ.scenes.firstObserved b
  numbered : ∀ i a, σ.orderedScenes[i]? = some a → σ.orderingOf a = i + 1
  bijective : Set.BijOn σ.orderingOf {a | a ∈ σ.owned}
    (Set.Icc 1 σ.orderedScenes.length)

/-- No two scenes of registered sensors were first observed at the same
reading. -/
def DistinctTimes (σ : Viewport K) : Prop :=
  ∀ a ∈ σ.owned, ∀ b ∈ σ.owned,
    σ.scenes.firstObserved a = σ.scenes.firstObserved b → a = b

theorem nodup_newOrder_iff {σ : Viewport K} : σ.newOrder.Nodup ↔ σ.DistinctTimes := by
  have hset : σ.refreshScenesSet.scenesSet.keys.Nodup := OrdMap.nodup_keys _
  rw [newOrder, nodup_inOrder_iff hset, List.nodup_map_iff_inj_on hset]
  simp only [mem_keys_refreshScenesSet, DistinctTimes]

theorem mem_newOrder {σ : Viewport K} {a : Addr} : a ∈ σ.newOrder ↔ a ∈ σ.owned := by
  rw [newOrder, mem_inOrder, mem_keys_refreshScenesSet]

/-- What the writes of an order leave alone. -/
theorem related_acceptedOrder (σ : Viewport K) :
    Heap.Related Scene.SameExceptOrder σ.scenes σ.acceptedOrder.scenes :=
  σ.related_writeAll_orderWrites σ.scenes

theorem find?_acceptedOrder {σ : Viewport K} {a : Addr} {s : Scene K}
    (hs : σ.scenes.find? a = some s) :
    ∃ s', σ.acceptedOrder.scenes.find? a = some s' ∧
      s'.firstSkeletonObservedTime = s.firstSkeletonObservedTime := by
  obtain ⟨s', hs', hsame⟩ := σ.related_acceptedOrder.find? hs
  refine ⟨s', hs', ?_⟩
  rw [hsame]

/-- Scene `i` of an order without repetitions. -/
def placedAt (placed : List Addr) (i : Nat) (s : Scene K) : Scene K :=
  if placed.length > 1 then
    (s.setOrdering (i + 1)).setLeftRightScene (prevOf placed i) placed[i + 1]?
  else s.setOrdering (i + 1)

theorem find?_acceptedOrder_of_nodup {σ : Viewport K} (hnodup : σ.newOrder.Nodup)
    {a : Addr} {s : Scene K} (hs : σ.scenes.find? a = some s) {i : Nat}
    (hi : σ.newOrder[i]? = some a) :
    σ.acceptedOrder.scenes.find? a = some (placedAt σ.newOrder i s) := by
  have hzip : ∀ k, (a, k + i) ∈ σ.newOrder.zipIdx k := fun k =>
    List.mk_add_mem_zipIdx_iff_getElem?.mpr hi
  have hset : a ∈ σ.refreshScenesSet.scenesSet.keys :=
    mem_keys_refreshScenesSet.mpr (mem_newOrder.mp (List.mem_of_getElem? hi))
  rw [acceptedOrder, orderWrites, Heap.writeAll_append, Heap.writeAll_append]
  have hreset : (σ.scenes.writeAll (σ.refreshScenesSet.scenesSet.keys.map
      fun a => (a, (·.setOrdering 0)))).find? a = some (s.setOrdering 0) := by
    rw [Heap.find?_writeAll_of_nodup (f := (·.setOrdering 0)), hs, Option.map_some]
    · rw [List.map_map]
      simpa [Function.comp_def] using OrdMap.nodup_keys _
    · exact List.mem_map.mpr ⟨a, hset, rfl⟩
  generalize σ.scenes.writeAll _ = reset at hreset ⊢
  have hnumber : (reset.writeAll (orderingWrites 1 σ.newOrder)).find? a =
      some (s.setOrdering (i + 1)) := by
    rw [Heap.find?_writeAll_of_nodup (f := (·.setOrdering (1 + i))), hreset,
      Option.map_some, Nat.add_comm]
    · rfl
    · rw [orderingWrites, List.map_map]
      simpa [Function.comp_def, List.zipIdx_map_fst] using hnodup
    · exact List.mem_map.mpr ⟨_, hzip 1, rfl⟩
  generalize reset.writeAll _ = numbered at hnumber ⊢
  unfold linkWrites placedAt
  split_ifs with hlen
  · rw [Heap.find?_writeAll_of_nodup
      (f := (·.setLeftRightScene (prevOf σ.newOrder i) σ.newOrder[i + 1]?)), hnumber,
      Option.map_some]
    · rw [List.map_map]
      simpa [Function.comp_def, List.zipIdx_map_fst] using hnodup
    · exact List.mem_map.mpr ⟨(a, i), by simpa using hzip 0, rfl⟩
  · exact hnumber

theorem ordering_placedAt (placed : List Addr) (i : Nat) (s : Scene K) :
    (placedAt placed i s).ordering = i + 1 := by
  unfold placedAt
  split_ifs <;> rfl

/-- An order without repetitions is total. -/
theorem orderedTotally_acceptedOrder {σ : Viewport K}
    (hlive : ∀ a ∈ σ.owned, (σ.scenes.find? a).isSome) (hnodup : σ.newOrder.Nodup) :
    σ.acceptedOrder.OrderedTotally := by
  have hnumbered : ∀ i a, σ.newOrder[i]? = some a →
      σ.acceptedOrder.orderingOf a = i + 1 := by
    intro i a hi
    obtain ⟨s, hs⟩ := Option.isSome_iff_exists.mp
      (hlive a (mem_newOrder.mp (List.mem_of_getElem? hi)))
    rw [orderingOf, find?_acceptedOrder_of_nodup hnodup hs hi]
    exact ordering_placedAt σ.newOrder i s
  have hindex : ∀ a ∈ σ.owned, ∃ i, i < σ.newOrder.length ∧ σ.newOrder[i]? = some a := by
    intro a ha
    obtain ⟨i, hi, hget⟩ := List.mem_iff_getElem.mp (mem_newOrder.mpr ha)
    exact ⟨i, hi, by rw [List.getElem?_eq_getElem hi, hget]⟩
  refine ⟨hnodup, fun a => mem_newOrder, ?_, hnumbered, ?_, ?_, ?_⟩
  · have hsame : ∀ a ∈ σ.newOrder,
        σ.acceptedOrder.scenes.firstObserved a = σ.scenes.firstObserved a := by
      intro a ha
      obtain ⟨s, hs⟩ := Option.isSome_iff_exists.mp (hlive a (mem_newOrder.mp ha))
      obtain ⟨s', hs', htime⟩ := find?_acceptedOrder hs
      rw [Heap.firstObserved, hs', Heap.firstObserved, hs]
      exact htime
    refine (pairwise_inOrder _ _).imp_of_mem ?_
    intro a b ha hb hle
    rw [hsame a ha, hsame b hb]
    exact hle
  · intro a ha
    obtain ⟨i, hlt, hi⟩ := hindex a ha
    rw [hnumbered i a hi]
    exact ⟨Nat.succ_le_succ (Nat.zero_le i), hlt⟩
  · intro a ha b hb heq
    obtain ⟨i, _, hi⟩ := hindex a ha
    obtain ⟨j, _, hj⟩ := hindex b hb
    rw [hnumbered i a hi, hnumbered j b hj] at heq
    obtain rfl : i = j := Nat.succ.inj heq
    exact Option.some.inj (hi.symm.trans hj)
  · rintro n ⟨hpos, hle⟩
    obtain ⟨i, rfl⟩ : ∃ i, n = i + 1 := ⟨n - 1, by omega⟩
    have hlt : i < σ.newOrder.length := hle
    have hi := List.getElem?_eq_getElem hlt
    exact ⟨_, (mem_newOrder (σ := σ)).mp (List.getElem_mem hlt), hnumbered i _ hi⟩

/-- A call that returns `true` orders the scenes totally exactly when their
first observations are distinct. -/
theorem calibrateSceneOrder_total_iff {σ σ' : Viewport K}
    (h : calibrateSceneOrder.run σ = .ok true σ') :
    σ'.OrderedTotally ↔ σ.DistinctTimes := by
  have hlive := live_of_run_calibrateSceneOrder h
  rw [run_calibrateSceneOrder hlive] at h
  split_ifs at h
  · injection h with _ hσ'
    subst hσ'
    rw [← nodup_newOrder_iff]
    exact ⟨fun htotal => htotal.once, orderedTotally_acceptedOrder hlive⟩
  · cases h

/-- A client with two sensors whose scenes were first observed at the given
readings. -/
def twoSensors (t₁ t₂ : Int) : Viewport ℚ :=
  { start with
    clients := ⟨[], [{ Client.new 1 [] [] with
      sensors := (OrdMap.empty.assign ['a'] ⟨['a'], 1⟩).assign ['b'] ⟨['b'], 2⟩ }]⟩
    scenes := (OrdMap.empty.assign 1
        { Scene.ofSensor ['a'] with firstSkeletonObservedTime := t₁ }).assign 2
      { Scene.ofSensor ['b'] with firstSkeletonObservedTime := t₂ } }

theorem calibrateSceneOrder_total_iff_twoSensors :
    (twoSensors 7 5).acceptedOrder.OrderedTotally ↔ (twoSensors 7 5).DistinctTimes :=
  calibrateSceneOrder_total_iff rfl

/-- Two scenes that share a reading get two places each. -/
theorem not_orderedTotally_tied :
    calibrateSceneOrder.run (twoSensors 5 5) = .ok true (twoSensors 5 5).acceptedOrder ∧
      (twoSensors 5 5).acceptedOrder.orderedScenes = [1, 2, 1, 2] ∧
      ¬ (twoSensors 5 5).acceptedOrder.OrderedTotally := by
  refine ⟨rfl, by decide, fun h => ?_⟩
  exact absurd h.once (by decide)

end MinorityViewport.Viewport
