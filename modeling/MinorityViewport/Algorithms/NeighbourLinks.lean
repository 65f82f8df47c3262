import MinorityViewport.Algorithms.Events
import MinorityViewport.Algorithms.GlobalFrame

/-!
# The links between neighbours

`Linked` says that the links of the ordered scenes match the order.  Two
events can break it.  `CalibrateSceneOrder` sets no links when it orders a
single scene, and contradicting ones when scenes share a time of first
observation.  `DeregisterClient` removes scenes from the order and sets no
links at all.

`KeepsLinks` is the condition on an event under which it does not, and
`run_linked_iff` says that it is exact over whole runs.
-/

namespace MinorityViewport

open Exec Viewport

variable {K : Type}

/-- Every ordered scene is alive, and its links name the scenes before and
after it. -/
def Linked (σ : Viewport K) : Prop :=
  ∀ i a, σ.orderedScenes[i]? = some a → ∃ s, σ.scenes.find? a = some s ∧
    s.left = .ofOption (prevOf σ.orderedScenes i) ∧
    s.right = .ofOption σ.orderedScenes[i + 1]?

theorem Linked.leftLinked {σ : Viewport K} (h : Linked σ) :
    LeftLinked σ.scenes σ.orderedScenes := by
  intro i a ha
  obtain ⟨s, hs, hleft, _⟩ := h i a ha
  exact ⟨s, hs, hleft⟩

theorem linked_of_nil {σ : Viewport K} (h : σ.orderedScenes = []) : Linked σ := by
  intro i a ha
  rw [h] at ha
  cases ha

theorem Linked.congr {σ σ' : Viewport K} (h : Linked σ)
    (hordered : σ'.orderedScenes = σ.orderedScenes)
    (hlinks : ∀ a ∈ σ.orderedScenes, ∀ s, σ.scenes.find? a = some s →
      ∃ s', σ'.scenes.find? a = some s' ∧ s'.left = s.left ∧ s'.right = s.right) :
    Linked σ' := by
  intro i a ha
  rw [hordered] at ha ⊢
  obtain ⟨s, hs, hleft, hright⟩ := h i a ha
  obtain ⟨s', hs', hl, hr⟩ := hlinks a (List.mem_of_getElem? ha) s hs
  exact ⟨s', hs', hl.trans hleft, hr.trans hright⟩

theorem Linked.quiet {σ σ' : Viewport K} (h : Linked σ) (hq : Quiet σ σ') : Linked σ' :=
  h.congr hq.ordered fun _ _ _ hs => hq.links.find? hs

/-! ## A new order -/

/-- A new order is linked when it lists different scenes, and not a single
one. -/
theorem linked_acceptedOrder_iff {σ : Viewport K} (hwf : WellFormed σ) :
    Linked σ.acceptedOrder ↔ σ.DistinctTimes ∧ σ.owned.length ≠ 1 := by
  have hordered : σ.acceptedOrder.orderedScenes = σ.newOrder := rfl
  have hfind : σ.newOrder.Nodup → ∀ i a, σ.newOrder[i]? = some a →
      ∃ s, σ.scenes.find? a = some s ∧
        σ.acceptedOrder.scenes.find? a = some (placedAt σ.newOrder i s) := by
    intro hnodup i a hi
    obtain ⟨s, hs⟩ := Option.isSome_iff_exists.mp
      (hwf.live a (mem_newOrder.mp (List.mem_of_getElem? hi)))
    exact ⟨s, hs, find?_acceptedOrder_of_nodup hnodup hs hi⟩
  have hlength : σ.newOrder.Nodup → σ.newOrder.length = σ.owned.length := fun hnodup =>
    ((List.perm_ext_iff_of_nodup hnodup hwf.nodup).mpr fun _ => mem_newOrder).length_eq
  constructor
  · intro h
    have hnodup : σ.newOrder.Nodup := h.leftLinked.nodup
    refine ⟨nodup_newOrder_iff.mp hnodup, fun hone => ?_⟩
    -- a single scene keeps the links it had
    obtain ⟨a, ha⟩ := List.length_eq_one_iff.mp ((hlength hnodup).trans hone)
    have hget : σ.newOrder[0]? = some a := by rw [ha]; rfl
    obtain ⟨s, hs, hplaced⟩ := hfind hnodup 0 a hget
    obtain ⟨s', hs', hleft, hright⟩ := h 0 a hget
    obtain rfl := Option.some.inj (hplaced.symm.trans hs')
    rw [hordered, ha] at hright
    rw [ha] at hleft
    exact hwf.links a s hs ⟨hleft, hright⟩
  · rintro ⟨htimes, hone⟩ i a hi
    have hnodup := nodup_newOrder_iff.mpr htimes
    rw [hordered] at hi ⊢
    obtain ⟨s, hs, hplaced⟩ := hfind hnodup i a hi
    have hlen : σ.newOrder.length > 1 := by
      have hlt : i < σ.newOrder.length := (List.getElem?_eq_some_iff.mp hi).1
      have := hlength hnodup
      omega
    refine ⟨_, hplaced, ?_⟩
    rw [placedAt, if_pos hlen]
    exact ⟨rfl, rfl⟩

/-! ## An order that shrinks -/

/-- A list whose neighbours agree about a property agrees as a whole. -/
theorem forall_or_forall_of_neighbours {l : List Addr} {p : Addr → Prop}
    (h : ∀ i a b, l[i]? = some a → l[i + 1]? = some b → (p a ↔ p b)) :
    (∀ a ∈ l, ¬ p a) ∨ ∀ a ∈ l, p a := by
  induction l with
  | nil => exact Or.inl fun _ ha => absurd ha List.not_mem_nil
  | cons a rest ih =>
    have hrest := ih fun i b c hb hc => h (i + 1) b c hb hc
    cases rest with
    | nil =>
      by_cases hp : p a
      · exact Or.inr fun b hb => List.mem_singleton.mp hb ▸ hp
      · exact Or.inl fun b hb => List.mem_singleton.mp hb ▸ hp
    | cons b rest =>
      have hab := h 0 a b rfl rfl
      refine hrest.imp (fun hall => ?_) fun hall => ?_
      · exact List.forall_mem_cons.mpr ⟨fun hp => hall b List.mem_cons_self (hab.mp hp), hall⟩
      · exact List.forall_mem_cons.mpr ⟨hab.mpr (hall b List.mem_cons_self), hall⟩

theorem prevOf_mem {ordered : List Addr} {i : Nat} {a : Addr}
    (h : prevOf ordered i = some a) : a ∈ ordered := by
  cases i with
  | zero => cases h
  | succ i => exact List.mem_of_getElem? h

/-- The links of a scene that stays name scenes that stay. -/
theorem neighbours_stay {σ : Viewport K} {clientId : Nat} {client : Client} (h : Linked σ)
    (h' : Linked (σ.withoutClient clientId client)) {i : Nat} {a : Addr}
    (hi : σ.orderedScenes[i]? = some a) (ha : a ∉ client.scenes) :
    (∀ b, prevOf σ.orderedScenes i = some b → b ∉ client.scenes) ∧
      ∀ b, σ.orderedScenes[i + 1]? = some b → b ∉ client.scenes := by
  have hstay : ∀ {b}, b ∈ σ.orderedScenes.filter (· ∉ client.scenes) → b ∉ client.scenes :=
    fun hb => by simpa using (List.mem_filter.mp hb).2
  have hmem : a ∈ σ.orderedScenes.filter (· ∉ client.scenes) :=
    List.mem_filter.mpr ⟨List.mem_of_getElem? hi, by simpa using ha⟩
  obtain ⟨k, hk⟩ := List.mem_iff_getElem?.mp hmem
  obtain ⟨s, hs, hleft, hright⟩ := h i a hi
  obtain ⟨s', hs', hleft', hright'⟩ := h' k a hk
  have hfind : (σ.withoutClient clientId client).scenes.find? a = σ.scenes.find? a :=
    (Heap.find?_free _ _ a).trans (if_neg ha)
  rw [hfind] at hs'
  obtain rfl := Option.some.inj (hs.symm.trans hs')
  refine ⟨fun b hb => hstay (prevOf_mem (i := k) ?_), fun b hb => hstay ?_⟩
  · rw [← hb, Link.ofOption_inj (hleft.symm.trans hleft')]
    rfl
  · refine List.mem_of_getElem? (i := k + 1) ?_
    rw [← hb, Link.ofOption_inj (hright.symm.trans hright')]
    rfl

/-- An order that shrinks stays linked when it loses nothing or
everything. -/
theorem linked_withoutClient_iff {σ : Viewport K} (h : Linked σ) (clientId : Nat)
    (client : Client) :
    Linked (σ.withoutClient clientId client) ↔
      (∀ a ∈ σ.orderedScenes, a ∉ client.scenes) ∨
        ∀ a ∈ σ.orderedScenes, a ∈ client.scenes := by
  have hordered : (σ.withoutClient clientId client).orderedScenes =
      σ.orderedScenes.filter (· ∉ client.scenes) := rfl
  constructor
  · intro h'
    refine forall_or_forall_of_neighbours fun i a b ha hb => ?_
    constructor
    · intro hca
      by_contra hcb
      exact (neighbours_stay h h' hb hcb).1 a ha hca
    · intro hcb
      by_contra hca
      exact (neighbours_stay h h' ha hca).2 b hb hcb
  · rintro (hout | hin)
    · refine h.congr ?_ fun a ha s hs => ⟨s, ?_, rfl, rfl⟩
      · rw [hordered, List.filter_eq_self]
        exact fun a ha => by simpa using hout a ha
      · exact (Heap.find?_free _ _ a).trans ((if_neg (hout a ha)).trans hs)
    · refine linked_of_nil ?_
      rw [hordered, List.filter_eq_nil_iff]
      exact fun a ha => by simpa using hin a ha

/-! ## Steps and runs -/

variable [Field K] [LinearOrder K]

/-- An order of different scenes but not of a single one, and the end of a
client that owns none or all of the ordered scenes. -/
def KeepsLinks (σ : Viewport K) : Event K → Prop
  | .calibrateSceneOrder =>
    (∀ a ∈ σ.owned, 0 < σ.scenes.firstObserved a) → σ.DistinctTimes ∧ σ.owned.length ≠ 1
  | .deregisterClient clientId =>
    ∀ client, σ.clients.find clientId = some client →
      (∀ a ∈ σ.orderedScenes, a ∉ client.scenes) ∨
        ∀ a ∈ σ.orderedScenes, a ∈ client.scenes
  | _ => True

instance (σ : Viewport K) : Decidable σ.DistinctTimes :=
  inferInstanceAs (Decidable (∀ a ∈ σ.owned, ∀ b ∈ σ.owned,
    σ.scenes.firstObserved a = σ.scenes.firstObserved b → a = b))

instance (σ : Viewport K) (e : Event K) : Decidable (KeepsLinks σ e) :=
  match e with
  | .calibrateSceneOrder => inferInstanceAs (Decidable
      ((∀ a ∈ σ.owned, 0 < σ.scenes.firstObserved a) → σ.DistinctTimes ∧ σ.owned.length ≠ 1))
  | .deregisterClient clientId => inferInstanceAs (Decidable
      (∀ client ∈ σ.clients.find clientId, (∀ a ∈ σ.orderedScenes, a ∉ client.scenes) ∨
        ∀ a ∈ σ.orderedScenes, a ∈ client.scenes))
  | .registerClient .. | .registerSensors .. | .processSensorData .. | .calibrateScenes ..
  | .getGlobalScene .. | .clear .. => isTrue trivial

/-- One step from a linked state. -/
theorem linked_step_iff {σ σ' : Viewport K} {e : Event K} (hwf : WellFormed σ)
    (h : Linked σ) (hstep : Step σ e σ') : Linked σ' ↔ KeepsLinks σ e := by
  cases hstep.effect hwf with
  | registered | unregistered => exact iff_of_true h trivial
  | enrolled henr =>
    exact iff_of_true (h.congr henr.ordered fun a _ s hs => ⟨s, henr.kept a s hs, rfl, rfl⟩)
      trivial
  | deregistered hfind =>
    rw [linked_withoutClient_iff h, KeepsLinks]
    simp only [hfind, Option.some.injEq, forall_eq']
  | unknown hfind =>
    refine iff_of_true h fun client hc => ?_
    rw [hfind] at hc
    cases hc
  | accepted hpos =>
    rw [linked_acceptedOrder_iff hwf]
    exact ⟨fun hc _ => hc, fun hc => hc hpos⟩
  | refused hpos => exact iff_of_true (linked_of_nil rfl) fun hc => absurd hc hpos
  | recalibrated ht => exact iff_of_true (h.quiet ht.quiet_of_sameExceptCalibration) trivial
  | quiet he ht =>
    refine iff_of_true (h.quiet ht.quiet_of_sameFrame) ?_
    cases e <;> first | trivial | exact absurd trivial he

theorem keepsLinks_step {σ σ' : Viewport K} {e : Event K} (hwf : WellFormed σ) (h : Linked σ)
    (hstep : Step σ e σ') : (Linked σ' ↔ KeepsLinks σ e) ∧ (KeepsLinks σ e → Linked σ') :=
  ⟨linked_step_iff hwf h hstep, (linked_step_iff hwf h hstep).mpr⟩

/-- In a run from the start, every state is linked exactly when every step
keeps the links. -/
theorem run_linked_iff {trace : List (Event K × Viewport K)} (hrun : Run start trace) :
    (∀ p ∈ trace, Linked p.2) ↔ StepsMeet KeepsLinks start trace :=
  hrun.forall_iff (fun _ _ _ => keepsLinks_step) wellFormed_start (linked_of_nil rfl)

/-- A client registers sensors, each sees a person at the given reading, and
the scenes are ordered. -/
def orderOf (sensors : String) (seen : List (Int × String)) : List (Event ℚ) :=
  [.registerClient [0] [] [], .registerSensors .next 1 sensors.toList] ++
    (seen.map fun p => .processSensorData (fun _ => p.1)
      ("\x7b\"TIME_STAMP\":1,\"SENSOR_JSON\":[\x7b\"client_id\":1,\"sensor_id\":\"".toList ++
        p.2.toList ++ "\"\x7d]\x7d".toList)) ++
    [.calibrateSceneOrder]

/-- Two sensors that see a person at different readings stay linked. -/
theorem run_linked_iff_twoSensors :
    let trace := trail start (orderOf
      "\x7b\"Sensors\":[\x7b\"id\":\"a\"\x7d,\x7b\"id\":\"b\"\x7d]\x7d" [(5, "a"), (6, "b")])
    trace.length = 5 ∧ ∀ p ∈ trace, Linked p.2 :=
  ⟨by decide +kernel, (run_linked_iff (run_trail (by decide +kernel))).mpr (by decide +kernel)⟩

def oneSensor : List (Event ℚ) :=
  orderOf "\x7b\"Sensors\":[\x7b\"id\":\"a\"\x7d]\x7d" [(5, "a")]

/-- The order of the only sensor is accepted, and its links are never
set. -/
theorem not_linked_oneSensor :
    Run start (trail start oneSensor) ∧ ¬ ∀ p ∈ trail start oneSensor, Linked p.2 := by
  have hlast : ∃ p ∈ trail start oneSensor, p.2.orderedScenes = [1] ∧
      (p.2.scenes.find? 1).map Scene.left = some .unset := by decide +kernel
  refine ⟨run_trail (by decide +kernel), fun h => ?_⟩
  obtain ⟨p, hp, hordered, hleft⟩ := hlast
  obtain ⟨s, hs, hnull, _⟩ := h p hp 0 1 (by rw [hordered]; rfl)
  rw [hs, Option.map_some, hnull] at hleft
  cases hleft

end MinorityViewport
