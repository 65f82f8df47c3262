import MinorityViewport.Algorithms.NeighbourLinks

/-!
# The numbers of the ordered scenes

The order is kept twice: as the list of scenes, and as a number in each
scene.  `CalibrateSceneOrder` clears the list before it looks at the time
stamps, but resets the numbers only when it accepts.  `DeregisterClient`
erases scenes from the list and renumbers nothing.

`Numbered` is the property that the two agree.  The invariant that carries
it is `InPlace`: the number of an ordered scene is the place of its last
entry, and every other scene has the number zero.  `KeepsNumbers` is the
condition on an event, and `run_numbered_iff` says that it is exact.
-/

namespace MinorityViewport

open Exec Viewport

/-! ## The last place of an entry -/

/-- `n` is the place of the last entry `a`, counted from one. -/
def LastPlace (l : List Addr) (a : Addr) (n : Nat) : Prop :=
  ∃ before behind, l = before ++ a :: behind ∧ a ∉ behind ∧ n = before.length + 1

theorem exists_lastPlace {l : List Addr} {a : Addr} (h : a ∈ l) : ∃ n, LastPlace l a n := by
  obtain ⟨behind, before, hsplit, hout⟩ :=
    List.eq_append_cons_of_mem (List.mem_reverse.mpr h)
  refine ⟨_, before.reverse, behind.reverse, ?_, by simpa using hout, rfl⟩
  rw [← List.reverse_reverse l, hsplit]
  simp

theorem LastPlace.getElem? {l : List Addr} {a : Addr} {n : Nat} (h : LastPlace l a n) :
    l[n - 1]? = some a := by
  obtain ⟨before, behind, rfl, _, rfl⟩ := h
  simp

/-- An entry before which nothing goes keeps its place. -/
theorem LastPlace.filter {l : List Addr} {p : Addr → Bool}
    (h : l.Pairwise fun a b => p b → p a) {a : Addr} {n : Nat} (hn : LastPlace l a n)
    (ha : p a) : LastPlace (l.filter p) a n := by
  obtain ⟨before, behind, rfl, hout, rfl⟩ := hn
  have hall : before.filter p = before := by
    rw [List.filter_eq_self]
    exact fun b hb => (List.pairwise_append.mp h).2.2 b hb a List.mem_cons_self ha
  refine ⟨before, behind.filter p, ?_, fun hmem => hout (List.mem_of_mem_filter hmem), rfl⟩
  rw [List.filter_append, hall, List.filter_cons_of_pos ha]

/-- Nothing goes before an entry that is found at its old place. -/
theorem forall_before_of_getElem? {before behind : List Addr} {a : Addr} {p : Addr → Bool}
    (hout : a ∉ behind) (ha : p a)
    (h : ((before ++ a :: behind).filter p)[before.length]? = some a) :
    ∀ b ∈ before, p b := by
  by_contra hlost
  obtain ⟨b, hb, hpb⟩ : ∃ b ∈ before, ¬ p b := by simpa using hlost
  have hshort : (before.filter p).length < before.length :=
    List.length_filter_lt_length_iff_exists.mpr ⟨b, hb, hpb⟩
  rw [List.filter_append, List.filter_cons_of_pos ha,
    List.getElem?_append_right hshort.le] at h
  obtain ⟨k, hk⟩ : ∃ k, before.length - (before.filter p).length = k + 1 :=
    ⟨before.length - (before.filter p).length - 1, by omega⟩
  rw [hk, List.getElem?_cons_succ] at h
  exact hout (List.mem_of_mem_filter (List.mem_of_getElem? h))

/-- What stands before some entry `b` of a list stands before its last
entry `b`. -/
theorem mem_before_of_sublist {before behind : List Addr} {a b : Addr} (hout : b ∉ behind)
    (h : [a, b].Sublist (before ++ b :: behind)) : a ∈ before := by
  obtain ⟨l₁, l₂, hsplit, h₁, h₂⟩ := List.sublist_append_iff.mp h
  cases l₁ with
  | nil =>
    obtain rfl : [a, b] = l₂ := hsplit
    exact absurd (List.singleton_sublist.mp h₂.of_cons_cons) hout
  | cons c rest =>
    obtain ⟨rfl, _⟩ := List.cons.inj hsplit
    exact h₁.subset List.mem_cons_self

/-- If every entry that stays is found at its old place, then no entry goes
before it. -/
theorem pairwise_of_getElem?_filter {l : List Addr} {p : Addr → Bool}
    (h : ∀ a ∈ l, p a → ∃ n, LastPlace l a n ∧ (l.filter p)[n - 1]? = some a) :
    l.Pairwise fun a b => p b → p a := by
  rw [List.pairwise_iff_forall_sublist]
  intro a b hab hpb
  obtain ⟨n, ⟨before, behind, rfl, hout, rfl⟩, hget⟩ :=
    h b (hab.subset (by simp)) hpb
  exact forall_before_of_getElem? hout hpb hget a (mem_before_of_sublist hout hab)

/-! ## Numbers and places -/

variable {K : Type}

/-- The number of a live scene is its place in the order, and a live scene
outside the order has the number zero. -/
def Numbered (σ : Viewport K) : Prop :=
  ∀ a s, σ.scenes.find? a = some s →
    (1 ≤ s.ordering → σ.orderedScenes[s.ordering - 1]? = some a) ∧
      (a ∉ σ.orderedScenes → s.ordering = 0)

/-- The number of a live scene is its last place in the order, or zero. -/
def InPlace (σ : Viewport K) : Prop :=
  ∀ a s, σ.scenes.find? a = some s →
    (a ∈ σ.orderedScenes → LastPlace σ.orderedScenes a s.ordering) ∧
      (a ∉ σ.orderedScenes → s.ordering = 0)

theorem InPlace.numbered {σ : Viewport K} (h : InPlace σ) : Numbered σ := by
  intro a s hs
  obtain ⟨hin, hout⟩ := h a s hs
  refine ⟨fun hpos => ?_, hout⟩
  by_cases hmem : a ∈ σ.orderedScenes
  · exact (hin hmem).getElem?
  · have := hout hmem
    omega

/-- A step that keeps the order, and whose live scenes keep their numbers or
are new. -/
theorem InPlace.congr {σ σ' : Viewport K} (h : InPlace σ)
    (hordered : σ'.orderedScenes = σ.orderedScenes)
    (hscenes : ∀ a s', σ'.scenes.find? a = some s' →
      (∃ s, σ.scenes.find? a = some s ∧ s'.ordering = s.ordering) ∨
        a ∉ σ.orderedScenes ∧ s'.ordering = 0) : InPlace σ' := by
  intro a s' hs'
  rw [hordered]
  rcases hscenes a s' hs' with ⟨s, hs, hsame⟩ | ⟨hout, hzero⟩
  · rw [hsame]
    exact h a s hs
  · exact ⟨fun hin => absurd hin hout, fun _ => hzero⟩

theorem InPlace.touches {R : Scene K → Scene K → Prop} {σ σ' : Viewport K} (h : InPlace σ)
    (ht : Touches R σ σ') (hR : ∀ s s', R s s' → s'.ordering = s.ordering) : InPlace σ' := by
  refine h.congr ht.ordered fun a s' hs' => ?_
  obtain ⟨s, hs, hsame⟩ := ht.scenes.find?_back hs'
  exact Or.inl ⟨s, hs, hR s s' hsame⟩

theorem InPlace.enrolled {σ σ' : Viewport K} (h : InPlace σ) (hwf : WellFormed σ)
    (henr : Enrolled σ σ') : InPlace σ' := by
  refine h.congr henr.ordered fun a s' hs' => ?_
  cases hs : σ.scenes.find? a with
  | some s =>
    obtain rfl := Option.some.inj ((henr.kept a s hs).symm.trans hs')
    exact Or.inl ⟨_, rfl, rfl⟩
  | none =>
    rcases henr.new a s' hs' with hold | ⟨id, rfl⟩
    · rw [hs] at hold
      cases hold
    · refine Or.inr ⟨fun hin => ?_, rfl⟩
      have hlive := hwf.live a (hwf.ordered a hin)
      rw [hs] at hlive
      cases hlive

/-! ## A new order -/

/-- The last write of a number stays. -/
theorem ordering_of_find?_writeAll {l : List Addr} {a : Addr} {n : Nat} (hn : LastPlace l a n)
    {scenes : Heap K} {s : Scene K}
    (hs : (scenes.writeAll (orderingWrites 1 l)).find? a = some s) : s.ordering = n := by
  obtain ⟨before, behind, rfl, hout, rfl⟩ := hn
  rw [orderingWrites, List.zipIdx_append, List.map_append, Heap.writeAll_append,
    List.zipIdx_cons, List.map_cons] at hs
  change ((Heap.modifyAt _ a _).writeAll _).find? a = _ at hs
  rw [Heap.find?_writeAll_of_notMem (by simpa [Function.comp_def] using hout),
    Heap.find?_modifyAt, if_pos rfl, Option.map_eq_some_iff] at hs
  obtain ⟨t, _, rfl⟩ := hs
  exact Nat.add_comm 1 before.length

theorem related_linkWrites (l : List Addr) (scenes : Heap K) :
    Heap.Related (fun s s' => s'.ordering = s.ordering) scenes
      (scenes.writeAll (linkWrites l)) := by
  refine Heap.related_writeAll (R := fun s s' => s'.ordering = s.ordering) (fun _ => rfl)
    (fun _ _ _ h h' => h'.trans h) (fun w hw s => ?_) scenes
  unfold linkWrites at hw
  split_ifs at hw
  · obtain ⟨p, _, rfl⟩ := List.mem_map.mp hw
    rfl
  · cases hw

theorem mem_owned_of_mem_orderWrites {σ : Viewport K} {w : Addr × (Scene K → Scene K)}
    (hw : w ∈ σ.orderWrites) : w.1 ∈ σ.owned := by
  rw [orderWrites, List.mem_append, List.mem_append, linkWrites] at hw
  have hplaced : ∀ (p : Addr × Nat) (k : Nat), p ∈ σ.newOrder.zipIdx k → p.1 ∈ σ.owned :=
    fun p k hp => mem_newOrder.mp (List.fst_mem_of_mem_zipIdx hp)
  rcases hw with (hw | hw) | hw
  · obtain ⟨a, ha, rfl⟩ := List.mem_map.mp hw
    exact mem_keys_refreshScenesSet.mp ha
  · obtain ⟨p, hp, rfl⟩ := List.mem_map.mp hw
    exact hplaced p 1 hp
  · split_ifs at hw
    · obtain ⟨p, hp, rfl⟩ := List.mem_map.mp hw
      exact hplaced p 0 hp
    · cases hw

theorem InPlace.acceptedOrder {σ : Viewport K} (h : InPlace σ) (hwf : WellFormed σ) :
    InPlace σ.acceptedOrder := by
  intro a s' hs'
  have hordered : σ.acceptedOrder.orderedScenes = σ.newOrder := rfl
  rw [hordered]
  change (σ.scenes.writeAll σ.orderWrites).find? a = some s' at hs'
  refine ⟨fun hin => ?_, fun hout => ?_⟩
  · obtain ⟨n, hn⟩ := exists_lastPlace hin
    rw [orderWrites, Heap.writeAll_append, Heap.writeAll_append] at hs'
    obtain ⟨s, hs, hsame⟩ := (related_linkWrites _ _).find?_back hs'
    rw [hsame, ordering_of_find?_writeAll hn hs]
    exact hn
  · -- a scene of no registered sensor was not in the order before
    have howned : a ∉ σ.owned := fun ha => hout (mem_newOrder.mpr ha)
    rw [Heap.find?_writeAll_of_notMem] at hs'
    · exact (h a s' hs').2 fun ha => howned (hwf.ordered a ha)
    · intro hmem
      obtain ⟨w, hw, rfl⟩ := List.mem_map.mp hmem
      exact howned (mem_owned_of_mem_orderWrites hw)

/-- A refused order clears the list and leaves the numbers. -/
theorem numbered_refusedOrder_iff {σ : Viewport K} (hwf : WellFormed σ) (h : InPlace σ) :
    Numbered σ.refusedOrder ↔ σ.orderedScenes = [] := by
  constructor
  · intro h'
    by_contra hne
    obtain ⟨a, ha⟩ := List.exists_mem_of_ne_nil _ hne
    obtain ⟨s, hs⟩ := Option.isSome_iff_exists.mp (hwf.live a (hwf.ordered a ha))
    obtain ⟨before, behind, _, _, hnumber⟩ := (h a s hs).1 ha
    have hzero := (h' a s hs).2 List.not_mem_nil
    omega
  · intro hnil
    have hrefused : InPlace σ.refusedOrder :=
      h.congr hnil.symm fun a s hs => Or.inl ⟨s, hs, rfl⟩
    exact hrefused.numbered

/-! ## An order that shrinks -/

/-- No scene that stays stands behind one that goes. -/
def LosesBack (σ : Viewport K) (client : Client) : Prop :=
  σ.orderedScenes.Pairwise fun a b => a ∈ client.scenes → b ∈ client.scenes

theorem losesBack_iff {σ : Viewport K} {client : Client} :
    LosesBack σ client ↔
      σ.orderedScenes.Pairwise fun a b =>
        decide (b ∉ client.scenes) → decide (a ∉ client.scenes) := by
  simp only [decide_eq_true_eq, not_imp_not]
  rfl

theorem find?_withoutClient {σ : Viewport K} {clientId : Nat} {client : Client} {a : Addr}
    {s : Scene K} :
    (σ.withoutClient clientId client).scenes.find? a = some s ↔
      a ∉ client.scenes ∧ σ.scenes.find? a = some s := by
  show (σ.scenes.free client.scenes).find? a = some s ↔ _
  rw [Heap.find?_free]
  split_ifs with hin <;> simp [hin]

theorem InPlace.withoutClient {σ : Viewport K} (h : InPlace σ) {client : Client}
    (hback : LosesBack σ client) (clientId : Nat) : InPlace (σ.withoutClient clientId client) := by
  have hordered : (σ.withoutClient clientId client).orderedScenes =
      σ.orderedScenes.filter (· ∉ client.scenes) := rfl
  intro a s hs
  obtain ⟨hout, hs⟩ := find?_withoutClient.mp hs
  obtain ⟨hin, hzero⟩ := h a s hs
  rw [hordered]
  refine ⟨fun hmem => ?_, fun hmem => hzero fun ha => hmem ?_⟩
  · exact (hin (List.mem_of_mem_filter hmem)).filter (losesBack_iff.mp hback) (by simpa using hout)
  · exact List.mem_filter.mpr ⟨ha, by simpa using hout⟩

theorem numbered_withoutClient_iff {σ : Viewport K} (hwf : WellFormed σ) (h : InPlace σ)
    (clientId : Nat) (client : Client) :
    Numbered (σ.withoutClient clientId client) ↔ LosesBack σ client := by
  refine ⟨fun h' => losesBack_iff.mpr (pairwise_of_getElem?_filter fun a ha hout => ?_),
    fun hback => (h.withoutClient hback clientId).numbered⟩
  obtain ⟨s, hs⟩ := Option.isSome_iff_exists.mp (hwf.live a (hwf.ordered a ha))
  have hplace := (h a s hs).1 ha
  refine ⟨s.ordering, hplace, (h' a s ?_).1 ?_⟩
  · exact find?_withoutClient.mpr ⟨by simpa using hout, hs⟩
  · obtain ⟨before, behind, _, _, hnumber⟩ := hplace
    omega

/-! ## Steps and runs -/

variable [Field K] [LinearOrder K]

/-- An order that is accepted or finds no order before it, and the end of a
client whose scenes are the last ones of the order. -/
def KeepsNumbers (σ : Viewport K) : Event K → Prop
  | .calibrateSceneOrder =>
    (∀ a ∈ σ.owned, 0 < σ.scenes.firstObserved a) ∨ σ.orderedScenes = []
  | .deregisterClient clientId =>
    ∀ client, σ.clients.find clientId = some client → LosesBack σ client
  | _ => True

instance (σ : Viewport K) (client : Client) : Decidable (LosesBack σ client) :=
  inferInstanceAs (Decidable (List.Pairwise _ _))

instance (σ : Viewport K) (e : Event K) : Decidable (KeepsNumbers σ e) :=
  match e with
  | .calibrateSceneOrder => inferInstanceAs (Decidable
      ((∀ a ∈ σ.owned, 0 < σ.scenes.firstObserved a) ∨ σ.orderedScenes = []))
  | .deregisterClient clientId => inferInstanceAs (Decidable
      (∀ client ∈ σ.clients.find clientId, LosesBack σ client))
  | .registerClient .. | .registerSensors .. | .processSensorData .. | .calibrateScenes ..
  | .getGlobalScene .. | .clear .. => isTrue trivial

/-- One step from a state whose scenes are in place. -/
theorem numbered_step_iff {σ σ' : Viewport K} {e : Event K} (hwf : WellFormed σ)
    (h : InPlace σ) (hstep : Step σ e σ') :
    (Numbered σ' ↔ KeepsNumbers σ e) ∧ (KeepsNumbers σ e → InPlace σ') := by
  have hkept : InPlace σ' → KeepsNumbers σ e →
      (Numbered σ' ↔ KeepsNumbers σ e) ∧ (KeepsNumbers σ e → InPlace σ') :=
    fun h' hkeeps => ⟨iff_of_true h'.numbered hkeeps, fun _ => h'⟩
  cases hstep.effect hwf with
  | registered | unregistered => exact hkept h trivial
  | enrolled henr => exact hkept (h.enrolled hwf henr) trivial
  | @deregistered clientId client hfind =>
    have hiff : KeepsNumbers σ (.deregisterClient clientId) ↔ LosesBack σ client := by
      simp only [KeepsNumbers, hfind, Option.some.injEq, forall_eq']
    rw [hiff]
    exact ⟨numbered_withoutClient_iff hwf h _ _, fun hback => h.withoutClient hback _⟩
  | unknown hfind =>
    refine hkept h fun client hc => ?_
    rw [hfind] at hc
    cases hc
  | accepted hpos => exact hkept (h.acceptedOrder hwf) (Or.inl hpos)
  | refused hpos =>
    have hiff : KeepsNumbers σ .calibrateSceneOrder ↔ σ.orderedScenes = [] :=
      or_iff_right hpos
    rw [hiff]
    refine ⟨numbered_refusedOrder_iff hwf h, fun hnil => ?_⟩
    exact h.congr hnil.symm fun a s hs => Or.inl ⟨s, hs, rfl⟩
  | recalibrated ht =>
    refine hkept (h.touches ht fun s s' hs => ?_) trivial
    rw [hs]
  | quiet he ht =>
    refine hkept (h.touches ht fun s s' hs => hs.2.1) ?_
    cases e <;> first | trivial | exact absurd trivial he

omit [Field K] [LinearOrder K] in
theorem inPlace_start : InPlace (start : Viewport K) := fun a s hs => by cases hs

/-- In a run from the start, the numbers and the list agree in every state
exactly when every step keeps the numbers. -/
theorem run_numbered_iff {trace : List (Event K × Viewport K)} (hrun : Run start trace) :
    (∀ p ∈ trace, Numbered p.2) ↔ StepsMeet KeepsNumbers start trace :=
  hrun.forall_iff (fun _ _ _ hwf h hstep => numbered_step_iff hwf h hstep) wellFormed_start
    inPlace_start

/-- Two clients with one sensor each are ordered, and the second one
leaves. -/
def lastLeaves : List (Event ℚ) :=
  [.registerClient [0] [] [],
    .registerSensors .next 1 "\x7b\"Sensors\":[\x7b\"id\":\"a\"\x7d]\x7d".toList,
    .registerClient [1] [] [],
    .registerSensors .next 2 "\x7b\"Sensors\":[\x7b\"id\":\"b\"\x7d]\x7d".toList,
    .processSensorData (fun i => 5 + i)
      ("\x7b\"TIME_STAMP\":1,\"SENSOR_JSON\":[" ++
        "\x7b\"client_id\":1,\"sensor_id\":\"a\"\x7d," ++
        "\x7b\"client_id\":2,\"sensor_id\":\"b\"\x7d]\x7d").toList,
    .calibrateSceneOrder, .deregisterClient 2]

theorem run_numbered_iff_lastLeaves :
    (stateAfter start lastLeaves).orderedScenes = [1] ∧
      ∀ p ∈ trail start lastLeaves, Numbered p.2 :=
  ⟨by decide +kernel, (run_numbered_iff (run_trail (by decide +kernel))).mpr (by decide +kernel)⟩

/-- An ordered sensor, and another one that joins before the next order. -/
def joinsUnseen : List (Event ℚ) :=
  oneSensor ++
    [.registerSensors .next 1 "\x7b\"Sensors\":[\x7b\"id\":\"b\"\x7d]\x7d".toList,
      .calibrateSceneOrder]

/-- The second order is refused: the list is empty, and the first scene is
still number one. -/
theorem not_numbered_joinsUnseen :
    Run start (trail start joinsUnseen) ∧ ¬ ∀ p ∈ trail start joinsUnseen, Numbered p.2 := by
  obtain ⟨hruns, hlast⟩ : AllReturn start joinsUnseen ∧
      ∃ p ∈ trail start joinsUnseen, p.2.orderedScenes = [] ∧
        (p.2.scenes.find? 1).map Scene.ordering = some 1 := by
    decide +kernel
  refine ⟨run_trail hruns, fun h => ?_⟩
  obtain ⟨p, hp, hordered, hnumber⟩ := hlast
  obtain ⟨s, hs, hone⟩ := Option.map_eq_some_iff.mp hnumber
  have hzero := (h p hp 1 s hs).2 (by rw [hordered]; exact List.not_mem_nil)
  omega

end MinorityViewport
