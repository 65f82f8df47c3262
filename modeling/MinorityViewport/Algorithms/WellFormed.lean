import MinorityViewport.Algorithms.CalibrateScenes
import MinorityViewport.Algorithms.MergePlan
import MinorityViewport.Algorithms.TotalOrder

/-!
# What the calls keep

Frames and invariants of the calls of the viewport.

* `Touches R` is the frame of the calls that leave the clients and the order
  alone, where `R` says what they leave of a scene.  `Quiet` is the part of
  it that all of them share: the links stay.
* `Enrolled` is what `RegisterSensors` does, and `Grown` what each round of
  its loop keeps.
* `WellFormed` is the invariant of the registry: the scenes of the registered
  sensors are alive and different, the order only names such scenes, and no
  scene has been told that it has no neighbour at all.
-/

namespace MinorityViewport

open Exec Json Viewport

variable {K : Type}

/-! ## Calls that leave the registry and the order alone -/

/-- The clients, the order and the set of scenes are the same, and `R`
relates the scenes. -/
structure Touches (R : Scene K → Scene K → Prop) (σ σ' : Viewport K) : Prop where
  clients : σ'.clients = σ.clients
  ordered : σ'.orderedScenes = σ.orderedScenes
  set : σ'.scenesSet = σ.scenesSet
  scenes : Heap.Related R σ.scenes σ'.scenes

section Touches

variable {R : Scene K → Scene K → Prop}

theorem Touches.owned {σ σ' : Viewport K} (h : Touches R σ σ') : σ'.owned = σ.owned := by
  rw [Viewport.owned, h.clients, Viewport.owned]

variable [IsPreorder (Scene K) R]

instance : IsPreorder (Viewport K) (Touches R) where
  refl _ := ⟨rfl, rfl, rfl, .refl (refl_of R) _⟩
  trans _ _ _ h h' := ⟨h'.clients.trans h.clients, h'.ordered.trans h.ordered,
    h'.set.trans h.set, Heap.Related.trans (R := R) (fun _ _ _ => trans_of R) h.scenes h'.scenes⟩

theorem touches_write {f : Scene K → Scene K} (hf : ∀ s, R s (f s)) (σ : Viewport K) (a : Addr) :
    Touches R σ (σ.write a f) :=
  ⟨rfl, rfl, rfl, Heap.related_modifyAt (refl_of R) hf _ a⟩

theorem moves_writeScene {f : Scene K → Scene K} (hf : ∀ s, R s (f s)) (a : Addr) :
    Moves (Touches R) (writeScene a f) := by
  intro σ
  cases hs : σ.scenes.find? a with
  | none =>
    rw [after, run_writeScene_of_none hs]
    exact refl_of (Touches R) σ
  | some s =>
    rw [after, run_writeScene (by rw [hs]; rfl)]
    exact touches_write hf σ a

end Touches

theorem moves_loadSkeleton (newSkeleton : Skeleton K) (now : Int) :
    Moves (Touches Scene.SameFrame) (loadSkeleton newSkeleton now) := by
  refine moves_get_bind fun σ => ?_
  cases σ.clients.find newSkeleton.clientId with
  | none => exact moves_pure _ σ
  | some client =>
    refine moves_bind (moves_ofExcept _) (fun sensor => ?_) σ
    cases sensor with
    | none => exact moves_throw _
    | some sensor =>
      exact moves_writeScene
        (fun s => s.sameFrame_update newSkeleton.skeletonId newSkeleton now) _

/-- The clients, the order and the links are the same. -/
structure Quiet (σ σ' : Viewport K) : Prop where
  clients : σ'.clients = σ.clients
  ordered : σ'.orderedScenes = σ.orderedScenes
  links : Heap.Related (fun s s' => s'.left = s.left ∧ s'.right = s.right)
    σ.scenes σ'.scenes

theorem Touches.quiet {R : Scene K → Scene K → Prop} {σ σ' : Viewport K} (h : Touches R σ σ')
    (hR : ∀ s s', R s s' → s'.left = s.left ∧ s'.right = s.right) : Quiet σ σ' :=
  ⟨h.clients, h.ordered, h.scenes.mono hR⟩

theorem Touches.quiet_of_sameFrame {σ σ' : Viewport K} (h : Touches Scene.SameFrame σ σ') :
    Quiet σ σ' :=
  h.quiet fun _ _ hs => ⟨hs.2.2.2.1, hs.2.2.2.2.1⟩

section Calls

variable [Field K]

theorem moves_processSensorData [Machine] (now : Nat → Int) (sensorData : Str) :
    Moves (Touches Scene.SameFrame) (processSensorData (K := K) now sensorData) := by
  cases sensorData with
  | nil => exact moves_pure _
  | cons c rest =>
    refine moves_bind (moves_ofExcept _) fun root => ?_
    cases root with
    | none => exact moves_pure _
    | some root =>
      refine moves_bind (moves_ofExcept _) fun _ => moves_bind (moves_ofExcept _) fun _ =>
        moves_bind (moves_ofExcept _) fun skeletonsJson => ?_
      exact moves_forElements _ (fun _ _ _ => moves_bind (moves_ofExcept _) fun newSkeleton =>
        moves_loadSkeleton newSkeleton _) _

variable [LinearOrder K]

theorem moves_calibrateScenes [Machine] (svd : SvdCompute K) (sceneAOrder : Nat) (skeletonsA : Str)
    (sceneBOrder : Nat) (skeletonsB : Str) :
    Moves (Touches Scene.SameExceptCalibration)
      (calibrateScenes svd sceneAOrder skeletonsA sceneBOrder skeletonsB) := by
  refine moves_get_bind fun σ => ?_
  refine moves_ite (fun _ => ?_) (fun _ => moves_pure _) σ
  refine moves_bind (moves_ofExcept _) fun assembled => ?_
  cases assembled with
  | none => exact moves_pure _
  | some m =>
    refine moves_bind (moves_ofExcept _) fun rAndT => moves_bind (moves_ofExcept _) fun body =>
      moves_bind (moves_writeScene (Scene.sameExceptCalibration_setRAndT rAndT) body) fun _ =>
        moves_bind (moves_ofExcept _) fun ref => ?_
    have hflag := fun a =>
      moves_writeScene (K := K) (Scene.sameExceptCalibration_setCalibration true) a
    exact moves_bind (hflag body) fun _ => moves_bind (hflag ref) fun _ => moves_pure _

theorem touches_merged (rand : Nat → Nat) (now : Int) (σ : Viewport K) :
    Touches Scene.SameFrame σ (σ.merged rand now) := by
  refine ⟨rfl, rfl, rfl, Heap.related_writeAll (refl_of _) (fun _ _ _ => trans_of _)
    (fun w hw s => ?_) _⟩
  obtain ⟨r, _, rfl⟩ := List.mem_map.mp hw
  exact s.sameFrame_remove r.2

theorem moves_getGlobalScene (rand : Nat → Nat) (now : Int) :
    Moves (Touches Scene.SameFrame) (getGlobalScene (K := K) rand now) := by
  refine moves_get_bind fun σ => ?_
  refine moves_ite (fun _ => moves_bind (fun σ => ?_) fun _ => moves_pure _)
    (fun _ => moves_pure _) σ
  rw [after_zoom, after_mergeScenes]
  exact touches_merged rand now σ

end Calls

theorem Touches.quiet_of_sameExceptCalibration {σ σ' : Viewport K}
    (h : Touches Scene.SameExceptCalibration σ σ') : Quiet σ σ' := by
  refine h.quiet fun s s' hs => ?_
  rw [hs]
  exact ⟨rfl, rfl⟩

/-! ## Registrations -/

/-- A new client has no scenes yet. -/
theorem scenes_addClient {clients clients' : ClientsList} {draws : List Nat}
    {phyLocation ipAddr : Str} {id : Nat}
    (h : clients.addClient draws phyLocation ipAddr = .ok (id, clients')) :
    clients'.rawClientList.flatMap Client.scenes =
      clients.rawClientList.flatMap Client.scenes := by
  rw [ClientsList.rawClientList_addClient h, List.flatMap_append]
  exact List.append_nil _

/-- The heap and the client while sensors are added.  `before` and `behind`
are the scenes of the other clients. -/
structure Grown (scenes : Heap K) (client : Client) (before behind : List Addr)
    (p : Heap K × Client) : Prop where
  kept : ∀ a s, scenes.find? a = some s → p.1.find? a = some s
  new : ∀ a s, p.1.find? a = some s →
    scenes.find? a = some s ∨ ∃ id, s = Scene.ofSensor id
  live : ∀ a ∈ before ++ p.2.scenes ++ behind, (p.1.find? a).isSome
  nodup : (before ++ p.2.scenes ++ behind).Nodup
  more : client.scenes ⊆ p.2.scenes
  id : p.2.id = client.id

theorem Grown.addSensor {scenes : Heap K} {client : Client} {before behind : List Addr}
    {p : Heap K × Client} (h : Grown scenes client before behind p) (alloc : Allocator)
    (id : Str) : Grown scenes client before behind (Client.addSensor alloc id p) := by
  have hlive : ∀ a, (p.1.find? a).isSome →
      ((Client.addSensor alloc id p).1.find? a).isSome := by
    intro a ha
    rw [Client.find?_addSensor_of_isSome alloc id ha]
    exact ha
  have hkept : ∀ a s, scenes.find? a = some s →
      (Client.addSensor alloc id p).1.find? a = some s := by
    intro a s hs
    rw [Client.find?_addSensor_of_isSome alloc id (by rw [h.kept a s hs]; rfl), h.kept a s hs]
  have hnew : ∀ a s, (Client.addSensor alloc id p).1.find? a = some s →
      scenes.find? a = some s ∨ ∃ id, s = Scene.ofSensor id := by
    intro a s hs
    rw [Client.find?_addSensor] at hs
    split_ifs at hs
    · exact Or.inr ⟨id, (Option.some.inj hs).symm⟩
    · exact h.new a s hs
  rcases Client.scenes_addSensor alloc id p with hperm | hsame
  · -- the new address is alive and is none of the others
    have hall : (before ++ (Client.addSensor alloc id p).2.scenes ++ behind).Perm
        (alloc.pick p.1.keys :: (before ++ p.2.scenes ++ behind)) :=
      ((hperm.append_left before).append_right behind).trans
        (by rw [List.append_assoc, List.cons_append, List.append_assoc]; exact List.perm_middle)
    refine ⟨hkept, hnew, fun a ha => ?_, ?_, fun a ha => ?_, h.id⟩
    · rcases List.mem_cons.mp (hall.mem_iff.mp ha) with rfl | ha
      · rw [Client.find?_addSensor, if_pos rfl]
        rfl
      · exact hlive a (h.live a ha)
    · refine hall.nodup_iff.mpr (List.nodup_cons.mpr ⟨fun hmem => ?_, h.nodup⟩)
      have := h.live _ hmem
      rw [Client.find?_pick] at this
      cases this
    · exact hperm.mem_iff.mpr (List.mem_cons_of_mem _ (h.more ha))
  · refine ⟨hkept, hnew, fun a ha => hlive a (h.live a (hsame ▸ ha)), ?_, ?_, h.id⟩
    · rw [hsame]
      exact h.nodup
    · rw [hsame]
      exact h.more

theorem moves_initialSensorsList [Machine] (alloc : Allocator) (rawSensorsJson : Str)
    (scenes : Heap K) (client : Client) (before behind : List Addr) :
    Moves (Keeping (Grown scenes client before behind))
      (Client.initialSensorsList alloc rawSensorsJson) := by
  refine moves_bind (moves_ofExcept _) fun root => ?_
  cases root with
  | none => exact moves_pure _
  | some root =>
    refine moves_bind (moves_ofExcept _) fun sensorsJson => ?_
    refine moves_forElements _ (fun _ sensorJson _ => ?_) _
    exact moves_bind (moves_ofExcept _) fun id => moves_bind (moves_ofExcept _) fun id =>
      moves_modify fun p h => h.addSensor alloc id

/-! ## Well-formed states -/

structure WellFormed (σ : Viewport K) : Prop where
  live : ∀ a ∈ σ.owned, (σ.scenes.find? a).isSome
  nodup : σ.owned.Nodup
  ordered : ∀ a ∈ σ.orderedScenes, a ∈ σ.owned
  links : ∀ a s, σ.scenes.find? a = some s → ¬ (s.left = .null ∧ s.right = .null)

theorem wellFormed_start : WellFormed (start : Viewport K) :=
  ⟨fun _ h => absurd h List.not_mem_nil, List.nodup_nil, fun _ h => absurd h List.not_mem_nil,
    fun _ _ h => by cases h⟩

theorem WellFormed.quiet {σ σ' : Viewport K} (h : WellFormed σ) (hq : Quiet σ σ') :
    WellFormed σ' := by
  have howned : σ'.owned = σ.owned := by rw [owned, hq.clients, owned]
  refine ⟨fun a ha => ?_, ?_, fun a ha => ?_, fun a s' hs' => ?_⟩
  · rw [hq.links.isSome]
    exact h.live a (howned ▸ ha)
  · rw [howned]
    exact h.nodup
  · rw [howned]
    exact h.ordered a (hq.ordered ▸ ha)
  · obtain ⟨s, hs, hl, hr⟩ := hq.links.find?_back hs'
    rw [hl, hr]
    exact h.links a s hs

theorem WellFormed.registered {σ : Viewport K} (h : WellFormed σ) {draws : List Nat}
    {phyLocation ipAddr : Str} {id : Nat} {clients : ClientsList}
    (hadd : σ.clients.addClient draws phyLocation ipAddr = .ok (id, clients)) :
    WellFormed { σ with clients := clients } := by
  have howned : ({ σ with clients := clients } : Viewport K).owned = σ.owned :=
    scenes_addClient hadd
  refine ⟨fun a ha => h.live a (howned ▸ ha), ?_, fun a ha => ?_, h.links⟩
  · rw [howned]
    exact h.nodup
  · rw [howned]
    exact h.ordered a ha

/-- A registration of sensors adds scenes to one client, and keeps every
scene that is there. -/
structure Enrolled (σ σ' : Viewport K) : Prop where
  ids : σ'.clients.rawClientList.map Client.id = σ.clients.rawClientList.map Client.id
  queue : σ'.clients.avaliableIDs = σ.clients.avaliableIDs
  ordered : σ'.orderedScenes = σ.orderedScenes
  set : σ'.scenesSet = σ.scenesSet
  owned : σ.owned ⊆ σ'.owned
  kept : ∀ a s, σ.scenes.find? a = some s → σ'.scenes.find? a = some s
  new : ∀ a s, σ'.scenes.find? a = some s →
    σ.scenes.find? a = some s ∨ ∃ id, s = Scene.ofSensor id

theorem WellFormed.registerSensors [Machine] {σ : Viewport K} (h : WellFormed σ) (alloc : Allocator)
    (clientId : Nat) (rawSensorsList : Str) :
    WellFormed (after (Viewport.registerSensors alloc clientId rawSensorsList) σ) ∧
      Enrolled σ (after (Viewport.registerSensors alloc clientId rawSensorsList) σ) := by
  rw [Viewport.registerSensors, after_get_bind]
  cases hfind : σ.clients.find clientId with
  | none =>
    exact ⟨h, rfl, rfl, rfl, rfl, fun _ ha => ha, fun _ _ hs => hs, fun _ _ hs => Or.inl hs⟩
  | some client =>
    obtain ⟨before, behind, hsplit, hset, _⟩ := exists_split_of_find hfind
    have howned : σ.owned = before.flatMap Client.scenes ++ client.scenes ++
        behind.flatMap Client.scenes := by
      rw [owned, hsplit, List.flatMap_append, List.flatMap_cons, List.append_assoc]
    have hstart : Grown σ.scenes client (before.flatMap Client.scenes)
        (behind.flatMap Client.scenes) (σ.scenes, client) :=
      ⟨fun _ _ hs => hs, fun _ _ hs => Or.inl hs, fun a ha => h.live a (howned ▸ ha),
        howned ▸ h.nodup, fun _ ha => ha, rfl⟩
    have hgrown := moves_initialSensorsList alloc rawSensorsList _ _ _ _ _ hstart
    simp only [after_zoom]
    generalize after _ (σ.scenes, client) = p at hgrown ⊢
    have howned' : ({ σ with
        scenes := p.1, clients := setClient σ.clients clientId p.2 } : Viewport K).owned =
          before.flatMap Client.scenes ++ p.2.scenes ++ behind.flatMap Client.scenes := by
      rw [owned, hset, List.flatMap_append, List.flatMap_cons, List.append_assoc]
    have hmore : σ.owned ⊆ ({ σ with
        scenes := p.1, clients := setClient σ.clients clientId p.2 } : Viewport K).owned := by
      intro a ha
      rw [howned, List.mem_append, List.mem_append] at ha
      rw [howned', List.mem_append, List.mem_append]
      exact ha.imp_left (Or.imp_right fun hm => hgrown.more hm)
    refine ⟨⟨fun a ha => hgrown.live a (howned' ▸ ha), ?_, fun a ha => hmore (h.ordered a ha),
      fun a s hs => ?_⟩, ?_, rfl, rfl, rfl, hmore, hgrown.kept, hgrown.new⟩
    · rw [howned']
      exact hgrown.nodup
    · rcases hgrown.new a s hs with hold | ⟨id, rfl⟩
      · exact h.links a s hold
      · exact fun hl => by cases hl.1
    · rw [hset, hsplit]
      simp [hgrown.id]

/-- The scenes of a client go with it, and all others stay. -/
theorem perm_owned_withoutClient {σ : Viewport K} {clientId : Nat} {client : Client}
    (hfind : σ.clients.find clientId = some client) :
    σ.owned.Perm (client.scenes ++ (σ.withoutClient clientId client).owned) := by
  obtain ⟨before, behind, hsplit, _, herase⟩ := exists_split_of_find hfind
  have howned : σ.owned = before.flatMap Client.scenes ++ (client.scenes ++
      behind.flatMap Client.scenes) := by
    rw [owned, hsplit, List.flatMap_append, List.flatMap_cons]
  have howned' : (σ.withoutClient clientId client).owned =
      before.flatMap Client.scenes ++ behind.flatMap Client.scenes := by
    show (σ.clients.rawClientList.eraseP (·.id = clientId)).flatMap _ = _
    rw [herase, List.flatMap_append]
  rw [howned, howned', ← List.append_assoc, ← List.append_assoc]
  exact List.perm_append_comm.append_right _

theorem mem_owned_withoutClient {σ : Viewport K} {clientId : Nat} {client : Client}
    (hfind : σ.clients.find clientId = some client) {a : Addr} (ha : a ∈ σ.owned)
    (hout : a ∉ client.scenes) : a ∈ (σ.withoutClient clientId client).owned := by
  rcases List.mem_append.mp ((perm_owned_withoutClient hfind).mem_iff.mp ha) with hc | ho
  · exact absurd hc hout
  · exact ho

theorem WellFormed.withoutClient {σ : Viewport K} (h : WellFormed σ) {clientId : Nat}
    {client : Client} (hfind : σ.clients.find clientId = some client) :
    WellFormed (σ.withoutClient clientId client) := by
  have hperm := perm_owned_withoutClient hfind
  have hnodup := List.nodup_append.mp (hperm.nodup_iff.mp h.nodup)
  have hout : ∀ a ∈ (σ.withoutClient clientId client).owned, a ∉ client.scenes :=
    fun a ha hc => hnodup.2.2 a hc a ha rfl
  have hscenes : (σ.withoutClient clientId client).scenes = σ.scenes.free client.scenes := rfl
  refine ⟨fun a ha => ?_, hnodup.2.1, fun a ha => ?_, fun a s hs => ?_⟩
  · rw [hscenes, Heap.find?_free, if_neg (hout a ha)]
    exact h.live a (hperm.mem_iff.mpr (List.mem_append_right _ ha))
  · obtain ⟨hmem, hnot⟩ := List.mem_filter.mp ha
    exact mem_owned_withoutClient hfind (h.ordered a hmem) (by simpa using hnot)
  · rw [hscenes, Heap.find?_free] at hs
    split_ifs at hs
    exact h.links a s hs

/-- A scene that is linked gets at least one neighbour. -/
theorem linked_of_mem_linkWrites {ordered : List Addr} {w : Addr × (Scene K → Scene K)}
    (hw : w ∈ linkWrites ordered) (s : Scene K) :
    ¬ ((w.2 s).left = .null ∧ (w.2 s).right = .null) := by
  unfold linkWrites at hw
  split_ifs at hw with hlen
  · obtain ⟨⟨a, i⟩, hi, rfl⟩ := List.mem_map.mp hw
    have hlt : i < ordered.length := by simpa using (List.mem_zipIdx hi).2.1
    rintro ⟨hl, hr⟩
    have hprev : prevOf ordered i = none := by
      change Link.ofOption _ = .null at hl
      cases hp : prevOf ordered i with
      | none => rfl
      | some b =>
        rw [hp] at hl
        cases hl
    have hnext : ordered[i + 1]? = none := by
      change Link.ofOption _ = .null at hr
      cases hn : ordered[i + 1]? with
      | none => rfl
      | some b =>
        rw [hn] at hr
        cases hr
    cases i with
    | zero =>
      rw [List.getElem?_eq_none_iff] at hnext
      omega
    | succ i =>
      change ordered[i]? = none at hprev
      rw [List.getElem?_eq_none_iff] at hprev
      omega
  · cases hw

theorem WellFormed.acceptedOrder {σ : Viewport K} (h : WellFormed σ) :
    WellFormed σ.acceptedOrder := by
  have hrel : Heap.Related
      (fun s s' => ¬ (s.left = .null ∧ s.right = .null) → ¬ (s'.left = .null ∧ s'.right = .null))
      σ.scenes σ.acceptedOrder.scenes := by
    refine Heap.related_writeAll (fun _ hs => hs) (fun _ _ _ h h' hs => h' (h hs))
      (fun w hw s hs => ?_) _
    rcases List.mem_append.mp hw with hw | hw
    · rcases List.mem_append.mp hw with hw | hw
      · obtain ⟨a, _, rfl⟩ := List.mem_map.mp hw
        exact hs
      · obtain ⟨p, _, rfl⟩ := List.mem_map.mp hw
        exact hs
    · exact linked_of_mem_linkWrites hw s
  refine ⟨fun a ha => ?_, h.nodup, fun a ha => ?_, fun a s' hs' => ?_⟩
  · rw [hrel.isSome]
    exact h.live a ha
  · have hmem : a ∈ σ.newOrder := ha
    have howned : a ∈ σ.owned := mem_newOrder.mp hmem
    exact howned
  · obtain ⟨s, hs, hst⟩ := hrel.find?_back hs'
    exact hst (h.links a s hs)

theorem WellFormed.refusedOrder {σ : Viewport K} (h : WellFormed σ) :
    WellFormed σ.refusedOrder :=
  ⟨h.live, h.nodup, fun _ ha => absurd ha List.not_mem_nil, h.links⟩

theorem after_deregisterClient (clientId : Nat) (σ : Viewport K) :
    after (Viewport.deregisterClient clientId) σ =
      (σ.clients.find clientId).elim σ (σ.withoutClient clientId) := by
  cases hfind : σ.clients.find clientId with
  | none => rw [after, not_returns_deregisterClient hfind]; rfl
  | some client => rw [after, run_deregisterClient hfind]; rfl

theorem WellFormed.after_calibrateSceneOrder {σ : Viewport K} (h : WellFormed σ) :
    after Viewport.calibrateSceneOrder σ =
      if ∀ a ∈ σ.owned, 0 < σ.scenes.firstObserved a then σ.acceptedOrder
      else σ.refusedOrder := by
  rw [after, run_calibrateSceneOrder h.live]
  split_ifs <;> rfl

end MinorityViewport
