import MinorityViewport.Data.Scene

/-!
# The heap of scenes

The scenes of sensors live in a `Heap`.  A constructor takes its address
from an `Allocator`, which may answer any address that no live scene has,
also the address of a scene that was deleted before.

`deref` follows a pointer, `modifyAt` writes through one, and `free` deletes
scenes.  `writeAll` performs a list of writes, from the left.  Its lemmas
say what a list of writes preserves, and what writes to different scenes
leave.
-/

namespace MinorityViewport

variable {K : Type}

/-- The live scenes by their addresses. -/
abbrev Heap (K : Type) := OrdMap Addr (Scene K)

/-- What `new` answers: never the address of a live object. -/
structure Allocator where
  pick : List Addr → Addr
  fresh : ∀ live, pick live ∉ live

/-- The allocator that takes the first address above all live ones. -/
def Allocator.next : Allocator where
  pick live := live.foldr max 0 + 1
  fresh live h := by
    have hle : ∀ (l : List Addr), ∀ a ∈ l, a ≤ l.foldr max 0 := by
      intro l
      induction l with
      | nil => exact fun a ha => by cases ha
      | cons b rest ih =>
        intro a ha
        rcases List.mem_cons.mp ha with rfl | ha
        · exact le_max_left _ _
        · exact le_max_of_le_right (ih a ha)
    exact Nat.not_succ_le_self _ (hle live _ h)

namespace Heap

/-! ## Single accesses -/

/-- Follow a pointer to a scene. -/
def deref (scenes : Heap K) (addr : Addr) : Except Fault (Scene K) :=
  match scenes.find? addr with
  | some scene => .ok scene
  | none => .error .danglingPointer

/-- Write to a scene. -/
def modifyAt (scenes : Heap K) (addr : Addr) (f : Scene K → Scene K) : Heap K :=
  match scenes.find? addr with
  | some scene => scenes.assign addr (f scene)
  | none => scenes

theorem deref_eq_ok_iff {scenes : Heap K} {addr : Addr} {scene : Scene K} :
    scenes.deref addr = .ok scene ↔ scenes.find? addr = some scene := by
  unfold deref
  cases scenes.find? addr <;> simp

theorem find?_modifyAt (scenes : Heap K) (addr a : Addr) (f : Scene K → Scene K) :
    (scenes.modifyAt addr f).find? a =
      if a = addr then (scenes.find? a).map f else scenes.find? a := by
  unfold modifyAt
  cases h : scenes.find? addr with
  | some scene =>
    rw [OrdMap.find?_assign]
    split_ifs with ha
    · rw [ha, h, Option.map_some]
    · rfl
  | none =>
    split_ifs with ha
    · rw [ha, h, Option.map_none]
    · rfl

@[simp]
theorem isSome_find?_modifyAt (scenes : Heap K) (addr a : Addr)
    (f : Scene K → Scene K) :
    ((scenes.modifyAt addr f).find? a).isSome = (scenes.find? a).isSome := by
  rw [find?_modifyAt]
  split_ifs
  · rw [Option.isSome_map]
  · rfl

/-- Delete scenes. -/
def free (scenes : Heap K) (addrs : List Addr) : Heap K :=
  addrs.foldl OrdMap.erase scenes

theorem find?_free (scenes : Heap K) (addrs : List Addr) (a : Addr) :
    (scenes.free addrs).find? a = if a ∈ addrs then none else scenes.find? a :=
  OrdMap.find?_foldl_erase addrs scenes a

/-! ## Lists of writes -/

/-- Perform the writes, from the left. -/
def writeAll (scenes : Heap K) (writes : List (Addr × (Scene K → Scene K))) : Heap K :=
  writes.foldl (fun scenes write => scenes.modifyAt write.1 write.2) scenes

theorem writeAll_append (scenes : Heap K) (ws ws' : List (Addr × (Scene K → Scene K))) :
    scenes.writeAll (ws ++ ws') = (scenes.writeAll ws).writeAll ws' :=
  List.foldl_append

theorem find?_writeAll_of_notMem {ws : List (Addr × (Scene K → Scene K))} {a : Addr}
    (h : a ∉ ws.map Prod.fst) (scenes : Heap K) :
    (scenes.writeAll ws).find? a = scenes.find? a := by
  induction ws generalizing scenes with
  | nil => rfl
  | cons w rest ih =>
    rw [List.map_cons, List.mem_cons, not_or] at h
    exact (ih h.2 (scenes.modifyAt w.1 w.2)).trans (by rw [find?_modifyAt, if_neg h.1])

/-- Of writes to different scenes, each scene sees its own. -/
theorem find?_writeAll_of_nodup {ws : List (Addr × (Scene K → Scene K))}
    (hnodup : (ws.map Prod.fst).Nodup) {a : Addr} {f : Scene K → Scene K}
    (hmem : (a, f) ∈ ws) (scenes : Heap K) :
    (scenes.writeAll ws).find? a = (scenes.find? a).map f := by
  induction ws generalizing scenes with
  | nil => cases hmem
  | cons w rest ih =>
    rw [List.map_cons, List.nodup_cons] at hnodup
    show ((scenes.modifyAt w.1 w.2).writeAll rest).find? a = _
    rcases List.mem_cons.mp hmem with rfl | hmem
    · rw [find?_writeAll_of_notMem hnodup.1, find?_modifyAt, if_pos rfl]
    · have hne : a ≠ w.1 := fun h =>
        hnodup.1 (h ▸ List.mem_map_of_mem (f := Prod.fst) hmem)
      rw [ih hnodup.2 hmem, find?_modifyAt, if_neg hne]

/-! ## Heaps with related scenes -/

/-- The same addresses are live, and `R` relates the scenes there. -/
def Related (R : Scene K → Scene K → Prop) (scenes scenes' : Heap K) : Prop :=
  ∀ a, Option.Rel R (scenes.find? a) (scenes'.find? a)

section Related

variable {R : Scene K → Scene K → Prop}

theorem Related.refl (hR : ∀ s, R s s) (scenes : Heap K) : Related R scenes scenes := by
  intro a
  cases scenes.find? a with
  | none => exact .none
  | some s => exact .some (hR s)

theorem Related.trans (hR : ∀ s₁ s₂ s₃, R s₁ s₂ → R s₂ s₃ → R s₁ s₃)
    {h₁ h₂ h₃ : Heap K} (h : Related R h₁ h₂) (h' : Related R h₂ h₃) : Related R h₁ h₃ := by
  intro a
  have ha := h a
  have ha' := h' a
  revert ha ha'
  cases h₁.find? a <;> cases h₂.find? a <;> cases h₃.find? a <;> intro ha ha' <;>
    cases ha <;> cases ha'
  · exact .none
  · exact .some (hR _ _ _ (by assumption) (by assumption))

theorem Related.symm (hR : ∀ s s', R s s' → R s' s) {scenes scenes' : Heap K}
    (h : Related R scenes scenes') : Related R scenes' scenes := by
  intro a
  have ha := h a
  revert ha
  cases scenes.find? a <;> cases scenes'.find? a <;> intro ha <;> cases ha
  · exact .none
  · exact .some (hR _ _ (by assumption))

theorem Related.mono {R' : Scene K → Scene K → Prop} (hR : ∀ s s', R s s' → R' s s')
    {scenes scenes' : Heap K} (h : Related R scenes scenes') : Related R' scenes scenes' := by
  intro a
  have ha := h a
  revert ha
  cases scenes.find? a <;> cases scenes'.find? a <;> intro ha <;> cases ha
  · exact .none
  · exact .some (hR _ _ (by assumption))

theorem Related.find? {scenes scenes' : Heap K} (h : Related R scenes scenes') {a : Addr}
    {s : Scene K} (hs : scenes.find? a = some s) :
    ∃ s', scenes'.find? a = some s' ∧ R s s' := by
  have ha := h a
  rw [hs] at ha
  cases hs' : scenes'.find? a with
  | none =>
    rw [hs'] at ha
    cases ha
  | some s' =>
    rw [hs'] at ha
    cases ha
    exact ⟨s', rfl, by assumption⟩

theorem Related.isSome {scenes scenes' : Heap K} (h : Related R scenes scenes') (a : Addr) :
    (scenes'.find? a).isSome = (scenes.find? a).isSome := by
  have ha := h a
  revert ha
  cases scenes.find? a <;> cases scenes'.find? a <;> intro ha <;> cases ha <;> rfl

theorem Related.find?_back {scenes scenes' : Heap K} (h : Related R scenes scenes') {a : Addr}
    {s' : Scene K} (hs' : scenes'.find? a = some s') :
    ∃ s, scenes.find? a = some s ∧ R s s' := by
  have ha := h a
  rw [hs'] at ha
  cases hs : scenes.find? a with
  | none =>
    rw [hs] at ha
    cases ha
  | some s =>
    rw [hs] at ha
    cases ha
    exact ⟨s, rfl, by assumption⟩

theorem related_modifyAt (hR : ∀ s, R s s) {f : Scene K → Scene K} (hf : ∀ s, R s (f s))
    (scenes : Heap K) (addr : Addr) : Related R scenes (scenes.modifyAt addr f) := by
  intro a
  rw [find?_modifyAt]
  cases scenes.find? a with
  | none => split_ifs <;> exact .none
  | some s =>
    split_ifs
    · exact .some (hf s)
    · exact .some (hR s)

theorem related_writeAll (hR : ∀ s, R s s)
    (htrans : ∀ s₁ s₂ s₃, R s₁ s₂ → R s₂ s₃ → R s₁ s₃)
    {ws : List (Addr × (Scene K → Scene K))} (hws : ∀ w ∈ ws, ∀ s, R s (w.2 s))
    (scenes : Heap K) : Related R scenes (scenes.writeAll ws) := by
  induction ws generalizing scenes with
  | nil => exact .refl hR scenes
  | cons w rest ih =>
    exact (related_modifyAt hR (hws w List.mem_cons_self) scenes w.1).trans htrans
      (ih (fun v hv => hws v (List.mem_cons_of_mem _ hv)) (scenes.modifyAt w.1 w.2))

end Related

/-! ## The times of first observation -/

/-- When the scene at an address was first observed. -/
def firstObserved (scenes : Heap K) (a : Addr) : Int :=
  (scenes.find? a).elim 0 Scene.firstSkeletonObservedTime

theorem firstObserved_writeAll {ws : List (Addr × (Scene K → Scene K))}
    (hws : ∀ w ∈ ws, ∀ s, (w.2 s).firstSkeletonObservedTime = s.firstSkeletonObservedTime)
    (scenes : Heap K) : (scenes.writeAll ws).firstObserved = scenes.firstObserved := by
  have hrel := related_writeAll
    (R := fun s s' => s'.firstSkeletonObservedTime = s.firstSkeletonObservedTime)
    (fun _ => rfl) (fun _ _ _ h h' => h'.trans h) hws scenes
  funext a
  have ha := hrel a
  rw [firstObserved, firstObserved]
  revert ha
  cases scenes.find? a <;> cases (scenes.writeAll ws).find? a <;> intro ha <;> cases ha
  · rfl
  · assumption

@[simp]
theorem isSome_find?_writeAll (scenes : Heap K) (ws : List (Addr × (Scene K → Scene K)))
    (a : Addr) : ((scenes.writeAll ws).find? a).isSome = (scenes.find? a).isSome := by
  induction ws generalizing scenes with
  | nil => rfl
  | cons w rest ih =>
    exact (ih (scenes.modifyAt w.1 w.2)).trans (isSome_find?_modifyAt scenes w.1 a w.2)

end Heap

end MinorityViewport
