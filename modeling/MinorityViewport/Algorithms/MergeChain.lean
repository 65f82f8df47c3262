import MinorityViewport.Algorithms.MergeCoverage
import MinorityViewport.Algorithms.MergeKeys

/-!
# One person in a chain of sensors

A person that several sensors see should be published once.  A scene that
publishes the person takes it away from the scene on its left, so that
scene, when its turn comes, has nobody to match with the scene on its own
left, and the scene after it publishes the person again.  What becomes of
these updates in the global scene is in `Algorithms/ChainEntries`.

`publishedAt` counts what a walk publishes for some of its scenes.  On a run
of scenes with one person each, every second one publishes, from the right
end of the run or from the scene next to it: `publishedAt_run`.  The claim
of the scene on the right of the run decides which of the two it is.
-/

namespace MinorityViewport

open Exec Viewport

variable {K : Type} [Field K] [LinearOrder K]

/-! ## Counting the skeletons of some scenes -/

/-- How many skeletons of the scene are shown. -/
def Scene.shownCount (scene : Scene K) (left : Option (Scene K)) : Nat :=
  if scene.calibrated then
    scene.skeletons.entries.countP fun body => scene.Shows left body.2
  else 0

/-- How many skeletons are published for the scenes at the given addresses.
The scenes come from the right end, and `claimed` is already claimed from
the first one. -/
def publishedAt (run : List Addr) : List Nat → List (Addr × Scene K) → Nat
  | _, [] => 0
  | claimed, p :: toLeftEnd =>
    let scene := p.2.removeAll claimed
    let left := toLeftEnd.head?.map Prod.snd
    (if p.1 ∈ run then scene.shownCount left else 0) +
      publishedAt run (scene.claims left) toLeftEnd

/-- The updates of the visits to the scenes at the given addresses. -/
def updatesAt (run : List Addr) (visits : List (Visit K)) : List (Publication K) :=
  (visits.filter (·.scene ∈ run)).flatMap (·.updates)

omit [LinearOrder K] in
theorem updatesAt_cons (run : List Addr) (visit : Visit K) (visits : List (Visit K)) :
    updatesAt run (visit :: visits) =
      (if visit.scene ∈ run then visit.updates else []) ++ updatesAt run visits := by
  rw [updatesAt, List.filter_cons]
  split_ifs with h <;> simp_all [updatesAt]

/-- The count is what the plan publishes. -/
theorem length_updatesAt_plan (rand : Nat → Nat) {scenes : Heap K} {ordered : List Addr}
    (hlinked : LeftLinked scenes ordered) (run : List Addr) {ps : List (Addr × Scene K)}
    (hps : ∀ p ∈ ps, scenes.find? p.1 = some p.2) :
    ∀ (visited : List Addr), ordered.reverse = visited ++ ps.map Prod.fst →
      ∀ {scenes' : Heap K} {claimed : List Nat} (drawn : Nat),
        Ahead scenes scenes' claimed (ps.map Prod.fst) → AllReady scenes' (ps.map Prod.fst) →
          (updatesAt run (plan rand drawn scenes' (ps.map Prod.fst))).length =
            publishedAt run claimed ps := by
  induction ps with
  | nil =>
    intro _ _ _ _ _ _ _
    rfl
  | cons p rest ih =>
    intro visited hsplit scenes' claimed drawn hahead hready
    rw [List.forall_mem_cons] at hps
    have hss : List.Forall₂ (fun a s => scenes.find? a = some s) (rest.map Prod.fst)
        (rest.map Prod.snd) := by
      rw [List.forall₂_map_left_iff, List.forall₂_map_right_iff, List.forall₂_same]
      exact hps.2
    obtain ⟨drawn', scenes'', hahead', hready', hround⟩ :=
      plan_round rand hlinked hsplit hps.1 hss drawn hahead hready
    have hrest := ih hps.2 _ (hsplit.trans (List.append_cons visited p.1 _)) drawn' hahead' hready'
    rw [List.head?_map] at hround hrest
    rw [publishedAt, ← hrest, List.map_cons, Scene.shownCount]
    rcases hround with ⟨hcal, hplan⟩ | ⟨v, key, hcal, hplan, hpeople, hshown⟩
    · rw [hplan, hcal]
      simp
    · rw [hplan, updatesAt_cons, List.length_append, if_pos hcal]
      refine congrArg (· + _) ?_
      split_ifs
      · rw [length_publications, View.headcount, hpeople]
        exact List.countP_congr fun body _ => by simp [hshown]
      · rfl

/-! ## What is left of a scene when its turn comes -/

/-- The keys that are claimed from `next` when the scenes on its right have
had their turns. -/
def claimedAfter : List Nat → List (Scene K) → Scene K → List Nat
  | claimed, [], _ => claimed
  | claimed, scene :: toLeftEnd, next =>
    claimedAfter ((scene.removeAll claimed).claims (toLeftEnd.head?.getD next)) toLeftEnd next

theorem publishedAt_append {run : List Addr} {ps : List (Addr × Scene K)}
    (hps : ∀ p ∈ ps, p.1 ∉ run) (claimed : List Nat) (next : Addr × Scene K)
    (rest : List (Addr × Scene K)) :
    publishedAt run claimed (ps ++ next :: rest) =
      publishedAt run (claimedAfter claimed (ps.map Prod.snd) next.2) (next :: rest) := by
  induction ps generalizing claimed with
  | nil => rfl
  | cons p ps ih =>
    rw [List.forall_mem_cons] at hps
    rw [List.cons_append, publishedAt, if_neg hps.1, Nat.zero_add, ih hps.2]
    rw [List.map_cons, claimedAfter]
    congr 3
    cases ps <;> rfl

theorem publishedAt_eq_zero {run : List Addr} {ps : List (Addr × Scene K)}
    (hps : ∀ p ∈ ps, p.1 ∉ run) (claimed : List Nat) : publishedAt run claimed ps = 0 := by
  induction ps generalizing claimed with
  | nil => rfl
  | cons p ps ih =>
    rw [List.forall_mem_cons] at hps
    rw [publishedAt, if_neg hps.1, Nat.zero_add, ih hps.2]

/-! ## Runs of scenes with one person -/

namespace Scene

/-- A calibrated scene with one person under the given key. -/
structure HasOnly (scene : Scene K) (key : Nat) (person : Skeleton K) : Prop where
  calibrated : scene.calibrated
  entries : scene.skeletons.entries = [(key, person)]

/-- On all three axes. -/
def Near (p q : Skeleton K) : Prop :=
  |p.posX - q.posX| < threshold ∧ |p.posY - q.posY| < threshold ∧ |p.posZ - q.posZ| < threshold

/-- The people of the scene, moved by its matrices, stand where the people
of the scene on the left stand. -/
def Sees (scene left : Scene K) : Prop :=
  ∃ F, scene.rAndT = some F ∧ ∀ ref ∈ left.skeletons.values, ∀ body ∈ scene.skeletons.values,
    Near ref (body.mapPoints F.apply)

omit [Field K] [LinearOrder K] in
theorem entries_removeAll (scene : Scene K) (keys : List Nat) :
    (scene.removeAll keys).skeletons.entries = scene.skeletons.entries.filter (·.1 ∉ keys) := by
  rw [skeletons_removeAll, OrdMap.entries_foldl_erase]

omit [Field K] [LinearOrder K] in
theorem HasOnly.removeAll {scene : Scene K} {key : Nat} {person : Skeleton K}
    (h : scene.HasOnly key person) {claimed : List Nat} (hkey : key ∉ claimed) :
    (scene.removeAll claimed).HasOnly key person := by
  refine ⟨(scene.sameFrame_removeAll claimed).2.2.1.trans h.calibrated, ?_⟩
  rw [entries_removeAll, h.entries]
  simp [hkey]

omit [Field K] [LinearOrder K] in
theorem HasOnly.entries_removeAll {scene : Scene K} {key : Nat} {person : Skeleton K}
    (h : scene.HasOnly key person) {claimed : List Nat} (hkey : key ∈ claimed) :
    (scene.removeAll claimed).skeletons.entries = [] := by
  rw [Scene.entries_removeAll, h.entries]
  simp [hkey]

/-- Nobody is left to be published or to claim somebody. -/
theorem shownCount_of_entries_eq_nil {scene : Scene K} (h : scene.skeletons.entries = [])
    (left : Option (Scene K)) : scene.shownCount left = 0 ∧ scene.claims left = [] := by
  rw [shownCount, claims, h]
  cases left <;> simp

theorem Sees.removeAll {scene left : Scene K} (h : scene.Sees left) (claimed : List Nat) :
    (scene.removeAll claimed).Sees left := by
  obtain ⟨F, hF, hnear⟩ := h
  refine ⟨F, (scene.sameFrame_removeAll claimed).2.2.2.2.2.trans hF, fun ref href body hbody => ?_⟩
  refine hnear ref href body ?_
  rw [OrdMap.values, Scene.entries_removeAll] at hbody
  exact (List.filter_sublist.map _).subset hbody

/-- The person of the scene is the person on the left. -/
theorem partnerIn_of_sees {scene left : Scene K} {key key' : Nat} {person person' : Skeleton K}
    (h : scene.HasOnly key person) (h' : left.HasOnly key' person') (hsees : scene.Sees left) :
    scene.partnerIn left person = some (key', person') := by
  obtain ⟨F, hF, hnear⟩ := hsees
  have hsame : deemedSame person' (person.mapPoints F.apply) := by
    unfold deemedSame
    have := (hnear person' (by rw [OrdMap.values, h'.entries]; exact List.mem_cons_self) person
      (by rw [OrdMap.values, h.entries]; exact List.mem_cons_self)).1
    unfold threshold at this
    simp [this]
  rw [partnerIn, h'.entries, hF, Option.getD_some]
  exact List.find?_cons_of_pos hsame

/-- A scene that still has its person publishes it and claims the person on
the left. -/
theorem HasOnly.shownCount_of_sees {scene left : Scene K} {key key' : Nat}
    {person person' : Skeleton K} (h : scene.HasOnly key person) (h' : left.HasOnly key' person')
    (hsees : scene.Sees left) :
    scene.shownCount (some left) = 1 ∧ scene.claims (some left) = [key'] := by
  have hpartner := partnerIn_of_sees h h' hsees
  have hshows : scene.Shows (some left) person := by
    intro l hl _
    obtain rfl := Option.some.inj hl
    rw [hpartner]
    rfl
  rw [shownCount, claims, if_pos h.calibrated, if_pos h.calibrated, h.entries]
  exact ⟨by simp [hshows], by simp [hpartner]⟩

/-- A scene with nobody on its left publishes its person. -/
theorem HasOnly.shownCount_of_empty {scene : Scene K} {key : Nat} {person : Skeleton K}
    (h : scene.HasOnly key person) {left : Option (Scene K)}
    (hleft : ∀ l ∈ left, l.skeletons.size = 0) : scene.shownCount left = 1 := by
  have hshows : scene.Shows left person := fun l hl hsize => absurd (hleft l hl) hsize
  rw [shownCount, if_pos h.calibrated, h.entries]
  simp [hshows]

end Scene

/-- Every second scene of the run publishes the person, beginning with the
first one from the right that still has it. -/
theorem publishedAt_run {run : List Addr} {left : List (Addr × Scene K)}
    (hleft : ∀ q ∈ left, q.1 ∉ run) (hedge : ∀ q ∈ left.head?, q.2.skeletons.size = 0)
    (rest : List (Addr × Scene K)) :
    ∀ {p : Addr × Scene K} {key : Nat} {person : Skeleton K} (claimed : List Nat),
      p.2.HasOnly key person →
      (∀ q ∈ p :: rest, q.1 ∈ run ∧ ∃ key person, q.2.HasOnly key person) →
      (p :: rest).IsChain (fun p q => p.2.Sees q.2) →
      publishedAt run claimed (p :: rest ++ left) =
        if key ∈ claimed then (rest.length + 1) / 2 else (rest.length + 2) / 2 := by
  induction rest with
  | nil =>
    intro p key person claimed hp hall _
    rw [List.cons_append, List.nil_append, publishedAt, publishedAt_eq_zero hleft,
      if_pos (hall p List.mem_cons_self).1, Nat.add_zero, List.length_nil]
    split_ifs with hkey
    · exact (Scene.shownCount_of_entries_eq_nil (hp.entries_removeAll hkey) _).1
    · refine (hp.removeAll hkey).shownCount_of_empty fun l hl => ?_
      obtain ⟨q, hq, rfl⟩ := Option.mem_map.mp hl
      exact hedge q hq
  | cons q rest ih =>
    intro p key person claimed hp hall hchain
    obtain ⟨hrun, hall⟩ := List.forall_mem_cons.mp hall
    obtain ⟨hsees, hchain⟩ := List.isChain_cons_cons.mp hchain
    obtain ⟨key', person', hq⟩ := (hall q List.mem_cons_self).2
    have hnext : ∀ claimed, publishedAt run claimed (q :: rest ++ left) = _ :=
      fun claimed => ih claimed hq hall hchain
    rw [List.cons_append, publishedAt, if_pos hrun.1, List.cons_append, List.head?_cons,
      Option.map_some, ← List.cons_append, hnext, List.length_cons]
    split_ifs with hkey' hkey hkey
    · rw [(Scene.shownCount_of_entries_eq_nil (hp.entries_removeAll hkey) _).2] at hkey'
      cases hkey'
    · rw [((hp.removeAll hkey).shownCount_of_sees hq (hsees.removeAll claimed)).1]
      omega
    · rw [(Scene.shownCount_of_entries_eq_nil (hp.entries_removeAll hkey) _).1]
      omega
    · rw [((hp.removeAll hkey).shownCount_of_sees hq (hsees.removeAll claimed)).2] at hkey'
      exact absurd (List.mem_singleton_self key') hkey'

/-! ## The run of a person -/

/-- A run of at least two consecutive calibrated scenes with one person
each.  Every scene but the first sees the person of the scene before it, and
there is nobody in the scene before the run. -/
structure OnePerson (σ : Viewport K) (before run behind : List Addr) : Prop where
  ordered : σ.orderedScenes = before ++ run ++ behind
  two : 2 ≤ run.length
  alone : ∀ a ∈ run, ∃ s key person, σ.scenes.find? a = some s ∧ s.HasOnly key person
  sees : run.IsChain fun b a => ∀ l s, σ.scenes.find? b = some l → σ.scenes.find? a = some s →
    s.Sees l
  edge : ∀ b ∈ before.getLast?, ∀ s, σ.scenes.find? b = some s → s.skeletons.size = 0

omit [Field K] [LinearOrder K] in
/-- The live scenes of a list, with their addresses. -/
def Viewport.placed (σ : Viewport K) (l : List Addr) : List (Addr × Scene K) :=
  l.filterMap fun a => (σ.scenes.find? a).map fun s => (a, s)

/-- The scene on the right of the run claims the person of the last one. -/
def LastClaimed (σ : Viewport K) (run behind : List Addr) : Prop :=
  ∃ a s, run.getLast? = some a ∧ σ.scenes.find? a = some s ∧
    ∃ key ∈ s.skeletons.keys, key ∈ claimedAfter [] ((σ.placed behind.reverse).map Prod.snd) s

omit [Field K] [LinearOrder K] in
theorem find?_of_mem_placed {σ : Viewport K} {l : List Addr} {p : Addr × Scene K}
    (hp : p ∈ σ.placed l) : p.1 ∈ l ∧ σ.scenes.find? p.1 = some p.2 := by
  obtain ⟨a, ha, hsome⟩ := List.mem_filterMap.mp hp
  obtain ⟨s, hs, rfl⟩ := Option.map_eq_some_iff.mp hsome
  exact ⟨ha, hs⟩

omit [Field K] [LinearOrder K] in
theorem map_fst_placed {σ : Viewport K} {l : List Addr}
    (hlive : ∀ a ∈ l, ∃ s, σ.scenes.find? a = some s) : (σ.placed l).map Prod.fst = l := by
  induction l with
  | nil => rfl
  | cons a rest ih =>
    obtain ⟨⟨s, hs⟩, hrest⟩ := List.forall_mem_cons.mp hlive
    rw [placed, List.filterMap_cons_some (by rw [hs]; rfl), List.map_cons]
    exact congrArg (a :: ·) (ih hrest)

omit [Field K] [LinearOrder K] in
theorem placed_append (σ : Viewport K) (l l' : List Addr) :
    σ.placed (l ++ l') = σ.placed l ++ σ.placed l' := List.filterMap_append

section

variable {σ : Viewport K} {before run behind : List Addr} (h : OnePerson σ before run behind)

include h

theorem OnePerson.live : ∀ a ∈ run, ∃ s, σ.scenes.find? a = some s := by
  intro a ha
  obtain ⟨s, _, _, hs, _⟩ := h.alone a ha
  exact ⟨s, hs⟩

theorem OnePerson.hasOnly_of_mem_placed {q : Addr × Scene K} (hq : q ∈ σ.placed run.reverse) :
    q.1 ∈ run ∧ ∃ key person, q.2.HasOnly key person := by
  obtain ⟨hrun, hfind⟩ := find?_of_mem_placed hq
  obtain ⟨t, key, person, ht, honly⟩ := h.alone q.1 (List.mem_reverse.mp hrun)
  obtain rfl := Option.some.inj (hfind.symm.trans ht)
  exact ⟨List.mem_reverse.mp hrun, key, person, honly⟩

/-- Along the walk, every scene of the run sees the next one. -/
theorem OnePerson.isChain_placed : (σ.placed run.reverse).IsChain fun p q => p.2.Sees q.2 := by
  have hsees := List.isChain_reverse.mpr h.sees
  have hfst := map_fst_placed fun a ha => h.live a (List.mem_reverse.mp ha)
  rw [← hfst, List.isChain_map] at hsees
  exact hsees.imp_of_mem_imp fun p q hp hq hpq =>
    hpq q.2 p.2 (find?_of_mem_placed hq).2 (find?_of_mem_placed hp).2

/-- The scene behind the run in the walk is empty. -/
theorem OnePerson.empty_of_mem_head? (hlive : ∀ a ∈ before, ∃ s, σ.scenes.find? a = some s) :
    ∀ q ∈ (σ.placed before.reverse).head?, q.2.skeletons.size = 0 := by
  intro q hq
  refine h.edge q.1 ?_ q.2 (find?_of_mem_placed (List.mem_of_head? hq)).2
  have hfst := map_fst_placed fun a ha => hlive a (List.mem_reverse.mp ha)
  rw [← List.head?_reverse, ← hfst, List.head?_map, hq]
  rfl

/-- The last scene of the run comes first in the walk. -/
theorem OnePerson.exists_last :
    ∃ a s key person rest, σ.placed run.reverse = (a, s) :: rest ∧ run.getLast? = some a ∧
      σ.scenes.find? a = some s ∧ s.HasOnly key person ∧ rest.length + 1 = run.length := by
  have hfst := map_fst_placed fun a ha => h.live a (List.mem_reverse.mp ha)
  have hlen := congrArg List.length hfst
  rw [List.length_map, List.length_reverse] at hlen
  cases hplaced : σ.placed run.reverse with
  | nil =>
    rw [hplaced, List.length_nil] at hlen
    have := h.two
    omega
  | cons p rest =>
    have hp : p ∈ σ.placed run.reverse := hplaced ▸ List.mem_cons_self
    obtain ⟨_, hs⟩ := find?_of_mem_placed hp
    obtain ⟨_, key, person, honly⟩ := h.hasOnly_of_mem_placed hp
    refine ⟨p.1, p.2, key, person, rest, rfl, ?_, hs, honly, ?_⟩
    · rw [← List.head?_reverse, ← hfst, hplaced]
      rfl
    · rw [← hlen, hplaced, List.length_cons]

end

/-- The key of the only person of the last scene. -/
theorem lastClaimed_iff {σ : Viewport K} {run behind : List Addr} {a : Addr} {s : Scene K}
    {key : Nat} {person : Skeleton K} (hlast : run.getLast? = some a)
    (hs : σ.scenes.find? a = some s) (honly : s.HasOnly key person) :
    LastClaimed σ run behind ↔
      key ∈ claimedAfter [] ((σ.placed behind.reverse).map Prod.snd) s := by
  have hkeys : s.skeletons.keys = [key] := by
    rw [OrdMap.keys, honly.entries]
    rfl
  constructor
  · rintro ⟨a', s', hlast', hs', key', hkey', hmem⟩
    obtain rfl := Option.some.inj (hlast.symm.trans hlast')
    obtain rfl := Option.some.inj (hs.symm.trans hs')
    rw [hkeys, List.mem_singleton] at hkey'
    rwa [← hkey']
  · exact fun hmem => ⟨a, s, hlast, hs, key, by simp [hkeys], hmem⟩

/-- The updates of a merge for some of its scenes. -/
theorem length_updatesAt_eq (rand : Nat → Nat) {σ : Viewport K}
    (hlinked : LeftLinked σ.scenes σ.orderedScenes)
    (hready : AllReady σ.scenes σ.orderedScenes.reverse) (run : List Addr) :
    (updatesAt run (σ.visits rand)).length =
      publishedAt run [] (σ.placed σ.orderedScenes.reverse) := by
  have hfst := map_fst_placed fun a ha => hlinked.live a (List.mem_reverse.mp ha)
  have hplan := length_updatesAt_plan rand hlinked run
    (fun p hp => (find?_of_mem_placed (l := σ.orderedScenes.reverse) hp).2) []
    hfst.symm 0 (ahead_refl _ _) (by rwa [hfst])
  rwa [hfst] at hplan

/-- The visits to the run publish half as many skeletons as the run has
scenes, rounded by the claim on its last scene. -/
theorem length_updatesAt_visits (rand : Nat → Nat) {σ : Viewport K} {before run behind : List Addr}
    (hlinked : LeftLinked σ.scenes σ.orderedScenes) (h : OnePerson σ before run behind)
    (hready : AllReady σ.scenes σ.orderedScenes.reverse) :
    (LastClaimed σ run behind ∧ (updatesAt run (σ.visits rand)).length = run.length / 2) ∨
      (¬ LastClaimed σ run behind ∧
        (updatesAt run (σ.visits rand)).length = (run.length + 1) / 2) := by
  have hlive := hlinked.live
  have hnodup := hlinked.nodup
  rw [h.ordered, List.nodup_append, List.nodup_append] at hnodup
  have hrev : σ.orderedScenes.reverse = behind.reverse ++ (run.reverse ++ before.reverse) := by
    simp [h.ordered]
  obtain ⟨a, s, key, person, rest, hplaced, hlast, hs, honly, hlen⟩ := h.exists_last
  have hcount := length_updatesAt_eq rand hlinked hready run
  have hbehind : ∀ p ∈ σ.placed behind.reverse, p.1 ∉ run := fun p hp hrun =>
    hnodup.2.2 p.1 (List.mem_append_right _ hrun) p.1
      (List.mem_reverse.mp (find?_of_mem_placed hp).1) rfl
  have hbefore : ∀ p ∈ σ.placed before.reverse, p.1 ∉ run := fun p hp hrun =>
    hnodup.1.2.2 p.1 (List.mem_reverse.mp (find?_of_mem_placed hp).1) p.1 hrun rfl
  have hedge := h.empty_of_mem_head? fun a ha => hlive a (by simp [h.ordered, ha])
  have hall := fun q hq => h.hasOnly_of_mem_placed (q := q) hq
  have hchain := h.isChain_placed
  rw [hplaced] at hall hchain
  rw [hrev, placed_append, placed_append, hplaced, List.cons_append,
    publishedAt_append hbehind, ← List.cons_append,
    publishedAt_run hbefore hedge rest _ honly hall hchain] at hcount
  rw [lastClaimed_iff hlast hs honly, hcount, ← hlen]
  split_ifs with hkey
  · exact Or.inl ⟨hkey, rfl⟩
  · exact Or.inr ⟨hkey, rfl⟩

end MinorityViewport
