import MinorityViewport.Algorithms.MergeRounds

/-!
# Who is matched with whom

Where the left scene has skeletons, a round looks for a match of each
skeleton of its snapshot: it removes the match from the left scene and
publishes the skeleton as shared.

The comparison is passed by a skeleton that is near along one axis.
`forall_onlyCoinciding_iff` says when this makes no difference: the first
one that is near along an axis is near along all of them.

The matches come from a copy of the left scene that no removal changes, so
a skeleton can be the match of several.  `forall_oneToOne_iff` says when it
is not.
-/

namespace MinorityViewport

open Exec Viewport

variable {K : Type} [Field K] [LinearOrder K]

/-! ## Coinciding skeletons -/

namespace View

/-- Along axis `i`, the moved skeleton differs from the one of the left scene
by less than the threshold. -/
def Near (v : View K) (ref body : Skeleton K) (i : Fin 3) : Prop :=
  |ref.position i - v.own.apply body.position i| < threshold

/-- The moved skeleton is at the place of the one of the left scene. -/
def Coincides (v : View K) (ref body : Skeleton K) : Prop := ∀ i, v.Near ref body i

theorem deemedSame_iff (v : View K) (ref body : Skeleton K) :
    deemedSame ref (body.mapPoints v.own.apply) ↔ ∃ i, v.Near ref body i := by
  rw [deemedSame, Fin.exists_fin_succ, Fin.exists_fin_succ, Fin.exists_fin_succ]
  simp only [Bool.or_eq_true, decide_eq_true_eq, or_assoc, IsEmpty.exists_iff, or_false]
  rfl

theorem isSome_partner_iff (v : View K) (left : OrdMap Nat (Skeleton K)) (body : Skeleton K) :
    (v.partner left body).isSome ↔ ∃ ref ∈ left.entries, ∃ i, v.Near ref.2 body i := by
  rw [partner, List.find?_isSome]
  simp only [deemedSame_iff]

/-- The first skeleton of the left scene that is near along an axis is near
along all of them. -/
def PartnersCoincide (v : View K) : Prop :=
  ∀ l left, v.left = some (l, left) → ∀ body ∈ v.people.entries, ∀ ref,
    v.partner left body.2 = some ref → v.Coincides ref.2 body.2

/-- Different skeletons of the snapshot have different partners. -/
def PartnersDiffer (v : View K) : Prop :=
  ∀ l left, v.left = some (l, left) → ∀ body ∈ v.people.entries, ∀ body' ∈ v.people.entries,
    ∀ ref, v.partner left body.2 = some ref → v.partner left body'.2 = some ref → body = body'

end View

/-! ## Only coinciding skeletons are merged -/

/-- What a round with the view `v` should do with the skeletons `left` of the
scene at `l`. -/
structure Round.MergesOnlyCoinciding (r : Round K) (now : Int) (v : View K) (l : Addr)
    (left : OrdMap Nat (Skeleton K)) : Prop where
  removed : ∀ body ∈ v.people.entries, ∀ ref ∈ left.entries,
    Removes (publishMatched now r.key v l left body) l ref.1 → v.Coincides ref.2 body.2
  shared : ∀ u ∈ r.updates now, u.skeleton.shared = true → ∃ ref ∈ left.entries,
    Removes (publishMatched now r.key v l left u.source) l ref.1 ∧
      v.Coincides ref.2 u.source.2
  apart : ∀ body ∈ v.people.entries, ∀ ref ∈ left.entries, (∃ i, v.Near ref.2 body.2 i) →
    (∀ other ∈ left.entries, ¬ v.Coincides other.2 body.2) →
      ¬ Removes (publishMatched now r.key v l left body) l ref.1 ∧
        ∃ u ∈ r.updates now, u.source = body ∧ u.skeleton.shared = false

/-- A round removes a skeleton of a left scene and marks one of its own as
shared only where the two coincide. -/
def Round.OnlyCoinciding (now : Int) (r : Round K) (v : View K) : Prop :=
  ∀ l left, v.left = some (l, left) → left.size ≠ 0 → r.MergesOnlyCoinciding now v l left

omit [Field K] [LinearOrder K] in
theorem eq_of_key_eq {left : OrdMap Nat (Skeleton K)} {ref ref' : Nat × Skeleton K}
    (h : ref ∈ left.entries) (h' : ref' ∈ left.entries) (hkey : ref.1 = ref'.1) : ref = ref' := by
  rw [← OrdMap.find?_eq_some_iff] at h h'
  rw [hkey, h'] at h
  exact Prod.ext hkey (Option.some.inj h).symm

/-- What the body of the loop removes, within the left scene. -/
theorem removes_iff_partner {r : Round K} {v : View K} (h : r.Reads v) (now : Int) {l : Addr}
    {left : OrdMap Nat (Skeleton K)} (hleft : v.left = some (l, left)) (body : Nat × Skeleton K)
    {ref : Nat × Skeleton K} (href : ref ∈ left.entries) :
    Removes (publishMatched now r.key v l left body) l ref.1 ↔
      v.partner left body.2 = some ref := by
  rw [removes_publishMatched_iff (sized_of_readView h) now r.key hleft]
  constructor
  · rintro ⟨ref', hpartner, hkey⟩
    rwa [← eq_of_key_eq (View.partner_eq_some hpartner).1 href hkey]
  · exact fun hpartner => ⟨ref, hpartner, rfl⟩

theorem size_ne_zero_of_partner {v : View K} {left : OrdMap Nat (Skeleton K)}
    {body : Skeleton K} {ref : Nat × Skeleton K} (h : v.partner left body = some ref) :
    left.size ≠ 0 := by
  rw [OrdMap.size, Ne, List.length_eq_zero_iff]
  exact List.ne_nil_of_mem (View.partner_eq_some h).1

/-- A shared publication has a partner. -/
theorem partner_of_shared {v : View K} {key : Nat} {u : Publication K}
    (hu : u ∈ v.publications key) (hshared : u.skeleton.shared = true) {l : Addr}
    {left : OrdMap Nat (Skeleton K)} (hleft : v.left = some (l, left)) :
    ∃ ref, v.partner left u.source.2 = some ref := by
  obtain ⟨l', left', ref, hleft', href⟩ :=
    View.exists_partner_of_shared (mem_publications hu).2.2 hshared
  obtain ⟨rfl, rfl⟩ := Prod.mk.inj (Option.some.inj (hleft.symm.trans hleft'))
  exact ⟨ref, href⟩

theorem onlyCoinciding_iff (now : Int) (r : Round K) (v : View K) (h : r.Reads v) :
    r.OnlyCoinciding now v ↔ v.PartnersCoincide := by
  constructor
  · intro hround l left hleft body hbody ref hpartner
    have href := (View.partner_eq_some hpartner).1
    exact (hround l left hleft (size_ne_zero_of_partner hpartner)).removed body hbody ref href
      ((removes_iff_partner h now hleft body href).mpr hpartner)
  · intro hcoincide l left hleft _
    refine ⟨fun body hbody ref href hremoves => ?_, fun u hu hshared => ?_,
      fun body hbody ref href hnear hnobody => ?_⟩
    · exact hcoincide l left hleft body hbody ref
        ((removes_iff_partner h now hleft body href).mp hremoves)
    · rw [Round.updates_eq h] at hu
      obtain ⟨ref, hpartner⟩ := partner_of_shared hu hshared hleft
      have href := (View.partner_eq_some hpartner).1
      exact ⟨ref, href, (removes_iff_partner h now hleft u.source href).mpr hpartner,
        hcoincide l left hleft u.source (mem_publications hu).1 ref hpartner⟩
    · obtain ⟨other, hpartner⟩ := Option.isSome_iff_exists.mp
        ((v.isSome_partner_iff left body.2).mpr ⟨ref, href, hnear⟩)
      exact absurd (hcoincide l left hleft body hbody other hpartner)
        (hnobody other (View.partner_eq_some hpartner).1)

/-- Every round of a merge merges coinciding skeletons only, if and only if
in each of them the first skeleton that is near along an axis coincides. -/
theorem forall_onlyCoinciding_iff (rand : Nat → Nat) (now : Int) (σ : Viewport K) :
    (∀ r, σ.HasRound rand now r → ∀ v, r.Reads v → r.OnlyCoinciding now v) ↔
      EachView View.PartnersCoincide σ.scenes σ.orderedScenes.reverse :=
  forall_rounds_iff (onlyCoinciding_iff now) rand now σ

/-- Two sensors in the same frame: the person on the right is one step to the
side and one step behind, and of the same height. -/
theorem not_onlyCoinciding_sameHeight :
    ¬ ∀ r, (sideBySide 0 ![1, 0, 1]).HasRound (fun _ => 0) 0 r →
      ∀ v, r.Reads v → r.OnlyCoinciding 0 v := by
  intro h
  obtain ⟨v, hv, hleft, hpeople⟩ : ∃ v,
      readView (sideBySide 0 ![1, 0, 1]).scenes 2 [1] = .ok (some v) ∧
        v.left = some (1, OrdMap.empty.assign 0 (standingAt 0)) ∧
          v.people = OrdMap.empty.assign 0 (standingAt ![1, 0, 1]) := ⟨_, rfl, rfl, rfl⟩
  obtain ⟨hframe, _⟩ := rAndT_of_readView hv (by rw [hleft]; simp)
    (show (sideBySide 0 ![1, 0, 1]).scenes.find? 2 = some _ from rfl)
  have hown : v.own = Frame.unit := (Option.some.inj hframe).symm
  have heach : EachView View.PartnersCoincide (sideBySide 0 ![1, 0, 1]).scenes [2, 1] :=
    (forall_rounds_iff (onlyCoinciding_iff 0) (fun _ => 0) 0 _).mp h
  rw [EachView, hv] at heach
  obtain ⟨ref, hpartner⟩ := Option.isSome_iff_exists.mp
    ((v.isSome_partner_iff (OrdMap.empty.assign 0 (standingAt 0)) (standingAt ![1, 0, 1])).mpr
      ⟨(0, standingAt 0), List.mem_cons_self, 1, by
        norm_num [View.Near, hown, Frame.apply_unit, Skeleton.position, standingAt, threshold]⟩)
  have hcoincides := heach.1 1 _ hleft (0, standingAt ![1, 0, 1])
    (by rw [hpeople]; exact List.mem_cons_self) ref hpartner 0
  obtain rfl := List.mem_singleton.mp (View.partner_eq_some hpartner).1
  revert hcoincides
  norm_num [View.Near, hown, Frame.apply_unit, Skeleton.position, standingAt, threshold]

/-! ## No skeleton is a match twice -/

/-- The skeletons of the left scene that are gone after the round. -/
def Round.gone (r : Round K) (now : Int) (l : Addr) (left : OrdMap Nat (Skeleton K)) :
    List (Nat × Skeleton K) :=
  left.entries.filter fun ref =>
    (((r.leaves now).1.scenes.find? l).bind (·.skeletons.find? ref.1)).isNone

/-- No skeleton of the left scene is the match of two, and as many are gone
as are published as shared. -/
structure Round.MatchesOnce (r : Round K) (now : Int) (v : View K) (l : Addr)
    (left : OrdMap Nat (Skeleton K)) : Prop where
  once : ∀ body ∈ v.people.entries, ∀ body' ∈ v.people.entries, ∀ ref ∈ left.entries,
    Removes (publishMatched now r.key v l left body) l ref.1 →
      Removes (publishMatched now r.key v l left body') l ref.1 → body = body'
  counts : (r.gone now l left).length =
    ((r.updates now).filter fun u => u.skeleton.shared).length

/-- The matching of a round is one to one. -/
def Round.OneToOne (now : Int) (r : Round K) (v : View K) : Prop :=
  ∀ l left, v.left = some (l, left) → left.size ≠ 0 → r.MatchesOnce now v l left

/-- The keys of the matches, in the order of the snapshot. -/
def View.matchedKeys (v : View K) (left : OrdMap Nat (Skeleton K)) : List Nat :=
  v.people.entries.filterMap fun body => (v.partner left body.2).map Prod.fst

theorem View.mem_matchedKeys {v : View K} {left : OrdMap Nat (Skeleton K)} {k : Nat}
    (h : k ∈ v.matchedKeys left) : k ∈ left.keys := by
  obtain ⟨body, _, hk⟩ := List.mem_filterMap.mp h
  obtain ⟨ref, hpartner, rfl⟩ := Option.map_eq_some_iff.mp hk
  exact List.mem_map_of_mem (View.partner_eq_some hpartner).1

theorem View.nodup_matchedKeys {v : View K} (h : v.PartnersDiffer) {l : Addr}
    {left : OrdMap Nat (Skeleton K)} (hleft : v.left = some (l, left)) :
    (v.matchedKeys left).Nodup := by
  have hentries : v.people.entries.Nodup := List.Nodup.of_map Prod.fst v.people.nodup_keys
  rw [View.matchedKeys, List.nodup_iff_pairwise_ne, List.pairwise_filterMap]
  refine (List.nodup_iff_pairwise_ne.mp hentries).imp_of_mem
    fun {body body'} hbody hbody' hne k hk k' hk' hkk => hne ?_
  obtain ⟨ref, hpartner, rfl⟩ := Option.map_eq_some_iff.mp hk
  obtain ⟨ref', hpartner', rfl⟩ := Option.map_eq_some_iff.mp hk'
  have hsame := eq_of_key_eq (View.partner_eq_some hpartner).1
    (View.partner_eq_some hpartner').1 hkk
  exact h l left hleft body hbody body' hbody' ref hpartner (hsame ▸ hpartner')

/-- A round with a left scene publishes one shared skeleton for each match. -/
theorem length_shared_publications {v : View K} (key : Nat) {l : Addr}
    {left : OrdMap Nat (Skeleton K)} (hleft : v.left = some (l, left)) (hsize : left.size ≠ 0) :
    ((v.publications key).filter fun u => u.skeleton.shared).length =
      (v.matchedKeys left).length := by
  have hshown : ∀ body, v.shown body =
      (v.partner left body).map fun _ => body.setShared.mapPoints v.combi.apply := by
    intro body
    rw [View.shown, hleft]
    exact if_neg hsize
  have hall : ∀ u ∈ v.publications key, u.skeleton.shared = true := by
    intro u hu
    have hu := (mem_publications hu).2.2
    rw [hshown] at hu
    obtain ⟨_, _, hu⟩ := Option.map_eq_some_iff.mp hu
    rw [← hu]
    rfl
  rw [List.filter_eq_self.mpr hall, View.publications, View.matchedKeys,
    List.length_filterMap_eq_countP, List.length_filterMap_eq_countP]
  refine List.countP_congr fun body _ => ?_
  rw [hshown, Option.map_map, Option.isSome_map, Option.isSome_map]

/-- The skeletons that are gone are the matches. -/
theorem gone_eq {r : Round K} {v : View K} (h : r.Reads v) (now : Int) {l : Addr}
    {left : OrdMap Nat (Skeleton K)} (hleft : v.left = some (l, left)) (hsize : left.size ≠ 0) :
    r.gone now l left = left.entries.filter fun ref => ref.1 ∈ v.matchedKeys left := by
  obtain ⟨_, scene, hscene, rfl⟩ := left_of_readView h hleft
  have hremovals : v.removals = (v.matchedKeys scene.skeletons).map fun k => (l, k) := by
    rw [View.removals, hleft, View.matchedKeys, List.map_filterMap]
    simp only [Option.map_map]
    exact if_neg hsize
  have hafter : (r.leaves now).1.scenes.find? l =
      some (scene.removeAll (v.matchedKeys scene.skeletons)) := by
    rw [Round.leaves_eq h]
    show (r.state.1.scenes.writeAll (removalWrites v.removals)).find? l = _
    rw [hremovals, find?_writeAll_removals, if_pos rfl, hscene, Option.map_some]
  unfold Round.gone
  refine List.filter_congr fun ref href => ?_
  rw [hafter, Option.bind_some, Scene.skeletons_removeAll, OrdMap.find?_foldl_erase]
  split_ifs with hmem
  · simp [hmem]
  · rw [OrdMap.find?_eq_some_iff.mpr href]
    simp [hmem]

theorem oneToOne_iff (now : Int) (r : Round K) (v : View K) (h : r.Reads v) :
    r.OneToOne now v ↔ v.PartnersDiffer := by
  constructor
  · intro hround l left hleft body hbody body' hbody' ref hpartner hpartner'
    have href := (View.partner_eq_some hpartner).1
    exact (hround l left hleft (size_ne_zero_of_partner hpartner)).once body hbody body' hbody'
      ref href ((removes_iff_partner h now hleft body href).mpr hpartner)
      ((removes_iff_partner h now hleft body' href).mpr hpartner')
  · intro hdiffer l left hleft hsize
    refine ⟨fun body hbody body' hbody' ref href hremoves hremoves' => ?_, ?_⟩
    · exact hdiffer l left hleft body hbody body' hbody' ref
        ((removes_iff_partner h now hleft body href).mp hremoves)
        ((removes_iff_partner h now hleft body' href).mp hremoves')
    · rw [Round.updates_eq h, length_shared_publications r.key hleft hsize,
        gone_eq h now hleft hsize, ← List.length_map Prod.fst]
      refine List.Perm.length_eq ?_
      rw [List.perm_ext_iff_of_nodup
        (left.nodup_keys.sublist (List.filter_sublist.map Prod.fst))
        (View.nodup_matchedKeys hdiffer hleft)]
      intro k
      constructor
      · intro hk
        obtain ⟨ref, href, rfl⟩ := List.mem_map.mp hk
        exact of_decide_eq_true (List.mem_filter.mp href).2
      · intro hk
        obtain ⟨ref, href, rfl⟩ := List.mem_map.mp (View.mem_matchedKeys hk)
        exact List.mem_map_of_mem (List.mem_filter.mpr ⟨href, decide_eq_true hk⟩)

/-- No round of a merge matches a skeleton of a left scene twice, if and only
if different skeletons always have different partners. -/
theorem forall_oneToOne_iff (rand : Nat → Nat) (now : Int) (σ : Viewport K) :
    (∀ r, σ.HasRound rand now r → ∀ v, r.Reads v → r.OneToOne now v) ↔
      EachView View.PartnersDiffer σ.scenes σ.orderedScenes.reverse :=
  forall_rounds_iff (oneToOne_iff now) rand now σ

/-- Two people before the second sensor, at the place of the one before the
first. -/
def twoForOne : Viewport ℚ :=
  { sideBySide 0 0 with
    scenes := (sideBySide 0 0).scenes.assign 2
      (calibratedScene ((OrdMap.empty.assign 0 (standingAt 0)).assign 1 (standingAt 0)) (some 1)
        (some Frame.unit)) }

/-- Both of them are matched with the one person. -/
theorem not_oneToOne_twoForOne :
    ¬ ∀ r, twoForOne.HasRound (fun _ => 0) 0 r → ∀ v, r.Reads v → r.OneToOne 0 v := by
  intro h
  obtain ⟨v, hv, hleft, hpeople⟩ : ∃ v, readView twoForOne.scenes 2 [1] = .ok (some v) ∧
      v.left = some (1, OrdMap.empty.assign 0 (standingAt 0)) ∧
        v.people = (OrdMap.empty.assign 0 (standingAt 0)).assign 1 (standingAt 0) :=
    ⟨_, rfl, rfl, rfl⟩
  obtain ⟨hframe, _⟩ := rAndT_of_readView hv (by rw [hleft]; simp)
    (show twoForOne.scenes.find? 2 = some _ from rfl)
  have hown : v.own = Frame.unit := (Option.some.inj hframe).symm
  have heach : EachView View.PartnersDiffer twoForOne.scenes [2, 1] :=
    (forall_rounds_iff (oneToOne_iff 0) (fun _ => 0) 0 _).mp h
  rw [EachView, hv] at heach
  obtain ⟨ref, hpartner⟩ := Option.isSome_iff_exists.mp
    ((v.isSome_partner_iff (OrdMap.empty.assign 0 (standingAt 0)) (standingAt 0)).mpr
      ⟨(0, standingAt 0), List.mem_cons_self, 0, by
        norm_num [View.Near, hown, Frame.apply_unit, Skeleton.position, standingAt, threshold]⟩)
  have hentries : v.people.entries = [(0, standingAt 0), (1, standingAt 0)] := by
    rw [hpeople]
    rfl
  have hsame := heach.1 1 _ hleft (0, standingAt 0) (by rw [hentries]; simp)
    (1, standingAt 0) (by rw [hentries]; simp) ref hpartner hpartner
  exact absurd (congrArg Prod.fst hsame) (by decide)

end MinorityViewport
