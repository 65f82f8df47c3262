import MinorityViewport.Lib.OrdMap
import Mathlib.Data.List.Induction
import Mathlib.Data.List.Nodup
import Mathlib.Data.List.Perm.Subperm

/-!
# Maps of bounded size

`place` is the write of a map that holds at most `cap` entries: it erases
what is under its key, and writes if there is room then.  `placeAll` is a
list of such writes, from the left.

A list that is no longer than the capacity keeps all its values exactly when
its keys are different: `subperm_values_placeAll_iff`.

`listPlace` and `listErase` are the operations on a list of entries in the
order in which they came, and `perm_place` and `perm_erase` say that the map
holds the same entries.  `find?_placeAll_eq` is what a list of writes comes
to: the first different keys are kept, each with its last value.
-/

namespace OrdMap

variable {κ ν : Type} [LinearOrder κ] {cap : Nat}

/-- Erase what is under `k`, and write `v` there if there is room. -/
def place (cap : Nat) (m : OrdMap κ ν) (k : κ) (v : ν) : OrdMap κ ν :=
  if (m.erase k).size < cap then (m.erase k).assign k v else m.erase k

/-- Place the entries in the order of the list. -/
def placeAll (cap : Nat) (m : OrdMap κ ν) (es : List (κ × ν)) : OrdMap κ ν :=
  es.foldl (fun m e => m.place cap e.1 e.2) m

theorem placeAll_concat (m : OrdMap κ ν) (es : List (κ × ν)) (e : κ × ν) :
    m.placeAll cap (es ++ [e]) = (m.placeAll cap es).place cap e.1 e.2 := by
  rw [placeAll, List.foldl_concat]
  rfl

theorem find?_place_of_ne (m : OrdMap κ ν) {k k₀ : κ} (v : ν) (h : k ≠ k₀) :
    (m.place cap k₀ v).find? k = m.find? k := by
  unfold place
  split_ifs
  · rw [find?_assign_of_ne _ _ h, find?_erase, if_neg h]
  · rw [find?_erase, if_neg h]

theorem find?_place_self {m : OrdMap κ ν} (h : m.size < cap) (k : κ) (v : ν) :
    (m.place cap k v).find? k = some v := by
  have hroom : (m.erase k).size < cap := lt_of_le_of_lt (List.length_filter_le _ _) h
  rw [place, if_pos hroom, find?_assign_self]

/-- Something is stored under the keys of the list only. -/
theorem keys_placeAll (es : List (κ × ν)) :
    (empty.placeAll cap es).keys ⊆ es.map Prod.fst := by
  induction es using List.reverseRecOn with
  | nil => exact List.nil_subset _
  | append_singleton es e ih =>
    intro k hk
    rw [List.map_append, List.mem_append, List.map_singleton, List.mem_singleton]
    by_cases hke : k = e.1
    · exact Or.inr hke
    · rw [placeAll_concat, ← isSome_find?_iff, find?_place_of_ne _ _ hke,
        isSome_find?_iff] at hk
      exact Or.inl (ih hk)

theorem size_placeAll_le (es : List (κ × ν)) : (empty.placeAll cap es).size ≤ es.length := by
  have hsub := (nodup_keys (empty.placeAll cap es)).subperm (keys_placeAll es)
  simpa [keys, size] using hsub.length_le

theorem mem_place {m : OrdMap κ ν} {k : κ} {v : ν} {e : κ × ν}
    (h : e ∈ (m.place cap k v).entries) : e = (k, v) ∨ e ∈ m.entries := by
  rw [← find?_eq_some_iff] at h ⊢
  by_cases hk : e.1 = k
  · left
    unfold place at h
    split_ifs at h
    · rw [hk, find?_assign_self] at h
      exact Prod.ext hk (Option.some.inj h).symm
    · rw [hk, find?_erase, if_pos rfl] at h
      cases h
  · right
    rwa [find?_place_of_ne _ _ hk] at h

/-- Nothing but the entries of the list is stored. -/
theorem mem_placeAll {es : List (κ × ν)} {e : κ × ν}
    (h : e ∈ (empty.placeAll cap es).entries) : e ∈ es := by
  induction es using List.reverseRecOn with
  | nil => exact h
  | append_singleton es last ih =>
    rw [placeAll_concat] at h
    rcases mem_place h with rfl | h
    · exact List.mem_append_right _ (List.mem_singleton_self _)
    · exact List.mem_append_left _ (ih h)

theorem size_place_le {m : OrdMap κ ν} (h : m.size ≤ cap) (k : κ) (v : ν) :
    (m.place cap k v).size ≤ cap := by
  unfold place
  split_ifs with hroom
  · have hnone : (m.erase k).find? k = none := by rw [find?_erase, if_pos rfl]
    have hlen := (perm_entries_assign hnone v).length_eq
    show ((m.erase k).assign k v).entries.length ≤ cap
    change (m.erase k).entries.length < cap at hroom
    rw [hlen, List.length_cons]
    omega
  · exact le_trans (List.length_filter_le _ _) h

theorem size_placeAll_le_cap (es : List (κ × ν)) :
    ((empty : OrdMap κ ν).placeAll cap es).size ≤ cap := by
  induction es using List.reverseRecOn with
  | nil => exact Nat.zero_le cap
  | append_singleton es last ih =>
    rw [placeAll_concat]
    exact size_place_le ih last.1 last.2

/-- Within the capacity, values under different keys all stay. -/
theorem find?_placeAll {es : List (κ × ν)} (hlen : es.length ≤ cap)
    (hnodup : (es.map Prod.fst).Nodup) {e : κ × ν} (he : e ∈ es) :
    (empty.placeAll cap es).find? e.1 = some e.2 := by
  induction es using List.reverseRecOn with
  | nil => cases he
  | append_singleton es last ih =>
    rw [List.length_append, List.length_singleton] at hlen
    rw [List.map_append, List.map_singleton, List.nodup_append] at hnodup
    rw [placeAll_concat]
    rcases List.mem_append.mp he with he | he
    · have hne : e.1 ≠ last.1 :=
        hnodup.2.2 _ (List.mem_map_of_mem he) _ (List.mem_singleton_self _)
      rw [find?_place_of_ne _ _ hne]
      exact ih (by omega) hnodup.1 he
    · rw [List.mem_singleton.mp he]
      exact find?_place_self (lt_of_le_of_lt (size_placeAll_le es) (by omega)) _ _

/-- Within the capacity, all values stay exactly when their keys differ. -/
theorem subperm_values_placeAll_iff {es : List (κ × ν)} (hlen : es.length ≤ cap) :
    (es.map Prod.snd).Subperm (empty.placeAll cap es).values ↔ (es.map Prod.fst).Nodup := by
  have hkeys := (nodup_keys (empty.placeAll cap es)).subperm (keys_placeAll es)
  constructor
  · intro h
    have hle : es.length ≤ (empty.placeAll cap es).keys.length := by
      simpa [values, keys] using h.length_le
    exact (hkeys.perm_of_length_le (by simpa using hle)).nodup (nodup_keys _)
  · intro h
    have hentries : es.Subperm (empty.placeAll cap es).entries :=
      (List.Nodup.of_map Prod.fst h).subperm fun e he =>
        find?_eq_some_iff.mp (find?_placeAll hlen h he)
    obtain ⟨l, hperm, hsub⟩ := hentries
    exact ⟨l.map Prod.snd, hperm.map Prod.snd, hsub.map Prod.snd⟩

/-! ## The map as a list in the order of arrival -/

/-- The list model of `place`: a key that is there keeps its place, and a new
one comes last if there is room. -/
def listPlace (cap : Nat) (l : List (κ × ν)) (k : κ) (v : ν) : List (κ × ν) :=
  if k ∈ l.map Prod.fst then l.map fun e => if e.1 = k then (k, v) else e
  else if l.length < cap then l ++ [(k, v)] else l

/-- The list model of `erase`. -/
def listErase (l : List (κ × ν)) (k : κ) : List (κ × ν) := l.filter (·.1 ≠ k)

theorem map_fst_listPlace (l : List (κ × ν)) (k : κ) (v : ν) :
    (listPlace cap l k v).map Prod.fst =
      if k ∈ l.map Prod.fst then l.map Prod.fst
      else if l.length < cap then l.map Prod.fst ++ [k] else l.map Prod.fst := by
  unfold listPlace
  split_ifs with hk hroom
  · rw [List.map_map]
    refine List.map_congr_left fun e _ => ?_
    show (if e.1 = k then (k, v) else e).1 = e.1
    split_ifs with he
    · exact he.symm
    · rfl
  · exact List.map_append
  · rfl

theorem nodup_listPlace {l : List (κ × ν)} (h : (l.map Prod.fst).Nodup) (k : κ) (v : ν) :
    ((listPlace cap l k v).map Prod.fst).Nodup := by
  rw [map_fst_listPlace]
  split_ifs with hk hroom
  · exact h
  · exact (List.nodup_append_comm.mp (List.nodup_cons.mpr ⟨hk, h⟩))
  · exact h

theorem mem_listPlace {l : List (κ × ν)} {k : κ} {v : ν} {e : κ × ν} :
    e ∈ listPlace cap l k v ↔
      e = (k, v) ∧ (k ∈ l.map Prod.fst ∨ l.length < cap) ∨ e ∈ l ∧ e.1 ≠ k := by
  unfold listPlace
  split_ifs with hk hroom
  · rw [List.mem_map]
    constructor
    · rintro ⟨old, hold, rfl⟩
      split_ifs with hkey
      · exact Or.inl ⟨rfl, Or.inl hk⟩
      · exact Or.inr ⟨hold, hkey⟩
    · rintro (⟨rfl, _⟩ | ⟨hmem, hne⟩)
      · obtain ⟨old, hold, hkey⟩ := List.mem_map.mp hk
        exact ⟨old, hold, if_pos hkey⟩
      · exact ⟨e, hmem, if_neg hne⟩
  · have hapart : ∀ e ∈ l, e.1 ≠ k := fun e he hkey => hk (hkey ▸ List.mem_map_of_mem he)
    rw [List.mem_append, List.mem_singleton]
    constructor
    · rintro (hmem | rfl)
      · exact Or.inr ⟨hmem, hapart e hmem⟩
      · exact Or.inl ⟨rfl, Or.inr hroom⟩
    · rintro (⟨rfl, _⟩ | ⟨hmem, _⟩)
      · exact Or.inr rfl
      · exact Or.inl hmem
  · have hapart : ∀ e ∈ l, e.1 ≠ k := fun e he hkey => hk (hkey ▸ List.mem_map_of_mem he)
    constructor
    · exact fun hmem => Or.inr ⟨hmem, hapart e hmem⟩
    · rintro (⟨_, hin | hlt⟩ | ⟨hmem, _⟩)
      · exact absurd hin hk
      · exact absurd hlt hroom
      · exact hmem

/-- There is room after the erasure if the key was there, or if there was
room before. -/
theorem size_erase_lt_iff {m : OrdMap κ ν} (h : m.size ≤ cap) (k : κ) :
    (m.erase k).size < cap ↔ k ∈ m.keys ∨ m.size < cap := by
  have hle : (m.erase k).size ≤ m.size := List.length_filter_le _ _
  by_cases hk : k ∈ m.keys
  · obtain ⟨e, hmem, hkey⟩ := List.mem_map.mp hk
    have hlt : (m.erase k).size < m.size :=
      List.length_filter_lt_length_iff_exists.mpr ⟨e, hmem, by simp [hkey]⟩
    exact iff_of_true (by omega) (Or.inl hk)
  · have hsame : m.erase k = m := ext_entries <| List.filter_eq_self.mpr fun e he => by
      simpa using fun hkey : e.1 = k => hk (hkey ▸ List.mem_map_of_mem he)
    rw [hsame, or_iff_right hk]

theorem mem_entries_place_iff {m : OrdMap κ ν} (h : m.size ≤ cap) {k : κ} {v : ν} {e : κ × ν} :
    e ∈ (m.place cap k v).entries ↔
      e = (k, v) ∧ (k ∈ m.keys ∨ m.size < cap) ∨ e ∈ m.entries ∧ e.1 ≠ k := by
  rw [← find?_eq_some_iff, ← find?_eq_some_iff]
  by_cases hk : e.1 = k
  · have hkey : e = (k, v) ↔ e.2 = v := by
      obtain ⟨k', w⟩ := e
      obtain rfl : k' = k := hk
      exact ⟨fun heq => congrArg Prod.snd heq, fun heq => congrArg _ heq⟩
    rw [hk, or_iff_left fun hn => hn.2 rfl, ← size_erase_lt_iff h k, hkey]
    unfold place
    split_ifs with hroom
    · rw [find?_assign_self, and_iff_left hroom, Option.some.injEq, eq_comm]
    · rw [find?_erase, if_pos rfl]
      exact iff_of_false (fun hn => by cases hn) fun hn => hroom hn.2
  · rw [find?_place_of_ne _ _ hk, and_iff_left hk, or_iff_right]
    exact fun heq => hk (congrArg Prod.fst heq.1)

theorem mem_keys_place_iff {m : OrdMap κ ν} (h : m.size ≤ cap) {k k₀ : κ} {v : ν} :
    k ∈ (m.place cap k₀ v).keys ↔ k = k₀ ∧ (k₀ ∈ m.keys ∨ m.size < cap) ∨ k ∈ m.keys ∧ k ≠ k₀ := by
  constructor
  · intro hk
    obtain ⟨e, he, rfl⟩ := List.mem_map.mp hk
    rcases (mem_entries_place_iff h).mp he with ⟨rfl, hroom⟩ | ⟨hmem, hne⟩
    · exact Or.inl ⟨rfl, hroom⟩
    · exact Or.inr ⟨List.mem_map_of_mem hmem, hne⟩
  · rintro (⟨rfl, hroom⟩ | ⟨hk, hne⟩)
    · exact List.mem_map_of_mem (f := Prod.fst)
        ((mem_entries_place_iff h).mpr (Or.inl ⟨rfl, hroom⟩))
    · obtain ⟨e, he, rfl⟩ := List.mem_map.mp hk
      exact List.mem_map_of_mem ((mem_entries_place_iff h).mpr (Or.inr ⟨he, hne⟩))

/-- The map holds what the list model holds. -/
theorem perm_place {m : OrdMap κ ν} {l : List (κ × ν)} (h : m.entries.Perm l)
    (hcap : m.size ≤ cap) (k : κ) (v : ν) :
    (m.place cap k v).entries.Perm (listPlace cap l k v) := by
  have hkeys : (l.map Prod.fst).Nodup := (h.map Prod.fst).nodup_iff.mp (nodup_keys m)
  have hnodup : ∀ m : OrdMap κ ν, m.entries.Nodup := fun m => (nodup_keys m).of_map Prod.fst
  refine (List.perm_ext_iff_of_nodup (hnodup _) ((nodup_listPlace hkeys k v).of_map Prod.fst)).mpr
    fun e => ?_
  rw [mem_entries_place_iff hcap, mem_listPlace, h.mem_iff, keys, (h.map Prod.fst).mem_iff, size,
    h.length_eq]

theorem perm_erase {m : OrdMap κ ν} {l : List (κ × ν)} (h : m.entries.Perm l) (k : κ) :
    (m.erase k).entries.Perm (listErase l k) := h.filter _

/-! ## The keys that are kept -/

theorem eraseDups_concat (ks : List κ) (k : κ) :
    (ks ++ [k]).eraseDups = ks.eraseDups ++ (if k ∈ ks then [] else [k]) := by
  rw [List.eraseDups_append]
  by_cases hk : k ∈ ks <;> simp [List.removeAll, List.eraseDups_cons, hk]

theorem nodup_eraseDups (ks : List κ) : ks.eraseDups.Nodup := by
  induction ks using List.reverseRecOn with
  | nil => exact List.nodup_nil
  | append_singleton ks k ih =>
    rw [eraseDups_concat]
    split_ifs with hk
    · rwa [List.append_nil]
    · refine List.nodup_append_comm.mp (List.nodup_cons.mpr ⟨fun hin => hk ?_, ih⟩)
      exact List.mem_eraseDups.mp hin

/-- The keys that are kept are the first different ones. -/
theorem mem_keys_placeAll_iff (es : List (κ × ν)) (k : κ) :
    k ∈ (empty.placeAll cap es).keys ↔ k ∈ (es.map Prod.fst).eraseDups.take cap := by
  induction es using List.reverseRecOn generalizing k with
  | nil => simp [placeAll, keys]
  | append_singleton es e ih =>
    have hperm : (empty.placeAll cap es).keys.Perm ((es.map Prod.fst).eraseDups.take cap) := by
      refine (List.perm_ext_iff_of_nodup (nodup_keys _) ?_).mpr ih
      exact (nodup_eraseDups _).sublist (List.take_sublist _ _)
    have hsize : (empty.placeAll cap es).size = min cap (es.map Prod.fst).eraseDups.length := by
      have hlen := hperm.length_eq
      rwa [List.length_take, keys, List.length_map] at hlen
    have hplace : k ∈ ((empty.placeAll cap es).place cap e.1 e.2).keys ↔
        k = e.1 ∧ (e.1 ∈ (empty.placeAll cap es).keys ∨ (empty.placeAll cap es).size < cap) ∨
          k ∈ (empty.placeAll cap es).keys ∧ k ≠ e.1 :=
      mem_keys_place_iff (size_placeAll_le_cap es)
    rw [placeAll_concat, hplace, ih, ih, hsize, List.map_append, List.map_singleton,
      eraseDups_concat]
    generalize hfirst : (es.map Prod.fst).eraseDups = firsts
    have hmem : e.1 ∈ es.map Prod.fst ↔ e.1 ∈ firsts := by
      rw [← hfirst, List.mem_eraseDups]
    by_cases hfull : cap ≤ firsts.length
    · -- the capacity is spent, and a new key is not among the first ones
      rw [List.take_append_of_le_length hfull, Nat.min_eq_left hfull,
        or_iff_left (Nat.lt_irrefl cap)]
      constructor
      · rintro (⟨rfl, hin⟩ | ⟨hin, _⟩) <;> exact hin
      · intro hin
        by_cases hk : k = e.1
        · exact Or.inl ⟨hk, hk ▸ hin⟩
        · exact Or.inr ⟨hin, hk⟩
    · have hroom : firsts.length < cap := Nat.lt_of_not_le hfull
      have htake : ∀ tail : List κ, tail.length ≤ 1 → (firsts ++ tail).take cap = firsts ++ tail :=
        fun tail htail => List.take_of_length_le (by rw [List.length_append]; omega)
      rw [List.take_of_length_le hroom.le, Nat.min_eq_right hroom.le,
        htake _ (by split_ifs <;> simp), List.mem_append]
      by_cases hk : k = e.1
      · subst hk
        by_cases hin : e.1 ∈ firsts <;> simp [hmem, hin, hroom]
      · simp [hk, apply_ite (k ∈ ·)]

/-- The different keys of a list of groups with no key in common. -/
theorem eraseDups_flatMap {ι : Type} {l : List ι} {f : ι → List κ}
    (h : l.Pairwise fun i j => ∀ k ∈ f i, k ∉ f j) :
    (l.flatMap f).eraseDups = l.flatMap fun i => (f i).eraseDups := by
  induction l with
  | nil => rfl
  | cons i l ih =>
    obtain ⟨hi, hl⟩ := List.pairwise_cons.mp h
    have hothers : (l.flatMap f).removeAll (f i) = l.flatMap f := by
      rw [List.removeAll, List.filter_eq_self]
      intro k hk
      obtain ⟨j, hj, hk⟩ := List.mem_flatMap.mp hk
      simpa using fun hki => hi j hj k hki hk
    rw [List.flatMap_cons, List.flatMap_cons, List.eraseDups_append, hothers, ih hl]

/-- Of each key that is kept, the last value is kept. -/
theorem find?_placeAll_eq (es : List (κ × ν)) (k : κ) :
    (empty.placeAll cap es).find? k =
      if k ∈ (es.map Prod.fst).eraseDups.take cap then
        (es.reverse.find? (·.1 = k)).map Prod.snd
      else none := by
  have hlast : ∀ es : List (κ × ν), ∀ v, (empty.placeAll cap es).find? k = some v →
      (es.reverse.find? (·.1 = k)).map Prod.snd = some v := by
    intro es
    induction es using List.reverseRecOn with
    | nil => exact fun v hv => by cases hv
    | append_singleton es e ih =>
      intro v hv
      rw [List.reverse_append, List.reverse_singleton, List.singleton_append, List.find?_cons]
      rw [placeAll_concat] at hv
      by_cases hk : e.1 = k
      · obtain ⟨heq, _⟩ | ⟨_, hne⟩ :=
          (mem_entries_place_iff (size_placeAll_le_cap es)).mp (find?_eq_some_iff.mp hv)
        · obtain rfl : v = e.2 := congrArg Prod.snd heq
          simp [hk]
        · exact absurd hk.symm hne
      · rw [find?_place_of_ne _ _ (Ne.symm hk)] at hv
        simpa [hk] using ih v hv
  split_ifs with hk
  · obtain ⟨v, hv⟩ := Option.isSome_iff_exists.mp
      (isSome_find?_iff.mpr ((mem_keys_placeAll_iff es k).mpr hk))
    rw [hv, hlast es v hv]
  · exact find?_eq_none_iff.mpr fun hin => hk ((mem_keys_placeAll_iff es k).mp hin)

/-- An entry that has its key for itself is kept if its key is. -/
theorem mem_entries_placeAll_iff {es : List (κ × ν)} {e : κ × ν} (he : e ∈ es)
    (halone : ∀ e' ∈ es, e'.1 = e.1 → e' = e) :
    e ∈ (empty.placeAll cap es).entries ↔ e.1 ∈ (es.map Prod.fst).eraseDups.take cap := by
  rw [← find?_eq_some_iff, find?_placeAll_eq]
  split_ifs with hkept
  · refine iff_of_true ?_ hkept
    obtain ⟨e', hfind⟩ : ∃ e', es.reverse.find? (·.1 = e.1) = some e' := by
      rw [← Option.isSome_iff_exists, List.find?_isSome]
      exact ⟨e, List.mem_reverse.mpr he, decide_eq_true rfl⟩
    have hkey : e'.1 = e.1 := by simpa using List.find?_some hfind
    rw [hfind, halone e' (List.mem_reverse.mp (List.mem_of_find?_eq_some hfind)) hkey]
    rfl
  · exact iff_of_false (fun h => by cases h) hkept

end OrdMap
