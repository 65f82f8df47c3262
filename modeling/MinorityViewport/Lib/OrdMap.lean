import Mathlib.Data.List.Basic
import Mathlib.Data.List.Pairwise
import Mathlib.Order.Lattice

/-!
# Maps kept in key order

`OrdMap κ ν` is the content of an ordered associative container: a list of
entries whose keys increase strictly.  The order is a field of the
structure, so a map with a repeated key or a misplaced entry cannot be
built, and an iteration over the map is an iteration over `entries`.

There are two ways to write a key.  `assign` replaces the value under a
key that is present.  `insert` leaves it alone, which is what the insert
of a standard container does.

`find?` is the observation: every operation is specified by the value it
leaves under each key, and `ext_find?` says that two maps with the same
lookups are the same map.
-/

namespace OrdMap

variable {κ ν : Type} [LinearOrder κ]

/-- Write `v` under `k` in an ordered list of entries. -/
def assignEntry (k : κ) (v : ν) : List (κ × ν) → List (κ × ν)
  | [] => [(k, v)]
  | (k', v') :: rest =>
    if k < k' then (k, v) :: (k', v') :: rest
    else if k = k' then (k, v) :: rest
    else (k', v') :: assignEntry k v rest

/-- The value under `k` in a list of entries. -/
def findEntry (k : κ) : List (κ × ν) → Option ν
  | [] => none
  | (k', v') :: rest => if k = k' then some v' else findEntry k rest

theorem mem_assignEntry {k : κ} {v : ν} {e : κ × ν} {l : List (κ × ν)}
    (h : e ∈ assignEntry k v l) : e = (k, v) ∨ e ∈ l := by
  induction l with
  | nil => simpa [assignEntry] using h
  | cons hd tl ih =>
    obtain ⟨k', v'⟩ := hd
    unfold assignEntry at h
    split_ifs at h with h1 h2
    · simpa using h
    · rcases List.mem_cons.mp h with h | h
      · exact Or.inl h
      · exact Or.inr (List.mem_cons_of_mem _ h)
    · rcases List.mem_cons.mp h with h | h
      · exact Or.inr (h ▸ List.mem_cons_self)
      · exact (ih h).imp_right (List.mem_cons_of_mem _)

theorem pairwise_assignEntry (k : κ) (v : ν) {l : List (κ × ν)}
    (h : l.Pairwise (fun a b => a.1 < b.1)) :
    (assignEntry k v l).Pairwise (fun a b => a.1 < b.1) := by
  induction l with
  | nil => exact List.pairwise_singleton _ _
  | cons hd tl ih =>
    obtain ⟨k', v'⟩ := hd
    obtain ⟨hhd, htl⟩ := List.pairwise_cons.mp h
    unfold assignEntry
    split_ifs with h1 h2
    · refine List.pairwise_cons.mpr ⟨?_, h⟩
      intro e he
      rcases List.mem_cons.mp he with rfl | he
      · exact h1
      · exact lt_trans h1 (hhd e he)
    · subst h2
      exact List.pairwise_cons.mpr ⟨hhd, htl⟩
    · refine List.pairwise_cons.mpr ⟨?_, ih htl⟩
      intro e he
      rcases mem_assignEntry he with rfl | he
      · exact lt_of_le_of_ne (not_lt.mp h1) (Ne.symm h2)
      · exact hhd e he

theorem findEntry_assignEntry (k k₀ : κ) (v : ν) (l : List (κ × ν)) :
    findEntry k (assignEntry k₀ v l) =
      if k = k₀ then some v else findEntry k l := by
  induction l with
  | nil => simp [assignEntry, findEntry]
  | cons hd tl ih =>
    obtain ⟨k', v'⟩ := hd
    unfold assignEntry
    split_ifs with h1 h2 h3 h3 h3 <;> simp_all [findEntry]

/-- An entry of an ordered list is what a lookup of its key finds. -/
theorem findEntry_eq_some_iff {k : κ} {v : ν} {l : List (κ × ν)}
    (h : l.Pairwise (fun a b => a.1 < b.1)) :
    findEntry k l = some v ↔ (k, v) ∈ l := by
  induction l with
  | nil => simp [findEntry]
  | cons hd tl ih =>
    obtain ⟨k', v'⟩ := hd
    obtain ⟨hhd, htl⟩ := List.pairwise_cons.mp h
    unfold findEntry
    split_ifs with hk
    · subst hk
      have hnot : (k, v) ∉ tl := fun hm => absurd (hhd _ hm) (lt_irrefl k)
      simp [hnot, eq_comm]
    · simp [ih htl, hk]

theorem findEntry_filter_ne (k k₀ : κ) (l : List (κ × ν)) :
    findEntry k (l.filter (fun e => e.1 ≠ k₀)) =
      if k = k₀ then none else findEntry k l := by
  induction l with
  | nil => simp [findEntry]
  | cons hd tl ih =>
    obtain ⟨k', v'⟩ := hd
    by_cases hk : k' = k₀
    · rw [List.filter_cons_of_neg (by simpa using hk), ih, findEntry]
      split_ifs with h1 h2 <;> simp_all
    · rw [List.filter_cons_of_pos (by simpa using hk), findEntry, findEntry, ih]
      split_ifs with h1 h2 <;> simp_all

end OrdMap

/-- An ordered map: its entries, in strictly increasing key order. -/
structure OrdMap (κ ν : Type) [LinearOrder κ] where
  entries : List (κ × ν)
  sorted : entries.Pairwise (fun a b => a.1 < b.1)

namespace OrdMap

variable {κ ν : Type} [LinearOrder κ]

@[ext]
theorem ext_entries {m m' : OrdMap κ ν} (h : m.entries = m'.entries) : m = m' := by
  cases m
  cases m'
  simpa using h

/-! ## Operations -/

def empty : OrdMap κ ν := ⟨[], List.Pairwise.nil⟩

instance : Inhabited (OrdMap κ ν) := ⟨empty⟩

def find? (m : OrdMap κ ν) (k : κ) : Option ν := findEntry k m.entries

def size (m : OrdMap κ ν) : Nat := m.entries.length

def keys (m : OrdMap κ ν) : List κ := m.entries.map (·.1)

def values (m : OrdMap κ ν) : List ν := m.entries.map (·.2)

/-- Write `v` under `k`, whether or not the key is present. -/
def assign (m : OrdMap κ ν) (k : κ) (v : ν) : OrdMap κ ν :=
  ⟨assignEntry k v m.entries, pairwise_assignEntry k v m.sorted⟩

/-- Write `v` under `k` unless the key is present. -/
def insert (m : OrdMap κ ν) (k : κ) (v : ν) : OrdMap κ ν :=
  match m.find? k with
  | none => m.assign k v
  | some _ => m

def erase (m : OrdMap κ ν) (k : κ) : OrdMap κ ν :=
  ⟨m.entries.filter (fun e => e.1 ≠ k), m.sorted.filter _⟩

/-! ## Lookups -/

@[simp]
theorem find?_empty (k : κ) : (empty : OrdMap κ ν).find? k = none := rfl

@[simp]
theorem entries_empty : (empty : OrdMap κ ν).entries = [] := rfl

@[simp]
theorem size_empty : (empty : OrdMap κ ν).size = 0 := rfl

theorem find?_assign (m : OrdMap κ ν) (k k₀ : κ) (v : ν) :
    (m.assign k₀ v).find? k = if k = k₀ then some v else m.find? k :=
  findEntry_assignEntry k k₀ v m.entries

@[simp]
theorem find?_assign_self (m : OrdMap κ ν) (k : κ) (v : ν) :
    (m.assign k v).find? k = some v := by
  rw [find?_assign, if_pos rfl]

theorem find?_assign_of_ne (m : OrdMap κ ν) {k k₀ : κ} (v : ν) (h : k ≠ k₀) :
    (m.assign k₀ v).find? k = m.find? k := by
  rw [find?_assign, if_neg h]

/-- A new key leaves the values under the other ones. -/
theorem find?_assign_of_isSome {m : OrdMap κ ν} {k k₀ : κ} (hnew : m.find? k₀ = none) (v : ν)
    (h : (m.find? k).isSome) : (m.assign k₀ v).find? k = m.find? k := by
  refine find?_assign_of_ne m v fun heq => ?_
  rw [heq, hnew] at h
  cases h

theorem find?_erase (m : OrdMap κ ν) (k k₀ : κ) :
    (m.erase k₀).find? k = if k = k₀ then none else m.find? k :=
  findEntry_filter_ne k k₀ m.entries

theorem find?_insert (m : OrdMap κ ν) (k k₀ : κ) (v : ν) :
    (m.insert k₀ v).find? k =
      if k = k₀ ∧ m.find? k₀ = none then some v else m.find? k := by
  unfold insert
  cases h : m.find? k₀ with
  | none => simp [find?_assign]
  | some w => simp

theorem find?_eq_some_iff {m : OrdMap κ ν} {k : κ} {v : ν} :
    m.find? k = some v ↔ (k, v) ∈ m.entries :=
  findEntry_eq_some_iff m.sorted

theorem find?_eq_none_iff {m : OrdMap κ ν} {k : κ} :
    m.find? k = none ↔ k ∉ m.keys := by
  rw [← not_iff_not, not_not, ← ne_eq, Option.ne_none_iff_exists']
  simp [find?_eq_some_iff, keys]

theorem isSome_find?_iff {m : OrdMap κ ν} {k : κ} :
    (m.find? k).isSome ↔ k ∈ m.keys := by
  rw [← not_iff_not, Option.not_isSome_iff_eq_none, find?_eq_none_iff]

theorem find?_foldl_erase (ks : List κ) (m : OrdMap κ ν) (k : κ) :
    (ks.foldl erase m).find? k = if k ∈ ks then none else m.find? k := by
  induction ks generalizing m with
  | nil => simp
  | cons b rest ih =>
    rw [List.foldl_cons, ih, find?_erase]
    by_cases hb : k = b <;> by_cases hrest : k ∈ rest <;> simp [hb, hrest]

theorem entries_foldl_erase (ks : List κ) (m : OrdMap κ ν) :
    (ks.foldl erase m).entries = m.entries.filter (·.1 ∉ ks) := by
  induction ks generalizing m with
  | nil => simp
  | cons b rest ih =>
    rw [List.foldl_cons, ih, erase, List.filter_filter]
    exact List.filter_congr fun e _ => by simp [Bool.and_comm]

theorem mem_keys_foldl_erase {ks : List κ} {m : OrdMap κ ν} {k : κ} :
    k ∈ (ks.foldl erase m).keys ↔ k ∈ m.keys ∧ k ∉ ks := by
  rw [← isSome_find?_iff, ← isSome_find?_iff, find?_foldl_erase]
  split_ifs with h <;> simp [h]

theorem nodup_keys (m : OrdMap κ ν) : m.keys.Nodup :=
  (List.pairwise_map.mpr m.sorted).imp ne_of_lt

/-- A map whose entries all have one key. -/
theorem length_entries_le_one {m : OrdMap κ ν} {k : κ} (h : ∀ e ∈ m.entries, e.1 = k) :
    m.entries.length ≤ 1 := by
  have hkeys : m.keys = List.replicate m.keys.length k := by
    refine List.eq_replicate_of_mem fun k' hk' => ?_
    obtain ⟨e, he, rfl⟩ := List.mem_map.mp hk'
    exact h e he
  have hnodup := m.nodup_keys
  rw [hkeys, List.nodup_replicate, keys, List.length_map] at hnodup
  exact hnodup

/-- A new key adds an entry. -/
theorem perm_entries_assign {m : OrdMap κ ν} {k : κ} (h : m.find? k = none) (v : ν) :
    (m.assign k v).entries.Perm ((k, v) :: m.entries) := by
  obtain ⟨entries, sorted⟩ := m
  change findEntry k entries = none at h
  show (assignEntry k v entries).Perm ((k, v) :: entries)
  clear sorted
  induction entries with
  | nil => exact .refl _
  | cons hd tl ih =>
    obtain ⟨k', v'⟩ := hd
    unfold findEntry at h
    split_ifs at h with hk
    unfold assignEntry
    split_ifs
    · exact .refl _
    · exact ((ih h).cons _).trans (.swap _ _ _)

theorem perm_values_insert {m : OrdMap κ ν} {k : κ} (h : m.find? k = none) (v : ν) :
    (m.insert k v).values.Perm (v :: m.values) := by
  rw [insert, h]
  exact (perm_entries_assign h v).map Prod.snd

theorem insert_of_some {m : OrdMap κ ν} {k : κ} {w : ν} (h : m.find? k = some w) (v : ν) :
    m.insert k v = m := by
  rw [insert, h]

/-- Two maps with the same lookups are the same map. -/
theorem ext_find? {m m' : OrdMap κ ν} (h : ∀ k, m.find? k = m'.find? k) : m = m' := by
  have hmem : ∀ e, e ∈ m.entries ↔ e ∈ m'.entries := by
    rintro ⟨k, v⟩
    rw [← find?_eq_some_iff, ← find?_eq_some_iff, h k]
  have hnodup : ∀ m : OrdMap κ ν, m.entries.Nodup := fun m =>
    m.sorted.imp fun hlt heq => absurd (heq ▸ hlt) (lt_irrefl _)
  have hperm : m.entries.Perm m'.entries :=
    (List.perm_ext_iff_of_nodup (hnodup m) (hnodup m')).mpr hmem
  refine ext_entries (hperm.eq_of_pairwise ?_ m.sorted m'.sorted)
  intro a b _ _ hab hba
  exact absurd (lt_trans hab hba) (lt_irrefl _)

@[simp]
theorem assign_assign (m : OrdMap κ ν) (k : κ) (v w : ν) :
    (m.assign k v).assign k w = m.assign k w := by
  refine ext_find? fun k' => ?_
  simp only [find?_assign]
  split_ifs <;> rfl

end OrdMap
