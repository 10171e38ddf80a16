import Mathlib

/-!
# Hash maps as association lists

`std::unordered_map` up to iteration order: `AList` already is a list of entries with distinct
keys, so what is added here is only what the standard container has and `AList` has not.

* `emplace`, which keeps an existing entry (`insert({k, v})` and `emplace(k, v)` both do);
* `subscript`, `operator[]`: a *read* that creates the entry when there is none;
* `total`, the sum of a measure over all entries, with the two equations that every bookkeeping
  argument uses: what `erase` takes away and what `insert` puts in its place.

`AList.insert` overwrites; it models an assignment through an iterator or a stored pointer. It
moves the entry to the front of the list, which an unordered map does not promise to remember.
-/

set_option autoImplicit false

namespace EcGcm

/-- `std::unordered_map<κ, α>`. -/
abbrev UnorderedMap (κ α : Type) := AList (fun _ : κ => α)

namespace UnorderedMap

variable {κ α : Type} [DecidableEq κ]

/-- `insert({k, v})` and `emplace(k, v)`: no effect when the key is present. -/
def emplace (m : UnorderedMap κ α) (k : κ) (v : α) : UnorderedMap κ α :=
  match m.lookup k with
  | some _ => m
  | none => m.insert k v

/-- `m[k]`: the value, and the map it leaves behind. -/
def subscript (m : UnorderedMap κ α) (k : κ) (dflt : α) : α × UnorderedMap κ α :=
  match m.lookup k with
  | some v => (v, m)
  | none => (dflt, m.insert k dflt)

theorem emplace_of_lookup {m : UnorderedMap κ α} {k : κ} {v w : α} (h : m.lookup k = some w) :
    m.emplace k v = m := by
  simp only [emplace, h]

theorem emplace_of_lookup_none {m : UnorderedMap κ α} {k : κ} {v : α} (h : m.lookup k = none) :
    m.emplace k v = m.insert k v := by
  simp only [emplace, h]

theorem subscript_of_lookup {m : UnorderedMap κ α} {k : κ} {v dflt : α}
    (h : m.lookup k = some v) : m.subscript k dflt = (v, m) := by
  simp only [subscript, h]

theorem lookup_insert' (m : UnorderedMap κ α) (k k' : κ) (v : α) :
    (m.insert k v).lookup k' = if k' = k then some v else m.lookup k' := by
  by_cases h : k' = k
  · subst h
    rw [if_pos rfl, AList.lookup_insert]
  · rw [if_neg h, AList.lookup_insert_ne h]

theorem lookup_erase' (m : UnorderedMap κ α) (k k' : κ) :
    (m.erase k).lookup k' = if k' = k then none else m.lookup k' := by
  by_cases h : k' = k
  · subst h
    rw [if_pos rfl, AList.lookup_erase]
  · rw [if_neg h, AList.lookup_erase_ne h]

theorem mem_keys_iff_lookup {m : UnorderedMap κ α} {k : κ} :
    k ∈ m.keys ↔ ∃ v, m.lookup k = some v := by
  rw [← AList.mem_keys, ← AList.lookup_isSome, Option.isSome_iff_exists]

/-! ## Size -/

/-- `size()`. -/
def size (m : UnorderedMap κ α) : ℕ := m.keys.length

theorem size_insert (m : UnorderedMap κ α) (k : κ) (v : α) :
    size (m.insert k v) = if k ∈ m.keys then m.size else m.size + 1 := by
  unfold size
  rw [AList.keys_insert, List.length_cons, List.length_erase]
  split
  · rename_i h
    have := List.length_pos_of_mem h
    omega
  · rfl

theorem size_erase (m : UnorderedMap κ α) (k : κ) :
    size (m.erase k) = if k ∈ m.keys then m.size - 1 else m.size := by
  unfold size
  rw [AList.keys_erase, List.length_erase]

theorem size_pos_of_lookup {m : UnorderedMap κ α} {k : κ} {v : α} (h : m.lookup k = some v) :
    0 < m.size := List.length_pos_of_mem (mem_keys_iff_lookup.mpr ⟨v, h⟩)

/-- A map whose keys can be numbered below `n` has at most `n` entries. -/
theorem size_le_of_injective {m : UnorderedMap κ α} {code : κ → ℕ} {n : ℕ}
    (hinj : Function.Injective code) (hlt : ∀ k, code k < n) : m.size ≤ n := by
  have hsub : m.keys.toFinset.image code ⊆ Finset.range n := by
    intro i hi
    obtain ⟨k, _, rfl⟩ := Finset.mem_image.mp hi
    exact Finset.mem_range.mpr (hlt k)
  have hcard := Finset.card_le_card hsub
  rw [Finset.card_image_of_injective _ hinj, Finset.card_range,
    List.toFinset_card_of_nodup (AList.keys_nodup m)] at hcard
  exact hcard

/-! ## Totals -/

section Total

variable {M : Type} [AddCommMonoid M]

/-- The sum of `f` over the values of the map. -/
def total (f : α → M) (m : UnorderedMap κ α) : M := (m.entries.map fun e => f e.2).sum

theorem total_erase_of_lookup {f : α → M} {m : UnorderedMap κ α} {k : κ} {v : α}
    (h : m.lookup k = some v) : f v + total f (m.erase k) = total f m := by
  have hk : k ∈ m.entries.keys := by
    have : k ∈ m := AList.lookup_isSome.mp (by rw [h]; rfl)
    exact AList.mem_keys.mp this
  obtain ⟨w, l₁, l₂, hnot, hl, he⟩ := List.exists_of_kerase hk
  have hw : w = v := by
    have hm : (⟨k, w⟩ : Sigma fun _ : κ => α) ∈ m.entries := by rw [hl]; simp
    have := (AList.mem_lookup_iff (s := m)).mpr hm
    rw [h] at this
    simpa using this.symm
  subst hw
  show f w + ((List.kerase k m.entries).map fun e => f e.2).sum = _
  rw [he, total, hl]
  simp only [List.map_append, List.map_cons, List.sum_append, List.sum_cons]
  exact add_left_comm _ _ _

theorem total_insert (f : α → M) (m : UnorderedMap κ α) (k : κ) (v : α) :
    total f (m.insert k v) = f v + total f (m.erase k) := by
  simp only [total, AList.entries_insert, List.map_cons, List.sum_cons, AList.erase]

theorem erase_of_lookup_none {m : UnorderedMap κ α} {k : κ} (h : m.lookup k = none) :
    m.erase k = m := by
  have : k ∉ m.entries.keys := fun hk => AList.lookup_eq_none.mp h (AList.mem_keys.mpr hk)
  exact AList.ext (List.kerase_of_notMem_keys this)

theorem total_insert_of_lookup_none {f : α → M} {m : UnorderedMap κ α} {k : κ} {v : α}
    (h : m.lookup k = none) : total f (m.insert k v) = f v + total f m := by
  rw [total_insert, erase_of_lookup_none h]

end Total

theorem le_total {f : α → ℕ} {m : UnorderedMap κ α} {k : κ} {v : α} (h : m.lookup k = some v) :
    f v ≤ total f m := by
  have := total_erase_of_lookup (f := f) h
  omega

/-- Overwriting an entry replaces its share of the total. -/
theorem total_insert_of_lookup {f : α → ℕ} {m : UnorderedMap κ α} {k : κ} {v w : α}
    (h : m.lookup k = some v) : total f (m.insert k w) + f v = total f m + f w := by
  have h₁ := total_insert f m k w
  have h₂ := total_erase_of_lookup (f := f) h
  omega

end UnorderedMap

end EcGcm
