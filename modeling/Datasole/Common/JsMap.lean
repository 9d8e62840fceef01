import Mathlib.Algebra.BigOperators.Group.Finset.Basic
import Mathlib.Data.Finset.Dedup
import Mathlib.Data.List.Nodup
import Mathlib.Tactic.Abel

/-!
# Insertion-ordered maps

`JsMap κ ν` is a finite map that lists its entries in the order their keys were first inserted, as a
JavaScript `Map` does. That no key is listed twice is a field, so an entry list with two answers for
a key cannot be built.

Programs read such a map in two ways, through a key and through a loop over its entries. `get_set`
and its companions rewrite the first; `get_update` says what a loop that updates a map from a list
of entries does to each key, and `sum_values` turns a loop that adds up the values into a sum over
keys.
-/

/-- A finite map, with its entries in insertion order. -/
structure JsMap (κ ν : Type*) where
  entries : List (κ × ν)
  nodup_keys : (entries.map Prod.fst).Nodup

namespace JsMap

variable {κ ν μ : Type*}

theorem ext_entries {m n : JsMap κ ν} (h : m.entries = n.entries) : m = n := by
  cases m; cases n; cases h; rfl

instance [DecidableEq κ] [DecidableEq ν] : DecidableEq (JsMap κ ν) := fun m n =>
  decidable_of_iff (m.entries = n.entries) ⟨ext_entries, congrArg entries⟩

/-- The map without entries. -/
def empty : JsMap κ ν := ⟨[], List.nodup_nil⟩

/-- The keys, in insertion order. -/
def keys (m : JsMap κ ν) : List κ := m.entries.map Prod.fst

theorem nodup (m : JsMap κ ν) : m.keys.Nodup := m.nodup_keys

/-- The values, in insertion order of their keys. -/
def values (m : JsMap κ ν) : List ν := m.entries.map Prod.snd

/-- The number of entries. -/
def size (m : JsMap κ ν) : ℕ := m.entries.length

variable [DecidableEq κ]

/-- The value stored under a key. -/
def get (m : JsMap κ ν) (k : κ) : Option ν := m.entries.lookup k

/-- Whether a key is present. -/
def has (m : JsMap κ ν) (k : κ) : Bool := (m.get k).isSome

/-- The two maps hold the same values, in whatever order. -/
def SameEntries (m n : JsMap κ ν) : Prop := ∀ k, m.get k = n.get k

/-- Replace the value of `k` where it stands, or append a new entry. -/
def setEntries : List (κ × ν) → κ → ν → List (κ × ν)
  | [], k, v => [(k, v)]
  | e :: es, k, v => if e.1 = k then (k, v) :: es else e :: setEntries es k v

/-- Setting a key adds no other one. -/
theorem mem_keys_setEntries {es : List (κ × ν)} {k k' : κ} {v : ν} :
    k' ∈ (setEntries es k v).map Prod.fst ↔ k' = k ∨ k' ∈ es.map Prod.fst := by
  induction es with
  | nil => simp [setEntries]
  | cons e es ih =>
    by_cases he : e.1 = k
    · simp [setEntries, he]
    · rw [setEntries, if_neg he, List.map_cons, List.mem_cons, ih, List.map_cons, List.mem_cons]
      exact or_left_comm

/-- Setting a key keeps the keys distinct. -/
theorem nodup_setEntries {es : List (κ × ν)} (h : (es.map Prod.fst).Nodup) (k : κ) (v : ν) :
    ((setEntries es k v).map Prod.fst).Nodup := by
  induction es with
  | nil => simp [setEntries]
  | cons e es ih =>
    obtain ⟨hmem, hes⟩ := List.nodup_cons.mp h
    by_cases he : e.1 = k
    · rw [setEntries, if_pos he]
      exact List.nodup_cons.mpr ⟨he ▸ hmem, hes⟩
    · rw [setEntries, if_neg he]
      refine List.nodup_cons.mpr ⟨fun hin => ?_, ih hes⟩
      exact (mem_keys_setEntries.mp hin).elim he hmem

/-- Store a value under a key. -/
def set (m : JsMap κ ν) (k : κ) (v : ν) : JsMap κ ν :=
  ⟨setEntries m.entries k v, nodup_setEntries m.nodup_keys k v⟩

/-- Keep the entries whose key satisfies `p`. -/
def filterKeys (m : JsMap κ ν) (p : κ → Bool) : JsMap κ ν :=
  ⟨m.entries.filter (p ·.1), m.nodup_keys.sublist (List.filter_sublist.map _)⟩

/-- Remove a key. -/
def delete (m : JsMap κ ν) (k : κ) : JsMap κ ν := m.filterKeys (· ≠ k)

/-- Apply a function to every value. -/
def map (m : JsMap κ ν) (f : ν → μ) : JsMap κ μ :=
  ⟨m.entries.map (fun e => (e.1, f e.2)), by simpa [Function.comp_def] using m.nodup_keys⟩

/-- Apply a function to every value and drop the keys where it gives nothing. -/
def filterMap (m : JsMap κ ν) (f : ν → Option μ) : JsMap κ μ :=
  ⟨m.entries.filterMap fun e => (f e.2).map (e.1, ·), by
    -- the keys kept are some of the keys, in the same order
    refine m.nodup_keys.sublist ?_
    rw [List.map_filterMap]
    induction m.entries with
    | nil => exact List.Sublist.refl _
    | cons e es ih =>
      cases hf : f e.2 with
      | none => simpa [hf] using ih.cons e.1
      | some v => simpa [hf] using ih.cons_cons e.1⟩

/-- The loop that stores, for each entry `(k, c)` of a list, `f` of the value `k` has and `c`. -/
def update (m : JsMap κ ν) (f : Option ν → μ → ν) (es : List (κ × μ)) : JsMap κ ν :=
  es.foldl (fun m e => m.set e.1 (f (m.get e.1) e.2)) m

/-- The own properties of the plain object filled by `o[k] = v` for each entry: `__proto__` names
the accessor of the prototype, and assigning it creates no property. -/
def toObject (m : JsMap String ν) : JsMap String ν := m.filterKeys (· ≠ "__proto__")

/-! ## Reading through a key -/

/-- A look-up compares the first key and goes on. -/
theorem lookup_cons (e : κ × ν) (es : List (κ × ν)) (k : κ) :
    (e :: es).lookup k = if k = e.1 then some e.2 else es.lookup k := by
  obtain ⟨k', v⟩ := e
  rw [List.lookup_cons]
  by_cases h : k = k'
  · simp [h]
  · rw [beq_false_of_ne h, if_neg h]

/-- A key that is not there is not found. -/
theorem lookup_eq_none {es : List (κ × ν)} {k : κ} (h : k ∉ es.map Prod.fst) :
    es.lookup k = none := by
  rw [List.lookup_eq_none_iff]
  intro e he
  have hne : k ≠ e.1 := fun hk => h (hk ▸ List.mem_map_of_mem he)
  simpa using hne

theorem get_empty (k : κ) : (empty : JsMap κ ν).get k = none := rfl

/-- A key has what was set last, and the others what they had. -/
theorem get_set (m : JsMap κ ν) (k k' : κ) (v : ν) :
    (m.set k v).get k' = if k' = k then some v else m.get k' := by
  obtain ⟨es, hes⟩ := m
  show (setEntries es k v).lookup k' = if k' = k then some v else es.lookup k'
  clear hes
  induction es with
  | nil => simp [setEntries, lookup_cons]
  | cons e es ih =>
    by_cases he : e.1 = k
    · subst he
      by_cases hk : k' = e.1 <;> simp [setEntries, lookup_cons, hk]
    · rw [setEntries, if_neg he, lookup_cons, lookup_cons, ih]
      by_cases hk : k' = k
      · subst hk; simp [Ne.symm he]
      · simp [hk]

@[simp] theorem get_set_self (m : JsMap κ ν) (k : κ) (v : ν) : (m.set k v).get k = some v := by
  rw [get_set, if_pos rfl]

theorem get_set_ne (m : JsMap κ ν) {k k' : κ} (h : k' ≠ k) (v : ν) :
    (m.set k v).get k' = m.get k' := by
  rw [get_set, if_neg h]

/-- The entries that a filter keeps are found, and no others. -/
theorem get_filterKeys (m : JsMap κ ν) (p : κ → Bool) (k : κ) :
    (m.filterKeys p).get k = if p k then m.get k else none := by
  obtain ⟨es, hes⟩ := m
  show (es.filter (p ·.1)).lookup k = if p k then es.lookup k else none
  clear hes
  induction es with
  | nil => simp
  | cons e es ih =>
    rw [lookup_cons, List.filter_cons]
    by_cases hp : p e.1
    · rw [if_pos hp, lookup_cons, ih]
      by_cases hk : k = e.1
      · simp [hk, hp]
      · simp [hk]
    · rw [if_neg hp, ih]
      by_cases hk : k = e.1
      · simp [hk, hp]
      · simp [hk]

/-- A deleted key has no value, and the others what they had. -/
theorem get_delete (m : JsMap κ ν) (k k' : κ) :
    (m.delete k).get k' = if k' = k then none else m.get k' := by
  rw [delete, get_filterKeys]
  by_cases hk : k' = k <;> simp [hk]

/-- As the properties of an object, all keys but `__proto__` have their values. -/
theorem get_toObject (m : JsMap String ν) {k : String} (hk : k ≠ "__proto__") :
    m.toObject.get k = m.get k := by
  rw [toObject, get_filterKeys, if_pos (by simpa using hk)]

theorem get_toObject_proto (m : JsMap String ν) : m.toObject.get "__proto__" = none := by
  rw [toObject, get_filterKeys, if_neg (by simp)]

/-- The values are mapped where they are. -/
theorem get_map (m : JsMap κ ν) (f : ν → μ) (k : κ) : (m.map f).get k = (m.get k).map f := by
  obtain ⟨es, hes⟩ := m
  show (es.map fun e => (e.1, f e.2)).lookup k = (es.lookup k).map f
  clear hes
  induction es with
  | nil => rfl
  | cons e es ih =>
    rw [List.map_cons, lookup_cons, lookup_cons, ih]
    by_cases hk : k = e.1 <;> simp [hk]

/-- The values are mapped, and those mapped to nothing are gone. -/
theorem get_filterMap (m : JsMap κ ν) (f : ν → Option μ) (k : κ) :
    (m.filterMap f).get k = (m.get k).bind f := by
  obtain ⟨es, hes⟩ := m
  show (es.filterMap fun e => (f e.2).map (e.1, ·)).lookup k = (es.lookup k).bind f
  induction es with
  | nil => rfl
  | cons e es ih =>
    obtain ⟨hmem, hnd⟩ := List.nodup_cons.mp hes
    rw [lookup_cons]
    by_cases hk : k = e.1
    · subst hk
      cases hf : f e.2 with
      | none => simp [hf, ih hnd, lookup_eq_none hmem]
      | some v => simp [hf, lookup_cons]
    · cases hf : f e.2 with
      | none => simp [hf, ih hnd, hk]
      | some v => simp [hf, lookup_cons, ih hnd, hk]

/-- Storing a value that a key has already changes nothing. -/
theorem set_of_get {m : JsMap κ ν} {k : κ} {v : ν} (h : m.get k = some v) : m.set k v = m := by
  obtain ⟨es, hes⟩ := m
  refine ext_entries ?_
  change es.lookup k = some v at h
  change setEntries es k v = es
  clear hes
  induction es with
  | nil => cases h
  | cons e es ih =>
    rw [lookup_cons] at h
    by_cases he : e.1 = k
    · rw [if_pos he.symm] at h
      obtain rfl := Option.some.inj h
      rw [setEntries, if_pos he, ← he]
    · rw [if_neg (Ne.symm he)] at h
      rw [setEntries, if_neg he, ih h]

/-- What `filterMap` gives changes with a value exactly if what it gives for that value does. -/
theorem filterMap_set_iff (m : JsMap κ ν) (f : ν → Option μ) (k : κ) (v : ν) :
    (m.set k v).filterMap f = m.filterMap f ↔ f v = (m.get k).bind f := by
  refine ⟨fun h => ?_, fun h => ext_entries ?_⟩
  · have hget := congrArg (fun n => n.get k) h
    simp only [get_filterMap, get_set_self, Option.bind_some] at hget
    exact hget
  · obtain ⟨es, hes⟩ := m
    change (setEntries es k v).filterMap _ = es.filterMap _
    change f v = (es.lookup k).bind f at h
    clear hes
    induction es with
    | nil => simp [setEntries, h]
    | cons e es ih =>
      rw [lookup_cons] at h
      by_cases he : e.1 = k
      · rw [if_pos he.symm, Option.bind_some] at h
        rw [setEntries, if_pos he, List.filterMap_cons, List.filterMap_cons, h, he]
      · rw [if_neg (Ne.symm he)] at h
        rw [setEntries, if_neg he, List.filterMap_cons, List.filterMap_cons, ih h]

/-- A key is there exactly if it has a value. -/
theorem mem_keys {m : JsMap κ ν} {k : κ} : k ∈ m.keys ↔ (m.get k).isSome := by
  rw [keys, get, List.lookup_isSome_iff, List.mem_map]
  constructor
  · rintro ⟨e, he, rfl⟩
    exact ⟨e, he, beq_self_eq_true _⟩
  · rintro ⟨e, he, hk⟩
    exact ⟨e, he, (beq_iff_eq.mp hk).symm⟩

/-- An entry is listed exactly when its key reads as its value. -/
theorem mem_entries {m : JsMap κ ν} {k : κ} {v : ν} : (k, v) ∈ m.entries ↔ m.get k = some v := by
  obtain ⟨es, hes⟩ := m
  show (k, v) ∈ es ↔ es.lookup k = some v
  induction es with
  | nil => simp
  | cons e es ih =>
    obtain ⟨hmem, hnd⟩ := List.nodup_cons.mp hes
    rw [List.mem_cons, ih hnd, lookup_cons]
    by_cases hk : k = e.1
    · subst hk
      simp [lookup_eq_none hmem, Prod.ext_iff, eq_comm]
    · simp [hk, Prod.ext_iff]

/-- A new key adds an entry. -/
theorem size_set_of_get_eq_none {m : JsMap κ ν} {k : κ} (h : m.get k = none) (v : ν) :
    (m.set k v).size = m.size + 1 := by
  obtain ⟨es, hes⟩ := m
  change es.lookup k = none at h
  change (setEntries es k v).length = es.length + 1
  clear hes
  induction es with
  | nil => rfl
  | cons e es ih =>
    rw [lookup_cons] at h
    by_cases he : k = e.1
    · rw [if_pos he] at h
      cases h
    · rw [if_neg he] at h
      rw [setEntries, if_neg (Ne.symm he), List.length_cons, List.length_cons, ih h]

/-- A key that is there takes one entry with it. -/
theorem size_delete_of_get_eq_some {m : JsMap κ ν} {k : κ} {v : ν} (h : m.get k = some v) :
    (m.delete k).size + 1 = m.size := by
  obtain ⟨es, hes⟩ := m
  change es.lookup k = some v at h
  change (es.filter (fun e => decide (e.1 ≠ k))).length + 1 = es.length
  induction es with
  | nil => cases h
  | cons e es ih =>
    obtain ⟨hmem, hnd⟩ := List.nodup_cons.mp hes
    rw [lookup_cons] at h
    by_cases he : k = e.1
    · -- no other entry has the key
      have hrest : es.filter (fun e => decide (e.1 ≠ k)) = es := by
        refine List.filter_eq_self.mpr fun e' he' => decide_eq_true fun hk => hmem ?_
        exact he ▸ hk ▸ List.mem_map_of_mem he'
      rw [List.filter_cons_of_neg (by simpa using he.symm), hrest, List.length_cons]
    · rw [if_neg he] at h
      rw [List.filter_cons_of_pos (by simpa using Ne.symm he), List.length_cons, List.length_cons,
        ih hnd h]

/-- A map without values is empty. -/
theorem eq_empty {m : JsMap κ ν} (h : ∀ k, m.get k = none) : m = empty := by
  refine ext_entries (List.eq_nil_iff_forall_not_mem.mpr fun e he => ?_)
  have hget := mem_entries.mp (show (e.1, e.2) ∈ m.entries from he)
  rw [h] at hget
  cases hget

/-- The values are those of the keys. -/
theorem mem_values {m : JsMap κ ν} {v : ν} : v ∈ m.values ↔ ∃ k, m.get k = some v := by
  rw [values, List.mem_map]
  constructor
  · rintro ⟨e, he, rfl⟩
    exact ⟨e.1, mem_entries.mp he⟩
  · rintro ⟨k, hk⟩
    exact ⟨(k, v), mem_entries.mpr hk, rfl⟩

/-- A map that has no value under two keys lists no value twice. -/
theorem nodup_values {m : JsMap κ ν} (h : ∀ k k' v, m.get k = some v → m.get k' = some v → k = k') :
    m.values.Nodup := by
  refine m.nodup_keys.of_map.map_on fun e he e' he' hv => Prod.ext ?_ hv
  refine h e.1 e'.1 e.2 (mem_entries.mp he) ?_
  rw [hv]
  exact mem_entries.mp he'

/-- Each key named by the entry list is updated once, the others keep their value. -/
theorem get_update (m : JsMap κ ν) (f : Option ν → μ → ν) {es : List (κ × μ)}
    (hes : (es.map Prod.fst).Nodup) (k : κ) :
    (m.update f es).get k = (es.lookup k).elim (m.get k) (fun c => some (f (m.get k) c)) := by
  induction es generalizing m with
  | nil => rfl
  | cons e es ih =>
    obtain ⟨hmem, hnd⟩ := List.nodup_cons.mp hes
    change ((m.set e.1 (f (m.get e.1) e.2)).update f es).get k = _
    rw [ih _ hnd, lookup_cons]
    by_cases hk : k = e.1
    · subst hk
      simp [lookup_eq_none hmem]
    · simp [hk, get_set_ne]

/-! ## Adding up the values -/

section Sum

variable {M : Type*} [AddCommMonoid M]

theorem getD_eq_zero {m : JsMap κ M} {k : κ} (h : k ∉ m.keys) : (m.get k).getD 0 = 0 := by
  rw [mem_keys, Option.not_isSome_iff_eq_none] at h
  rw [h, Option.getD_none]

/-- The values add up to the sum, over any set of keys that covers the non-zero ones, of what each
key reads as, an absent key as `0`. -/
theorem sum_values (m : JsMap κ M) (S : Finset κ) (hS : ∀ k, k ∉ S → (m.get k).getD 0 = 0) :
    m.values.sum = ∑ k ∈ S, (m.get k).getD 0 := by
  have hvalues : m.values = m.keys.map fun k => (m.get k).getD 0 := by
    rw [values, keys, List.map_map]
    refine List.map_congr_left fun e he => ?_
    simp [mem_entries.mp (show (e.1, e.2) ∈ m.entries from he)]
  -- a key outside `m` or outside `S` adds nothing, so both sums extend to the union
  calc m.values.sum
      = ∑ k ∈ m.keys.toFinset, (m.get k).getD 0 := by
        rw [hvalues, List.sum_toFinset _ m.nodup]
    _ = ∑ k ∈ m.keys.toFinset ∪ S, (m.get k).getD 0 :=
        Finset.sum_subset Finset.subset_union_left
          fun k _ hk => getD_eq_zero (mt List.mem_toFinset.mpr hk)
    _ = ∑ k ∈ S, (m.get k).getD 0 :=
        (Finset.sum_subset Finset.subset_union_right fun k _ hk => hS k hk).symm

/-- Storing a value under `k` moves the sum by the change at `k`. -/
theorem sum_values_set {G : Type*} [AddCommGroup G] (m : JsMap κ G) (k : κ) (v : G) :
    (m.set k v).values.sum = m.values.sum + (v - (m.get k).getD 0) := by
  have hm : ∀ k', k' ∉ insert k m.keys.toFinset → (m.get k').getD 0 = 0 := fun k' hk' =>
    getD_eq_zero fun h => hk' (Finset.mem_insert_of_mem (List.mem_toFinset.mpr h))
  have hset : ∀ k', k' ∉ insert k m.keys.toFinset → ((m.set k v).get k').getD 0 = 0 := by
    intro k' hk'
    have hne : k' ≠ k := fun h => hk' (Finset.mem_insert.mpr (Or.inl h))
    rw [get_set_ne m hne v]
    exact hm k' hk'
  rw [sum_values _ _ hset, sum_values _ _ hm,
    ← Finset.add_sum_erase _ _ (Finset.mem_insert_self k m.keys.toFinset),
    ← Finset.add_sum_erase _ (fun k' => (m.get k').getD 0)
      (Finset.mem_insert_self k m.keys.toFinset),
    Finset.sum_congr rfl fun k' hk' => by rw [get_set_ne m (Finset.ne_of_mem_erase hk') v],
    get_set_self, Option.getD_some]
  abel

end Sum

end JsMap
