import Mathlib.Data.List.Sort
import Mathlib.Data.String.Basic
import Datasole.Common.JsString
import Datasole.Common.Json
import Datasole.Common.JsonPointer

/-!
# Editing a JSON document

The operations `add`, `remove` and `replace` of a JSON patch, at the place that a list of reference
tokens leads to. An operation whose place does not exist gives nothing.

A run of operations below one member or item changes that member or item and nothing beside it
(`run_under_member`, `run_under_item`).
-/

namespace Json

/-! ## Members -/

/-- The names are strictly increasing, so that no two are equal. -/
def Sorted (members : List (String × Json)) : Prop := members.Pairwise fun a b => a.1 < b.1

/-- A tree that stands for a JSON value: at every object the members are in order. -/
inductive WellFormed : Json → Prop
  | null : WellFormed .null
  | bool (b : Bool) : WellFormed (.bool b)
  | num (n : ℚ) : WellFormed (.num n)
  | str (s : String) : WellFormed (.str s)
  | arr {items : List Json} (h : ∀ item ∈ items, WellFormed item) : WellFormed (.arr items)
  | obj {members : List (String × Json)} (sorted : Sorted members)
      (h : ∀ m ∈ members, WellFormed m.2) : WellFormed (.obj members)

/-- Give the member of this name a value, or put one where it belongs. -/
def setMember (key : String) (value : Json) : List (String × Json) → List (String × Json)
  | [] => [(key, value)]
  | (k, v) :: members =>
    if key = k then (key, value) :: members
    else if key < k then (key, value) :: (k, v) :: members
    else (k, v) :: setMember key value members

def removeMember (key : String) (members : List (String × Json)) : List (String × Json) :=
  members.filter (·.1 ≠ key)

variable {members ms ns : List (String × Json)} {key : String}

/-- A member of the new list is the one that was set, or an old one. -/
theorem mem_setMember {value : Json} {m : String × Json} (h : m ∈ setMember key value members) :
    m = (key, value) ∨ m ∈ members := by
  induction members with
  | nil => exact .inl (List.mem_singleton.mp h)
  | cons e members ih =>
    obtain ⟨k, v⟩ := e
    rw [setMember] at h
    split at h
    · exact (List.mem_cons.mp h).imp_right (List.mem_cons_of_mem _)
    · split at h
      · exact List.mem_cons.mp h
      · rcases List.mem_cons.mp h with rfl | h
        · exact .inr List.mem_cons_self
        · exact (ih h).imp_right (List.mem_cons_of_mem _)

/-- Setting a member keeps the names in order. -/
theorem sorted_setMember (h : Sorted members) (key : String) (value : Json) :
    Sorted (setMember key value members) := by
  induction members with
  | nil => exact List.pairwise_singleton _ _
  | cons e members ih =>
    obtain ⟨k, v⟩ := e
    obtain ⟨hlt, hsorted⟩ := List.pairwise_cons.mp h
    rw [setMember]
    split
    · next heq => exact List.pairwise_cons.mpr ⟨fun m hm => heq ▸ hlt m hm, hsorted⟩
    · split
      · next hkey =>
        refine List.pairwise_cons.mpr ⟨fun m hm => ?_, h⟩
        rcases List.mem_cons.mp hm with rfl | hm
        · exact hkey
        · exact lt_trans hkey (hlt m hm)
      · next hne hge =>
        refine List.pairwise_cons.mpr ⟨fun m hm => ?_, ih hsorted⟩
        rcases mem_setMember hm with rfl | hm
        · exact lt_of_le_of_ne (not_lt.mp hge) (Ne.symm hne)
        · exact hlt m hm

/-- A look-up compares the first name and goes on. -/
theorem lookup_cons (k : String) (v : Json) (key : String) :
    ((k, v) :: members).lookup key = if key = k then some v else members.lookup key := by
  rw [List.lookup_cons]
  by_cases h : key = k
  · simp [h]
  · rw [beq_false_of_ne h, if_neg h]

/-- The name has what was set, and the others what they had. -/
theorem lookup_setMember (key : String) (value : Json) (key' : String) :
    (setMember key value members).lookup key' =
      if key' = key then some value else members.lookup key' := by
  induction members with
  | nil => exact lookup_cons key value key'
  | cons e members ih =>
    obtain ⟨k, v⟩ := e
    rw [setMember]
    split
    · next heq =>
      subst heq
      rw [lookup_cons, lookup_cons]
      split <;> rfl
    · split
      · rw [lookup_cons key value]
      · next hne _ =>
        rw [lookup_cons k v, lookup_cons k v, ih]
        by_cases hk : key' = k
        · rw [if_pos hk, if_pos hk, if_neg (hk ▸ Ne.symm hne)]
        · rw [if_neg hk, if_neg hk]

theorem sorted_removeMember (h : Sorted members) (key : String) :
    Sorted (removeMember key members) :=
  h.sublist List.filter_sublist

/-- A removed name has no value, and the others what they had. -/
theorem lookup_removeMember (key key' : String) :
    (removeMember key members).lookup key' = if key' = key then none else members.lookup key' := by
  induction members with
  | nil => split <;> rfl
  | cons e members ih =>
    obtain ⟨k, v⟩ := e
    unfold removeMember at ih ⊢
    by_cases hk : k = key
    · subst hk
      rw [List.filter_cons_of_neg (by simp), ih, lookup_cons]
      split <;> rfl
    · rw [List.filter_cons_of_pos (by simpa using hk), lookup_cons, lookup_cons, ih]
      by_cases hkey : key' = k
      · rw [if_pos hkey, if_pos hkey, if_neg (hkey ▸ hk)]
      · rw [if_neg hkey, if_neg hkey]

/-- The members in order have a name each once. -/
theorem Sorted.lookup_eq_some (h : Sorted members) {key : String} {value : Json} :
    members.lookup key = some value ↔ (key, value) ∈ members := by
  induction members with
  | nil => simp
  | cons e members ih =>
    obtain ⟨k, v⟩ := e
    obtain ⟨hlt, hsorted⟩ := List.pairwise_cons.mp h
    rw [lookup_cons, List.mem_cons, Prod.mk.injEq]
    split
    · next heq =>
      subst heq
      have hnot : (key, value) ∉ members := fun hmem => lt_irrefl key (hlt _ hmem)
      simp [hnot, eq_comm]
    · next hne => simp [hne, ih hsorted]

/-- In a list in order, a name is there exactly if it has a value. -/
theorem Sorted.mem_names (h : Sorted members) {key : String} :
    key ∈ members.map Prod.fst ↔ (members.lookup key).isSome := by
  rw [Option.isSome_iff_exists]
  constructor
  · intro hmem
    obtain ⟨⟨k, v⟩, hkv, rfl⟩ := List.mem_map.mp hmem
    exact ⟨v, h.lookup_eq_some.mpr hkv⟩
  · rintro ⟨v, hv⟩
    exact List.mem_map_of_mem (h.lookup_eq_some.mp hv)

theorem Sorted.nodup_names (h : Sorted members) : (members.map Prod.fst).Nodup :=
  (List.pairwise_map.mpr h).imp ne_of_lt

/-- Members in order are given by what each name leads to. -/
theorem Sorted.ext (hm : Sorted ms) (hn : Sorted ns)
    (h : ∀ key, ms.lookup key = ns.lookup key) : ms = ns := by
  have : Std.Irrefl fun a b : String × Json => a.1 < b.1 := ⟨fun a => lt_irrefl a.1⟩
  have : Std.Antisymm fun a b : String × Json => a.1 < b.1 :=
    ⟨fun a b hlt hgt => absurd hgt hlt.asymm⟩
  refine List.Pairwise.eq_of_mem_iff hm hn fun ⟨key, value⟩ => ?_
  rw [← hm.lookup_eq_some, ← hn.lookup_eq_some, h key]

/-! ## Well-formedness can be computed -/

instance (members : List (String × Json)) : Decidable (Sorted members) :=
  inferInstanceAs (Decidable (members.Pairwise _))

mutual

def isWellFormed : Json → Bool
  | .null | .bool _ | .num _ | .str _ => true
  | .arr items => itemsWellFormed items
  | .obj members => Sorted members && membersWellFormed members

def itemsWellFormed : List Json → Bool
  | [] => true
  | item :: items => isWellFormed item && itemsWellFormed items

def membersWellFormed : List (String × Json) → Bool
  | [] => true
  | (_, value) :: members => isWellFormed value && membersWellFormed members

end

mutual

/-- The test accepts well-formed trees only. -/
theorem wellFormed_of_isWellFormed : ∀ a : Json, isWellFormed a = true → a.WellFormed
  | .null, _ => .null
  | .bool b, _ => .bool b
  | .num n, _ => .num n
  | .str s, _ => .str s
  | .arr items, h => .arr (wellFormed_of_itemsWellFormed items h)
  | .obj members, h =>
    have h := Bool.and_eq_true_iff.mp h
    .obj (of_decide_eq_true h.1) (wellFormed_of_membersWellFormed members h.2)

/-- The test of a list of items accepts well-formed items only. -/
theorem wellFormed_of_itemsWellFormed :
    ∀ items : List Json, itemsWellFormed items = true → ∀ item ∈ items, item.WellFormed
  | [], _, _, hitem => absurd hitem List.not_mem_nil
  | item :: items, h, b, hitem => by
    have h := Bool.and_eq_true_iff.mp h
    rcases List.mem_cons.mp hitem with heq | hitem
    · rw [heq]
      exact wellFormed_of_isWellFormed item h.1
    · exact wellFormed_of_itemsWellFormed items h.2 b hitem

/-- The test of a list of members accepts well-formed values only. -/
theorem wellFormed_of_membersWellFormed : ∀ members : List (String × Json),
    membersWellFormed members = true → ∀ m ∈ members, m.2.WellFormed
  | [], _, _, hm => absurd hm List.not_mem_nil
  | (k, v) :: members, h, m, hm => by
    have h := Bool.and_eq_true_iff.mp h
    rcases List.mem_cons.mp hm with heq | hm
    · rw [heq]
      exact wellFormed_of_isWellFormed v h.1
    · exact wellFormed_of_membersWellFormed members h.2 m hm

end

/-! ## Items -/

/-- The index below `n` that a token stands for. -/
def indexOf (n : ℕ) (token : String) : Option ℕ := (List.range n).find? (·.repr = token)

/-- A token is an index exactly if it is the decimal text of one. -/
theorem indexOf_eq_some {n i : ℕ} {token : String} :
    indexOf n token = some i ↔ i < n ∧ i.repr = token := by
  constructor
  · intro h
    have hrepr := @List.find?_some _ (fun i : ℕ => decide (i.repr = token)) _ _ h
    exact ⟨List.mem_range.mp (List.mem_of_find?_eq_some h), of_decide_eq_true hrepr⟩
  · rintro ⟨hlt, rfl⟩
    cases hfind : indexOf n i.repr with
    | none =>
      have hne := List.find?_eq_none.mp hfind i (List.mem_range.mpr hlt)
      exact absurd (decide_eq_true rfl) hne
    | some j =>
      have hrepr := @List.find?_some _ (fun j : ℕ => decide (j.repr = i.repr)) _ _ hfind
      rw [JsString.repr_inj (of_decide_eq_true hrepr)]

theorem indexOf_repr {n i : ℕ} (h : i < n) : indexOf n i.repr = some i :=
  indexOf_eq_some.mpr ⟨h, rfl⟩

/-! ## Operations -/

/-- What an operation does at its place. -/
inductive Edit where
  | add (value : Json)
  | remove
  | replace (value : Json)
deriving DecidableEq

/-- The member or item that a token leads to. -/
def child : Json → String → Option Json
  | .obj members, key => members.lookup key
  | .arr items, token => (indexOf items.length token).bind (items[·]?)
  | .null, _ | .bool _, _ | .num _, _ | .str _, _ => none

/-- What an array has under a token is one of its items. -/
theorem mem_of_child {items : List Json} {token : String} {c : Json}
    (h : (Json.arr items).child token = some c) : c ∈ items := by
  obtain ⟨i, -, hitem⟩ := Option.bind_eq_some_iff.mp h
  exact List.mem_of_getElem? hitem

/-- A part of a well-formed tree is well-formed. -/
theorem WellFormed.child {a c : Json} {key : String} (ha : a.WellFormed)
    (hc : a.child key = some c) :
    c.WellFormed := by
  cases ha with
  | obj sorted h => exact h _ (sorted.lookup_eq_some.mp hc)
  | arr h => exact h c (mem_of_child hc)
  | null | bool _ | num _ | str _ => cases hc

/-- Induction over the members and items. -/
@[elab_as_elim]
theorem WellFormed.childInduction {motive : ∀ a : Json, a.WellFormed → Prop}
    (step : ∀ (a : Json) (ha : a.WellFormed),
      (∀ key c (hc : a.child key = some c), motive c (ha.child hc)) → motive a ha)
    {a : Json} (ha : a.WellFormed) : motive a ha := by
  induction ha with
  | obj sorted h ih =>
    exact step _ (.obj sorted h) fun key c hc => ih _ (sorted.lookup_eq_some.mp hc)
  | arr h ih => exact step _ (.arr h) fun key c hc => ih c (mem_of_child hc)
  | null => exact step _ .null nofun
  | bool b => exact step _ (.bool b) nofun
  | num n => exact step _ (.num n) nofun
  | str s => exact step _ (.str s) nofun

/-- Edit a member or an item. An item is added before the one that has the index, or at the end. -/
def Edit.at (key : String) : Edit → Json → Option Json
  | .add value, .obj members => some (.obj (setMember key value members))
  | .remove, .obj members =>
    if (members.lookup key).isSome then some (.obj (removeMember key members)) else none
  | .replace value, .obj members =>
    if (members.lookup key).isSome then some (.obj (setMember key value members)) else none
  | .add value, .arr items =>
    if key = "-" then some (.arr (items ++ [value]))
    else (indexOf (items.length + 1) key).map fun i => .arr (items.insertIdx i value)
  | .remove, .arr items => (indexOf items.length key).map fun i => .arr (items.eraseIdx i)
  | .replace value, .arr items => (indexOf items.length key).map fun i => .arr (items.set i value)
  | _, _ => none

/-- An operation and the tokens that lead to its place. -/
structure Operation where
  path : List String
  edit : Edit
deriving DecidableEq

namespace Operation

/-- The root can be replaced, but not removed. -/
def applyAt (edit : Edit) : List String → Json → Option Json
  | [], _ =>
    match edit with
    | .add value | .replace value => some value
    | .remove => none
  | [key], a => edit.at key a
  | key :: next :: rest, a =>
    (a.child key).bind fun c =>
      (applyAt edit (next :: rest) c).bind fun c => (Edit.replace c).at key a

def apply (a : Json) (op : Operation) : Option Json := applyAt op.edit op.path a

/-- The operations one after the other. -/
def run (a : Json) (ops : List Operation) : Option Json := ops.foldlM apply a

/-- The same operation one level down. -/
def under (key : String) (op : Operation) : Operation := { op with path := key :: op.path }

variable {ops more : List Operation} {op : Operation} {a b c : Json} {key : String}

@[simp] theorem run_nil (a : Json) : run a [] = some a := rfl

/-- The first operation is applied before the others. -/
theorem run_cons (a : Json) (op : Operation) (ops : List Operation) :
    run a (op :: ops) = (op.apply a).bind (run · ops) := by
  rw [run, List.foldlM_cons]
  rfl

theorem run_append : run a (ops ++ more) = (run a ops).bind (run · more) := by
  rw [run, List.foldlM_append]
  rfl

/-- An operation under a key changes what the value has there. -/
theorem apply_under (h : op.path ≠ []) :
    (op.under key).apply a =
      (a.child key).bind fun c => (op.apply c).bind fun c => (Edit.replace c).at key a := by
  obtain ⟨path, edit⟩ := op
  cases path with
  | nil => exact absurd rfl h
  | cons next rest => rfl

/-- Operations below a member change that member. -/
theorem run_under_member (hops : ∀ op ∈ ops, op.path ≠ []) {members : List (String × Json)}
    (hsorted : Sorted members) (hmember : members.lookup key = some b) (hrun : run b ops = some c) :
    ∃ members', run (.obj members) (ops.map (under key)) = some (.obj members') ∧ Sorted members' ∧
      ∀ key', members'.lookup key' = if key' = key then some c else members.lookup key' := by
  induction ops generalizing members b with
  | nil =>
    cases hrun
    refine ⟨members, rfl, hsorted, fun key' => ?_⟩
    split
    · next h => rw [h, hmember]
    · rfl
  | cons op ops ih =>
    rw [run_cons] at hrun
    obtain ⟨d, hop, hrun⟩ := Option.bind_eq_some_iff.mp hrun
    have happly : (op.under key).apply (.obj members) = some (.obj (setMember key d members)) := by
      rw [apply_under (hops op List.mem_cons_self), child, hmember, Option.bind_some, hop,
        Option.bind_some, Edit.at, hmember]
      rfl
    obtain ⟨members', hmore, hsorted', hlookup⟩ := ih (fun op hop => hops op (List.mem_cons_of_mem _ hop))
      (sorted_setMember hsorted key d) (by rw [lookup_setMember, if_pos rfl]) hrun
    refine ⟨members', ?_, hsorted', fun key' => ?_⟩
    · rw [List.map_cons, run_cons, happly, Option.bind_some, hmore]
    · rw [hlookup, lookup_setMember]
      split <;> rfl

/-- Operations below an item change that item. -/
theorem run_under_item (hops : ∀ op ∈ ops, op.path ≠ []) {items : List Json} {i : ℕ}
    (hitem : items[i]? = some b) (hrun : run b ops = some c) :
    run (.arr items) (ops.map (under i.repr)) = some (.arr (items.set i c)) := by
  obtain ⟨hlt, hget⟩ := List.getElem?_eq_some_iff.mp hitem
  induction ops generalizing items b with
  | nil =>
    cases hrun
    rw [List.map_nil, run_nil, ← hget, List.set_getElem_self]
  | cons op ops ih =>
    rw [run_cons] at hrun
    obtain ⟨d, hop, hrun⟩ := Option.bind_eq_some_iff.mp hrun
    have happly : (op.under i.repr).apply (.arr items) = some (.arr (items.set i d)) := by
      rw [apply_under (hops op List.mem_cons_self), child, indexOf_repr hlt, Option.bind_some,
        hitem, Option.bind_some, hop, Option.bind_some, Edit.at, indexOf_repr hlt]
      rfl
    have hlt' : i < (items.set i d).length := (List.length_set ..).symm ▸ hlt
    rw [List.map_cons, run_cons, happly, Option.bind_some,
      ih (fun op hop => hops op (List.mem_cons_of_mem _ hop)) (List.getElem?_set_self hlt) hrun hlt'
        (List.getElem_set_self ..), List.set_set]

end Operation

end Json
