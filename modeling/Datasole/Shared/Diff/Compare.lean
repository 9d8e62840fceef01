import Datasole.Common.JsonEdit
import Datasole.Shared.Diff.JsonPatch

/-!
# What `compare` finds

`compare` of `fast-json-patch`, which `diff` calls. `generate` goes through the own keys of the old
node from the last to the first, and through those of the new node for what is to be added. The
order of the keys of an object is a `KeyOrder`; the items of an array come by index.

`run_generate`: between two nodes of one kind the operations found turn the old node into the new
one.
-/

namespace Datasole

open Json

/-- The order in which the keys of the objects of a document come, for every place. -/
structure KeyOrder where
  names : List String → List String → List String
  perm : ∀ path keys, (names path keys).Perm keys

namespace KeyOrder

/-- The order by name. -/
def byName : KeyOrder := ⟨fun _ keys => keys, fun _ keys => .refl keys⟩

/-- The order in the subtree at a key. -/
def under (o : KeyOrder) (key : String) : KeyOrder :=
  ⟨fun path => o.names (key :: path), fun path => o.perm (key :: path)⟩

end KeyOrder

/-- Two objects or two arrays. -/
def SameKind : Json → Json → Prop
  | .obj _, .obj _ | .arr _, .arr _ => True
  | _, _ => False

instance : DecidableRel SameKind := fun a b => by
  cases a <;> cases b <;> first | exact .isTrue trivial | exact .isFalse id

/-- `_objectKeys`. -/
def ownKeys (o : KeyOrder) : Json → List String
  | .obj members => o.names [] (members.map Prod.fst)
  | .arr items => (List.range items.length).map Nat.repr
  | .null | .bool _ | .num _ | .str _ => []

/-- `obj[key]`, if `hasOwnProperty(obj, key)`: arrays own `length`, too. -/
def ownProperty : Json → String → Option Json
  | .arr items, key =>
    if key = "length" then some (.num items.length) else (Json.arr items).child key
  | a, key => a.child key

/-- One round of the loop over the keys of the old node. -/
def generateKey (array : Bool) (new : Json) (key : String) (oldVal : Json)
    (generate : Json → List Operation) : List Operation :=
  match ownProperty new key with
  | some newVal =>
    if SameKind oldVal newVal then (generate newVal).map (Operation.under key)
    else if oldVal ≠ newVal then [⟨[key], .replace newVal⟩]
    else []
  | none => if array = new.isArray then [⟨[key], .remove⟩] else [⟨[], .replace new⟩]

/-- A key of the old node is not one of the new node, which is of the same kind. -/
def Deletes (old new : Json) : Prop :=
  old.isArray = new.isArray ∧ ∃ key ∈ ownKeys .byName old, ownProperty new key = none

instance (old new : Json) : Decidable (Deletes old new) := inferInstanceAs (Decidable (_ ∧ _))

/-- The loop over the keys of the new node. It is skipped if nothing was deleted and both nodes have
equally many keys. -/
def additions (n : KeyOrder) (old new : Json) : List Operation :=
  if ¬ Deletes old new ∧ (ownKeys n new).length = (ownKeys .byName old).length then []
  else ((ownKeys n new).filter fun key => (ownProperty old key).isNone).flatMap fun key =>
    (new.child key).toList.map fun value => ⟨[key], .add value⟩

mutual

/-- `_generate`, for an object or an array. `o` and `n` are the orders of the old and the new
document. -/
def generate : KeyOrder → KeyOrder → Json → Json → List Operation
  | o, n, .obj members, new =>
    let found := generateMembers o n new members
    (o.names [] (members.map Prod.fst)).reverse.flatMap (fun key => (found.lookup key).getD []) ++
      additions n (.obj members) new
  | o, n, .arr items, new =>
    (generateItems o n new 0 items).reverse.flatten ++ additions n (.arr items) new
  | _, _, _, _ => []

def generateMembers : KeyOrder → KeyOrder → Json → List (String × Json) →
    List (String × List Operation)
  | _, _, _, [] => []
  | o, n, new, (key, oldVal) :: members =>
    (key, generateKey false new key oldVal (generate (o.under key) (n.under key) oldVal)) ::
      generateMembers o n new members

def generateItems : KeyOrder → KeyOrder → Json → ℕ → List Json → List (List Operation)
  | _, _, _, _, [] => []
  | o, n, new, i, oldVal :: items =>
    generateKey true new i.repr oldVal (generate (o.under i.repr) (n.under i.repr) oldVal) ::
      generateItems o n new (i + 1) items

end

variable {o n : KeyOrder} {old new : Json} {key : String} {oldVal newVal : Json}

/-- Two values of one kind are two objects or two arrays. -/
theorem SameKind.cases (h : SameKind old new) :
    (∃ olds news, old = .obj olds ∧ new = .obj news) ∨ ∃ olds news, old = .arr olds ∧ new = .arr news := by
  cases old <;> cases new <;>
    first | exact .inl ⟨_, _, rfl, rfl⟩ | exact .inr ⟨_, _, rfl, rfl⟩ | exact absurd h id

theorem SameKind.self (h : SameKind old new) : SameKind old old := by
  rcases h.cases with ⟨_, _, rfl, -⟩ | ⟨_, _, rfl, -⟩ <;> trivial

theorem SameKind.isArray_eq (h : SameKind old new) : old.isArray = new.isArray := by
  rcases h.cases with ⟨_, _, rfl, rfl⟩ | ⟨_, _, rfl, rfl⟩ <;> rfl

/-! ## Where operations come from -/

/-- The item at an index. -/
theorem child_repr (items : List Json) (i : ℕ) : (Json.arr items).child i.repr = items[i]? := by
  rw [child]
  by_cases h : i < items.length
  · rw [indexOf_repr h, Option.bind_some]
  · cases hindex : indexOf items.length i.repr with
    | none => rw [Option.bind_none, List.getElem?_eq_none (not_lt.mp h)]
    | some j =>
      obtain ⟨hlt, hrepr⟩ := indexOf_eq_some.mp hindex
      exact absurd (JsString.repr_inj hrepr ▸ hlt) h

/-- The keys of an array are its indices. -/
theorem child_arr_eq_some {items : List Json} {c : Json} :
    (Json.arr items).child key = some c ↔ ∃ i : ℕ, key = i.repr ∧ items[i]? = some c := by
  constructor
  · intro h
    obtain ⟨i, hindex, hitem⟩ := Option.bind_eq_some_iff.mp h
    exact ⟨i, (indexOf_eq_some.mp hindex).2.symm, hitem⟩
  · rintro ⟨i, rfl, hitem⟩
    rw [child_repr, hitem]

/-- The operations for a member of an object. -/
theorem lookup_generateMembers {members : List (String × Json)} :
    (generateMembers o n new members).lookup key = (members.lookup key).map fun oldVal =>
      generateKey false new key oldVal (generate (o.under key) (n.under key) oldVal) := by
  induction members with
  | nil => rfl
  | cons m members ih =>
    obtain ⟨k, v⟩ := m
    rw [generateMembers, List.lookup_cons, lookup_cons, ih]
    by_cases h : key = k
    · subst h
      simp
    · rw [beq_false_of_ne h, if_neg h]

/-- Between nodes of one kind the operations of a key are at the key or below. -/
theorem path_generateKey {array : Bool} (harray : array = new.isArray) {gen : Json → List Operation}
    {op : Operation} (hop : op ∈ generateKey array new key oldVal gen) :
    ∃ rest, op.path = key :: rest := by
  unfold generateKey at hop
  split at hop
  · split at hop
    · obtain ⟨inner, -, rfl⟩ := List.mem_map.mp hop
      exact ⟨inner.path, rfl⟩
    · split at hop
      · rw [List.mem_singleton.mp hop]
        exact ⟨[], rfl⟩
      · cases hop
  · rw [if_pos harray] at hop
    rw [List.mem_singleton.mp hop]
    exact ⟨[], rfl⟩

/-- What is added is a member of the new object that the old one does not have. -/
theorem mem_additions {op : Operation} (hop : op ∈ additions n old new) :
    ∃ key ∈ ownKeys n new, ownProperty old key = none ∧
      ∃ value, new.child key = some value ∧ op = ⟨[key], .add value⟩ := by
  unfold additions at hop
  split at hop
  · cases hop
  · obtain ⟨key, hkey, hop⟩ := List.mem_flatMap.mp hop
    obtain ⟨hkey, hnone⟩ := List.mem_filter.mp hkey
    obtain ⟨value, hvalue, rfl⟩ := List.mem_map.mp hop
    exact ⟨key, hkey, Option.isNone_iff_eq_none.mp hnone, value, Option.mem_toList.mp hvalue, rfl⟩

/-- The operations for an item of an array. -/
theorem mem_generateItems {items : List Json} {i : ℕ} {ops : List Operation} :
    ops ∈ generateItems o n new i items ↔ ∃ j oldVal, items[j]? = some oldVal ∧
      ops = generateKey true new (i + j).repr oldVal
        (generate (o.under (i + j).repr) (n.under (i + j).repr) oldVal) := by
  induction items generalizing i with
  | nil => exact iff_of_false List.not_mem_nil fun ⟨_, _, hitem, _⟩ => nomatch hitem
  | cons item items ih =>
    rw [generateItems, List.mem_cons, ih]
    constructor
    · rintro (rfl | ⟨j, oldVal, hitem, rfl⟩)
      · exact ⟨0, item, rfl, rfl⟩
      · exact ⟨j + 1, oldVal, hitem, by rw [Nat.add_right_comm, Nat.add_assoc]⟩
    · rintro ⟨j, oldVal, hitem, rfl⟩
      cases j with
      | zero =>
        cases hitem
        exact .inl rfl
      | succ j => exact .inr ⟨j, oldVal, hitem, by rw [Nat.add_right_comm, Nat.add_assoc]⟩

/-- The loop over the keys of the old node. -/
def compared (o n : KeyOrder) (new : Json) : Json → List Operation
  | .obj members =>
    (o.names [] (members.map Prod.fst)).reverse.flatMap fun key =>
      ((generateMembers o n new members).lookup key).getD []
  | .arr items => (generateItems o n new 0 items).reverse.flatten
  | .null | .bool _ | .num _ | .str _ => []

theorem generate_eq (hnode : SameKind old old) :
    generate o n old new = compared o n new old ++ additions n old new := by
  rcases hnode.cases with ⟨_, _, rfl, -⟩ | ⟨_, _, rfl, -⟩ <;> rw [generate] <;> rfl

/-- An operation of the loop is from one of its rounds. -/
theorem exists_of_mem_compared {op : Operation} (hop : op ∈ compared o n new old) :
    ∃ key a, old.child key = some a ∧
      op ∈ generateKey old.isArray new key a (generate (o.under key) (n.under key) a) := by
  cases old with
  | obj olds =>
    obtain ⟨key, -, hop⟩ := List.mem_flatMap.mp hop
    rw [lookup_generateMembers] at hop
    cases hchild : olds.lookup key with
    | none =>
      rw [hchild] at hop
      cases hop
    | some a =>
      rw [hchild] at hop
      exact ⟨key, a, hchild, hop⟩
  | arr items =>
    obtain ⟨ops, hops, hop⟩ := List.mem_flatten.mp hop
    obtain ⟨j, a, hitem, rfl⟩ := mem_generateItems.mp (List.mem_reverse.mp hops)
    rw [Nat.zero_add] at hop
    exact ⟨j.repr, a, by rw [child_repr, hitem], hop⟩
  | null | bool _ | num _ | str _ => cases hop

/-- What is changed or removed is a member that the old value has. -/
theorem mem_compared (hold : old.WellFormed) {op : Operation} : op ∈ compared o n new old ↔
    ∃ key a, old.child key = some a ∧
      op ∈ generateKey old.isArray new key a (generate (o.under key) (n.under key) a) := by
  refine ⟨exists_of_mem_compared, fun ⟨key, a, hchild, hop⟩ => ?_⟩
  cases hold with
  | @obj olds holds _ =>
    have hchild : olds.lookup key = some a := hchild
    refine List.mem_flatMap.mpr ⟨key, ?_, ?_⟩
    · rw [List.mem_reverse, (o.perm [] _).mem_iff, holds.mem_names, hchild]
      rfl
    · rw [lookup_generateMembers, hchild]
      exact hop
  | @arr items _ =>
    obtain ⟨i, rfl, hitem⟩ := child_arr_eq_some.mp hchild
    refine List.mem_flatten.mpr ⟨_, List.mem_reverse.mpr (mem_generateItems.mpr ⟨i, a, hitem, rfl⟩),
      ?_⟩
    rw [Nat.zero_add]
    exact hop
  | null | bool _ | num _ | str _ => cases hchild

/-- Between nodes of one kind no operation is at the root. -/
theorem path_ne_nil (hsame : SameKind old new) {op : Operation} (hop : op ∈ generate o n old new) :
    op.path ≠ [] := by
  have hkey : ∃ key rest, op.path = key :: rest := by
    rw [generate_eq hsame.self] at hop
    rcases List.mem_append.mp hop with hop | hop
    · obtain ⟨key, a, -, hop⟩ := exists_of_mem_compared hop
      exact ⟨key, path_generateKey hsame.isArray_eq hop⟩
    · obtain ⟨key, -, -, value, -, rfl⟩ := mem_additions hop
      exact ⟨key, [], rfl⟩
  obtain ⟨key, rest, hpath⟩ := hkey
  exact hpath ▸ List.cons_ne_nil key rest

/-! ## Two objects -/

/-- The operations for a key change its member from the old to the new value and nothing beside
it. -/
def Settles (olds news : List (String × Json)) (key : String) (ops : List Operation) : Prop :=
  ∀ members, Sorted members → members.lookup key = olds.lookup key →
    ∃ members', Operation.run (.obj members) ops = some (.obj members') ∧ Sorted members' ∧
      ∀ key', members'.lookup key' = if key' = key then news.lookup key else members.lookup key'

/-- Operations that settle one key each settle all of them. -/
theorem run_settles (olds news : List (String × Json)) {keys : List String}
    (ops : String → List Operation) (hnodup : keys.Nodup)
    (hops : ∀ key ∈ keys, Settles olds news key (ops key)) {members : List (String × Json)}
    (hsorted : Sorted members) (hold : ∀ key ∈ keys, members.lookup key = olds.lookup key) :
    ∃ members', Operation.run (.obj members) (keys.flatMap ops) = some (.obj members') ∧
      Sorted members' ∧
      ∀ key', members'.lookup key' = if key' ∈ keys then news.lookup key' else members.lookup key' := by
  induction keys generalizing members with
  | nil => exact ⟨members, rfl, hsorted, fun key' => (if_neg List.not_mem_nil).symm⟩
  | cons key keys ih =>
    obtain ⟨hnot, hnodup⟩ := List.nodup_cons.mp hnodup
    obtain ⟨settled, hrun, hsorted', hlookup⟩ :=
      hops key List.mem_cons_self members hsorted (hold key List.mem_cons_self)
    have hold' : ∀ k ∈ keys, settled.lookup k = olds.lookup k := by
      intro k hk
      have hne : k ≠ key := fun heq => hnot (heq ▸ hk)
      rw [hlookup, if_neg hne]
      exact hold k (List.mem_cons_of_mem _ hk)
    obtain ⟨members', hmore, hsorted'', hlookup'⟩ :=
      ih hnodup (fun k hk => hops k (List.mem_cons_of_mem _ hk)) hsorted' hold'
    refine ⟨members', ?_, hsorted'', fun key' => ?_⟩
    · rw [List.flatMap_cons, Operation.run_append, hrun, Option.bind_some, hmore]
    · rw [hlookup', hlookup]
      by_cases hmem : key' ∈ keys
      · rw [if_pos hmem, if_pos (List.mem_cons_of_mem _ hmem)]
      · by_cases heq : key' = key
        · rw [if_neg hmem, if_pos heq, if_pos (heq ▸ List.mem_cons_self), heq]
        · rw [if_neg hmem, if_neg heq, if_neg fun h => (List.mem_cons.mp h).elim heq hmem]

/-- One operation at a key is an edit of that member. -/
theorem run_singleton (a : Json) (edit : Edit) :
    Operation.run a [⟨[key], edit⟩] = edit.at key a := by
  rw [Operation.run_cons, Operation.apply, Operation.applyAt]
  exact Option.bind_fun_some _

/-- The operations found between two values lead from the one to the other. -/
def Leads (oldVal : Json) : Prop :=
  ∀ o n newVal, newVal.WellFormed → SameKind oldVal newVal →
    Operation.run oldVal (generate o n oldVal newVal) = some newVal

/-- A key of an old object is settled. -/
theorem settles_generateKey {olds news : List (String × Json)}
    (hold : olds.lookup key = some oldVal)
    (hnews : Sorted news) (hvalues : ∀ m ∈ news, m.2.WellFormed) (hleads : Leads oldVal) :
    Settles olds news key (generateKey false (.obj news) key oldVal
      (generate (o.under key) (n.under key) oldVal)) := by
  intro members hsorted hmember
  rw [hold] at hmember
  cases hnew : news.lookup key with
  | none =>
    have hgen : generateKey false (.obj news) key oldVal (generate (o.under key) (n.under key) oldVal) =
        [⟨[key], .remove⟩] := by
      simp only [generateKey, ownProperty, child, hnew, isArray, if_true]
    rw [hgen, run_singleton, Edit.at, hmember]
    refine ⟨removeMember key members, rfl, sorted_removeMember hsorted key, fun key' => ?_⟩
    rw [lookup_removeMember]
  | some newVal =>
    simp only [generateKey, ownProperty, child, hnew]
    split
    · next hsame =>
      have hwf := hvalues _ (hnews.lookup_eq_some.mp hnew)
      obtain ⟨members', hrun, hsorted', hlookup⟩ := Operation.run_under_member
        (fun op hop => path_ne_nil hsame hop) hsorted hmember
        (hleads (o.under key) (n.under key) newVal hwf hsame)
      exact ⟨members', hrun, hsorted', hlookup⟩
    · split
      · rw [run_singleton, Edit.at, hmember]
        refine ⟨_, rfl, sorted_setMember hsorted key newVal, fun key' => ?_⟩
        rw [lookup_setMember]
      · next heq =>
        rw [not_not] at heq
        refine ⟨members, rfl, hsorted, fun key' => ?_⟩
        split
        · next hkey => rw [hkey, hmember, heq]
        · rfl

/-- A key of the new object is settled by adding it. -/
theorem settles_add {olds news : List (String × Json)} (key : String)
    (hnew : (news.lookup key).isSome) : Settles olds news key
      ((news.lookup key).toList.map fun value => ⟨[key], .add value⟩) := by
  intro members hsorted _
  obtain ⟨value, hvalue⟩ := Option.isSome_iff_exists.mp hnew
  rw [hvalue, Option.toList_some, List.map_singleton, run_singleton]
  refine ⟨_, rfl, sorted_setMember hsorted key value, fun key' => ?_⟩
  rw [lookup_setMember]

/-- The keys that are added are those that only the new object has. -/
theorem exists_additions {olds news : List (String × Json)} (holds : Sorted olds)
    (hnews : Sorted news) :
    ∃ keys : List String, keys.Nodup ∧
      (∀ key, key ∈ keys ↔ olds.lookup key = none ∧ (news.lookup key).isSome) ∧
      additions n (.obj olds) (.obj news) = keys.flatMap fun key =>
        (news.lookup key).toList.map fun value => ⟨[key], .add value⟩ := by
  have hperm := n.perm [] (news.map Prod.fst)
  unfold additions
  split
  · next hskip =>
    obtain ⟨hkeep, hlength⟩ := hskip
    refine ⟨[], .nil, fun key => ?_, rfl⟩
    refine iff_of_false List.not_mem_nil fun ⟨hnone, hsome⟩ => ?_
    -- all keys of the old object are among those of the new, and there are as many
    have hsub : olds.map Prod.fst ⊆ news.map Prod.fst := by
      intro key hkey
      rw [hnews.mem_names]
      by_contra hmissing
      exact hkeep ⟨rfl, key, hkey, Option.not_isSome_iff_eq_none.mp hmissing⟩
    have heq : (olds.map Prod.fst).length = (news.map Prod.fst).length :=
      hlength.symm.trans hperm.length_eq
    have hmem := (List.subperm_of_subset holds.nodup_names hsub).perm_of_length_le heq.ge
    rw [← hnews.mem_names, ← hmem.mem_iff, holds.mem_names, hnone] at hsome
    cases hsome
  · refine ⟨_, ?_, fun key => ?_, rfl⟩
    · exact (hperm.nodup_iff.mpr hnews.nodup_names).filter _
    · rw [List.mem_filter, ownKeys, hperm.mem_iff, hnews.mem_names, Option.isNone_iff_eq_none]
      exact and_comm

/-- If the operations lead from each member to its new value, they lead from the object to the new
one. -/
theorem leads_obj {olds : List (String × Json)} (holds : Sorted olds)
    (hleads : ∀ m ∈ olds, Leads m.2) :
    Leads (.obj olds) := by
  intro o n new hnew hsame
  obtain ⟨_, news, -, rfl⟩ | ⟨_, _, hkind, -⟩ := hsame.cases
  swap
  · cases hkind
  cases hnew with | obj hnews hvalues =>
  obtain ⟨keys, hnodup, hmem, hadditions⟩ := exists_additions (n := n) holds hnews
  have hperm := o.perm [] (olds.map Prod.fst)
  have holdKeys : (o.names [] (olds.map Prod.fst)).reverse.Nodup :=
    List.nodup_reverse.mpr (hperm.nodup_iff.mpr holds.nodup_names)
  have hmemOld (key : String) :
      key ∈ (o.names [] (olds.map Prod.fst)).reverse ↔ (olds.lookup key).isSome := by
    rw [List.mem_reverse, hperm.mem_iff, holds.mem_names]
  rw [generate, hadditions]
  -- first the keys of the old object, then the others of the new one
  obtain ⟨kept, hkept, hsorted, hlookup⟩ := run_settles olds news
    (fun key => ((generateMembers o n (.obj news) olds).lookup key).getD []) holdKeys
    (fun key hkey => by
      obtain ⟨oldVal, hold⟩ := Option.isSome_iff_exists.mp ((hmemOld key).mp hkey)
      rw [lookup_generateMembers, hold]
      exact settles_generateKey hold hnews hvalues (hleads _ (holds.lookup_eq_some.mp hold)))
    holds (fun _ _ => rfl)
  obtain ⟨all, hall, hsorted', hlookup'⟩ := run_settles olds news
    (fun key => (news.lookup key).toList.map fun value => ⟨[key], .add value⟩) hnodup
    (fun key hkey => settles_add key ((hmem key).mp hkey).2) hsorted fun key hkey => by
      have hnot : key ∉ (o.names [] (olds.map Prod.fst)).reverse := by
        rw [hmemOld, ((hmem key).mp hkey).1]
        exact Bool.false_ne_true
      rw [hlookup, if_neg hnot]
  rw [Operation.run_append, hkept, Option.bind_some, hall, hsorted'.ext hnews fun key => ?_]
  rw [hlookup', hlookup]
  split
  · rfl
  · next hnot =>
    split
    · rfl
    · next hnot' =>
      -- neither object has the key
      have hold : olds.lookup key = none := by
        rw [hmemOld] at hnot'
        exact Option.not_isSome_iff_eq_none.mp hnot'
      rw [hmem, not_and, Option.not_isSome_iff_eq_none] at hnot
      rw [hold, hnot hold]

/-! ## Two arrays -/

/-- An index is written with digits. -/
theorem repr_ne {c : Char} (hc : c.isDigit = false) {s : String} (hmem : c ∈ s.toList) (i : ℕ) :
    i.repr ≠ s := by
  rintro rfl
  rw [Nat.toList_repr] at hmem
  rw [Nat.isDigit_of_mem_toDigits (by decide) (by decide) hmem] at hc
  cases hc

theorem ownProperty_repr (items : List Json) (i : ℕ) :
    ownProperty (.arr items) i.repr = items[i]? := by
  rw [ownProperty, if_neg (@repr_ne 'l' rfl "length" (by decide) i), child_repr]

/-- An index of an old array is settled, the later ones being so: the item becomes the new one, or
is removed as the last. -/
theorem run_generateKey_item {before after bs : List Json} (hvalues : ∀ b ∈ bs, b.WellFormed)
    (hleads : Leads oldVal) (hafter : bs.length ≤ before.length → after = []) :
    Operation.run (.arr (before ++ oldVal :: after))
      (generateKey true (.arr bs) before.length.repr oldVal
        (generate (o.under before.length.repr) (n.under before.length.repr) oldVal)) =
      some (.arr (before ++ (bs[before.length]?.toList ++ after))) := by
  have hlength : before.length < (before ++ oldVal :: after).length := by simp
  have hset (newVal : Json) : (before ++ oldVal :: after).set before.length newVal =
      before ++ newVal :: after := by
    rw [List.set_append_right _ _ le_rfl, Nat.sub_self, List.set_cons_zero]
  unfold generateKey
  rw [ownProperty_repr]
  cases hnew : bs[before.length]? with
  | none =>
    rw [hafter (List.getElem?_eq_none_iff.mp hnew), if_pos (by rfl), run_singleton, Edit.at,
      indexOf_repr (by simp)]
    rw [Option.map_some, List.eraseIdx_append_of_length_le le_rfl, Nat.sub_self]
    rfl
  | some newVal =>
    simp only [Option.toList_some, List.singleton_append]
    split
    · next hsame =>
      rw [Operation.run_under_item (fun op hop => path_ne_nil hsame hop)
        (by rw [List.getElem?_append_right le_rfl, Nat.sub_self]; rfl)
        (hleads _ _ newVal (hvalues _ (List.mem_of_getElem? hnew)) hsame), hset]
    · split
      · rw [run_singleton, Edit.at, indexOf_repr hlength, Option.map_some, hset]
      · next heq =>
        rw [not_not] at heq
        rw [heq, Operation.run_nil]

/-- From the last item of the old array to the first. -/
theorem run_generateItems {bs items : List Json} (hvalues : ∀ b ∈ bs, b.WellFormed)
    (hleads : ∀ item ∈ items, Leads item) (before : List Json) :
    Operation.run (.arr (before ++ items))
      (generateItems o n (.arr bs) before.length items).reverse.flatten =
      some (.arr (before ++ (bs.drop before.length).take items.length)) := by
  induction items generalizing before with
  | nil => simp [generateItems]
  | cons item items ih =>
    have hrest :=
      ih (fun item hitem => hleads item (List.mem_cons_of_mem _ hitem)) (before ++ [item])
    rw [List.length_append, List.length_singleton, List.append_assoc, List.append_assoc,
      List.singleton_append, List.singleton_append] at hrest
    rw [generateItems, List.reverse_cons, List.flatten_append, Operation.run_append, hrest,
      Option.bind_some, List.flatten_singleton,
      run_generateKey_item hvalues (hleads item List.mem_cons_self) fun hle => by
        rw [List.drop_eq_nil_of_le (by omega), List.take_nil]]
    congr 3
    rw [List.length_cons]
    by_cases hlt : before.length < bs.length
    · rw [List.getElem?_eq_getElem hlt, List.drop_eq_getElem_cons hlt, List.take_succ_cons]
      rfl
    · rw [List.getElem?_eq_none (by omega), List.drop_eq_nil_of_le (by omega),
        List.drop_eq_nil_of_le (by omega), List.take_nil, List.take_nil]
      rfl

/-- The items behind the end of the old array are added at the end. -/
theorem run_added_items (items : List Json) {bs : List Json} {m : ℕ} (hm : m ≤ bs.length) :
    Operation.run (.arr (bs.take items.length))
      ((((List.range m).map Nat.repr).filter fun key => (ownProperty (.arr items) key).isNone).flatMap
        fun key => ((Json.arr bs).child key).toList.map fun value => ⟨[key], .add value⟩) =
      some (.arr (bs.take (max items.length m))) := by
  induction m with
  | zero => rw [Nat.max_zero]; rfl
  | succ m ih =>
    rw [List.range_succ, List.map_append, List.filter_append, List.flatMap_append,
      Operation.run_append,
      ih (Nat.le_of_succ_le hm), Option.bind_some, List.map_singleton, List.filter_singleton,
      ownProperty_repr]
    by_cases hlt : m < items.length
    · rw [List.getElem?_eq_getElem hlt, max_eq_left hlt.le, max_eq_left hlt]
      rfl
    · have hlength : (bs.take m).length = m := List.length_take_of_le (Nat.le_of_succ_le hm)
      have hinsert (value : Json) : (bs.take m).insertIdx m value = bs.take m ++ [value] := by
        have hend := @List.insertIdx_length_self _ (bs.take m) value
        rwa [hlength] at hend
      rw [List.getElem?_eq_none (not_lt.mp hlt), max_eq_right (not_lt.mp hlt),
        max_eq_right (Nat.le_succ_of_le (not_lt.mp hlt)), Option.isNone_none, cond_true,
        List.flatMap_singleton, child_repr, List.getElem?_eq_getElem hm, Option.toList_some,
        List.map_singleton, run_singleton, Edit.at, if_neg (@repr_ne '-' rfl "-" (by decide) m), hlength,
        indexOf_repr (Nat.lt_succ_self m), Option.map_some, hinsert, List.take_succ_eq_append_getElem hm]

/-- If the operations lead from each item to its new value, they lead from the array to the new
one. -/
theorem leads_arr {items : List Json} (hleads : ∀ item ∈ items, Leads item) :
    Leads (.arr items) := by
  intro o n new hnew hsame
  obtain ⟨_, _, hkind, -⟩ | ⟨_, bs, -, rfl⟩ := hsame.cases
  · cases hkind
  cases hnew with | arr hvalues =>
  have hitems := run_generateItems (o := o) (n := n) hvalues hleads []
  rw [List.nil_append, List.length_nil, List.drop_zero, List.nil_append] at hitems
  rw [generate, Operation.run_append, hitems, Option.bind_some]
  unfold additions
  split
  · next hskip =>
    -- the arrays have one length
    have hlength : bs.length = items.length := by simpa [ownKeys] using hskip.2
    rw [Operation.run_nil, ← hlength, List.take_length]
  · rw [ownKeys, run_added_items items le_rfl, List.take_of_length_le (le_max_right _ _)]

/-- Between two nodes of one kind the operations found lead from the old node to the new one,
whatever the orders of the keys. -/
theorem run_generate (hold : old.WellFormed) (o n : KeyOrder) (hnew : new.WellFormed)
    (hsame : SameKind old new) : Operation.run old (generate o n old new) = some new := by
  suffices hleads : Leads old from hleads o n new hnew hsame
  clear hsame hnew
  induction hold with
  | null | bool _ | num _ | str _ => exact fun _ _ _ _ hsame => absurd hsame id
  | arr _ ih => exact leads_arr ih
  | obj sorted _ ih => exact leads_obj sorted ih

/-! ## The operations found -/

/-- An operation for a key of two nodes of one kind. -/
def IsChange (o n : KeyOrder) (old new : Json) (key : String) (op : Operation) : Prop :=
  match old.child key, new.child key with
  | some a, some b =>
    if SameKind a b then ∃ inner ∈ generate (o.under key) (n.under key) a b, op = inner.under key
    else a ≠ b ∧ op = ⟨[key], .replace b⟩
  | some _, none => op = ⟨[key], .remove⟩
  | none, some b => op = ⟨[key], .add b⟩
  | none, none => False

/-- A key of the old node. -/
theorem mem_generateKey {a : Json} {array : Bool} (harray : array = new.isArray)
    (hproperty : ownProperty new key = new.child key) (hchild : old.child key = some a) {op : Operation} :
    op ∈ generateKey array new key a (generate (o.under key) (n.under key) a) ↔
      IsChange o n old new key op := by
  unfold generateKey IsChange
  rw [hproperty, hchild]
  cases new.child key with
  | none => rw [if_pos harray, List.mem_singleton]
  | some b =>
    simp only
    split
    · simp only [List.mem_map, eq_comm]
    · split
      · next hne => rw [List.mem_singleton, and_iff_right hne]
      · next heq => rw [not_not] at heq; simp [heq]

/-- A key that only the new node has. -/
theorem isChange_of_none (hchild : old.child key = none) {op : Operation} :
    IsChange o n old new key op ↔ ∃ b, new.child key = some b ∧ op = ⟨[key], .add b⟩ := by
  unfold IsChange
  rw [hchild]
  cases new.child key with
  | none => simp
  | some b => simp

/-- A key of one node is an own property of another node of the same kind if it is a key there. -/
theorem ownProperty_eq_child (hsame : SameKind old new) {a : Json}
    (hchild : old.child key = some a) :
    ownProperty new key = new.child key := by
  rcases hsame.cases with ⟨_, _, rfl, rfl⟩ | ⟨_, _, rfl, rfl⟩
  · rfl
  · obtain ⟨i, rfl, -⟩ := child_arr_eq_some.mp hchild
    rw [ownProperty_repr, child_repr]

/-- A key that only the new node has is added. -/
theorem additions_mem (hold : old.WellFormed) (hnew : new.WellFormed) (hsame : SameKind old new)
    {b : Json}
    (hnone : old.child key = none) (hb : new.child key = some b) :
    ⟨[key], .add b⟩ ∈ additions n old new := by
  rcases hsame.cases with ⟨olds, news, rfl, rfl⟩ | ⟨items, bs, rfl, rfl⟩
  · cases hold with | obj holds _ =>
    cases hnew with | obj hnews _ =>
    obtain ⟨keys, -, hmem, hadditions⟩ := exists_additions (n := n) holds hnews
    have hb : news.lookup key = some b := hb
    rw [hadditions]
    refine List.mem_flatMap.mpr ⟨key, (hmem key).mpr ⟨hnone, Option.isSome_of_mem hb⟩, ?_⟩
    rw [hb]
    exact List.mem_singleton_self _
  · obtain ⟨i, rfl, hitem⟩ := child_arr_eq_some.mp hb
    rw [child_repr, List.getElem?_eq_none_iff] at hnone
    have hlt := (List.getElem?_eq_some_iff.mp hitem).1
    unfold additions
    rw [if_neg, List.mem_flatMap]
    · refine ⟨i.repr, List.mem_filter.mpr ⟨List.mem_map_of_mem (List.mem_range.mpr hlt), ?_⟩, ?_⟩
      · rw [ownProperty_repr, List.getElem?_eq_none hnone]
        rfl
      · rw [hb]
        exact List.mem_singleton_self _
    · rintro ⟨-, hlength⟩
      have hlength : bs.length = items.length := by simpa [ownKeys] using hlength
      omega

/-- A key of a value has a member. -/
theorem exists_child_of_mem_ownKeys (ha : old.WellFormed) (hkey : key ∈ ownKeys o old) :
    ∃ c, old.child key = some c := by
  cases ha with
  | @obj members sorted _ =>
    rw [ownKeys, (o.perm [] _).mem_iff, sorted.mem_names, Option.isSome_iff_exists] at hkey
    exact hkey
  | @arr items _ =>
    obtain ⟨i, hi, rfl⟩ := List.mem_map.mp hkey
    rw [child_repr]
    exact ⟨_, List.getElem?_eq_getElem (List.mem_range.mp hi)⟩
  | null | bool _ | num _ | str _ => cases hkey

/-- A value has no member that it does not own. -/
theorem child_eq_none_of_ownProperty (h : ownProperty old key = none) : old.child key = none := by
  cases old with
  | arr items =>
    rw [ownProperty] at h
    split at h
    · cases h
    · exact h
  | null | bool _ | num _ | str _ | obj _ => exact h

/-- Between two nodes of one kind the operations found are those of the keys of either. -/
theorem mem_generate (hold : old.WellFormed) (hnew : new.WellFormed) (hsame : SameKind old new)
    {op : Operation} : op ∈ generate o n old new ↔ ∃ key, IsChange o n old new key op := by
  rw [generate_eq hsame.self, List.mem_append, mem_compared hold]
  constructor
  · rintro (⟨key, a, hchild, hop⟩ | hop)
    · exact ⟨key, (mem_generateKey hsame.isArray_eq (ownProperty_eq_child hsame hchild) hchild).mp hop⟩
    · obtain ⟨key, -, hnone, value, hvalue, rfl⟩ := mem_additions hop
      have hnone := child_eq_none_of_ownProperty hnone
      exact ⟨key, (isChange_of_none hnone).mpr ⟨value, hvalue, rfl⟩⟩
  · rintro ⟨key, hchange⟩
    cases hchild : old.child key with
    | some a =>
      have hproperty := ownProperty_eq_child hsame hchild
      exact .inl ⟨key, a, hchild, (mem_generateKey hsame.isArray_eq hproperty hchild).mpr hchange⟩
    | none =>
      obtain ⟨b, hb, rfl⟩ := (isChange_of_none hchild).mp hchange
      exact .inr (additions_mem hold hnew hsame hchild hb)

/-- Between a node and itself nothing is found. -/
theorem generate_self (hold : old.WellFormed) (o n : KeyOrder) : generate o n old old = [] := by
  induction hold using WellFormed.childInduction generalizing o n with
  | step a ha ih =>
    by_cases hsame : SameKind a a
    · refine List.eq_nil_iff_forall_not_mem.mpr fun op hop => ?_
      obtain ⟨key, hchange⟩ := (mem_generate ha ha hsame).mp hop
      unfold IsChange at hchange
      cases hchild : a.child key with
      | none => rw [hchild] at hchange; exact hchange
      | some c =>
        rw [hchild] at hchange
        simp only at hchange
        split at hchange
        · obtain ⟨inner, hinner, -⟩ := hchange
          rw [ih key c hchild] at hinner
          cases hinner
        · exact hchange.1 rfl
    · cases a with
      | obj _ | arr _ => exact absurd trivial hsame
      | null | bool _ | num _ | str _ => rfl

/-- An operation is at a key whose values differ, or below it. -/
theorem IsChange.differs {op : Operation} (hold : old.WellFormed)
    (h : IsChange o n old new key op) :
    old.child key ≠ new.child key ∧ ∃ rest, op.path = key :: rest := by
  unfold IsChange at h
  cases ha : old.child key with
  | none =>
    cases hb : new.child key with
    | none => rw [ha, hb] at h; exact absurd h id
    | some b =>
      rw [ha, hb] at h
      exact ⟨nofun, [], by rw [h]⟩
  | some a =>
    cases hb : new.child key with
    | none =>
      rw [ha, hb] at h
      exact ⟨nofun, [], by rw [h]⟩
    | some b =>
      rw [ha, hb] at h
      simp only at h
      split at h
      · obtain ⟨inner, hinner, rfl⟩ := h
        refine ⟨fun heq => ?_, inner.path, rfl⟩
        rw [Option.some.inj heq, generate_self (Option.some.inj heq ▸ hold.child ha)] at hinner
        cases hinner
      · exact ⟨fun heq => h.1 (Option.some.inj heq), [], by rw [h.2]⟩

end Datasole
