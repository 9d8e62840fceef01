import Mathlib.Data.List.TakeWhile
import Datasole.Client.State.StateStore
import Datasole.Shared.Diff.DiffRoundTrip

/-!
# The first write of a key

Where there is no state yet, `diff` starts from `{}` and `applyPatch` from what the first path
suggests: an empty array if it starts with an index. `first_write` says for which values the two
agree. Values without own keys have no patches, and an object whose first key is a number is taken
for an array.
-/

namespace Datasole

open Json

/-- `/^\d+$/`. -/
def IsDigits (key : String) : Prop := key ≠ "" ∧ ∀ c ∈ key.toList, c.isDigit = true

instance : DecidablePred IsDigits := fun key =>
  @instDecidableAnd (key ≠ "") _ inferInstance (List.decidableBAll _ key.toList)

/-- The value whose first patch suggests the right root: an array with items, or an object whose
first key is no number. -/
def SuggestsRoot (n : KeyOrder) : Json → Prop
  | .arr items => items ≠ []
  | .obj members => ∃ key ∈ (n.names [] (members.map Prod.fst)).head?, ¬ IsDigits key
  | .null | .bool _ | .num _ | .str _ => False

/-- The names of the members of an object. -/
def memberNames : Json → List String
  | .obj members => members.map Prod.fst
  | .null | .bool _ | .num _ | .str _ | .arr _ => []

variable {lib : FastJsonPatch} {n : KeyOrder} {v : Json}

/-! ## The root that a path suggests -/

/-- Only a number suggests an array. -/
theorem isDigits_of_startsWithIndex {key : String}
    (h : startsWithIndex (JsonPointer.pointer [key]) = true) : IsDigits key := by
  have htoList : (JsonPointer.pointer [key]).toList = '/' :: (JsonPointer.escape key).toList := by
    rw [JsonPointer.pointer, JsonPointer.pointer, String.append_empty, String.toList_append]
    rfl
  have htail : ((JsonPointer.escape key).toList.dropWhile Char.isDigit).head? ≠ some '/' := fun hhead =>
    JsonPointer.slash_not_mem_escape key
      ((List.dropWhile_sublist _).subset (List.mem_of_head? hhead))
  unfold startsWithIndex at h
  rw [htoList] at h
  simp only at h
  rw [beq_false_of_ne htail, Bool.or_false, Bool.and_eq_true, List.isEmpty_iff,
    List.dropWhile_eq_nil_iff] at h
  obtain ⟨hne, hdigits⟩ := h
  -- digits are written as they are
  have hescape : JsonPointer.escape key = key :=
    JsonPointer.escape_eq_self fun htilde => absurd (hdigits '~' htilde) (by decide)
  rw [hescape] at hne hdigits
  refine ⟨?_, hdigits⟩
  rintro rfl
  cases hne

/-! ## What is found where there is nothing -/

/-- On an empty object the library only adds members. -/
theorem generate_empty_eq (o n : KeyOrder) (v : Json) :
    generate o n (.obj []) v = additions n (.obj []) v := by
  have hnames : o.names [] ([] : List String) = [] := (o.perm [] []).eq_nil
  rw [generate, List.map_nil, hnames]
  rfl

/-- Every key of the value is added, in order. -/
theorem generate_empty (o n : KeyOrder) (hkeys : ownKeys n v ≠ []) :
    generate o n (.obj []) v = (ownKeys n v).flatMap fun key =>
      (v.child key).toList.map fun value => ⟨[key], .add value⟩ := by
  have hadd :
      ¬ (¬ Deletes (.obj []) v ∧ (ownKeys n v).length = (ownKeys .byName (.obj [])).length) :=
    fun h => hkeys (List.eq_nil_of_length_eq_zero h.2)
  have hall : (ownKeys n v).filter (fun key => (ownProperty (.obj []) key).isNone) = ownKeys n v :=
    List.filter_eq_self.mpr fun _ _ => rfl
  rw [generate_empty_eq, additions, if_neg hadd, hall]

/-- The first key of the value is added first. -/
theorem generate_empty_head (o n : KeyOrder) (hv : v.WellFormed) {key : String}
    (hkey : (ownKeys n v).head? = some key) :
    ∃ value ops, generate o n (.obj []) v = ⟨[key], .add value⟩ :: ops := by
  obtain ⟨keys, hkeys⟩ := List.head?_eq_some_iff.mp hkey
  obtain ⟨value, hvalue⟩ := exists_child_of_mem_ownKeys hv (List.mem_of_head? hkey)
  rw [generate_empty o n (hkeys ▸ List.cons_ne_nil key keys), hkeys, List.flatMap_cons, hvalue]
  exact ⟨value, _, rfl⟩

/-- The items of an array, put into an empty one. -/
theorem run_generate_array (o n : KeyOrder) {items : List Json} (hne : items ≠ []) :
    Operation.run (.arr []) (generate o n (.obj []) (.arr items)) = some (.arr items) := by
  have hkeys : ownKeys n (.arr items) ≠ [] := by simpa [ownKeys] using hne
  have hrun := run_added_items [] (le_refl items.length)
  rw [List.length_nil, List.take_zero, Nat.zero_max, List.take_length,
    List.filter_eq_self.mpr] at hrun
  · rw [generate_empty o n hkeys]
    exact hrun
  · intro key hkey
    obtain ⟨i, -, rfl⟩ := List.mem_map.mp hkey
    rw [ownProperty_repr]
    rfl

/-- What is found is refused exactly if a member has a forbidden name. -/
theorem forbidden_empty (o n : KeyOrder) (hv : v.WellFormed) (hnode : IsNode v) :
    (∃ op ∈ generate o n (.obj []) v, Forbidden op) ↔
      ∃ name ∈ memberNames v, name ∈ forbiddenPathSegments := by
  cases hv with
  | @obj members sorted h =>
    have hempty : (Json.obj []).WellFormed := .obj .nil nofun
    rw [exists_forbidden_iff hempty (.obj sorted h) trivial]
    constructor
    · intro htouches
      cases htouches with
      | @here _ _ key hdiffers hforbidden =>
        refine ⟨key, sorted.mem_names.mpr ?_, hforbidden⟩
        exact Option.isSome_iff_ne_none.mpr (Ne.symm hdiffers)
      | inside hold => cases hold
    · rintro ⟨name, hname, hforbidden⟩
      have hsome := sorted.mem_names.mp hname
      have hdiffers : (Json.obj []).child name ≠ (Json.obj members).child name :=
        Ne.symm (Option.isSome_iff_ne_none.mp hsome)
      exact .here hdiffers hforbidden
  | @arr items h =>
    refine iff_of_false ?_ (fun ⟨_, h, _⟩ => absurd h List.not_mem_nil)
    rintro ⟨op, hop, token, htoken, hforbidden⟩
    rw [generate_empty_eq] at hop
    obtain ⟨key, hkey, -, value, -, rfl⟩ := mem_additions hop
    obtain ⟨i, -, rfl⟩ := List.mem_map.mp hkey
    rw [List.mem_singleton.mp htoken] at hforbidden
    exact repr_not_forbidden i hforbidden
  | null | bool _ | num _ | str _ => exact absurd hnode id

/-- The path of an addition suggests the root. -/
theorem inferEmptyBaseDocument_add (key : String) (value : Json) (ops : List Operation) :
    inferEmptyBaseDocument (((⟨[key], .add value⟩ : Operation) :: ops).map toPatch) =
      if startsWithIndex (JsonPointer.pointer [key]) then .arr [] else .obj [] := by
  have hadd : (toPatch ⟨[key], .add value⟩).op ≠ "replace" := by
    rw [show (toPatch ⟨[key], .add value⟩).op = "add" from rfl]
    decide
  rw [List.map_cons, inferEmptyBaseDocument, if_neg fun h => hadd h.1]
  rfl

/-- The root that is suggested by a value's first patch. -/
theorem run_suggested (o n : KeyOrder) (hv : v.WellFormed) (hsuggests : SuggestsRoot n v) :
    generate o n (.obj []) v ≠ [] ∧
      Operation.run (inferEmptyBaseDocument ((generate o n (.obj []) v).map toPatch))
        (generate o n (.obj []) v) = some v := by
  cases v with
  | arr items =>
    obtain ⟨item, rest, rfl⟩ := List.exists_cons_of_ne_nil hsuggests
    have hhead : (ownKeys n (.arr (item :: rest))).head? = some "0" := by
      rw [ownKeys, List.length_cons, List.range_succ_eq_map]
      rfl
    obtain ⟨value, ops, hops⟩ := generate_empty_head o n hv hhead
    have hinfer := inferEmptyBaseDocument_add "0" value ops
    rw [← hops, if_pos (by decide)] at hinfer
    refine ⟨hops ▸ List.cons_ne_nil _ _, ?_⟩
    rw [hinfer, run_generate_array o n hsuggests]
  | obj members =>
    obtain ⟨key, hkey, hdigits⟩ := hsuggests
    obtain ⟨value, ops, hops⟩ := generate_empty_head o n hv hkey
    have hinfer := inferEmptyBaseDocument_add key value ops
    rw [← hops, if_neg fun h => hdigits (isDigits_of_startsWithIndex h)] at hinfer
    refine ⟨hops ▸ List.cons_ne_nil _ _, ?_⟩
    rw [hinfer, run_generate (.obj .nil fun _ hmem => by cases hmem) o n hv trivial]
  | null | bool _ | num _ | str _ => exact absurd hsuggests id

/-- For every value that is an object or an array, in whatever orders the keys come: a store that
was created with `undefined` and receives the patches of the first write refuses them if the value
has a member with a forbidden name. Otherwise it holds the value, if the first patch suggests the
right root. -/
theorem first_write (lib : FastJsonPatch) (hperforms : lib.Performs) (o n : KeyOrder) (v : Json)
    (hcompares : lib.Compares o n (.obj []) v) (hv : v.WellFormed) (hnode : IsNode v) :
    ((∃ name ∈ memberNames v, name ∈ forbiddenPathSegments) →
      ∃ seg ∈ forbiddenPathSegments,
        (StateStore.mk none).applyPatches lib (diff lib none (some v)) =
          .error ("Forbidden path segment in JSON Patch: " ++ seg)) ∧
    ((∀ name ∈ memberNames v, name ∉ forbiddenPathSegments) → SuggestsRoot n v →
      (StateStore.mk none).applyPatches lib (diff lib none (some v)) = .ok ⟨some v⟩) := by
  have hdiff : diff lib none (some v) = (generate o n (.obj []) v).map toPatch := by
    rw [← hcompares, diff_eq, document_some (ne_null_of_sameKind hnode).1]
    rfl
  have hforbidden := forbidden_empty o n hv hnode
  rw [hdiff]
  constructor
  · intro hname
    obtain ⟨seg, hseg, herror⟩ := @applyPatch_forbidden lib none _ (hforbidden.mpr hname)
    refine ⟨seg, hseg, ?_⟩
    rw [StateStore.applyPatches, herror]
    rfl
  · intro hnames hsuggests
    obtain ⟨hne, hrun⟩ := run_suggested o n hv hsuggests
    have hclean : ¬ ∃ op ∈ generate o n (.obj []) v, Forbidden op := by
      rw [hforbidden]
      rintro ⟨name, hmem, h⟩
      exact hnames name hmem h
    have happly : applyPatch lib none ((generate o n (.obj []) v).map toPatch) = .ok (some v) := by
      unfold applyPatch
      rw [if_neg (by simpa using hne), (validatePatches_toPatch _).2 hclean]
      simp only [nonNull, Option.getD_none, applyPatch_of_run hperforms hrun hclean]
      rfl
    rw [StateStore.applyPatches, happly]
    rfl

/-- An object that is written first, and one that is refused. -/
theorem first_write_two : (let v : Json := .obj [("a", .num 1), ("b", .arr [.num 1])]
      (StateStore.mk none).applyPatches byNameLibrary (diff byNameLibrary none (some v)) = .ok ⟨some v⟩) ∧
    (let v : Json := .obj [("prototype", .num 1)]
      ∃ seg ∈ forbiddenPathSegments,
        (StateStore.mk none).applyPatches byNameLibrary (diff byNameLibrary none (some v)) =
          .error ("Forbidden path segment in JSON Patch: " ++ seg)) := by
  constructor <;> intro v
  · exact (first_write byNameLibrary byNameLibrary_performs .byName .byName v (byNameLibrary_compares _ v)
      (wellFormed_of_isWellFormed v (by decide +kernel)) trivial).2 (by decide +kernel)
      ⟨"a", rfl, by decide +kernel⟩
  · exact (first_write byNameLibrary byNameLibrary_performs .byName .byName v (byNameLibrary_compares _ v)
      (wellFormed_of_isWellFormed v (by decide +kernel)) trivial).1 (by decide +kernel)

/-- A member `constructor` is refused. -/
theorem first_write_refused :
    (StateStore.mk none).applyPatches byNameLibrary
        (diff byNameLibrary none (some (.obj [("constructor", .num 1)]))) =
      .error "Forbidden path segment in JSON Patch: constructor" := by
  decide +kernel

end Datasole
