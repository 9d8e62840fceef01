import Datasole.Common.JsonPointer
import Datasole.Shared.Diff.JsonPatch

/-!
# Which patches are accepted

`validatePatches` of `shared/diff/json-patch.ts` looks at the pieces of a path as they are written.
Whoever applies the patch splits the path at the same places, and goes by the pieces with their
escape sequences read. That comes to the same (`checkSegments_eq_ok_iff`): an escape sequence stands
for `/` or `~`, and no forbidden name contains one of these.
-/

namespace Datasole

/-- The operations of RFC 6902. -/
inductive PatchOp where
  | add | remove | replace | move | copy | test

def PatchOp.name : PatchOp → String
  | add => "add"
  | remove => "remove"
  | replace => "replace"
  | move => "move"
  | copy => "copy"
  | test => "test"

/-- The reference tokens of a path, with their escape sequences read. What a path has in front of
its first `/` is counted too; there is nothing in a path that is a pointer. -/
def referenceTokens (path : String) : List String :=
  (JsonPointer.splitPath path).map JsonPointer.unescape

/-- The paths of a patch. -/
def StatePatch.paths (patch : StatePatch) : List String := patch.path :: patch.source.toList

/-- The names by which a patch goes down from a node, as long as there is something under them; it
reads or assigns the last. `property` finds what a node has under a name, inherited or not. -/
def descend {Node : Type*} (property : Node → String → Option Node) :
    Node → List String → List String
  | _, [] => []
  | node, token :: tokens =>
    token :: (property node token).elim [] fun child => descend property child tokens

/-! ## The check -/

/-- The names of the operations are allowed. -/
theorem mem_allowedOps {op : String} : op ∈ allowedOps ↔ ∃ o : PatchOp, o.name = op := by
  constructor
  · intro h
    simp only [allowedOps, List.mem_cons, List.not_mem_nil, or_false] at h
    rcases h with rfl | rfl | rfl | rfl | rfl | rfl
    · exact ⟨.add, rfl⟩
    · exact ⟨.replace, rfl⟩
    · exact ⟨.remove, rfl⟩
    · exact ⟨.move, rfl⟩
    · exact ⟨.copy, rfl⟩
    · exact ⟨.test, rfl⟩
  · rintro ⟨o, rfl⟩
    cases o <;> decide

/-- A piece is forbidden as it is written exactly if it is forbidden as it is read. -/
theorem unescape_mem_forbidden {seg : String} :
    JsonPointer.unescape seg ∈ forbiddenPathSegments ↔ seg ∈ forbiddenPathSegments := by
  have hplain : ∀ name ∈ forbiddenPathSegments, '~' ∉ name.toList ∧ '/' ∉ name.toList := by decide
  constructor
  · intro h
    obtain ⟨htilde, hslash⟩ := hplain _ h
    have hseg : seg = JsonPointer.unescape seg :=
      (JsonPointer.unescape_eq_iff htilde hslash seg).mp rfl
    rw [hseg]
    exact h
  · intro h
    obtain ⟨htilde, hslash⟩ := hplain _ h
    rwa [(JsonPointer.unescape_eq_iff htilde hslash seg).mpr rfl]

/-- A path is accepted if none of its tokens is forbidden. -/
theorem checkSegments_eq_ok_iff (error path : String) :
    checkSegments error path = .ok () ↔ ∀ token ∈ referenceTokens path, token ∉ forbiddenPathSegments := by
  have hread : (∀ token ∈ referenceTokens path, token ∉ forbiddenPathSegments) ↔
      ∀ seg ∈ JsonPointer.splitPath path, seg ∉ forbiddenPathSegments := by
    rw [referenceTokens, List.forall_mem_map]
    exact forall₂_congr fun seg _ => not_congr unescape_mem_forbidden
  rw [hread, checkSegments]
  cases hfind : (JsonPointer.splitPath path).find? (forbiddenPathSegments.contains ·) with
  | none =>
    refine iff_of_true rfl fun seg hseg hforbidden => ?_
    exact List.find?_eq_none.mp hfind seg hseg (List.contains_iff_mem.mpr hforbidden)
  | some seg =>
    refine iff_of_false nofun fun hnone => ?_
    have hforbidden := List.contains_iff_mem.mp (List.find?_some hfind)
    exact hnone seg (List.mem_of_find?_eq_some hfind) hforbidden

/-- A patch may go to the engine. -/
structure StatePatch.Acceptable (patch : StatePatch) : Prop where
  op : ∃ o : PatchOp, o.name = patch.op
  tokens : ∀ path ∈ patch.paths, ∀ token ∈ referenceTokens path, token ∉ forbiddenPathSegments

/-- The checks of one patch, one after the other. -/
theorem validatePatch_eq_ok_iff (patch : StatePatch) :
    validatePatch patch = .ok () ↔ patch.Acceptable := by
  obtain ⟨op, path, value, source⟩ := patch
  by_cases hop : op ∈ allowedOps
  · have hloop : validatePatch ⟨op, path, value, source⟩ =
        (checkSegments "Forbidden path segment in JSON Patch: " path).bind fun _ =>
          source.elim (.ok ()) (checkSegments "Forbidden path segment in JSON Patch 'from': ") := by
      simp only [validatePatch, List.contains_iff_mem.mpr hop]
      cases source <;> rfl
    have hpaths : (⟨op, path, value, source⟩ : StatePatch).Acceptable ↔
        checkSegments "Forbidden path segment in JSON Patch: " path = .ok () ∧
          source.elim (.ok ()) (checkSegments "Forbidden path segment in JSON Patch 'from': ") = .ok () := by
      rw [checkSegments_eq_ok_iff]
      cases source with
      | none =>
        refine ⟨fun h => ⟨h.tokens path List.mem_cons_self, rfl⟩,
          fun h => ⟨mem_allowedOps.mp hop, ?_⟩⟩
        intro p hp
        rw [List.mem_singleton.mp hp]
        exact h.1
      | some source =>
        rw [Option.elim_some, checkSegments_eq_ok_iff]
        refine ⟨fun h => ⟨h.tokens path (by simp [StatePatch.paths]),
          h.tokens source (by simp [StatePatch.paths])⟩, fun h => ⟨mem_allowedOps.mp hop, ?_⟩⟩
        intro p hp
        rcases List.mem_cons.mp hp with rfl | hp
        · exact h.1
        · rw [List.mem_singleton.mp hp]
          exact h.2
    rw [hloop, hpaths]
    cases checkSegments "Forbidden path segment in JSON Patch: " path with
    | error e => exact iff_of_false nofun fun h => nomatch h.1
    | ok => exact ⟨fun h => ⟨rfl, h⟩, fun h => h.2⟩
  · have hthrow : validatePatch ⟨op, path, value, source⟩ =
        .error ("Disallowed JSON Patch op: " ++ op) := by
      have hnot : allowedOps.contains op = false := by simpa using hop
      simp only [validatePatch, hnot]
      rfl
    rw [hthrow]
    exact iff_of_false nofun fun h => hop (mem_allowedOps.mpr h.op)

/-- A patch list is accepted if every patch in it is. -/
theorem validatePatches_eq_ok_iff (patches : List StatePatch) :
    validatePatches patches = .ok () ↔ ∀ patch ∈ patches, patch.Acceptable := by
  induction patches with
  | nil => exact iff_of_true rfl (List.forall_mem_nil _)
  | cons patch patches ih =>
    have hcons : validatePatches (patch :: patches) =
        (validatePatch patch).bind fun _ => validatePatches patches := rfl
    rw [hcons, List.forall_mem_cons, ← ih, ← validatePatch_eq_ok_iff]
    cases validatePatch patch with
    | error e => exact iff_of_false nofun fun h => nomatch h.1
    | ok => exact ⟨fun h => ⟨rfl, h⟩, fun h => h.2⟩

/-! ## What an accepted patch does -/

/-- Going down a path reads no name that is not in it. -/
theorem mem_of_mem_descend {Node : Type*} {property : Node → String → Option Node} {node : Node}
    {tokens : List String} {name : String} (h : name ∈ descend property node tokens) : name ∈ tokens := by
  induction tokens generalizing node with
  | nil => cases h
  | cons token tokens ih =>
    rw [descend] at h
    rcases List.mem_cons.mp h with rfl | h
    · exact List.mem_cons_self
    · cases hchild : property node token with
      | none =>
        rw [hchild] at h
        cases h
      | some child =>
        rw [hchild] at h
        exact List.mem_cons_of_mem _ (ih h)

/-- What the engine goes by is among the reference tokens. -/
theorem tokens_subset_referenceTokens (path : String) :
    JsonPointer.tokens path ⊆ referenceTokens path := by
  rw [JsonPointer.tokens, referenceTokens, List.map_tail]
  exact (List.tail_sublist _).subset

/-- Patches are accepted exactly if all have an operation of RFC 6902 and none of their paths has a
forbidden reference token, whatever escape sequences it is written with. In any document, accepted
patches neither go down by a forbidden name nor assign one. -/
theorem validatePatches_iff (patches : List StatePatch) :
    (validatePatches patches = .ok () ↔ ∀ patch ∈ patches, (∃ o : PatchOp, o.name = patch.op) ∧
      ∀ path ∈ patch.paths, ∀ token ∈ referenceTokens path, token ∉ forbiddenPathSegments) ∧
    (validatePatches patches = .ok () → ∀ {Node : Type} (property : Node → String → Option Node)
      (document : Node), ∀ patch ∈ patches, ∀ path ∈ patch.paths,
        ∀ name ∈ descend property document (JsonPointer.tokens path), name ∉ forbiddenPathSegments) := by
  rw [validatePatches_eq_ok_iff]
  constructor
  · refine forall₂_congr fun patch _ => ?_
    exact ⟨fun h => ⟨h.op, h.tokens⟩, fun h => ⟨h.1, h.2⟩⟩
  · intro haccepted Node property document patch hpatch path hpath name hname
    have htoken : name ∈ referenceTokens path :=
      tokens_subset_referenceTokens path (mem_of_mem_descend hname)
    exact (haccepted patch hpatch).tokens path hpath name htoken

end Datasole
