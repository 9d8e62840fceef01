import Datasole.Shared.Diff.Compare

/-!
# A diff and its application

`applyPatch(old, diff(old, new))` for documents whose roots are objects or arrays. `applyPatch`
refuses patches for members with three names, which `diff` does not know of. Between roots of one
kind this is all that can go wrong (`applyPatch_diff_roots`).
-/

namespace Datasole

open Json

/-- The operation as it is written in a patch. -/
def toPatch (op : Operation) : StatePatch :=
  let path := JsonPointer.pointer op.path
  match op.edit with
  | .add value => { op := "add", path, value := some value }
  | .remove => { op := "remove", path }
  | .replace value => { op := "replace", path, value := some value }

/-- The operation is at a forbidden name or below one. -/
def Forbidden (op : Operation) : Prop := ∃ token ∈ op.path, token ∈ forbiddenPathSegments

namespace FastJsonPatch

variable (lib : FastJsonPatch)

/-- `compare` finds the operations of `generate`, if the keys of the documents come in these
orders. -/
def Compares (o n : KeyOrder) (old new : Json) : Prop :=
  lib.compare old new = (generate o n old new).map toPatch

/-- An operation whose place exists is performed, unless it is at a forbidden name: some of these
are refused by the library itself. -/
def Performs : Prop :=
  ∀ (op : Operation) (a b : Json), ¬ Forbidden op → op.apply a = some b →
    lib.applyOperation a (toPatch op) = .ok b

end FastJsonPatch

variable {lib : FastJsonPatch} {o n : KeyOrder} {old new : Json}

/-- Operations that can be performed one after the other are, if none is at a forbidden name. -/
theorem applyPatch_of_run (hlib : lib.Performs) {a b : Json} {ops : List Operation}
    (hrun : Operation.run a ops = some b) (hclean : ¬ ∃ op ∈ ops, Forbidden op) :
    lib.applyPatch a (ops.map toPatch) = .ok b := by
  induction ops generalizing a with
  | nil =>
    cases hrun
    rfl
  | cons op ops ih =>
    rw [Operation.run_cons] at hrun
    obtain ⟨c, hop, hrun⟩ := Option.bind_eq_some_iff.mp hrun
    have hallowed : ¬ Forbidden op := fun hop => hclean ⟨op, List.mem_cons_self, hop⟩
    rw [FastJsonPatch.applyPatch, List.map_cons, List.foldlM_cons, hlib op a c hallowed hop]
    refine ih hrun fun hforbidden => hclean ?_
    obtain ⟨op', hmem, hop'⟩ := hforbidden
    exact ⟨op', List.mem_cons_of_mem _ hmem, hop'⟩

/-! ## What is refused -/

/-- A forbidden name has nothing to escape. -/
theorem escape_mem_forbidden {token : String} :
    JsonPointer.escape token ∈ forbiddenPathSegments ↔ token ∈ forbiddenPathSegments := by
  constructor
  · intro h
    have htilde : ∀ seg ∈ forbiddenPathSegments, '~' ∉ seg.toList := by decide
    rwa [JsonPointer.escape_eq_self (htilde _ h)] at h
  · intro h
    have hsame : ∀ seg ∈ forbiddenPathSegments, JsonPointer.escape seg = seg := by decide
    rwa [hsame _ h]

/-- The patch of an operation is accepted exactly if the operation is not forbidden. -/
theorem validatePatch_toPatch (op : Operation) :
    (Forbidden op → ∃ seg ∈ forbiddenPathSegments, validatePatch (toPatch op) =
      .error ("Forbidden path segment in JSON Patch: " ++ seg)) ∧
    (¬ Forbidden op → validatePatch (toPatch op) = .ok ()) := by
  have hvalid : validatePatch (toPatch op) =
      checkSegments "Forbidden path segment in JSON Patch: " (JsonPointer.pointer op.path) := by
    obtain ⟨path, edit⟩ := op
    cases edit <;> simp only [validatePatch, toPatch] <;>
      cases checkSegments "Forbidden path segment in JSON Patch: " (JsonPointer.pointer path) <;> rfl
  have hempty : "" ∉ forbiddenPathSegments := by decide
  rw [hvalid, checkSegments, JsonPointer.splitPath_pointer]
  constructor
  · rintro ⟨token, htoken, hforbidden⟩
    cases hfind : ("" :: op.path.map JsonPointer.escape).find? (forbiddenPathSegments.contains ·) with
    | none =>
      have hnot :=
        List.find?_eq_none.mp hfind _ (List.mem_cons_of_mem _ (List.mem_map_of_mem htoken))
      exact absurd (List.contains_iff_mem.mpr (escape_mem_forbidden.mpr hforbidden)) hnot
    | some seg => exact ⟨seg, List.contains_iff_mem.mp (List.find?_some hfind), rfl⟩
  · intro hclean
    rw [List.find?_eq_none.mpr]
    intro seg hseg hcontains
    have hseg' := List.contains_iff_mem.mp hcontains
    rcases List.mem_cons.mp hseg with rfl | hseg
    · exact hempty hseg'
    · obtain ⟨token, htoken, rfl⟩ := List.mem_map.mp hseg
      exact hclean ⟨token, htoken, escape_mem_forbidden.mp hseg'⟩

/-- A patch is refused at its first forbidden operation. -/
theorem validatePatches_toPatch (ops : List Operation) :
    ((∃ op ∈ ops, Forbidden op) → ∃ seg ∈ forbiddenPathSegments, validatePatches (ops.map toPatch) =
      .error ("Forbidden path segment in JSON Patch: " ++ seg)) ∧
    ((¬ ∃ op ∈ ops, Forbidden op) → validatePatches (ops.map toPatch) = .ok ()) := by
  induction ops with
  | nil => exact ⟨fun ⟨_, h, _⟩ => absurd h List.not_mem_nil, fun _ => rfl⟩
  | cons op ops ih =>
    have hcons : validatePatches ((op :: ops).map toPatch) =
        (validatePatch (toPatch op)).bind fun _ => validatePatches (ops.map toPatch) := rfl
    rw [hcons]
    by_cases hop : Forbidden op
    · obtain ⟨seg, hseg, herror⟩ := (validatePatch_toPatch op).1 hop
      refine ⟨fun _ => ⟨seg, hseg, ?_⟩, fun hclean => absurd ⟨op, List.mem_cons_self, hop⟩ hclean⟩
      rw [herror]
      rfl
    · rw [(validatePatch_toPatch op).2 hop]
      constructor
      · rintro ⟨op', hmem, hforbidden⟩
        rcases List.mem_cons.mp hmem with rfl | hmem
        · exact absurd hforbidden hop
        · exact ih.1 ⟨op', hmem, hforbidden⟩
      · exact fun hclean => ih.2 fun ⟨op', hmem, h⟩ => hclean ⟨op', List.mem_cons_of_mem _ hmem, h⟩

/-- A member that is to be added, removed or changed has a forbidden name. -/
inductive TouchesForbidden : Json → Json → Prop
  | here {old new : Json} {key : String} (differs : old.child key ≠ new.child key)
      (forbidden : key ∈ forbiddenPathSegments) : TouchesForbidden old new
  | inside {old new a b : Json} {key : String} (hold : old.child key = some a)
      (hnew : new.child key = some b) (hsame : SameKind a b) (h : TouchesForbidden a b) :
      TouchesForbidden old new

/-- A key whose values differ has an operation. -/
theorem exists_change (hold : old.WellFormed) (hnew : new.WellFormed) {key : String}
    (hdiffers : old.child key ≠ new.child key) : ∃ op, IsChange o n old new key op := by
  unfold IsChange
  cases ha : old.child key with
  | none =>
    cases hb : new.child key with
    | none => exact absurd (ha.trans hb.symm) hdiffers
    | some b => exact ⟨_, rfl⟩
  | some a =>
    cases hb : new.child key with
    | none => exact ⟨_, rfl⟩
    | some b =>
      have hne : a ≠ b := fun heq => hdiffers (by rw [ha, hb, heq])
      by_cases hsame : SameKind a b
      · -- without an operation the old value would be the new one
        have hrun := run_generate (hold.child ha) (o.under key) (n.under key) (hnew.child hb) hsame
        have hsome : generate (o.under key) (n.under key) a b ≠ [] := fun hnil => by
          rw [hnil] at hrun
          exact hne (Option.some.inj hrun)
        obtain ⟨inner, hinner⟩ := List.exists_mem_of_ne_nil _ hsome
        exact ⟨inner.under key, by simpa only [if_pos hsame] using ⟨inner, hinner, rfl⟩⟩
      · exact ⟨_, by simpa only [if_neg hsame] using ⟨hne, rfl⟩⟩

/-- A patch between two nodes of one kind is refused exactly if a member with a forbidden name
differs. -/
theorem exists_forbidden_iff (hold : old.WellFormed) (hnew : new.WellFormed)
    (hsame : SameKind old new)
    (o n : KeyOrder) : (∃ op ∈ generate o n old new, Forbidden op) ↔ TouchesForbidden old new := by
  constructor
  · induction hold using WellFormed.childInduction generalizing new o n with
    | step old hold ih =>
      rintro ⟨op, hop, token, htoken, hforbidden⟩
      obtain ⟨key, hchange⟩ := (mem_generate hold hnew hsame).mp hop
      obtain ⟨hdiffers, rest, hrest⟩ := hchange.differs hold
      rw [hrest] at htoken
      rcases List.mem_cons.mp htoken with rfl | htoken
      · exact .here hdiffers hforbidden
      -- only the operations below the key have more tokens
      unfold IsChange at hchange
      cases ha : old.child key with
      | none =>
        cases hb : new.child key <;> rw [ha, hb] at hchange
        · exact absurd hchange id
        · subst hchange
          cases (List.cons.inj hrest).2
          cases htoken
      | some a =>
        cases hb : new.child key with
        | none =>
          rw [ha, hb] at hchange
          subst hchange
          cases (List.cons.inj hrest).2
          cases htoken
        | some b =>
          rw [ha, hb] at hchange
          simp only at hchange
          split at hchange
          · next hab =>
            obtain ⟨inner, hinner, rfl⟩ := hchange
            cases (List.cons.inj hrest).2
            exact .inside ha hb hab
              (ih key a ha (hnew.child hb) hab _ _ ⟨inner, hinner, token, htoken, hforbidden⟩)
          · rw [hchange.2] at hrest
            cases (List.cons.inj hrest).2
            cases htoken
  · intro htouches
    induction htouches generalizing o n with
    | here hdiffers hforbidden =>
      obtain ⟨op, hchange⟩ := exists_change (o := o) (n := n) hold hnew hdiffers
      obtain ⟨-, rest, hrest⟩ := hchange.differs hold
      exact ⟨op, (mem_generate hold hnew hsame).mpr ⟨_, hchange⟩, _, hrest ▸ List.mem_cons_self,
        hforbidden⟩
    | @inside old new a b key ha hb hab _ ih =>
      obtain ⟨inner, hinner, token, htoken, hforbidden⟩ :=
        ih (hold.child ha) (hnew.child hb) hab (o.under key) (n.under key)
      refine ⟨inner.under key, (mem_generate hold hnew hsame).mpr ⟨key, ?_⟩, token,
        List.mem_cons_of_mem _ htoken, hforbidden⟩
      unfold IsChange
      rw [ha, hb]
      simp only [if_pos hab]
      exact ⟨inner, hinner, rfl⟩

/-! ## Roots of one kind -/

/-- `null` is neither an object nor an array. -/
theorem ne_null_of_sameKind (h : SameKind old new) : old ≠ .null ∧ new ≠ .null := by
  constructor <;> rintro rfl
  · exact h
  · cases old <;> exact h

/-- What `applyPatch` does with the operations between two documents. -/
theorem applyPatch_operations (hlib : lib.Performs) {a b : Json} (ha : a ≠ .null)
    {ops : List Operation}
    (hrun : Operation.run a ops = some b) (hclean : ¬ ∃ op ∈ ops, Forbidden op) :
    applyPatch lib (some a) (ops.map toPatch) = .ok (some b) := by
  rw [applyPatch_of_valid ha ((validatePatches_toPatch ops).2 hclean),
    applyPatch_of_run hlib hrun hclean]
  rfl

/-- One forbidden operation is enough for a patch list to be refused. -/
theorem applyPatch_forbidden {a : Option Json} {ops : List Operation}
    (h : ∃ op ∈ ops, Forbidden op) :
    ∃ seg ∈ forbiddenPathSegments, applyPatch lib a (ops.map toPatch) =
      .error ("Forbidden path segment in JSON Patch: " ++ seg) := by
  obtain ⟨seg, hseg, herror⟩ := (validatePatches_toPatch ops).1 h
  obtain ⟨op, hop, -⟩ := h
  refine ⟨seg, hseg, ?_⟩
  unfold applyPatch
  rw [if_neg (by simpa using List.ne_nil_of_mem hop), herror]
  rfl

/-- `diff` of two values that are not `null` has the operations of `generate`. -/
theorem diff_eq_generate (hlib : lib.Compares o n old new) (hold : old ≠ .null)
    (hnew : new ≠ .null) :
    diff lib (some old) (some new) = (generate o n old new).map toPatch := by
  rw [diff_of_ne_null hold hnew, hlib]

/-! ## Roots of different kinds -/

/-- Some key of the old root is none of the new root, so that the whole document is replaced. A key
that both have leads to the same value, or to two that are not compared any further. Nothing is
added to the new document when it is there, or only what it has already, under a name that is
allowed. -/
structure Replaces (old new : Json) : Prop where
  missing : ∃ key ∈ ownKeys .byName old, ownProperty new key = none
  common : ∀ key a b, old.child key = some a → ownProperty new key = some b →
    a = b ∨ (new.child key = some b ∧ ¬ SameKind a b)
  added : (ownKeys .byName new).length = (ownKeys .byName old).length ∨
    ∀ key b, new.child key = some b → old.child key = none →
      new.isArray = false ∧ key ∉ forbiddenPathSegments

/-- An operation that puts the new document, or a part of it in its place, if both roots have the
key. -/
def PutsNew (old new : Json) (op : Operation) : Prop :=
  op = ⟨[], .replace new⟩ ∨
    ∃ key a b, old.child key = some a ∧ new.child key = some b ∧ op = ⟨[key], .replace b⟩

/-- The document on the way: the new one, or one with the keys of the old one. -/
def OnTheWay (old new a : Json) : Prop :=
  a = new ∨ ∀ key, (old.child key).isSome → (a.child key).isSome

/-- A member or item that is there can be replaced, and the keys stay. -/
theorem replace_at {a c : Json} {key : String} (h : a.child key = some c) (b : Json) :
    ∃ a', (Edit.replace b).at key a = some a' ∧
      ∀ key', (a.child key').isSome → (a'.child key').isSome := by
  cases a with
  | obj members =>
    have hmember : members.lookup key = some c := h
    refine ⟨_, by rw [Edit.at, hmember]; rfl, fun key' hkey' => ?_⟩
    rw [child, lookup_setMember]
    split
    · rfl
    · exact hkey'
  | arr items =>
    obtain ⟨i, hindex, -⟩ := Option.bind_eq_some_iff.mp h
    refine ⟨_, by rw [Edit.at, hindex]; rfl, fun key' hkey' => ?_⟩
    obtain ⟨d, hd⟩ := Option.isSome_iff_exists.mp hkey'
    obtain ⟨j, rfl, hitem⟩ := child_arr_eq_some.mp hd
    have hlt := (List.getElem?_eq_some_iff.mp hitem).1
    rw [child_repr, List.getElem?_eq_getElem ((List.length_set ..).symm ▸ hlt)]
    rfl
  | null | bool _ | num _ | str _ => cases h

/-- What is there already can be put again. -/
theorem edit_same {key : String} {b : Json} (hnew : new.WellFormed) (hb : new.child key = some b)
    {edit : Edit} (hedit : edit = .replace b ∨ (edit = .add b ∧ new.isArray = false)) :
    edit.at key new = some new := by
  cases hnew with
  | @obj members sorted _ =>
    have hmember : members.lookup key = some b := hb
    have hset : setMember key b members = members :=
      (sorted_setMember sorted key b).ext sorted fun key' => by
        rw [lookup_setMember]
        split
        · next heq => rw [heq, hmember]
        · rfl
    rcases hedit with rfl | ⟨rfl, -⟩
    · rw [Edit.at, hmember, hset]
      rfl
    · rw [Edit.at, hset]
  | @arr items _ =>
    obtain ⟨i, hindex, hitem⟩ := Option.bind_eq_some_iff.mp hb
    obtain ⟨hlt, hget⟩ := List.getElem?_eq_some_iff.mp hitem
    rcases hedit with rfl | ⟨-, harray⟩
    · rw [Edit.at, hindex, Option.map_some, ← hget, List.set_getElem_self]
    · cases harray
  | null | bool _ | num _ | str _ => cases hb

/-- Such operations can be performed one after the other, and after the first replacement of the
root the document is the new one. -/
theorem run_putsNew (hnew : new.WellFormed) {ops : List Operation}
    (hops : ∀ op ∈ ops, PutsNew old new op)
    {a : Json} (ha : OnTheWay old new a) :
    ∃ a', Operation.run a ops = some a' ∧ OnTheWay old new a' ∧
      (a = new ∨ ⟨[], .replace new⟩ ∈ ops → a' = new) := by
  induction ops generalizing a with
  | nil => exact ⟨a, rfl, ha, fun h => h.elim id fun h => absurd h List.not_mem_nil⟩
  | cons op ops ih =>
    have hstep : ∃ c, op.apply a = some c ∧ OnTheWay old new c ∧
        (a = new ∨ op = ⟨[], .replace new⟩ → c = new) := by
      rcases hops op List.mem_cons_self with rfl | ⟨key, d, b, hd, hb, rfl⟩
      · exact ⟨new, rfl, .inl rfl, fun _ => rfl⟩
      rcases ha with rfl | hkeys
      · exact ⟨a, edit_same hnew hb (.inl rfl), .inl rfl, fun _ => rfl⟩
      · obtain ⟨c, hc⟩ := Option.isSome_iff_exists.mp (hkeys key (Option.isSome_of_mem hd))
        obtain ⟨a', ha', hkeys'⟩ := replace_at hc b
        refine ⟨a', ha', .inr fun key' h => hkeys' key' (hkeys key' h), ?_⟩
        rintro (rfl | h)
        · rw [← Option.some.inj (ha'.symm.trans (edit_same hnew hb (.inl rfl)))]
        · cases h
    obtain ⟨c, hop, hc, hroot⟩ := hstep
    obtain ⟨a', hrun, ha', hdone⟩ := ih (fun op hop => hops op (List.mem_cons_of_mem _ hop)) hc
    refine ⟨a', by rw [Operation.run_cons, hop, Option.bind_some, hrun], ha', ?_⟩
    rintro (rfl | hmem)
    · exact hdone (.inl (hroot (.inl rfl)))
    · rcases List.mem_cons.mp hmem with heq | hmem
      · exact hdone (.inl (hroot (.inr heq.symm)))
      · exact hdone (.inr hmem)

/-- Between roots of different kinds a key of the old root gives such operations. -/
theorem putsNew_generateKey {array : Bool} (harray : array ≠ new.isArray)
    (hreplaces : Replaces old new)
    (hold : old.WellFormed) {key : String} {a : Json} (ha : old.child key = some a) {op : Operation}
    (hop : op ∈ generateKey array new key a (generate (o.under key) (n.under key) a)) :
    PutsNew old new op := by
  unfold generateKey at hop
  cases hproperty : ownProperty new key with
  | none =>
    rw [hproperty] at hop
    simp only [if_neg harray, List.mem_singleton] at hop
    exact .inl hop
  | some b =>
    rw [hproperty] at hop
    simp only at hop
    rcases hreplaces.common key a b ha hproperty with rfl | ⟨hb, hkind⟩
    · rw [generate_self (hold.child ha)] at hop
      simp at hop
    · rw [if_neg hkind] at hop
      split at hop
      · exact .inr ⟨key, a, b, ha, hb, List.mem_singleton.mp hop⟩
      · cases hop

/-- An object or an array. -/
def IsNode (a : Json) : Prop := SameKind a a

instance : DecidablePred IsNode := fun a => inferInstanceAs (Decidable (SameKind a a))

/-- Of two nodes of different kinds one is an array. -/
theorem isArray_ne (hold : IsNode old) (hnew : IsNode new) (hkind : ¬ SameKind old new) :
    old.isArray ≠ new.isArray := by
  rcases SameKind.cases hold with ⟨_, _, rfl, -⟩ | ⟨_, _, rfl, -⟩
  · rcases SameKind.cases hnew with ⟨_, _, rfl, -⟩ | ⟨_, _, rfl, -⟩
    · exact absurd trivial hkind
    · exact Bool.false_ne_true
  · rcases SameKind.cases hnew with ⟨_, _, rfl, -⟩ | ⟨_, _, rfl, -⟩
    · exact Bool.false_ne_true.symm
    · exact absurd trivial hkind

/-- No index is a forbidden name. -/
theorem repr_not_forbidden (i : ℕ) : i.repr ∉ forbiddenPathSegments := by
  intro hmem
  simp only [forbiddenPathSegments, List.mem_cons, List.not_mem_nil, or_false] at hmem
  rcases hmem with h | h | h
  · exact @repr_ne '_' rfl "__proto__" (by decide) i h
  · exact @repr_ne 'c' rfl "constructor" (by decide) i h
  · exact @repr_ne 'p' rfl "prototype" (by decide) i h

/-- A key of an object and an array is an index. -/
theorem key_not_forbidden (harray : old.isArray ≠ new.isArray) {key : String} {a b : Json}
    (ha : old.child key = some a) (hb : new.child key = some b) : key ∉ forbiddenPathSegments := by
  have hindex : ∃ i : ℕ, key = i.repr := by
    cases old with
    | arr _ => exact (child_arr_eq_some.mp ha).imp fun _ h => h.1
    | obj _ =>
      cases new with
      | arr _ => exact (child_arr_eq_some.mp hb).imp fun _ h => h.1
      | obj _ => exact absurd rfl harray
      | null | bool _ | num _ | str _ => cases hb
    | null | bool _ | num _ | str _ => cases ha
  obtain ⟨i, rfl⟩ := hindex
  exact repr_not_forbidden i

/-- What is found between such roots puts the new document in the place of the old one, and is not
refused. -/
theorem run_replaces (hold : old.WellFormed) (hnew : new.WellFormed) (hnode : IsNode old)
    (harray : old.isArray ≠ new.isArray) (hreplaces : Replaces old new) :
    Operation.run old (generate o n old new) = some new ∧
      ¬ ∃ op ∈ generate o n old new, Forbidden op := by
  -- what the loop finds puts the new document, or a part of it in its place
  have hputs : ∀ op ∈ compared o n new old, PutsNew old new op := fun op hop => by
    obtain ⟨key, a, ha, hop⟩ := exists_of_mem_compared hop
    exact putsNew_generateKey harray hreplaces hold ha hop
  have hadded : ∀ op ∈ additions n old new, ∃ key b, new.child key = some b ∧ op = ⟨[key], .add b⟩ ∧
      new.isArray = false ∧ key ∉ forbiddenPathSegments := by
    intro op hop
    rcases hreplaces.added with hsize | hadded
    · have hlength : (ownKeys n new).length = (ownKeys .byName new).length := by
        cases new with
        | obj members => exact ((n.perm [] _).trans (KeyOrder.byName.perm [] _).symm).length_eq
        | arr _ | null | bool _ | num _ | str _ => rfl
      unfold additions at hop
      rw [if_pos ⟨fun h => harray h.1, hlength.trans hsize⟩] at hop
      cases hop
    · obtain ⟨key, -, hnone, b, hb, rfl⟩ := mem_additions hop
      exact ⟨key, b, hb, rfl, hadded key b hb (child_eq_none_of_ownProperty hnone)⟩
  rw [generate_eq hnode]
  constructor
  · -- some key is missing, so the whole document is replaced on the way
    obtain ⟨a, hrun, -, hdone⟩ := run_putsNew hnew hputs (a := old) (.inr fun _ h => h)
    have hroot : ⟨[], .replace new⟩ ∈ compared o n new old := by
      obtain ⟨key, hkey, hnone⟩ := hreplaces.missing
      obtain ⟨a, ha⟩ : ∃ a, old.child key = some a := exists_child_of_mem_ownKeys hold hkey
      refine (mem_compared hold).mpr ⟨key, a, ha, ?_⟩
      unfold generateKey
      rw [hnone]
      simp only [if_neg harray, List.mem_singleton]
    rw [Operation.run_append, hrun, hdone (.inr hroot), Option.bind_some]
    clear hrun
    generalize additions n old new = added at hadded ⊢
    induction added with
    | nil => rfl
    | cons op ops ih =>
      obtain ⟨key, b, hb, rfl, harr, -⟩ := hadded op List.mem_cons_self
      rw [Operation.run_cons, Operation.apply, Operation.applyAt,
        edit_same hnew hb (.inr ⟨rfl, harr⟩), Option.bind_some]
      exact ih fun op hop => hadded op (List.mem_cons_of_mem _ hop)
  · -- no operation has a forbidden token
    rintro ⟨op, hop, token, htoken, hforbidden⟩
    rcases List.mem_append.mp hop with hop | hop
    · rcases hputs op hop with rfl | ⟨key, a, b, ha, hb, rfl⟩
      · cases htoken
      · rw [List.mem_singleton.mp htoken] at hforbidden
        exact key_not_forbidden harray ha hb hforbidden
    · obtain ⟨key, b, -, rfl, -, hnot⟩ := hadded op hop
      rw [List.mem_singleton.mp htoken] at hforbidden
      exact hnot hforbidden

/-! ## All roots -/

/-- For all documents whose roots are objects or arrays, in whatever orders the keys come. Between
roots of one kind the patches are applied and give the new document, unless a member with a
forbidden name is added, removed or changed: then they are refused. Between roots of different kinds
they give the new document where it replaces the old one. -/
theorem applyPatch_diff_roots (lib : FastJsonPatch) (hperforms : lib.Performs) (o n : KeyOrder)
    (old new : Json) (hcompares : lib.Compares o n old new) (hold : old.WellFormed)
    (hnew : new.WellFormed) (holdRoot : IsNode old) (hnewRoot : IsNode new) :
    (SameKind old new →
      (¬ TouchesForbidden old new →
        applyPatch lib (some old) (diff lib (some old) (some new)) = .ok (some new)) ∧
      (TouchesForbidden old new → ∃ seg ∈ forbiddenPathSegments,
        applyPatch lib (some old) (diff lib (some old) (some new)) =
          .error ("Forbidden path segment in JSON Patch: " ++ seg))) ∧
    (¬ SameKind old new → Replaces old new →
      applyPatch lib (some old) (diff lib (some old) (some new)) = .ok (some new)) := by
  have holdNull := (ne_null_of_sameKind holdRoot).1
  have hnewNull := (ne_null_of_sameKind hnewRoot).1
  rw [diff_eq_generate hcompares holdNull hnewNull]
  refine ⟨fun hsame => ⟨fun hclean => ?_, fun htouches => ?_⟩, fun hkind hreplaces => ?_⟩
  · rw [← exists_forbidden_iff hold hnew hsame o n] at hclean
    exact applyPatch_operations hperforms holdNull (run_generate hold o n hnew hsame) hclean
  · exact applyPatch_forbidden ((exists_forbidden_iff hold hnew hsame o n).mpr htouches)
  · obtain ⟨hrun, hclean⟩ :=
      run_replaces (o := o) (n := n) hold hnew holdRoot (isArray_ne holdRoot hnewRoot hkind) hreplaces
    exact applyPatch_operations hperforms holdNull hrun hclean

/-! ## A library -/

/-- The operation that is written in a patch. -/
def ofPatch (patch : StatePatch) : Option Operation :=
  let path := JsonPointer.tokens patch.path
  match patch.op, patch.value with
  | "add", some value => some ⟨path, .add value⟩
  | "remove", _ => some ⟨path, .remove⟩
  | "replace", some value => some ⟨path, .replace value⟩
  | _, _ => none

/-- The library on documents whose keys come by name, where no operation misses its place. -/
def byNameLibrary : FastJsonPatch where
  compare old new := (generate .byName .byName old new).map toPatch
  applyOperation a patch := ((ofPatch patch).bind (·.apply a)).elim (.error "OPERATION_PATH") .ok

theorem byNameLibrary_compares (old new : Json) : byNameLibrary.Compares .byName .byName old new :=
  rfl

/-- The library of the example performs operations. -/
theorem byNameLibrary_performs : byNameLibrary.Performs := by
  rintro ⟨path, edit⟩ a b - happly
  have hof : ofPatch (toPatch ⟨path, edit⟩) = some ⟨path, edit⟩ := by
    cases edit <;> simp only [ofPatch, toPatch, JsonPointer.tokens_pointer]
  simp only [byNameLibrary, hof, Option.bind_some, happly, Option.elim_some]

/-- A member is changed, an item removed and another added; and an object becomes an array. -/
theorem byNameLibrary_roundTrip :
    (let old : Json := .obj [("a", .num 1), ("b", .arr [.num 1, .num 2])]
      let new : Json := .obj [("a", .num 2), ("b", .arr [.num 1]), ("c/d", .obj [("x", .null)])]
      applyPatch byNameLibrary (some old) (diff byNameLibrary (some old) (some new)) = .ok (some new)) ∧
    (let old : Json := .obj [("a", .num 1)]
      let new : Json := .arr [.num 7]
      applyPatch byNameLibrary (some old) (diff byNameLibrary (some old) (some new)) = .ok (some new)) := by
  constructor <;> intro old new
  · refine ((applyPatch_diff_roots byNameLibrary byNameLibrary_performs .byName .byName old new
      (byNameLibrary_compares old new) (wellFormed_of_isWellFormed _ (by decide +kernel))
      (wellFormed_of_isWellFormed _ (by decide +kernel)) trivial trivial).1 trivial).1 ?_
    have hiff := @exists_forbidden_iff old new (wellFormed_of_isWellFormed _ (by decide +kernel))
      (wellFormed_of_isWellFormed _ (by decide +kernel)) trivial .byName .byName
    rw [← hiff]
    unfold Forbidden
    decide +kernel
  · refine (applyPatch_diff_roots byNameLibrary byNameLibrary_performs .byName .byName old new
      (byNameLibrary_compares old new) (wellFormed_of_isWellFormed _ (by decide +kernel))
      (wellFormed_of_isWellFormed _ (by decide +kernel)) trivial trivial).2 id
      ⟨by decide +kernel, fun key a b ha hb => ?_, .inl (by decide +kernel)⟩
    obtain ⟨rfl, rfl⟩ : key = "a" ∧ a = .num 1 := by
      have hlookup : ([("a", .num 1)] : List (String × Json)).lookup key = some a := ha
      rw [lookup_cons] at hlookup
      split at hlookup
      · next heq => exact ⟨heq, (Option.some.inj hlookup).symm⟩
      · cases hlookup
    have hnone : ownProperty new "a" = none := by decide +kernel
    rw [hnone] at hb
    cases hb

/-- A new member `constructor` is refused. An empty object that becomes an array stays an object. -/
theorem constructor_is_refused :
    applyPatch byNameLibrary (some (.obj []))
        (diff byNameLibrary (some (.obj [])) (some (.obj [("constructor", .num 1)]))) =
      .error "Forbidden path segment in JSON Patch: constructor" ∧
    applyPatch byNameLibrary (some (.obj []))
        (diff byNameLibrary (some (.obj [])) (some (.arr [.num 1]))) =
      .ok (some (.obj [("0", .num 1)])) := by
  decide +kernel

end Datasole
