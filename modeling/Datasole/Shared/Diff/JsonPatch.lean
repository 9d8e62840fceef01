import Datasole.Common.Json
import Datasole.Common.JsonPointer

/-!
# Diffs and JSON patches

`diff` of `shared/diff/json-diff.ts` and `applyPatch` of `shared/diff/json-patch.ts`. What they
call of `fast-json-patch` is the parameter `FastJsonPatch`. A value that may be `undefined` is an
`Option`. `deepClone` keeps a JSON value as it is, so it does not appear.
-/

namespace Datasole

/-- `StatePatch`, as it comes out of a frame: `op` may be any text. -/
structure StatePatch where
  op : String
  path : String
  value : Option Json := none
  /-- The field `from`. -/
  source : Option String := none
deriving DecidableEq

/-- The two functions of `fast-json-patch` in use: `compare`, and one operation of a patch, which
may throw. -/
structure FastJsonPatch where
  compare : Json → Json → List StatePatch
  applyOperation : Json → StatePatch → Except String Json

/-- `applyPatch` of `fast-json-patch`: the operations in order, up to the first that throws. -/
def FastJsonPatch.applyPatch (lib : FastJsonPatch) (document : Json) (patch : List StatePatch) :
    Except String Json :=
  patch.foldlM lib.applyOperation document

/-- A value that is neither `undefined` nor `null`. -/
def nonNull : Option Json → Option Json
  | some .null => none
  | state => state

def diff (lib : FastJsonPatch) (oldState newState : Option Json) : List StatePatch :=
  let old := (nonNull oldState).getD (.obj [])
  let next := (nonNull newState).getD (.obj [])
  lib.compare old next

/-- The document that the patches for a state are computed against. -/
def document (state : Option Json) : Json := (nonNull state).getD (.obj [])

def forbiddenPathSegments : List String := ["__proto__", "constructor", "prototype"]

def allowedOps : List String := ["add", "replace", "remove", "move", "copy", "test"]

/-- Throw at the first forbidden segment, with the text that goes before it. -/
def checkSegments (error : String) (path : String) : Except String Unit :=
  match (JsonPointer.splitPath path).find? (forbiddenPathSegments.contains ·) with
  | some seg => .error (error ++ seg)
  | none => .ok ()

/-- One round of the loop in `validatePatches`. -/
def validatePatch (patch : StatePatch) : Except String Unit := do
  if !allowedOps.contains patch.op then throw ("Disallowed JSON Patch op: " ++ patch.op)
  checkSegments "Forbidden path segment in JSON Patch: " patch.path
  match patch.source with
  | some source => checkSegments "Forbidden path segment in JSON Patch 'from': " source
  | none => pure ()

def validatePatches (patches : List StatePatch) : Except String Unit :=
  patches.forM validatePatch

/-- `/^\/\d+(?:\/|$)/`: the path starts with an array index. -/
def startsWithIndex (path : String) : Bool :=
  match path.toList with
  | '/' :: rest =>
    let digits := rest.takeWhile Char.isDigit
    let tail := rest.dropWhile Char.isDigit
    !digits.isEmpty && (tail.isEmpty || tail.head? == some '/')
  | _ => false

/-- The empty root for a first patch. -/
def inferEmptyBaseDocument : List StatePatch → Json
  | [] => .obj []
  | p₀ :: _ =>
    if p₀.op = "replace" ∧ p₀.path = "" ∧ p₀.value.isSome then
      if p₀.value.any Json.isArray then .arr [] else .obj []
    else if startsWithIndex p₀.path then .arr [] else .obj []

def applyPatch (lib : FastJsonPatch) (state : Option Json) (patches : List StatePatch) :
    Except String (Option Json) :=
  if patches.isEmpty then .ok state
  else do
    validatePatches patches
    let base := (nonNull state).getD (inferEmptyBaseDocument patches)
    return some (← lib.applyPatch base patches)

/-- Between two documents of `values`, what `compare` finds leads from the first to the second. -/
def FastJsonPatch.Roundtrips (lib : FastJsonPatch) (values : List Json) : Prop :=
  ∀ a ∈ values, ∀ b ∈ values, lib.applyPatch a (lib.compare a b) = .ok b

instance (lib : FastJsonPatch) (values : List Json) : Decidable (lib.Roundtrips values) :=
  inferInstanceAs (Decidable (∀ a ∈ values, ∀ b ∈ values, _ = _))

/-- The patches from one state to another turn the one into the other. -/
def FastJsonPatch.Turns (lib : FastJsonPatch) (old : Option Json) (new : Json) : Prop :=
  Datasole.applyPatch lib old (diff lib old (some new)) = .ok (some new)

instance (lib : FastJsonPatch) (old : Option Json) (new : Json) : Decidable (lib.Turns old new) :=
  inferInstanceAs (Decidable (_ = _))

section

variable {lib : FastJsonPatch} {a b : Json}

/-- A value that is not `null` is kept. -/
theorem nonNull_some (h : a ≠ .null) : nonNull (some a) = some a := by
  unfold nonNull
  split
  · next heq => exact absurd (Option.some.inj heq) h
  · rfl

/-- So is an object, or no value. -/
theorem nonNull_of_isObject {state : Option Json} (h : ∀ a ∈ state, a.IsObject) :
    nonNull state = state := by
  cases state with
  | none => rfl
  | some a => exact nonNull_some (h a rfl).ne_null

/-- `diff` of two values that are not `null` is what the library finds. -/
theorem diff_of_ne_null (ha : a ≠ .null) (hb : b ≠ .null) :
    diff lib (some a) (some b) = lib.compare a b := by
  simp only [diff, nonNull_some ha, nonNull_some hb, Option.getD_some]

/-- Accepted patches go to the library when there is a document to apply them to. -/
theorem applyPatch_of_valid {patches : List StatePatch} (ha : a ≠ .null)
    (hvalid : validatePatches patches = .ok ()) :
    applyPatch lib (some a) patches = (lib.applyPatch a patches).map some := by
  unfold applyPatch
  split
  · next h => rw [List.isEmpty_iff.mp h]; rfl
  · rw [hvalid, nonNull_some ha]
    rfl

theorem diff_eq (old new : Option Json) :
    diff lib old new = lib.compare (document old) (document new) := rfl

theorem document_some (h : a ≠ .null) : document (some a) = a := by
  rw [document, nonNull_some h, Option.getD_some]

/-- Accepted patches apply to the document of a state, if the empty root they suggest is the one
that `diff` starts from. -/
theorem applyPatch_document {state : Option Json} {patches : List StatePatch} (hne : patches ≠ [])
    (hvalid : validatePatches patches = .ok ())
    (hbase : nonNull state = none → inferEmptyBaseDocument patches = .obj []) :
    applyPatch lib state patches = (lib.applyPatch (document state) patches).map some := by
  have hdoc : (nonNull state).getD (inferEmptyBaseDocument patches) = document state := by
    cases hstate : nonNull state with
    | none => rw [document, hstate, hbase hstate, Option.getD_none]
    | some a => rw [document, hstate, Option.getD_some, Option.getD_some]
  unfold applyPatch
  rw [if_neg (by simpa using hne), hvalid, hdoc]
  rfl

/-- Two patch lists may be applied as one, unless the first leaves `null`. -/
theorem applyPatch_append {state : Option Json} {patches more : List StatePatch} {a : Option Json}
    (h : applyPatch lib state patches = .ok a) (ha : patches ≠ [] → nonNull a = a) :
    applyPatch lib state (patches ++ more) = applyPatch lib a more := by
  by_cases hpatches : patches = []
  · subst hpatches
    obtain rfl : state = a := Except.ok.inj h
    rfl
  by_cases hmore : more = []
  · subst hmore
    rw [List.append_nil, h]
    rfl
  have hinfer : inferEmptyBaseDocument (patches ++ more) = inferEmptyBaseDocument patches := by
    obtain ⟨p, ps, rfl⟩ := List.exists_cons_of_ne_nil hpatches
    rfl
  unfold applyPatch at h ⊢
  rw [if_neg (by simpa using hpatches)] at h
  rw [if_neg (by simp [hpatches]), if_neg (by simpa using hmore), hinfer]
  cases hvalid : validatePatches patches with
  | error e => rw [hvalid] at h; cases h
  | ok =>
    rw [hvalid] at h
    cases hfirst : lib.applyPatch ((nonNull state).getD (inferEmptyBaseDocument patches)) patches with
    | error e => simp [hfirst, bind, Except.bind] at h
    | ok b =>
      obtain rfl : some b = a := by simpa [hfirst, bind, Except.bind, pure, Except.pure] using h
      have hvalids : validatePatches (patches ++ more) = validatePatches more := by
        show forM (patches ++ more) validatePatch = _
        rw [List.forM_append, show forM patches validatePatch = _ from hvalid]
        rfl
      have hfold : lib.applyPatch ((nonNull state).getD (inferEmptyBaseDocument patches))
          (patches ++ more) = lib.applyPatch b more := by
        rw [FastJsonPatch.applyPatch, List.foldlM_append, ← FastJsonPatch.applyPatch, hfirst]
        rfl
      simp only [hvalids, hfold, ha hpatches, Option.getD_some]

/-- Where the library's patches lead from `a` to `b`, so does the patch of the two states. -/
theorem applyPatch_diff {values : List Json} (hlib : lib.Roundtrips values) (ha : a ∈ values)
    (hb : b ∈ values) (hane : a ≠ .null) (hbne : b ≠ .null)
    (hvalid : validatePatches (diff lib (some a) (some b)) = .ok ()) :
    applyPatch lib (some a) (diff lib (some a) (some b)) = .ok (some b) := by
  rw [applyPatch_of_valid hane hvalid, diff_of_ne_null hane hbne, hlib a ha b hb]
  rfl

end

end Datasole
