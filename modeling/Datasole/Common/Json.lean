import Mathlib.Algebra.Order.Ring.Rat

/-!
# JSON values

The members of an object are listed by increasing name, so that two trees are equal exactly when
they are the same JSON value, whatever order the members were written in.
-/

inductive Json where
  | null
  | bool (b : Bool)
  | num (n : ℚ)
  | str (s : String)
  | arr (items : List Json)
  | obj (members : List (String × Json))

namespace Json

/-- `Array.isArray`. -/
def isArray : Json → Bool
  | .arr _ => true
  | _ => false

/-- An object that is no array. -/
def IsObject : Json → Prop
  | .obj _ => True
  | _ => False

instance : DecidablePred IsObject
  | .obj _ => .isTrue trivial
  | .null | .bool _ | .num _ | .str _ | .arr _ => .isFalse id

theorem IsObject.ne_null {a : Json} (h : a.IsObject) : a ≠ .null := by
  rintro rfl
  exact h

/-! ## Reading a parsed value -/

/-- The property of a value under a name that only objects have. -/
def property : Json → String → Option Json
  | .obj members, name => members.lookup name
  | _, _ => none

/-- The value counts as true in a condition. -/
def truthy : Json → Bool
  | .null => false
  | .bool b => b
  | .num n => n ≠ 0
  | .str s => s ≠ ""
  | .arr _ | .obj _ => true

mutual

/-- Converting the value to a string throws: it is, or lists, an object with a property `toString`,
which is no function. -/
def stringThrows : Json → Bool
  | .obj members => (members.lookup "toString").isSome
  | .arr items => itemsThrow items
  | .null | .bool _ | .num _ | .str _ => false

def itemsThrow : List Json → Bool
  | [] => false
  | a :: as => stringThrows a || itemsThrow as

end

mutual

/-- `String(value)`, where it does not throw; `numberText` is `String` on a number. -/
def text (numberText : ℚ → String) : Json → String
  | .null => "null"
  | .bool b => if b then "true" else "false"
  | .num n => numberText n
  | .str s => s
  | .arr items => ",".intercalate (itemTexts numberText items)
  | .obj _ => "[object Object]"

/-- The texts that the items of an array are joined from. -/
def itemTexts (numberText : ℚ → String) : List Json → List String
  | [] => []
  | .null :: as => "" :: itemTexts numberText as
  | a :: as => text numberText a :: itemTexts numberText as

end

/-- The key under which `object[value]` looks, if converting the value does not throw. -/
def toPropertyKey (numberText : ℚ → String) (value : Json) : Option String :=
  if value.stringThrows then none else some (value.text numberText)

/-- The value, if it is a string. -/
def asString : Json → Option String
  | .str s => some s
  | _ => none

/-! ## Equality is decidable -/

mutual

def beq : Json → Json → Bool
  | .null, .null => true
  | .bool a, .bool b => a == b
  | .num a, .num b => a == b
  | .str a, .str b => a == b
  | .arr as, .arr bs => beqItems as bs
  | .obj as, .obj bs => beqMembers as bs
  | _, _ => false

def beqItems : List Json → List Json → Bool
  | [], [] => true
  | a :: as, b :: bs => beq a b && beqItems as bs
  | _, _ => false

def beqMembers : List (String × Json) → List (String × Json) → Bool
  | [], [] => true
  | (k, a) :: as, (l, b) :: bs => k == l && beq a b && beqMembers as bs
  | _, _ => false

end

mutual

theorem beq_iff : ∀ a b : Json, beq a b = true ↔ a = b
  | .arr as, b => by cases b <;> simp [beq, beqItems_iff as]
  | .obj as, b => by cases b <;> simp [beq, beqMembers_iff as]
  | .null, b | .bool _, b | .num _, b | .str _, b => by cases b <;> simp [beq]

theorem beqItems_iff : ∀ as bs : List Json, beqItems as bs = true ↔ as = bs
  | [], bs => by cases bs <;> simp [beqItems]
  | a :: as, bs => by cases bs <;> simp [beqItems, beq_iff a, beqItems_iff as]

/-- The comparison of lists of members decides equality. -/
theorem beqMembers_iff : ∀ as bs : List (String × Json), beqMembers as bs = true ↔ as = bs
  | [], bs => by cases bs <;> simp [beqMembers]
  | (k, a) :: as, bs => by
    cases bs <;> simp [beqMembers, beq_iff a, beqMembers_iff as, Prod.ext_iff, and_assoc]

end

instance : DecidableEq Json := fun a b => decidable_of_iff (beq a b = true) (beq_iff a b)

end Json
