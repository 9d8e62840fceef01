import Datasole.Common.Binary64
import Datasole.Common.JsString

/-!
# JavaScript values and operators

Values without methods of their own: what `JSON.parse` can give, and `undefined`. `+`, `-` and `>=`
bring their operands to primitive values first, an array or object by way of its text. That throws
where an object has a property `toString`, which is then no function.

How a number is written, and which number a string stands for, is the parameter `texts`.
-/

open Binary64

inductive JsValue where
  | undefined
  | null
  | bool (b : Bool)
  | number (n : Number)
  | string (s : String)
  | array (identity : ℕ) (items : List JsValue)
  | object (identity : ℕ) (members : List (String × JsValue))

/-- A value as the key of a `Map`: an array or object is the same key as itself only. -/
inductive JsKey where
  | undefined
  | null
  | bool (b : Bool)
  | number (n : Number)
  | string (s : String)
  | identity (n : ℕ)
deriving DecidableEq

inductive JsPrimitive where
  | undefined
  | null
  | bool (b : Bool)
  | number (n : Number)
  | string (s : String)
deriving DecidableEq

structure NumberTexts where
  toText : Number → String
  ofText : String → Number

namespace JsPrimitive

variable (texts : NumberTexts)

def toText : JsPrimitive → String
  | undefined => "undefined"
  | null => "null"
  | bool b => if b then "true" else "false"
  | number n => texts.toText n
  | string s => s

def toNumber : JsPrimitive → Number
  | undefined => .nan
  | null => .finite .zero
  | bool b => .finite (if b then .one else .zero)
  | number n => n
  | string s => texts.ofText s

/-- `a + b`. -/
def add : JsPrimitive → JsPrimitive → JsPrimitive
  | string s, b => string (s ++ b.toText texts)
  | a, string t => string (a.toText texts ++ t)
  | a, b => number ((a.toNumber texts).add (b.toNumber texts))

/-- `a - b`. -/
def sub (a b : JsPrimitive) : JsPrimitive := number ((a.toNumber texts).sub (b.toNumber texts))

/-- `a >= b`. -/
def ge : JsPrimitive → JsPrimitive → Bool
  | string s, string t => ¬ JsString.Lt s t
  | a, b => (a.toNumber texts).ge (b.toNumber texts)

def IsFinite : JsPrimitive → Prop
  | number n => n.IsFinite
  | undefined | null | bool _ | string _ => False

instance : DecidablePred IsFinite
  | number n => inferInstanceAs (Decidable n.IsFinite)
  | undefined | null | bool _ | string _ => .isFalse id

/-- The number that `+` adds for the value, where it does not put texts together. -/
def addend : JsPrimitive → Option Number
  | undefined => some .nan
  | null => some (.finite .zero)
  | bool b => some (.finite (if b then .one else .zero))
  | number n => some n
  | string _ => none

def numberOf : JsPrimitive → Number
  | number n => n
  | undefined | null | bool _ | string _ => .nan

/-- The units of a finite number. -/
def units : JsPrimitive → ℤ
  | number (.finite x) => x.units
  | undefined | null | bool _ | string _ | number .nan | number .infinity | number .negInfinity => 0

variable {texts} {n : Number} {a b : JsPrimitive}

/-- A primitive is finite exactly if it is a finite number. -/
theorem isFinite_iff : a.IsFinite ↔ ∃ x, a = number (.finite x) := by
  cases a with
  | number n => simp only [IsFinite, Number.isFinite_iff, number.injEq]
  | undefined | null | bool | string => exact ⟨False.elim, fun ⟨_, h⟩ => JsPrimitive.noConfusion h⟩

/-- Adding a primitive that counts as a number to a number is adding that number. -/
theorem number_add_of_addend {m : Number} (h : b.addend = some m) :
    (number n).add texts b = number (n.add m) := by
  cases b with
  | string => cases h
  | undefined | null | bool | number => cases h; rfl

/-- A sum is a number only if no text is added. -/
theorem addend_of_isFinite (h : ((number n).add texts b).IsFinite) :
    ∃ m, b.addend = some m ∧ (n.add m).IsFinite := by
  cases b with
  | string => cases h
  | undefined | null | bool | number => exact ⟨_, rfl, h⟩

/-- Adding finite numbers one after the other is adding doubles. -/
theorem foldl_add {total : Number} {vs : List JsPrimitive} (h : ∀ v ∈ vs, v.IsFinite) :
    vs.foldl (add texts) (number total) = number ((vs.map numberOf).foldl Number.add total) := by
  induction vs generalizing total with
  | nil => rfl
  | cons v vs ih =>
    obtain ⟨x, rfl⟩ := isFinite_iff.mp (h v List.mem_cons_self)
    exact ih fun w hw => h w (List.mem_cons_of_mem _ hw)

/-- Subtracting finite numbers one after the other is adding their negatives. -/
theorem foldl_sub {total : Number} {vs : List JsPrimitive} (h : ∀ v ∈ vs, v.IsFinite) :
    vs.foldl (sub texts) (number total) =
      number ((vs.map fun v => v.numberOf.neg).foldl Number.add total) := by
  induction vs generalizing total with
  | nil => rfl
  | cons v vs ih =>
    obtain ⟨x, rfl⟩ := isFinite_iff.mp (h v List.mem_cons_self)
    exact ih fun w hw => h w (List.mem_cons_of_mem _ hw)

end JsPrimitive

namespace JsValue

variable (texts : NumberTexts)

def isNullish : JsValue → Bool
  | undefined | null => true
  | bool _ | number _ | string _ | array _ _ | object _ _ => false

def truthy : JsValue → Bool
  | undefined | null => false
  | bool b => b
  | number n => n ≠ .nan ∧ n ≠ .finite .zero
  | string s => s ≠ ""
  | array _ _ | object _ _ => true

/-- `v === s`. -/
def isString : JsValue → String → Bool
  | string t, s => t = s
  | _, _ => false

theorem isString_iff {v : JsValue} {s : String} : v.isString s = true ↔ v = string s := by
  cases v <;> simp [isString]

/-- The property of the value under a name that only objects have. -/
def property : JsValue → String → JsValue
  | object _ members, name => (members.lookup name).getD undefined
  | _, _ => undefined

/-- The members of an object that is no array. -/
def members : JsValue → Option (List (String × JsValue))
  | object _ ms => some ms
  | _ => none

/-- `Object.entries`, for a value of the type `'object'` that is not null. -/
def entries : JsValue → Option (List (String × JsValue))
  | array _ items => some (items.zipIdx.map fun item => (toString item.2, item.1))
  | object _ ms => some ms
  | _ => none

/-- The value, if it is not `undefined`. -/
def defined : JsValue → Option JsValue
  | undefined => none
  | v => some v

theorem defined_inj {v w : JsValue} : v.defined = w.defined ↔ v = w := by
  cases v <;> cases w <;> simp [defined]

def key : JsValue → JsKey
  | undefined => .undefined
  | null => .null
  | bool b => .bool b
  | number n => .number n
  | string s => .string s
  | array n _ | object n _ => .identity n

mutual

/-- The text of the value; `none` where taking it throws. -/
def toText : JsValue → Option String
  | undefined => some "undefined"
  | null => some "null"
  | bool b => some (if b then "true" else "false")
  | number n => some (texts.toText n)
  | string s => some s
  | array _ items => (itemTexts items).map (",".intercalate ·)
  | object _ members => if (members.lookup "toString").isSome then none else some "[object Object]"

/-- In the text of an array `null` and `undefined` are empty. -/
def itemTexts : List JsValue → Option (List String)
  | [] => some []
  | v :: vs =>
    match if v.isNullish then some "" else toText v, itemTexts vs with
    | some text, some rest => some (text :: rest)
    | _, _ => none

end

def toPrimitive : JsValue → Option JsPrimitive
  | undefined => some .undefined
  | null => some .null
  | bool b => some (.bool b)
  | number n => some (.number n)
  | string s => some (.string s)
  | v@(array _ _) | v@(object _ _) => (v.toText texts).map .string

/-- `a >= b`; `none` where it throws. -/
def ge (a b : JsValue) : Option Bool :=
  match a.toPrimitive texts, b.toPrimitive texts with
  | some a, some b => some (a.ge texts b)
  | _, _ => none

/-- The value is a finite number. -/
def IsFinite : JsValue → Prop
  | number n => n.IsFinite
  | undefined | null | bool _ | string _ | array _ _ | object _ _ => False

instance : DecidablePred IsFinite
  | number n => inferInstanceAs (Decidable n.IsFinite)
  | undefined | null | bool _ | string _ | array _ _ | object _ _ => .isFalse id

end JsValue
