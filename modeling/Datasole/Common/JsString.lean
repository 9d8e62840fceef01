import Mathlib.Data.List.Lex
import Mathlib.Order.Basic

/-!
# JavaScript strings

`<` on JavaScript strings compares UTF-16 code units, which differs from comparing code points once
surrogate pairs occur. Different numbers have different texts.
-/

namespace JsString

/-- The UTF-16 code units of one character. -/
def codeUnit (c : Char) : List ℕ :=
  if c.toNat < 0x10000 then [c.toNat]
  else [0xD800 + (c.toNat - 0x10000) / 0x400, 0xDC00 + (c.toNat - 0x10000) % 0x400]

/-- The UTF-16 code units of a string. -/
def codeUnits (s : String) : List ℕ := s.toList.flatMap codeUnit

/-- `a < b` on JavaScript strings. -/
def Lt (a b : String) : Prop := codeUnits a < codeUnits b

instance (a b : String) : Decidable (Lt a b) :=
  inferInstanceAs (Decidable (codeUnits a < codeUnits b))

/-- Different numbers have different decimal texts. -/
theorem repr_inj {m n : ℕ} (h : m.repr = n.repr) : m = n := by
  have hdigits := congrArg String.toList h
  rw [Nat.toList_repr, Nat.toList_repr] at hdigits
  have hm : Nat.ofDigitChars 10 (Nat.toDigits 10 m) 0 = m := Nat.ofDigitChars_ten_toDigits
  rwa [hdigits, Nat.ofDigitChars_ten_toDigits, eq_comm] at hm

end JsString
