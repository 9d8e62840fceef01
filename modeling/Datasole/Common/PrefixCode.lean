import Mathlib.Data.List.Infix

/-!
# Prefix codes

Values that are written as strings so that a decoder can read one off the front of its input.
`complete` says that the decoder misses nothing, also with more input behind; `sound` that it
invents nothing. So what it accepts is known exactly (`ok_iff`), and no input starts with two values
(`eq_of_prefix`).
-/

/-- The decoder reads the valid values off the front of its input, and nothing else. -/
structure IsPrefixCode {α β ε : Type*} (valid : α → Prop) (encode : α → List β)
    (decode : List β → Except ε α) : Prop where
  complete : ∀ a, valid a → ∀ rest, decode (encode a ++ rest) = .ok a
  sound : ∀ d a, decode d = .ok a → valid a ∧ ∃ rest, d = encode a ++ rest

namespace IsPrefixCode

variable {α β ε : Type*} {valid : α → Prop} {encode : α → List β} {decode : List β → Except ε α}

/-- The decoder accepts exactly what begins with the code of a valid value, and returns that
value. -/
theorem ok_iff (h : IsPrefixCode valid encode decode) (d : List β) (a : α) :
    decode d = .ok a ↔ valid a ∧ ∃ rest, d = encode a ++ rest := by
  constructor
  · exact h.sound d a
  · rintro ⟨hvalid, rest, rfl⟩
    exact h.complete a hvalid rest

/-- Two valid values whose codes begin one list are the same. -/
theorem eq_of_prefix (h : IsPrefixCode valid encode decode) {a b : α} (ha : valid a) (hb : valid b)
    {s t : List β} (heq : encode a ++ s = encode b ++ t) : a = b ∧ s = t := by
  have hok : decode (encode a ++ s) = .ok a := h.complete a ha s
  rw [heq, h.complete b hb t] at hok
  obtain rfl : b = a := Except.ok.inj hok
  exact ⟨rfl, List.append_cancel_left heq⟩

end IsPrefixCode
