import Mathlib.Algebra.Group.Nat.Defs
import Mathlib.Data.List.Basic

/-!
# Bytes

Byte strings and the big-endian 32-bit numbers in them, as `DataView` and the ring buffer write
them.
-/

namespace Datasole

abbrev Bytes := List UInt8

namespace Bytes

/-- The four bytes of a number, the highest first; bits above the lowest 32 are dropped. -/
def uint32 (n : ℕ) : Bytes :=
  [UInt8.ofNat (n / 2 ^ 24), UInt8.ofNat (n / 2 ^ 16), UInt8.ofNat (n / 2 ^ 8), UInt8.ofNat n]

/-- The number that four bytes form, the highest first. -/
def ofUint32 (b₀ b₁ b₂ b₃ : UInt8) : ℕ :=
  b₀.toNat * 2 ^ 24 + b₁.toNat * 2 ^ 16 + b₂.toNat * 2 ^ 8 + b₃.toNat

/-- The bytes of a text that is all ASCII. -/
def ofAscii (s : String) : Bytes := s.toList.map fun c => UInt8.ofNat c.toNat

/-- `getUint8(i)` of a view on the bytes. -/
def getUint8 (data : Bytes) (i : ℕ) : UInt8 := data[i]?.getD 0

/-- `getUint32(i, false)` of a view on the bytes. -/
def getUint32 (data : Bytes) (i : ℕ) : ℕ :=
  ofUint32 (data.getUint8 i) (data.getUint8 (i + 1)) (data.getUint8 (i + 2)) (data.getUint8 (i + 3))

@[simp] theorem length_uint32 (n : ℕ) : (uint32 n).length = 4 := rfl

/-- The four bytes of a number give it back modulo `2 ^ 32`. -/
theorem ofUint32_uint32 (n : ℕ) :
    ofUint32 (UInt8.ofNat (n / 2 ^ 24)) (UInt8.ofNat (n / 2 ^ 16)) (UInt8.ofNat (n / 2 ^ 8))
      (UInt8.ofNat n) = n % 2 ^ 32 := by
  simp only [ofUint32, UInt8.toNat_ofNat']
  omega

/-- Four bytes read as a number stay below `2 ^ 32`. -/
theorem getUint32_lt (data : Bytes) (i : ℕ) : data.getUint32 i < 2 ^ 32 := by
  have h₀ := (data.getUint8 i).toNat_lt
  have h₁ := (data.getUint8 (i + 1)).toNat_lt
  have h₂ := (data.getUint8 (i + 2)).toNat_lt
  have h₃ := (data.getUint8 (i + 3)).toNat_lt
  simp only [getUint32, ofUint32]
  omega

end Bytes

end Datasole
