import Datasole.Common.Bytes

/-!
# Compressed messages

`shared/codec/compression.ts`. A message counts as compressed if it starts with the first byte of a
zlib stream, which is no opcode. Inflating is left to pako and is a parameter here.
-/

namespace Datasole

def zlibMagic : UInt8 := 0x78

def maxDecompressedSize : ℕ := 16 * 1024 * 1024

def maxCompressedInput : ℕ := 4 * 1024 * 1024

def isCompressed (data : Bytes) : Bool := decide (2 ≤ data.length ∧ data.getUint8 0 = zlibMagic)

def decompress (inflate : Bytes → Except String Bytes) (data : Bytes) : Except String Bytes :=
  if maxCompressedInput < data.length then
    .error s!"Compressed input too large: {data.length} bytes (max {maxCompressedInput})"
  else
    match inflate data with
    | .error e => .error e
    | .ok result =>
      if maxDecompressedSize < result.length then
        .error s!"Decompressed output too large: {result.length} bytes (max {maxDecompressedSize})"
      else .ok result

end Datasole
