import Metaspace.Coding.Bytes

set_option autoImplicit false

namespace Metaspace.Digest

def roundWords : Array UInt32 := #[
  0x428A2F98, 0x71374491, 0xB5C0FBCF, 0xE9B5DBA5, 0x3956C25B, 0x59F111F1, 0x923F82A4, 0xAB1C5ED5,
  0xD807AA98, 0x12835B01, 0x243185BE, 0x550C7DC3, 0x72BE5D74, 0x80DEB1FE, 0x9BDC06A7, 0xC19BF174,
  0xE49B69C1, 0xEFBE4786, 0x0FC19DC6, 0x240CA1CC, 0x2DE92C6F, 0x4A7484AA, 0x5CB0A9DC, 0x76F988DA,
  0x983E5152, 0xA831C66D, 0xB00327C8, 0xBF597FC7, 0xC6E00BF3, 0xD5A79147, 0x06CA6351, 0x14292967,
  0x27B70A85, 0x2E1B2138, 0x4D2C6DFC, 0x53380D13, 0x650A7354, 0x766A0ABB, 0x81C2C92E, 0x92722C85,
  0xA2BFE8A1, 0xA81A664B, 0xC24B8B70, 0xC76C51A3, 0xD192E819, 0xD6990624, 0xF40E3585, 0x106AA070,
  0x19A4C116, 0x1E376C08, 0x2748774C, 0x34B0BCB5, 0x391C0CB3, 0x4ED8AA4A, 0x5B9CCA4F, 0x682E6FF3,
  0x748F82EE, 0x78A5636F, 0x84C87814, 0x8CC70208, 0x90BEFFFA, 0xA4506CEB, 0xBEF9A3F7, 0xC67178F2]

structure State where
  a : UInt32
  b : UInt32
  c : UInt32
  d : UInt32
  e : UInt32
  f : UInt32
  g : UInt32
  h : UInt32

def State.initial : State :=
  ⟨0x6A09E667, 0xBB67AE85, 0x3C6EF372, 0xA54FF53A,
    0x510E527F, 0x9B05688C, 0x1F83D9AB, 0x5BE0CD19⟩

def rotate (w : UInt32) (n : UInt32) : UInt32 := (w >>> n) ||| (w <<< (32 - n))

def State.round (s : State) (word constant : UInt32) : State :=
  let mixed := rotate s.e 6 ^^^ rotate s.e 11 ^^^ rotate s.e 25
  let chosen := (s.e &&& s.f) ^^^ (~~~s.e &&& s.g)
  let t := s.h + mixed + chosen + constant + word
  let mixed := rotate s.a 2 ^^^ rotate s.a 13 ^^^ rotate s.a 22
  let majority := (s.a &&& s.b) ^^^ (s.a &&& s.c) ^^^ (s.b &&& s.c)
  ⟨t + (mixed + majority), s.a, s.b, s.c, s.d + t, s.e, s.f, s.g⟩

def State.add (s t : State) : State :=
  ⟨s.a + t.a, s.b + t.b, s.c + t.c, s.d + t.d, s.e + t.e, s.f + t.f, s.g + t.g, s.h + t.h⟩

def word (bytes : ByteArray) (offset : Nat) : UInt32 :=
  (List.range 4).foldl
    (fun number k => (number <<< 8) ||| (Coding.byteAt bytes (offset + k)).toUInt32) 0

/-- The words of the rounds: sixteen from the block, and others that each follow from those
before. -/
def schedule (bytes : ByteArray) (offset : Nat) : Array UInt32 :=
  let given := ((List.range 16).map fun k => word bytes (offset + 4 * k)).toArray
  (List.range 48).foldl
    (fun words k =>
      let x := words.getD (k + 1) 0
      let y := words.getD (k + 14) 0
      let near := rotate x 7 ^^^ rotate x 18 ^^^ (x >>> 3)
      let far := rotate y 17 ^^^ rotate y 19 ^^^ (y >>> 10)
      words.push (words.getD k 0 + near + words.getD (k + 9) 0 + far))
    given

def State.block (s : State) (bytes : ByteArray) (offset : Nat) : State :=
  s.add ((schedule bytes offset).zip roundWords |>.foldl
    (fun s (word, constant) => s.round word constant) s)

def wide (n : Nat) : List UInt8 :=
  (List.range 8).map fun k => UInt8.ofNat (n / Nat.pow 256 (7 - k))

def filled (bytes : ByteArray) : ByteArray :=
  let zeros := (119 - bytes.size % 64) % 64
  bytes ++ ⟨(0x80 :: List.replicate zeros 0 ++ wide (8 * bytes.size)).toArray⟩

def State.bytes (s : State) : ByteArray :=
  let words := [s.a, s.b, s.c, s.d, s.e, s.f, s.g, s.h]
  ⟨(words.flatMap fun w => (List.range 4).map fun k =>
    UInt8.ofNat (w.toNat / Nat.pow 256 (3 - k))).toArray⟩

def digest256 (bytes : ByteArray) : ByteArray :=
  let filled := filled bytes
  ((List.range (filled.size / 64)).foldl
    (fun s k => s.block filled (64 * k)) State.initial).bytes

end Metaspace.Digest
