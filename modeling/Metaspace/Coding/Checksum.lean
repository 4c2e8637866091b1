set_option autoImplicit false

namespace Metaspace.Checksum

def polynomial32 : UInt32 := 0xEDB88320

def polynomial64 : UInt64 := 0xC96C5795D7870F42

def forwardPolynomial32 : UInt32 := 0x04C11DB7

def shift32 (c : UInt32) : UInt32 :=
  if c &&& 1 = 1 then (c >>> 1) ^^^ polynomial32 else c >>> 1

def shift64 (c : UInt64) : UInt64 :=
  if c &&& 1 = 1 then (c >>> 1) ^^^ polynomial64 else c >>> 1

def forwardShift32 (c : UInt32) : UInt32 :=
  if c &&& 0x80000000 = 0 then c <<< 1 else (c <<< 1) ^^^ forwardPolynomial32

def times {α : Type} (f : α → α) : Nat → α → α
  | 0, a => a
  | n + 1, a => times f n (f a)

def crc32 (bytes : ByteArray) : UInt32 :=
  bytes.foldl (fun c byte => times shift32 8 (c ^^^ byte.toUInt32)) 0xFFFFFFFF ^^^ 0xFFFFFFFF

def crc64 (bytes : ByteArray) : UInt64 :=
  bytes.foldl (fun c byte => times shift64 8 (c ^^^ byte.toUInt64)) 0xFFFFFFFFFFFFFFFF
    ^^^ 0xFFFFFFFFFFFFFFFF

def forwardCrc32 (bytes : ByteArray) : UInt32 :=
  bytes.foldl (fun c byte => times forwardShift32 8 (c ^^^ (byte.toUInt32 <<< 24))) 0xFFFFFFFF
    ^^^ 0xFFFFFFFF

end Metaspace.Checksum
