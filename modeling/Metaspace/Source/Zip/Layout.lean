set_option autoImplicit false

namespace Metaspace.Zip

def number? (bytes : ByteArray) (offset : Nat) : Nat → Option Nat
  | 0 => some 0
  | width + 1 => do
    let low ← bytes[offset]?
    let high ← number? bytes (offset + 1) width
    return low.toNat + 256 * high

def littleEndian : Nat → Nat → List UInt8
  | 0, _ => []
  | width + 1, n => UInt8.ofNat n :: littleEndian width (n / 256)

def endSignature : Nat := 0x06054B50

def wideEndSignature : Nat := 0x06064B50

def locatorSignature : Nat := 0x07064B50

def listingSignature : Nat := 0x02014B50

def entrySignature : Nat := 0x04034B50

def isAt (bytes : ByteArray) (signature offset : Nat) : Bool :=
  number? bytes offset 4 = some signature

def places (bytes : ByteArray) (signature start stop : Nat) : List Nat :=
  ((List.range (stop - start)).map (start + ·)).filter fun offset =>
    offset + 4 ≤ stop && isAt bytes signature offset

def numberLimit : Nat := 0x10000000000000000

end Metaspace.Zip
