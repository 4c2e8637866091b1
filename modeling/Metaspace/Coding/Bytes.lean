set_option autoImplicit false

namespace Metaspace.Coding

def byteAt (bytes : ByteArray) (place : Nat) : UInt8 := (bytes[place]?).getD 0

def numberAt (bytes : ByteArray) (place : Nat) : Nat → Nat
  | 0 => 0
  | width + 1 => (byteAt bytes place).toNat + 256 * numberAt bytes (place + 1) width

def bitsAt (bytes : ByteArray) (low n : Nat) : Nat :=
  numberAt bytes (low / 8) ((low % 8 + n + 7) / 8) / Nat.pow 2 (low % 8) % Nat.pow 2 n

/-- Repeats `n` bytes from `distance` bytes back; the copy may run into itself. In front of the
first byte everything is zero. -/
def copyBack (distance : Nat) : Nat → ByteArray → ByteArray
  | 0, out => out
  | n + 1, out =>
    let byte := if distance ≤ out.size then byteAt out (out.size - distance) else 0
    copyBack distance n (out.push byte)

end Metaspace.Coding
