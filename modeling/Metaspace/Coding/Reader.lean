set_option autoImplicit false

namespace Metaspace

inductive CodingFault where
  | incomplete
  | corrupt
  | foreign
  | unsupported
  | surplus
  deriving DecidableEq, Repr

namespace Coding

abbrev Reader := ReaderT ByteArray (StateT Nat (Except CodingFault))

def demand (holds : Bool) : Reader Unit :=
  if holds then return else throw .corrupt

def lowBit : Reader Nat := do
  let bytes ← read
  let position ← get
  match bytes[position / 8]? with
  | none => throw .incomplete
  | some byte =>
    set (position + 1)
    return byte.toNat / Nat.pow 2 (position % 8) % 2

def highBit : Reader Nat := do
  let bytes ← read
  let position ← get
  match bytes[position / 8]? with
  | none => throw .incomplete
  | some byte =>
    set (position + 1)
    return byte.toNat / Nat.pow 2 (7 - position % 8) % 2

def lowBits : Nat → Reader Nat
  | 0 => return 0
  | n + 1 => do
    let low ← lowBit
    let high ← lowBits n
    return low + 2 * high

def highBitsFrom (value : Nat) : Nat → Reader Nat
  | 0 => return value
  | n + 1 => do highBitsFrom (2 * value + (← highBit)) n

def highBits (n : Nat) : Reader Nat :=
  highBitsFrom 0 n

def alignToByte : Reader Unit :=
  modify fun position => (position + 7) / 8 * 8

def byte : Reader Nat :=
  lowBits 8

def bytes (n : Nat) : Reader ByteArray := do
  let data ← read
  let start := (← get) / 8
  if data.size < start + n then throw .incomplete
  set ((start + n) * 8)
  return data.extract start (start + n)

def Reader.run {α : Type} (reader : Reader α) (bytes : ByteArray) : Except CodingFault α :=
  ((ReaderT.run reader bytes).run 0).map (·.1)

end Coding
end Metaspace
