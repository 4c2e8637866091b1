import Metaspace.Coding.Zstandard.Literals

set_option autoImplicit false

namespace Metaspace.Zstandard

open Coding

abbrev Ranges := Array (Nat × Nat)

def literalRanges : Ranges :=
  ((Array.range 16).map fun n => (n, 0)) ++
    #[(16, 1), (18, 1), (20, 1), (22, 1), (24, 2), (28, 2), (32, 3), (40, 3), (48, 4), (64, 6),
      (128, 7), (256, 8), (512, 9), (1024, 10), (2048, 11), (4096, 12), (8192, 13), (16384, 14),
      (32768, 15), (65536, 16)]

def copyRanges : Ranges :=
  ((Array.range 32).map fun n => (n + 3, 0)) ++
    #[(35, 1), (37, 1), (39, 1), (41, 1), (43, 2), (47, 2), (51, 3), (59, 3), (67, 4), (83, 4),
      (99, 5), (131, 7), (259, 8), (515, 9), (1027, 10), (2051, 11), (4099, 12), (8195, 13),
      (16387, 14), (32771, 15), (65539, 16)]

def offsetRanges : Ranges :=
  (Array.range 32).map fun n => (Nat.pow 2 n - if n < 2 then 1 else 3, n)

def usualLiterals : StateCode :=
  .ofCounts 6 ([4, 3] ++ List.replicate 11 2 ++ [1, 1, 1] ++ List.replicate 9 2
    ++ [3, 2, 1, 1, 1, 1, 1] ++ List.replicate 4 (-1))

def usualCopies : StateCode :=
  .ofCounts 6 ([1, 4, 3] ++ List.replicate 6 2 ++ List.replicate 37 1 ++ List.replicate 7 (-1))

def usualOffsets : StateCode :=
  .ofCounts 5 (List.replicate 6 1 ++ [2, 2, 2] ++ List.replicate 15 1 ++ List.replicate 5 (-1))

structure SequenceCodes where
  literals : StateCode
  offsets : StateCode
  copies : StateCode

structure Offsets where
  first : Nat
  second : Nat
  third : Nat

def Offsets.usual : Offsets := ⟨1, 4, 8⟩

def Offsets.unreachable : Nat := 0xFFFFFFFFFFFFFFFF

def Offsets.push (offsets : Offsets) (offset : Nat) : Offsets :=
  ⟨offset, offsets.first, offsets.second⟩

/-- The offsets after one of them is used again: which one depends on a number up to three, where
three stands for one less than the first. -/
def Offsets.again (offsets : Offsets) : Nat → Offsets
  | 0 => offsets
  | 1 => ⟨offsets.second, offsets.first, offsets.third⟩
  | 2 => ⟨offsets.third, offsets.first, offsets.second⟩
  | _ =>
    offsets.push (if offsets.first ≤ 1 then Offsets.unreachable else offsets.first - 1)

def sequenceCount (part : ByteArray) : Except ZstandardFault (Nat × Nat) := do
  let first := (byteAt part 0).toNat
  let length := if first < 128 then 1 else if first < 255 then 2 else 3
  demand .badSize (length ≤ part.size)
  return match length with
    | 1 => (first, 1)
    | 2 => (256 * (first - 128) + (byteAt part 1).toNat, 2)
    | _ => (numberAt part 1 2 + 0x7F00, 3)

/-- Reads a code at an offset: the usual one, one symbol, one of its own or that of the last block.
Tells where it ends. -/
def sequenceCode? (part : ByteArray) (offset mode : Nat) (usual : StateCode)
    (before? : Option StateCode) (maxLog limit : Nat) : Option (StateCode × Nat) :=
  match mode with
  | 0 => some (usual, offset)
  | 1 => do
    let symbol := (← part[offset]?).toNat
    if symbol < limit then some (.single symbol, offset + 1) else none
  | 2 => do
    let (code, used) ← StateCode.read? (part.extract offset part.size) maxLog limit
    return (code, offset + used)
  | _ => before?.map (·, offset)

def sequenceCodes? (part : ByteArray) (offset : Nat) (before? : Option SequenceCodes) :
    Option (SequenceCodes × Nat) := do
  let modes := (byteAt part offset).toNat
  if modes % 4 ≠ 0 then none
  let (literals, offset) ← sequenceCode? part (offset + 1) (modes / 64) usualLiterals
    (before?.map (·.literals)) 9 literalRanges.size
  let (offsets, offset) ← sequenceCode? part offset (modes / 16 % 4) usualOffsets
    (before?.map (·.offsets)) 8 offsetRanges.size
  let (copies, offset) ← sequenceCode? part offset (modes / 4 % 4) usualCopies
    (before?.map (·.copies)) 9 copyRanges.size
  return (⟨literals, offsets, copies⟩, offset)

structure Sequence where
  literals : Nat
  offset : Nat
  length : Nat

structure Cursor where
  literals : CodeState
  offsets : CodeState
  copies : CodeState
  bits : Backward
  recent : Offsets

namespace Cursor

def start? (codes : SequenceCodes) (packed : ByteArray) (recent : Offsets) : Option Cursor := do
  let (literals, bits) := codes.literals.start (← Backward.ofBytes? packed)
  let (offsets, bits) := codes.offsets.start bits
  let (copies, bits) := codes.copies.start bits
  return ⟨literals, offsets, copies, bits, recent⟩

def valued (ranges : Ranges) (state : CodeState) (bits : Backward) : Nat × Backward :=
  let (base, extra) := ranges.getD state.symbol (0, 0)
  if extra = 0 then (base, bits) else (base + bits.peek extra, bits.skip extra)

def sequence (cursor : Cursor) : Sequence × Cursor :=
  let (number, bits) := valued offsetRanges cursor.offsets cursor.bits
  let (length, bits) := valued copyRanges cursor.copies bits
  let (literals, bits) := valued literalRanges cursor.literals bits
  let without := if cursor.literals.symbol = 0 then 1 else 0
  let recent :=
    if 2 ≤ cursor.offsets.symbol then cursor.recent.push number
    else cursor.recent.again (number + without)
  (⟨literals, recent.first, length⟩, { cursor with bits, recent })

def next (codes : SequenceCodes) (cursor : Cursor) : Cursor :=
  let (literals, bits) := codes.literals.next cursor.literals cursor.bits
  let (copies, bits) := codes.copies.next cursor.copies bits
  let (offsets, bits) := codes.offsets.next cursor.offsets bits
  { cursor with literals, copies, offsets, bits }

end Cursor

structure Work where
  literals : ByteArray
  shelf : Shelf
  start : Nat
  limit : Nat
  history : Nat

def Work.collides (work : Work) (s : Sequence) (taken written : Nat) : Bool :=
  match work.shelf with
  | .within place =>
    taken + s.literals ≤ work.literals.size - shelfSize && place + taken < written &&
      written < place + taken + s.literals
  | _ => false

def Work.execute (work : Work) (s : Sequence) (taken : Nat) (out : ByteArray) :
    Except ZstandardFault ByteArray := do
  let written := out.size - work.start
  demand .noRoom (written + s.literals + s.length ≤ work.limit)
  demand .corrupt (taken + s.literals ≤ work.literals.size)
  demand .noRoom (!work.collides s taken written)
  demand .corrupt (s.offset ≤ work.history + written + s.literals)
  return copyBack s.offset s.length (out ++ work.literals.extract taken (taken + s.literals))

/-- Reads `n` sequences and carries them out. Tells how many literals were taken. The bits have to
be used up. -/
def Work.run (work : Work) (codes : SequenceCodes) :
    Nat → Cursor → Nat → ByteArray → Except ZstandardFault (Offsets × Nat × ByteArray)
  | 0, cursor, taken, out => do
    demand .corrupt cursor.bits.isUsedUp
    return (cursor.recent, taken, out)
  | n + 1, cursor, taken, out => do
    let (s, cursor) := cursor.sequence
    let out ← work.execute s taken out
    work.run codes n (if n = 0 then cursor else cursor.next codes) (taken + s.literals) out

end Metaspace.Zstandard
