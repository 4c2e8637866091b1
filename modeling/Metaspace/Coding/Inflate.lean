import Metaspace.Coding.Bytes
import Metaspace.Coding.PrefixCode

/-!
Reading deflated data: blocks that are stored, or coded with the fixed or with their own prefix
codes. A copy may reach back before the start, where everything is zero. Every coded symbol takes at
least one bit, so the number of bits bounds the symbols of a block and the blocks.
-/

set_option autoImplicit false

namespace Metaspace

namespace Inflate

open Coding

/-- The lengths of copies that length symbols start from, with the number of bits that are added to
each. -/
def lengths : Array (Nat × Nat) := #[
  (3, 0), (4, 0), (5, 0), (6, 0), (7, 0), (8, 0), (9, 0), (10, 0), (11, 1), (13, 1), (15, 1),
  (17, 1), (19, 2), (23, 2), (27, 2), (31, 2), (35, 3), (43, 3), (51, 3), (59, 3), (67, 4), (83, 4),
  (99, 4), (115, 4), (131, 5), (163, 5), (195, 5), (227, 5), (258, 0)]

def distances : Array (Nat × Nat) := #[
  (1, 0), (2, 0), (3, 0), (4, 0), (5, 1), (7, 1), (9, 2), (13, 2), (17, 3), (25, 3), (33, 4),
  (49, 4), (65, 5), (97, 5), (129, 6), (193, 6), (257, 7), (385, 7), (513, 8), (769, 8), (1025, 9),
  (1537, 9), (2049, 10), (3073, 10), (4097, 11), (6145, 11), (8193, 12), (12289, 12), (16385, 13),
  (24577, 13)]

def maxLiterals : Nat := 286

def maxDistances : Nat := 30

def maxLength : Nat := 15

/-- A code of a block. It may also have one symbol, whose code is a zero, or none. -/
inductive Code where
  | full (code : PrefixCode)
  | lone (symbol : Nat)
  | empty

def Code.ofLengths? (lengths : List Nat) : Option Code :=
  if PrefixCode.isComplete maxLength lengths then some (.full (.ofLengths maxLength lengths))
  else
    match lengths.zipIdx.filter (·.1 ≠ 0) with
    | [] => some .empty
    | [(1, symbol)] => some (.lone symbol)
    | _ => none

def Code.decode : Code → Reader Nat
  | .full code => code.decode lowBit
  | .lone symbol => do
    demand ((← lowBit) = 0)
    return symbol
  | .empty => do
    let _ ← lowBit
    throw .corrupt

def extended (table : Array (Nat × Nat)) (symbol : Nat) : Reader Nat :=
  match table[symbol]? with
  | none => throw .corrupt
  | some (base, extra) => do return base + (← lowBits extra)

def symbols (literals distances : Code) : Nat → ByteArray → Reader ByteArray
  | 0, _ => throw .incomplete
  | fuel + 1, out => do
    let symbol ← literals.decode
    if symbol < 256 then symbols literals distances fuel (out.push symbol.toUInt8)
    else if symbol = 256 then return out
    else
      let length ← extended lengths (symbol - 257)
      let distance ← extended Inflate.distances (← distances.decode)
      symbols literals distances fuel (copyBack distance length out)

def fixedLengths : List Nat :=
  List.replicate 144 8 ++ List.replicate 112 9 ++ List.replicate 24 7 ++ List.replicate 8 8

def fixedLiterals : Code :=
  .full (.ofLengths maxLength fixedLengths)

def fixedDistances : Code :=
  .full (.ofLengths maxLength (List.replicate 32 5))

def codeLengths (code : PrefixCode) (total : Nat) : Nat → List Nat → Reader (List Nat)
  | 0, _ => throw .incomplete
  | fuel + 1, read =>
    if total ≤ read.length then do
      demand (read.length = total)
      return read.reverse
    else do
      let symbol ← code.decode lowBit
      if symbol < 16 then codeLengths code total fuel (symbol :: read)
      else if symbol = 16 then
        match read with
        | [] => throw .corrupt
        | last :: _ => codeLengths code total fuel (List.replicate (3 + (← lowBits 2)) last ++ read)
      else if symbol = 17 then
        codeLengths code total fuel (List.replicate (3 + (← lowBits 3)) 0 ++ read)
      else codeLengths code total fuel (List.replicate (11 + (← lowBits 7)) 0 ++ read)

def lengthOrder : List Nat :=
  [16, 17, 18, 0, 8, 7, 9, 6, 10, 5, 11, 4, 12, 3, 13, 2, 14, 1, 15]

def ofLengths (lengths : List Nat) : Reader Code :=
  match Code.ofLengths? lengths with
  | some code => return code
  | none => throw .corrupt

def ownCodes : Reader (Code × Code) := do
  let literals := (← lowBits 5) + 257
  let distances := (← lowBits 5) + 1
  let count := (← lowBits 4) + 4
  demand (literals ≤ maxLiterals ∧ distances ≤ maxDistances)
  let written ← (lengthOrder.take count).mapM fun symbol => do return (symbol, ← lowBits 3)
  let lengths := (List.range 19).map fun symbol => (written.lookup symbol).getD 0
  demand (PrefixCode.isComplete maxLength lengths)
  let total := literals + distances
  let all ← codeLengths (.ofLengths maxLength lengths) total (total + 1) []
  return (← ofLengths (all.take literals), ← ofLengths (all.drop literals))

def stored (out : ByteArray) : Reader ByteArray := do
  alignToByte
  let length ← lowBits 16
  let complement ← lowBits 16
  demand (length + complement = 65535)
  return out ++ (← bytes length)

def blocks : Nat → ByteArray → Reader ByteArray
  | 0, _ => throw .incomplete
  | fuel + 1, out => do
    let last ← lowBit
    let out ← match ← lowBits 2 with
      | 0 => stored out
      | 1 => symbols fixedLiterals fixedDistances (fuel + 1) out
      | 2 => do
        let (literals, distances) ← ownCodes
        symbols literals distances (fuel + 1) out
      | _ => throw .corrupt
    if last = 1 then return out else blocks fuel out

end Inflate

def inflate (bytes : ByteArray) : Except CodingFault ByteArray :=
  (Inflate.blocks (8 * bytes.size + 1) .empty).run bytes

end Metaspace
