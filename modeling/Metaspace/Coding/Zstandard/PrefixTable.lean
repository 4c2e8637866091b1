import Metaspace.Coding.StateCode
import Metaspace.Coding.Zstandard.Fault

set_option autoImplicit false

namespace Metaspace.Zstandard

open Coding

/-- For every `maxBits` bits, the symbol whose code they start with, and the length of the code. -/
structure PrefixTable where
  maxBits : Nat
  entries : Array (Nat × Nat)
  isPaired : Bool

namespace PrefixTable

def longest : Nat := 12

/-- The table in which symbol `n` has the `n`-th weight; symbols of weight zero do not occur, others
take `2 ^ (weight - 1)` entries. The weight of one more symbol is what is left. -/
def ofWeights? (weights : List Nat) (isPaired : Bool) : Option PrefixTable :=
  let taken := ((weights.filter (· ≠ 0)).map fun w => Nat.pow 2 (w - 1)).foldl (· + ·) 0
  let maxBits := taken.log2 + 1
  let rest := Nat.pow 2 maxBits - taken
  let all := weights ++ [rest.log2 + 1]
  let rare := all.count 1
  if weights.any (longest < ·) ∨ taken = 0 ∨ longest < maxBits ∨ Nat.pow 2 rest.log2 ≠ rest ∨
      rare < 2 ∨ rare % 2 = 1 then none
  else
    let entries := (List.range maxBits).flatMap fun w =>
      (all.zipIdx.filter (·.1 = w + 1)).flatMap fun (_, symbol) =>
        List.replicate (Nat.pow 2 w) (symbol, maxBits - w)
    some ⟨maxBits, entries.toArray, isPaired⟩

def weightsFrom (code : StateCode) : Nat → CodeState → CodeState → Backward → Option (List Nat)
  | 0, _, _, _ => none
  | fuel + 1, now, other, bits =>
    let (next, bits) := code.next now bits
    if bits.isOverrun then some [now.symbol, other.symbol]
    else do return now.symbol :: (← weightsFrom code fuel other next bits)

def maxWeights : Nat := 254

def maxWeightLog : Nat := 6

def symbolLimit (log : Nat) : Nat := if log < maxWeightLog then 92 else 12

def codedWeights? (packed : ByteArray) : Option (List Nat) := do
  let (code, used) ← StateCode.read? packed maxWeightLog 256
  if code.states.any (symbolLimit code.log ≤ ·.symbol) then none
  let (first, bits) := code.start (← Backward.ofBytes? (packed.extract used packed.size))
  let (second, bits) := code.start bits
  if bits.isOverrun then none
  weightsFrom code maxWeights first second bits

def weights? (bytes : ByteArray) : Option (List Nat × Nat) := do
  let header := (← bytes[0]?).toNat
  let length := if 128 ≤ header then (header - 126) / 2 else header
  if bytes.size < 1 + length then none
  let packed := bytes.extract 1 (1 + length)
  let weights ←
    if 128 ≤ header then
      some ((packed.data.toList.flatMap fun b => [b.toNat / 16, b.toNat % 16]).take (header - 127))
    else codedWeights? packed
  return (weights, 1 + length)

def width (table : PrefixTable) : Nat := max table.maxBits 11

def entry (table : PrefixTable) (bits : Nat) : Nat × Nat :=
  table.entries.getD (bits / Nat.pow 2 (table.width - table.maxBits)) (0, 0)

def step (table : PrefixTable) (bits : Backward) : List UInt8 × Backward :=
  let seen := bits.peek table.width
  let (first, length) := table.entry seen
  let (second, more) := table.entry (seen * Nat.pow 2 length % Nat.pow 2 table.width)
  if table.isPaired ∧ length + more ≤ table.width then
    ([UInt8.ofNat first, UInt8.ofNat second], bits.skip (length + more))
  else ([UInt8.ofNat first], bits.skip length)

/-- Reads the last symbol. Where a pair of symbols would follow, both of them are passed over, but
not beyond the end. -/
def lastStep (table : PrefixTable) (bits : Backward) : List UInt8 × Backward :=
  match table.step bits with
  | ([first, _], rest) =>
    ([first],
      if 0 < bits.left then { rest with left := max rest.left 0 } else bits)
  | result => result

def stride (table : PrefixTable) : Nat := if table.isPaired then 2 else 1

def symbols (table : PrefixTable) : Nat → Nat → Backward → ByteArray → ByteArray × Backward
  | 0, _, bits, out => (out, bits)
  | fuel + 1, n, bits, out =>
    if n = 0 then (out, bits)
    else
      let (found, bits) := if n < table.stride then table.lastStep bits else table.step bits
      symbols table fuel (n - found.length) bits (found.foldl .push out)

def stream? (table : PrefixTable) (n : Nat) (packed : ByteArray) (out : ByteArray) :
    Option ByteArray := do
  let (out, bits) := table.symbols n n (← Backward.ofBytes? packed) out
  if bits.isUsedUp then some out else none

/-- A stream within the bytes of all streams, while they are read side by side: where its unread
bytes end, the symbols so far, and how many are left. -/
structure Lane where
  bits : Backward
  stop : Nat
  out : ByteArray
  left : Nat

def Lane.ofStop (bytes : ByteArray) (stop n : Nat) : Lane :=
  let last := (byteAt bytes (stop - 1)).toNat
  let mark := if last = 0 then 0 else 8 - last.log2
  ⟨⟨bytes, (8 * stop - mark : Nat)⟩, stop, .empty, n⟩

def advance (table : PrefixTable) : Nat → Lane → Lane
  | 0, lane => lane
  | n + 1, lane =>
    let (found, bits) := table.step lane.bits
    advance table n
      { lane with bits, out := found.foldl .push lane.out, left := lane.left - found.length }

def roundSteps : Nat := 5

def round (table : PrefixTable) (lane : Lane) : Lane :=
  let lane := table.advance roundSteps lane
  { lane with stop := (lane.bits.left.toNat + 7) / 8 }

def safeRounds (table : PrefixTable) (lanes : List Lane) : Nat :=
  let bytes := ((lanes.head?.elim 0 Lane.stop) - 8) / 7
  let counted := if table.isPaired then lanes else lanes.drop 3
  counted.foldl (fun n lane => min n (lane.left / (roundSteps * table.stride))) bytes

def inOrder : List Lane → Bool
  | a :: b :: rest => a.stop ≤ b.stop && inOrder (b :: rest)
  | _ => true

def rounds (table : PrefixTable) (target : Nat) : Nat → List Lane → List Lane
  | 0, lanes => lanes
  | fuel + 1, lanes =>
    let lanes := lanes.map table.round
    if target < (lanes.getLast?.elim 0 Lane.left) then rounds table target fuel lanes else lanes

def sideBySide (table : PrefixTable) : Nat → List Lane → List Lane
  | 0, lanes => lanes
  | fuel + 1, lanes =>
    let n := table.safeRounds lanes
    if n = 0 ∨ ¬inOrder lanes then lanes
    else
      let left := lanes.getLast?.elim 0 Lane.left
      sideBySide table fuel (table.rounds (left - roundSteps * n) n lanes)

def leastLane : Nat := 8

def stops (lengths : List Nat) (size : Nat) : List Nat :=
  let stop (n : Nat) := (lengths.take n).foldl (· + ·) 6
  [stop 1, stop 2, stop lengths.length, size]

def fourStreams? (table : PrefixTable) (n : Nat) (bytes : ByteArray) : Option ByteArray := do
  let lengths := [numberAt bytes 0 2, numberAt bytes 2 2, numberAt bytes 4 2]
  if bytes.size < 10 ∨ bytes.size < lengths.foldl (· + ·) 6 then none
  let part := (n + 3) / 4
  let counts := [part, part, part, n - 3 * part]
  let stops := stops lengths bytes.size
  let starts := 6 :: stops.take 3
  if table.width = 11 ∧ counts.all (0 < ·) ∧
      (starts.zip stops).all fun (start, stop) => start + leastLane ≤ stop then
    let lanes := (stops.zip counts).map fun (stop, count) => Lane.ofStop bytes stop count
    let lanes := table.sideBySide n lanes
    if (starts.zip lanes).any fun (start, lane) => lane.stop < start then none
    return lanes.foldl
      (fun out lane => out ++ (table.symbols lane.left lane.left lane.bits lane.out).1) .empty
  else
    (starts.zip (stops.zip counts)).foldlM
      (fun out (start, stop, count) => table.stream? count (bytes.extract start stop) out) .empty

/-- The time it takes to read by one and by two symbols: what a table and what 256 symbols take, by
the sixteenths of their size to which literals are packed. -/
def times : Array ((Nat × Nat) × (Nat × Nat)) := #[
  ((0, 0), (1, 1)), ((0, 0), (1, 1)), ((150, 216), (381, 119)), ((170, 205), (514, 112)),
  ((177, 199), (539, 110)), ((197, 194), (644, 107)), ((221, 192), (735, 107)),
  ((256, 189), (881, 106)), ((359, 188), (1167, 109)), ((582, 187), (1570, 114)),
  ((688, 187), (1712, 122)), ((825, 186), (1965, 136)), ((976, 185), (2131, 150)),
  ((1180, 186), (2070, 175)), ((1377, 185), (1731, 202)), ((1412, 185), (1695, 202))]

/-- Whether reading `n` symbols from some bytes is faster in pairs. The greater table counts for a
little more. -/
def pairsPay (n size : Nat) : Bool :=
  let sixteenths := if n ≤ size then 15 else size * 16 / n
  let ((table, symbols), (pairTable, pairSymbols)) := times.getD sixteenths ((0, 0), (1, 1))
  let single := table + symbols * (n / 256)
  let paired := pairTable + pairSymbols * (n / 256)
  paired + paired / 32 < single

def literals? (table : PrefixTable) (isSingle : Bool) (n : Nat) (packed : ByteArray) :
    Option ByteArray :=
  if isSingle then table.stream? n packed .empty else table.fourStreams? n packed

def own? (isSingle : Bool) (n : Nat) (bytes : ByteArray) : Option (PrefixTable × ByteArray) := do
  let (weights, used) ← weights? bytes
  if bytes.size ≤ used then none
  let table ← ofWeights? weights (!isSingle && pairsPay n bytes.size)
  return (table, ← table.literals? isSingle n (bytes.extract used bytes.size))

end PrefixTable
end Metaspace.Zstandard
