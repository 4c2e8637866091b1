import Metaspace.Coding.Checksum
import Metaspace.Coding.PrefixCode
import Metaspace.Coding.Scrambling

/-!
Reading block-sorted data. A block was packed in four steps, which are undone in reverse order: runs
of bytes are counted; the block is replaced by the last column of its sorted rotations; bytes are
replaced by their places in a list where the byte used last comes first, with runs of the first
place counted in binary; and the result is written in prefix codes that take turns.
-/

set_option autoImplicit false

namespace Metaspace.BlockSorting

open Coding

def expect (expected : List Nat) : Reader Unit :=
  expected.forM fun byte => do demand ((← highBits 8) = byte)

def maxLength : Nat := 20

def turnLength : Nat := 50

def ones : Nat → Reader Nat
  | 0 => throw .corrupt
  | n + 1 => do if (← highBit) = 0 then return 0 else return 1 + (← ones n)

def toFront {α : Type} (list : List α) (place : Nat) : List α :=
  list[place]?.toList ++ list.eraseIdx place

def turns (codes : Nat) : Nat → List Nat → Reader (List Nat)
  | 0, _ => return []
  | n + 1, order => do
    let order := toFront order (← ones codes)
    return order.headD 0 :: (← turns codes n order)

def adjust : Nat → Nat → Reader Nat
  | 0, _ => throw .incomplete
  | fuel + 1, length => do
    demand (1 ≤ length ∧ length ≤ maxLength)
    if (← highBit) = 0 then return length
    else if (← highBit) = 0 then adjust fuel (length + 1)
    else adjust fuel (length - 1)

def lengths (fuel : Nat) : Nat → Nat → Reader (List Nat)
  | 0, _ => return []
  | n + 1, length => do
    let length ← adjust fuel length
    return length :: (← lengths fuel n length)

def codeOf (lengths : List Nat) : PrefixCode := .ofLengths (maxLength + 1) lengths

/-- The codes in the order of their turns, and how many symbols are left in the first turn. -/
structure Turns where
  left : Nat
  codes : List PrefixCode

def Turns.symbol : Turns → Reader (Nat × Turns)
  | ⟨_, []⟩ => throw .corrupt
  | ⟨left, code :: codes⟩ => do
    let symbol ← code.decode highBit
    return (symbol, if left = 1 then ⟨turnLength, codes⟩ else ⟨left - 1, code :: codes⟩)

structure Run where
  length : Nat
  weight : Nat

def Run.none : Run := ⟨0, 1⟩

def weightLimit : Nat := 0x200000

/-- Reads places up to the end mark, and replaces them by bytes; `order` has the byte used last in
front. The symbols 0 and 1 are the digits 1 and 2 of the length of a run, lowest digit first. A run
counts when the symbol after it is known. -/
def column (limit endMark : Nat) :
    Nat → Turns → Run → List UInt8 → Array UInt8 → Reader (Array UInt8)
  | 0, _, _, _, _ => throw .incomplete
  | fuel + 1, turns, run, order, out => do
    let (symbol, turns) ← turns.symbol
    if symbol < 2 then
      demand (run.weight < weightLimit)
      column limit endMark fuel turns
        ⟨run.length + (symbol + 1) * run.weight, 2 * run.weight⟩ order out
    else
      demand (out.size + run.length ≤ limit)
      let out := out ++ Array.replicate run.length (order.headD 0)
      if symbol = endMark then return out
      demand (out.size < limit)
      let order := toFront order (symbol - 1)
      column limit endMark fuel turns .none order (out.push (order.headD 0))

def sortedPlaces (column : Array UInt8) : Array Nat :=
  (column.zipIdx.foldl (fun buckets (byte, place) => buckets.modify byte.toNat (·.push place))
    (Array.replicate 256 #[])).flatten

def followRows (column : Array UInt8) (next : Array Nat) : Nat → Nat → Array UInt8 → Array UInt8
  | 0, _, out => out
  | n + 1, row, out => followRows column next n (next.getD row 0) (out.push (column.getD row 0))

/-- The block whose sorted rotations have the given last column and which is itself in row
`row`. -/
def ofLastColumn (column : Array UInt8) (row : Nat) : Array UInt8 :=
  let next := sortedPlaces column
  followRows column next column.size (next.getD row 0) #[]

def runLength : Nat := 4

def expandRuns : List UInt8 → UInt8 → Nat → ByteArray → Option ByteArray
  | [], _, count, out => if count < runLength then some out else none
  | byte :: rest, last, count, out =>
    if count = runLength then
      expandRuns rest last 0 (out ++ ⟨Array.replicate byte.toNat last⟩)
    else expandRuns rest byte (if count ≠ 0 ∧ byte = last then count + 1 else 1) (out.push byte)

def alphabet : Reader (List UInt8) := do
  let groups ← (List.range 16).mapM fun group => do return (group, ← highBit)
  let bytes ← (groups.filter (·.2 = 1)).mapM fun (group, _) =>
    (List.range 16).mapM fun n => do return (UInt8.ofNat (16 * group + n), ← highBit)
  return (bytes.flatten.filter (·.2 = 1)).map (·.1)

def maxTurns : Nat := 18002

def block (limit : Nat) : Reader ByteArray := do
  let bits := 8 * (← read).size
  let isScrambled := (← highBit) = 1
  let row ← highBits 24
  demand (row ≤ limit + 10)
  let bytes ← alphabet
  demand (!bytes.isEmpty)
  let codeCount ← highBits 3
  demand (2 ≤ codeCount ∧ codeCount ≤ 6)
  let turnCount ← highBits 15
  demand (1 ≤ turnCount)
  let order ← turns codeCount turnCount (List.range codeCount)
  let codes ← (List.range codeCount).mapM fun _ => do
    return codeOf (← lengths bits (bytes.length + 2) (← highBits 5))
  let inTurn := (order.take maxTurns).filterMap (codes[·]?)
  let column ← column limit (bytes.length + 1) (bits + 1) ⟨turnLength, inTurn⟩ .none bytes #[]
  demand (row < column.size)
  let counted := ofLastColumn column row
  let counted := if isScrambled then Scrambling.unscramble counted else counted
  match expandRuns counted.toList 0 0 .empty with
  | some bytes => return bytes
  | none => throw .corrupt

def combine (all one : UInt32) : UInt32 :=
  ((all <<< 1) ||| (all >>> 31)) ^^^ one

def blocks (limit : Nat) : Nat → UInt32 → ByteArray → Reader ByteArray
  | 0, _, _ => throw .incomplete
  | fuel + 1, all, out => do
    let first ← highBits 8
    if first = 0x17 then
      expect [0x72, 0x45, 0x38, 0x50, 0x90]
      demand ((← highBits 32) = all.toNat)
      return out
    else
      demand (first = 0x31)
      expect [0x41, 0x59, 0x26, 0x53, 0x59]
      let stored ← highBits 32
      let bytes ← block limit
      let one := Checksum.forwardCrc32 bytes
      demand (one.toNat = stored)
      blocks limit fuel (combine all one) (out ++ bytes)

def header : Reader Nat := do
  for expected in ['B', 'Z', 'h'] do
    if (← highBits 8) ≠ expected.toNat then throw .foreign
  let digit := (← highBits 8) - '0'.toNat
  if digit = 0 ∨ 9 < digit then throw .foreign
  return digit

end Metaspace.BlockSorting

namespace Metaspace

def unsortBlocks (bytes : ByteArray) : Except CodingFault ByteArray :=
  let reader : Coding.Reader ByteArray := do
    let digit ← BlockSorting.header
    BlockSorting.blocks (100000 * digit) (bytes.size + 1) 0 .empty
  reader.run bytes

end Metaspace
