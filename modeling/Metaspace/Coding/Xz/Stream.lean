import Metaspace.Coding.Checksum
import Metaspace.Coding.Digest
import Metaspace.Coding.Xz.Chunks
import Metaspace.Coding.Xz.Filter

set_option autoImplicit false

namespace Metaspace.Xz

open Coding

/-- A number in groups of seven bits, lowest first, where all bytes but the last have the highest
bit set. The last of several bytes is not zero. -/
def number : Nat → Bool → Reader Nat
  | 0, _ => throw .corrupt
  | n + 1, isFirst => do
    let b ← byte
    if b < 128 then
      demand (isFirst ∨ b ≠ 0)
      return b
    else return b - 128 + 128 * (← number n false)

def maxNumberLength : Nat := 9

def integer : Reader Nat := number maxNumberLength true

def integerLength (n : Nat) : Nat := n.log2 / 7 + 1

def since (position : Nat) : Reader ByteArray := do
  return (← read).extract (position / 8) ((← get) / 8)

def checksummed (position : Nat) : Reader Unit := do
  let expected := Checksum.crc32 (← since position)
  demand ((← lowBits 32) = expected.toNat)

def rounded (n : Nat) : Nat := (n + 3) / 4 * 4

def padding (position : Nat) : Reader Unit := do
  let length := ((← get) - position) / 8
  (List.range (rounded length - length)).forM fun _ => do demand ((← byte) = 0)

def available (n : Nat) : Reader Unit := do
  let before ← get
  let _ ← bytes n
  set before

inductive Check where
  | crc32
  | crc64
  | digest
  | other (length : Nat)
  deriving DecidableEq, Repr

def Check.ofNumber : Nat → Check
  | 0 => .other 0
  | 1 => .crc32
  | 4 => .crc64
  | 10 => .digest
  | n => .other (Nat.pow 2 ((n - 1) / 3 + 2))

def Check.length : Check → Nat
  | .crc32 => 4
  | .crc64 => 8
  | .digest => 32
  | .other length => length

def Check.verify (check : Check) (data : ByteArray) : Reader Unit := do
  let start ← get
  let _ ← bytes check.length
  let stop ← get
  set start
  match check with
  | .crc32 => demand ((← lowBits 32) = (Checksum.crc32 data).toNat)
  | .crc64 => demand ((← lowBits 64) = (Checksum.crc64 data).toNat)
  | .digest => demand ((← bytes 32).data = (Digest.digest256 data).data)
  | .other _ => set stop

def mark : List Nat := [0xFD, 0x37, 0x7A, 0x58, 0x5A, 0x00]

def checkNumber : Reader Nat := do
  let reserved ← byte
  let number ← byte
  if reserved ≠ 0 ∨ 16 ≤ number then throw .unsupported
  return number

def frameLength : Nat := 12

def header : Reader Nat := do
  available frameLength
  for expected in mark do
    if (← byte) ≠ expected then throw .foreign
  let start ← get
  let _ ← bytes 2
  checksummed start
  let after ← get
  set start
  let number ← checkNumber
  set after
  return number

def reach (n : Nat) : Nat :=
  if n = 40 then 0xFFFFFFFF else (2 + n % 2) * Nat.pow 2 (n / 2 + 11)

/-- What is done to the data, in the order in which it was done: first filters, and at last packing
in chunks. -/
inductive Step where
  | filter (filter : Filter)
  | pack (reach : Nat)

def filterStart (size : Nat) : Reader UInt32 := do
  if size = 0 then return 0
  if size ≠ 4 then throw .unsupported
  return (← lowBits 32).toUInt32

def reservedSteps : Nat := 0x4000000000000000

def step (stop : Nat) : Reader Step := do
  let id ← integer
  demand (id < reservedSteps)
  let size ← integer
  demand ((← get) + 8 * size ≤ stop)
  match id with
  | 0x03 => do
    if size ≠ 1 then throw .unsupported
    return .filter (.difference ((← byte) + 1))
  | 0x04 => do return .filter (.x86 (← filterStart size))
  | 0x09 => do
    let start ← filterStart size
    return .filter (.sparc start)
  | 0x21 => do
    if size ≠ 1 then throw .unsupported
    let n ← byte
    if 40 < n then throw .unsupported
    return .pack (reach n)
  | _ => throw .unsupported

/-- The filters of a block, the last one first, and the reach of its copies. Only the last step
packs, and the words of a filter start where words may start. -/
def filters? : List Step → List Filter → Option (List Filter × Nat)
  | [.pack reach], filters => some (filters, reach)
  | .filter (.sparc start) :: rest, filters =>
    if start % 4 = 0 then filters? rest (.sparc start :: filters) else none
  | .filter filter :: rest, filters => filters? rest (filter :: filters)
  | _, _ => none

structure BlockHeader where
  packed? : Option Nat
  unpacked? : Option Nat
  filters : List Filter
  reach : Nat

def leastBlock : Nat := 5

def largestBlock : Nat := 0x7FFFFFFFFFFFFFFC

def blockHeader (check : Check) (size : Nat) : Reader BlockHeader := do
  let start := (← get) - 8
  available (size + 3)
  let stop := start + 8 * size
  set stop
  checksummed start
  let after ← get
  set (start + 8)
  let flags ← byte
  if flags / 4 % 16 ≠ 0 then throw .unsupported
  let inside : Reader BlockHeader := do
    let packed? ← if flags / 64 % 2 = 1 then some <$> integer else pure none
    demand (packed?.all fun n => 0 < n ∧ n + size + 4 + check.length ≤ largestBlock)
    let unpacked? ← if flags / 128 = 1 then some <$> integer else pure none
    let steps ← (List.range (flags % 4 + 1)).mapM fun _ => step stop
    let position ← get
    for b in ← bytes ((stop - position) / 8) do
      if b ≠ 0 then throw .unsupported
    match filters? steps [] with
    | some (filters, reach) => return ⟨packed?, unpacked?, filters, reach⟩
    | none => throw .unsupported
  let header ← within (size - 2) inside
  set after
  return header

structure Record where
  packed : Nat
  unpacked : Nat
  deriving DecidableEq, Repr

def block (check : Check) (words : Nat) : Reader (ByteArray × Record) := do
  let header ← blockHeader check (4 * words)
  let start ← get
  let limit := header.unpacked?.getD largestBlock
  let data ← match header.packed? with
    | some length => within length (chunks header.reach limit)
    | none => chunks header.reach limit
  let packed := ((← get) - start) / 8
  demand (header.packed?.all (· = packed) ∧ header.unpacked?.all (· = data.size))
  padding start
  let data := header.filters.foldl (fun data filter => filter.undo data) data
  check.verify data
  return (data, ⟨4 * words + 4 + packed + check.length, data.size⟩)

structure Sums where
  packed : Nat
  unpacked : Nat
  length : Nat

def Sums.of (records : List Record) : Sums where
  packed := (records.map fun r => rounded r.packed).foldl (· + ·) 0
  unpacked := (records.map Record.unpacked).foldl (· + ·) 0
  length := (records.map fun r => integerLength r.packed + integerLength r.unpacked).foldl (· + ·) 0

def Sums.isWithin (sums limit : Sums) : Bool :=
  sums.packed ≤ limit.packed && sums.unpacked ≤ limit.unpacked && sums.length ≤ limit.length

def records (limit : Sums) : Nat → List Record → Reader (List Record)
  | 0, read => return read
  | n + 1, read => do
    let packed ← integer
    demand (leastBlock ≤ packed ∧ packed ≤ largestBlock)
    let read := ⟨packed, ← integer⟩ :: read
    demand ((Sums.of read).isWithin limit)
    records limit n read

def checksumBytes (checksum : UInt32) : Reader Unit :=
  (List.range 4).forM fun k => do demand ((← byte) = checksum.toNat / Nat.pow 256 k % 256)

/-- The index, of which the first byte was read, and the footer. The blocks are given with the
latest first. -/
def ending (checkId : Nat) (blocks : List Record) : Reader Unit := do
  let start := (← get) - 8
  demand ((← integer) = blocks.length)
  let read ← records (.of blocks) blocks.length []
  padding start
  available 1
  demand (read = blocks)
  checksumBytes (Checksum.crc32 (← since start))
  let length := ((← get) - start) / 8
  available frameLength
  let expected ← lowBits 32
  let footer ← get
  let backward ← lowBits 32
  let flags ← get
  let _ ← bytes 2
  let checksum := Checksum.crc32 (← since footer)
  demand ((← byte) = 'Y'.toNat)
  demand ((← byte) = 'Z'.toNat)
  demand (expected = checksum.toNat)
  let after ← get
  set flags
  let number ← checkNumber
  demand (4 * (backward + 1) = length ∧ number = checkId)
  set after

def blocks (checkId : Nat) : Nat → List Record → ByteArray → Reader ByteArray
  | 0, _, _ => throw .incomplete
  | fuel + 1, records, out => do
    let words ← byte
    if words = 0 then
      ending checkId records
      return out
    else
      let (data, record) ← block (.ofNumber checkId) words
      blocks checkId fuel (record :: records) (out ++ data)

def stream : Reader ByteArray := do
  let size := (← read).size
  let data ← blocks (← header) (size + 1) [] .empty
  if (← get) < 8 * size then throw .surplus
  return data

end Metaspace.Xz

namespace Metaspace

def unpackXz (bytes : ByteArray) : Except CodingFault ByteArray :=
  Xz.stream.run bytes

end Metaspace
