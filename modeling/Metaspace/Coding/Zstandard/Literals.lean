import Metaspace.Coding.Zstandard.PrefixTable

set_option autoImplicit false

namespace Metaspace.Zstandard

open Coding

structure Room where
  capacity : Nat
  blockLimit : Nat
  isRing : Bool

inductive Shelf where
  | apart
  | behind
  /-- The first of them stand in the room itself, from a place on; the others take up none. -/
  | within (place : Nat)
  deriving DecidableEq, Repr

def stride : Nat := 32

def shelfSize : Nat := 65536

def Room.shelf (room : Room) (n : Nat) : Shelf :=
  if !room.isRing && room.blockLimit + 2 * stride + n < room.capacity then .behind
  else if n ≤ shelfSize then .apart
  else .within (min room.blockLimit room.capacity + shelfSize - stride - n)

structure Literals where
  bytes : ByteArray
  shelf : Shelf
  used : Nat

def Room.checkLiterals (room : Room) (n : Nat) : Except ZstandardFault Unit :=
  demand .noRoom (n ≤ min room.blockLimit room.capacity)

def plainLiterals (room : Room) (block : ByteArray) (first : Nat) :
    Except ZstandardFault Literals := do
  let isRepeated := first % 4 = 1
  let format := first / 4 % 4
  let headerSize := if format = 1 then 2 else if format = 3 then 3 else 1
  let n := if headerSize = 1 then first / 8 else numberAt block 0 headerSize / 16
  demand .corrupt
    (headerSize = 1 ∨ headerSize + (if isRepeated then 1 else 0) ≤ block.size)
  demand .corrupt (n ≤ room.blockLimit)
  room.checkLiterals n
  if isRepeated then
    let byte := byteAt block headerSize
    return ⟨⟨Array.replicate n byte⟩, room.shelf n, headerSize + 1⟩
  else
    demand .corrupt (headerSize + n ≤ block.size)
    let shelf := if headerSize + n + stride ≤ block.size then .apart else room.shelf n
    return ⟨block.extract headerSize (headerSize + n), shelf, headerSize + n⟩

def leastForFour : Nat := 6

def codedLiterals (room : Room) (before? : Option PrefixTable) (block : ByteArray) (first : Nat) :
    Except ZstandardFault (Literals × Option PrefixTable) := do
  let isOwn := first % 4 = 2
  demand .noTable (isOwn ∨ before?.isSome)
  demand .corrupt (5 ≤ block.size)
  let format := first / 4 % 4
  let isSingle := format = 0
  let width := if format < 2 then 10 else 4 * format + 6
  let headerSize := if format < 2 then 3 else format + 2
  let sizes := numberAt block 0 headerSize / 16
  let n := sizes % Nat.pow 2 width
  let stop := headerSize + sizes / Nat.pow 2 width
  demand .corrupt (n ≤ room.blockLimit)
  demand .fewLiterals (isSingle ∨ leastForFour ≤ n)
  demand .corrupt (stop ≤ block.size)
  room.checkLiterals n
  let packed := block.extract headerSize stop
  let (table, bytes) ← orCorrupt <|
    if isOwn then PrefixTable.own? isSingle n packed
    else before?.bind fun table => (table.literals? isSingle n packed).map (table, ·)
  return (⟨bytes, room.shelf n, stop⟩, some table)

/-- Reads the literals of a block, if need be with the prefix code of the last block, and tells the
code for the next one. -/
def literals (room : Room) (before? : Option PrefixTable) (block : ByteArray) :
    Except ZstandardFault (Literals × Option PrefixTable) := do
  demand .corrupt (2 ≤ block.size)
  let first := (byteAt block 0).toNat
  if first % 4 < 2 then return (← plainLiterals room block first, before?)
  else codedLiterals room before? block first

end Metaspace.Zstandard
