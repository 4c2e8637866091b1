import Metaspace.Coding.Zstandard.Block
import Metaspace.Coding.Zstandard.Checksum
import Metaspace.Coding.Zstandard.Destination

set_option autoImplicit false

namespace Metaspace.Zstandard

open Coding

def mark : Nat := 0xFD2FB528

def passedMark : Nat := 0x184D2A50

structure FrameHeader where
  length : Nat
  window : Nat
  size? : Option Nat
  dictionary : Nat
  hasChecksum : Bool

def largestBlock : Nat := 131072

def FrameHeader.blockLimit (header : FrameHeader) : Nat := min header.window largestBlock

inductive Heading where
  | frame (header : FrameHeader)
  | passed (size : Nat)

def mayBeMark (bytes : ByteArray) (position : Nat) : Bool :=
  let n := min 4 (bytes.size - position)
  let found := numberAt bytes position n
  found = mark % Nat.pow 256 n || found / 16 = passedMark % Nat.pow 256 n / 16

def passedHeaderLength : Nat := 8

def leastHeader : Nat := 5

def unknownSize : Nat := 0xFFFFFFFFFFFFFFFF

def frameHeader (bytes : ByteArray) (position : Nat) : Except ZstandardFault FrameHeader := do
  let descriptor := (byteAt bytes (position + 4)).toNat
  let isSingle := descriptor / 32 % 2 = 1
  let windowWidth := if isSingle then 0 else 1
  let dictionaryWidth := [0, 1, 2, 4].getD (descriptor % 4) 0
  let sizeWidth := [if isSingle then 1 else 0, 2, 4, 8].getD (descriptor / 64) 0
  let length := leastHeader + windowWidth + dictionaryWidth + sizeWidth
  demand .incomplete (position + length ≤ bytes.size)
  demand .unsupported (descriptor / 8 % 2 = 0)
  let place := position + leastHeader
  let windowByte := (byteAt bytes place).toNat
  demand .hugeWindow (isSingle ∨ windowByte / 8 + 10 ≤ 31)
  let dictionary := numberAt bytes (place + windowWidth) dictionaryWidth
  let size := numberAt bytes (place + windowWidth + dictionaryWidth) sizeWidth
    + if sizeWidth = 2 then 256 else 0
  let window := if isSingle then size else Nat.pow 2 (windowByte / 8 + 7) * (8 + windowByte % 8)
  let size? := if sizeWidth = 0 ∨ size = unknownSize then none else some size
  return ⟨length, window, size?, dictionary, descriptor / 4 % 2 = 1⟩

def heading (bytes : ByteArray) (position : Nat) : Except ZstandardFault Heading := do
  if bytes.size < position + leastHeader then
    demand .foreign (mayBeMark bytes position)
    throw .incomplete
  let found := numberAt bytes position 4
  if found = mark then return .frame (← frameHeader bytes position)
  else
    demand .foreign (found / 16 = passedMark / 16)
    demand .incomplete (position + passedHeaderLength ≤ bytes.size)
    return .passed (numberAt bytes (position + 4) 4)

inductive BlockKind where
  | plain
  | repeated
  | packed
  deriving DecidableEq, Repr

structure BlockHeader where
  isLast : Bool
  kind : BlockKind
  size : Nat

def blockHeaderLength : Nat := 3

def blockHeader (bytes : ByteArray) (position : Nat) : Except ZstandardFault BlockHeader :=
  let n := numberAt bytes position blockHeaderLength
  let header (kind : BlockKind) : BlockHeader := ⟨n % 2 = 1, kind, n / 8⟩
  match n / 2 % 4 with
  | 0 => .ok (header .plain)
  | 1 => .ok (header .repeated)
  | 2 => .ok (header .packed)
  | _ => .error .corrupt

def BlockHeader.length (header : BlockHeader) : Nat :=
  if header.kind = .repeated then 1 else header.size

def checksumLength : Nat := 4

def frameEnd? (bytes : ByteArray) (hasChecksum : Bool) (stop : Nat) : Nat → Nat → Option Nat
  | 0, _ => none
  | fuel + 1, position =>
    if stop < position + blockHeaderLength then none
    else
      match blockHeader bytes position with
      | .error _ => none
      | .ok header =>
        let position := position + blockHeaderLength + header.length
        if stop < position then none
        else if header.isLast then
          let position := position + if hasChecksum then checksumLength else 0
          if stop < position then none else some position
        else frameEnd? bytes hasChecksum stop fuel position

def verify (bytes : ByteArray) (position : Nat) (data : ByteArray) :
    Except ZstandardFault Unit :=
  demand .badChecksum (numberAt bytes position checksumLength = Checksum.checksum data)

def repeatedBytes (n : Nat) (byte : UInt8) : ByteArray :=
  ⟨Array.replicate n byte⟩

/-- The data of the blocks from a position on, which may have `capacity` bytes. Tells where the
blocks end. -/
def blocksAtOnce (bytes : ByteArray) (blockLimit capacity : Nat) :
    Nat → Nat → Memory → ByteArray → Except ZstandardFault (ByteArray × Nat)
  | 0, _, _, _ => .error .incomplete
  | fuel + 1, position, memory, out => do
    let header ← blockHeader bytes position
    let start := position + blockHeaderLength
    let stop := start + header.length
    let room : Room := ⟨capacity - out.size, blockLimit, false⟩
    let (out, memory) ←
      match header.kind with
      | .plain => do
        demand .noRoom (header.size ≤ room.capacity)
        pure (out ++ bytes.extract start stop, memory)
      | .repeated => do
        demand .noRoom (header.size ≤ room.capacity)
        pure (out ++ repeatedBytes header.size (byteAt bytes start), memory)
      | .packed => packedBlock room out.size memory (bytes.extract start stop) out
    if header.isLast then return (out, stop)
    else blocksAtOnce bytes blockLimit capacity fuel stop memory out

def frameAtOnce (bytes : ByteArray) (header : FrameHeader) (capacity position : Nat) :
    Except ZstandardFault ByteArray := do
  demand .otherDictionary (header.dictionary = 0)
  let (out, stop) ←
    blocksAtOnce bytes header.blockLimit capacity bytes.size position .fresh .empty
  demand .corrupt (header.size?.all (· = out.size))
  if header.hasChecksum then verify bytes stop out
  return out

/-- Where the next block is put in a buffer of some size, how many bytes stand before it without a
gap, and how many there were in the round before. -/
structure Ring where
  size : Nat
  start : Nat
  round : Nat
  before : Nat

def Ring.history (ring : Ring) : Nat := ring.round + ring.before

/-- Adds bytes. If the rest of the buffer is too short for a block, the next one is put at its
start; not so if the buffer takes the whole frame. -/
def Ring.add (ring : Ring) (header : FrameHeader) (n : Nat) : Ring :=
  let start := ring.start + n
  let isWhole := header.size?.any (· ≤ ring.size)
  if !isWhole && ring.size < start + header.blockLimit then ⟨ring.size, 0, 0, ring.round + n⟩
  else { ring with start, round := ring.round + n }

structure Progress where
  position : Nat
  ring : Ring
  memory : Memory
  out : ByteArray
  destination : Destination

namespace Progress

def portionSize : Nat := 8192

def portionEnd (position : Nat) : Nat := (position / portionSize + 1) * portionSize

/-- Takes `n` bytes, which have to be there. Before another portion is fetched there is a pause. -/
def take (progress : Progress) (bytes : ByteArray) (n : Nat) :
    Except ZstandardFault Progress := do
  let position := progress.position + n
  demand .incomplete (position ≤ bytes.size)
  let destination :=
    if (progress.position - 1) / portionSize < (position - 1) / portionSize then
      progress.destination.pause
    else progress.destination
  return { progress with position, destination }

def add (progress : Progress) (header : FrameHeader) (out : ByteArray) (memory : Memory) :
    Except ZstandardFault Progress := do
  let n := out.size - progress.out.size
  demand .corrupt (n ≤ header.blockLimit)
  if n = 0 then return { progress with memory }
  else
    return { progress with
      memory
      out
      ring := progress.ring.add header n
      destination := progress.destination.put n }

def plain (bytes : ByteArray) (header : FrameHeader) :
    Nat → Nat → Progress → Except ZstandardFault Progress
  | 0, _, progress => .ok progress
  | fuel + 1, n, progress => do
    if n = 0 then return progress
    let start := progress.position
    demand .incomplete (start < bytes.size)
    let length := min n (min (portionEnd start) bytes.size - start)
    let progress ← progress.take bytes length
    demand .noRoom (progress.ring.start + length ≤ progress.ring.size)
    let out := progress.out ++ bytes.extract start (start + length)
    plain bytes header fuel (n - length) (← progress.add header out progress.memory)

def block (bytes : ByteArray) (header : FrameHeader) (b : BlockHeader) (progress : Progress) :
    Except ZstandardFault Progress := do
  if b.kind = .plain then return ← plain bytes header b.size b.size progress
  let start := progress.position
  let progress ← progress.take bytes b.length
  let ring := progress.ring
  let capacity := ring.size - ring.start
  if b.kind = .repeated then
    demand .noRoom (b.size ≤ capacity)
    let out := progress.out ++ repeatedBytes b.size (byteAt bytes start)
    progress.add header out progress.memory
  else
    let room : Room := ⟨capacity, header.blockLimit, true⟩
    let (out, memory) ← packedBlock room ring.history progress.memory
      (bytes.extract start progress.position) progress.out
    progress.add header out memory

def blocks (bytes : ByteArray) (header : FrameHeader) :
    Nat → Progress → Except ZstandardFault Progress
  | 0, _ => .error .incomplete
  | fuel + 1, progress => do
    let start := progress.position
    let progress ← progress.take bytes blockHeaderLength
    let b ← blockHeader bytes start
    demand .corrupt (b.length ≤ header.blockLimit)
    if b.length = 0 then
      if b.isLast then return progress else blocks bytes header fuel progress
    else
      let progress ← progress.block bytes header b
      if b.isLast then
        demand .corrupt (header.size?.all (· = progress.out.size))
        return progress
      else blocks bytes header fuel progress

def frame (bytes : ByteArray) (header : FrameHeader) (progress : Progress) :
    Except ZstandardFault Progress := do
  let progress ← progress.blocks bytes header bytes.size
  let progress ←
    if header.hasChecksum then do
      let start := progress.position
      let progress ← progress.take bytes checksumLength
      verify bytes start progress.out
      pure progress
    else pure progress
  return { progress with destination := progress.destination.pause }

end Progress

/-- The buffers for packed and for unpacked blocks. They are made anew if one is too small. -/
structure Buffers where
  packed : Nat
  unpacked : Nat

def Buffers.atLeast (buffers : Buffers) (packed unpacked : Nat) : Buffers :=
  if buffers.packed < packed ∨ buffers.unpacked < unpacked then ⟨packed, unpacked⟩ else buffers

def leastWindow : Nat := 1024

def largestWindow : Nat := 0x8000001

def ringSize (window blockLimit : Nat) (size? : Option Nat) : Nat :=
  let n := window + 2 * blockLimit + 2 * stride
  size?.elim n (min n)

/-- Unpacks the frames from a position on and appends their data to `out`. At least one has to end
where the data ends. -/
def frames (bytes : ByteArray) :
    Nat → Nat → Buffers → Destination → ByteArray → Except ZstandardFault ByteArray
  | 0, _, _, _, _ => .error .incomplete
  | fuel + 1, position, buffers, destination, out => do
    if 0 < position ∧ bytes.size ≤ position then return out
    match ← heading bytes position with
    | .passed size =>
      let stop := position + passedHeaderLength + size
      let buffers := buffers.atLeast checksumLength (ringSize leastWindow 0 (some size))
      demand .incomplete (stop ≤ bytes.size)
      frames bytes fuel stop buffers destination out
    | .frame header =>
      let start := position + header.length
      let portion := min (Progress.portionEnd position) bytes.size
      let whole? :=
        if header.size?.any (· ≤ destination.free) then
          frameEnd? bytes header.hasChecksum portion bytes.size start
        else none
      match whole? with
      | some stop =>
        let data ← frameAtOnce bytes header destination.free start
        frames bytes fuel stop buffers (destination.put data.size).pause (out ++ data)
      | none =>
        demand .otherDictionary (header.dictionary = 0)
        let window := max leastWindow header.window
        demand .hugeWindow (window ≤ largestWindow)
        let buffers := buffers.atLeast (max header.blockLimit checksumLength)
          (ringSize window header.blockLimit header.size?)
        let progress ← Progress.frame bytes header
          ⟨start, ⟨buffers.unpacked, 0, 0, 0⟩, .fresh, .empty, destination⟩
        frames bytes fuel progress.position buffers progress.destination (out ++ progress.out)

end Metaspace.Zstandard

namespace Metaspace

/-- The data of the Zstandard frames that some bytes consist of, where data of a size is
expected. -/
def unpackZstandard (bytes : ByteArray) (size : Nat) : Except ZstandardFault ByteArray :=
  Zstandard.frames bytes (bytes.size + 1) 0 ⟨0, 0⟩ (.ofSize size) .empty

end Metaspace
