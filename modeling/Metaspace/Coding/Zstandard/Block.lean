import Metaspace.Coding.Zstandard.Sequences

set_option autoImplicit false

namespace Metaspace.Zstandard

open Coding

structure Memory where
  table? : Option PrefixTable
  codes? : Option SequenceCodes
  recent : Offsets

def Memory.fresh : Memory := ⟨none, none, .usual⟩

def Room.limit (room : Room) : Shelf → Nat
  | .behind => room.blockLimit + stride
  | _ => room.capacity

def packedBlock (room : Room) (history : Nat) (memory : Memory) (block out : ByteArray) :
    Except ZstandardFault (ByteArray × Memory) := do
  demand .badSize (block.size ≤ room.blockLimit)
  let (literals, table?) ← literals room memory.table? block
  let rest := block.extract literals.used block.size
  let (n, used) ← sequenceCount rest
  let work : Work :=
    ⟨literals.bytes, literals.shelf, out.size, room.limit literals.shelf, history⟩
  let memory := { memory with table? }
  let (memory, taken, result) ←
    if n = 0 then do
      demand .corrupt (used = rest.size)
      pure (memory, 0, out)
    else do
      demand .badSize (used < rest.size)
      let (codes, used) ← orCorrupt (sequenceCodes? rest used memory.codes?)
      demand .noRoom (0 < room.capacity)
      let packed := rest.extract used rest.size
      let cursor ← orCorrupt (Cursor.start? codes packed memory.recent)
      let (recent, taken, result) ← work.run codes n cursor 0 out
      pure ({ memory with codes? := some codes, recent }, taken, result)
  let last := literals.bytes.extract taken literals.bytes.size
  demand .noRoom (result.size - work.start + last.size ≤ work.limit)
  return (result ++ last, memory)

end Metaspace.Zstandard
