import Metaspace.Coding.Lzma
import Metaspace.Coding.Reader

set_option autoImplicit false

namespace Metaspace.Xz

open Coding

/-- The state between two chunks. Until a chunk says otherwise, the history has to be forgotten and
properties have to be given. -/
structure Chunks where
  state : Lzma.State
  probabilities : Array UInt16
  needsStart : Bool
  needsProperties : Bool

namespace Chunks

def fresh (reach : Nat) : Chunks :=
  ⟨.fresh ⟨0, 0, 0⟩ reach, #[], true, true⟩

def restart (chunks : Chunks) : Chunks :=
  { chunks with
    state := { chunks.state with start := chunks.state.out.size }
    needsStart := false
    needsProperties := true }

def reset (chunks : Chunks) (properties : Lzma.Properties) : Chunks :=
  { chunks with
    state := chunks.state.reset properties
    probabilities := properties.freshProbabilities
    needsProperties := false }

end Chunks

def cutOff {α : Type} : Lzma.Decoder α := do
  let coder ← get
  throw (if coder.position < coder.input.size then .corrupt else .incomplete)

def demandHistory (state : Lzma.State) : Lzma.Decoder Unit :=
  if state.size = 0 then throw .corrupt else return ()

def symbols (target limit : Nat) : Nat → Lzma.State → Lzma.Decoder Lzma.State
  | 0, state => return state
  | fuel + 1, state => do
    if state.out.size < min target limit then
      let next ← state.apply (← state.symbol (demandHistory state))
      if next.out.size ≤ min target limit then symbols target limit fuel next
      else if limit < target then cutOff
      else throw .corrupt
    else
      Lzma.normalize
      if limit < target then cutOff else return state

/-- Reads the coded number, of which the first byte is zero, and then `size` bytes of data. The
number has to be used up. -/
def decoder (size limit : Nat) (state : Lzma.State) : Lzma.Decoder Lzma.State := do
  if (← Lzma.nextByte) ≠ 0 then throw .corrupt
  for _ in List.range 4 do
    let byte ← Lzma.nextByte
    modify fun coder => { coder with code := (coder.code <<< 8) ||| byte }
  let state ← symbols (state.out.size + size) limit (size + 1) state
  if (← get).code ≠ 0 then throw .corrupt
  return state

def twoBytes : Reader Nat := do
  let high ← byte
  return 256 * high + (← byte)

def maxContextBits : Nat := 4

def properties : Reader Lzma.Properties := do
  match Lzma.Properties.ofByte? (← byte) with
  | some p =>
    demand (p.contextBits + p.literalBits ≤ maxContextBits)
    return p
  | none => throw .corrupt

/-- A packed chunk. The control byte says what is reset, and holds the highest bits of the size. The
chunk has to end where it says; decoding does not stop there. -/
def packedChunk (limit control : Nat) (chunks : Chunks) : Reader Chunks := do
  demand (0xC0 ≤ control ∨ !chunks.needsProperties)
  let size := control % 32 * 65536 + (← twoBytes) + 1
  let length := (← twoBytes) + 1
  let chunks ←
    if 0xC0 ≤ control then do pure (chunks.reset (← properties))
    else if 0xA0 ≤ control then pure (chunks.reset chunks.state.properties)
    else pure chunks
  let input ← read
  let start := (← get) / 8
  let coder : Lzma.Coder := ⟨input, start, 0xFFFFFFFF, 0, chunks.probabilities, false, true⟩
  match (decoder size limit chunks.state).run coder with
  | .ok (state, coder) =>
    demand (coder.position = start + length)
    set (8 * coder.position)
    return { chunks with state, probabilities := coder.probabilities }
  | .error .incomplete =>
    demand (input.size ≤ start + length)
    throw .incomplete
  | .error _ => throw .corrupt

def plainChunk (limit : Nat) (chunks : Chunks) : Reader Chunks := do
  let length := (← twoBytes) + 1
  let room := limit - chunks.state.out.size
  let left := (← read).size - (← get) / 8
  demand (length ≤ room ∨ left ≤ room)
  let data ← bytes length
  return { chunks with state := { chunks.state with out := chunks.state.out ++ data } }

def chunksFrom (limit : Nat) : Nat → Chunks → Reader ByteArray
  | 0, _ => throw .incomplete
  | fuel + 1, before => do
    let control ← byte
    if control = 0 then return before.state.out
    let now := if 0xE0 ≤ control ∨ control = 1 then before.restart else before
    demand (!now.needsStart)
    if 0x80 ≤ control then chunksFrom limit fuel (← packedChunk limit control now)
    else do
      demand (control ≤ 2)
      chunksFrom limit fuel (← plainChunk limit now)

def chunks (reach limit : Nat) : Reader ByteArray := do
  chunksFrom limit ((← read).size + 1) (.fresh reach)

def within {α : Type} (length : Nat) (reader : Reader α) : Reader α := do
  let input ← read
  let start ← get
  let stop := start / 8 + length
  match (ReaderT.run reader (input.extract 0 stop)).run start with
  | .ok (a, position) =>
    set position
    return a
  | .error .incomplete =>
    demand (input.size < stop)
    throw .incomplete
  | .error fault => throw fault

end Metaspace.Xz
