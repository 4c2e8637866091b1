import Metaspace.Coding.Lzma

/-!
Packed data with a header of its own: the properties, the reach of copies and the size of the data.
Only the first portion of the packed data is ever looked at, and it is gone through again and again.
So there is no regular end: whatever is packed, decoding ends in a fault.
-/

set_option autoImplicit false

namespace Metaspace

inductive LzmaFault where
  | badProperties (n : Nat)
  | badSymbol (fault : Lzma.Fault)
  | inputBehindEnd
  | inputNotTaken
  deriving DecidableEq, Repr

namespace LzmaAlone

open Lzma

def portionSize : Nat := 8192

def symbolBytes : Nat := 20

structure Progress where
  state : State
  range : UInt32
  code : UInt32
  probabilities : Array UInt16
  size? : Option Nat
  rest : ByteArray

namespace Progress

/-- Reads a symbol from a position in some input, of which `isLearning` says whether it counts. -/
def symbol (progress : Progress) (input : ByteArray) (position : Nat) (isLearning : Bool) :
    Except Fault (Symbol × Coder) :=
  (progress.state.symbol (return ())).run
    ⟨input, position, progress.range, progress.code, progress.probabilities, true, isLearning⟩

def endDistance : Nat := 0xFFFFFFFF

def marksEnd : Symbol → Bool
  | .fresh _ distance => distance = endDistance
  | _ => false

def isUsedUp (coder : Coder) : Bool :=
  coder.code = 0 && coder.position = coder.input.size

/-- Whether the input is enough for a symbol. After the mark of the end no new distance may come. -/
def hasSymbol (progress : Progress) (input : ByteArray) (position : Nat) : Bool :=
  if symbolBytes ≤ input.size - position then true
  else
    match progress.symbol input position false with
    | .error _ => false
    | .ok (.fresh _ _, coder) =>
      progress.state.distances.latest ≠ endDistance || isUsedUp coder
    | .ok _ => true

/-- Reads a symbol and carries it out. Tells where the input goes on, and whether the end was
marked. -/
def decode (progress : Progress) (input : ByteArray) (position : Nat) :
    Except LzmaFault (Progress × Nat × Bool) :=
  match progress.symbol input position true with
  | .error fault => .error (.badSymbol fault)
  | .ok (symbol, coder) =>
    let next := { progress with
      range := coder.range, code := coder.code, probabilities := coder.probabilities }
    if marksEnd symbol then
      if isUsedUp coder then
        .ok ({ next with state := progress.state.follow symbol }, coder.position, true)
      else .error .inputBehindEnd
    else
      match progress.state.apply symbol with
      | .error fault => .error (.badSymbol fault)
      | .ok state => .ok ({ next with state }, coder.position, false)

def isDone (progress : Progress) (left : Nat) : Bool :=
  match progress.size? with
  | some size => size ≤ progress.state.out.size
  | none => left = 0 && progress.rest.isEmpty

end Progress

inductive Move where
  | next (position : Nat) (progress : Progress)
  | pause (position : Nat) (progress : Progress)

def step (portion : ByteArray) (position : Nat) (progress : Progress) : Except LzmaFault Move := do
  if progress.isDone (portion.size - position) then return .pause position progress
  if progress.rest.isEmpty then
    if progress.hasSymbol portion position then
      let (progress, position, isEnd) ← progress.decode portion position
      return if isEnd then .pause position progress else .next position progress
    else
      return .pause portion.size { progress with rest := portion.extract position portion.size }
  else
    let taken := min (symbolBytes - progress.rest.size) (portion.size - position)
    let rest := progress.rest ++ portion.extract position (position + taken)
    let position := position + taken
    if progress.hasSymbol rest 0 then
      let (progress, used, isEnd) ← progress.decode rest 0
      let progress := { progress with rest := rest.extract used rest.size }
      return if isEnd then .pause position progress else .next position progress
    else return .pause position { progress with rest }

/-- The fault that decoding ends in. `offered` is where the input that was offered last starts; none
of it may be left untaken. -/
def faultFrom (portion : ByteArray) : Nat → Nat → Nat → Progress → LzmaFault
  | 0, _, _, _ => .inputNotTaken
  | fuel + 1, offered, position, progress =>
    match step portion position progress with
    | .error fault => fault
    | .ok (.next position progress) => faultFrom portion fuel offered position progress
    | .ok (.pause position progress) =>
      if position = offered then .inputNotTaken
      else
        let position := position % portion.size
        faultFrom portion fuel position position progress

/-- The number in `width` bytes from an offset on, lowest byte first, in a portion that starts over
at its end. -/
def number (portion : ByteArray) (offset : Nat) : Nat → Nat
  | 0 => 0
  | width + 1 =>
    (Coding.byteAt portion (offset % portion.size)).toNat + 256 * number portion (offset + 1) width

def headerSize : Nat := 18

def symbolLimit : Nat := 0x400000

def leastReach : Nat := 4096

def unknownSize : Nat := 0xFFFFFFFFFFFFFFFF

def fault (portion : ByteArray) : LzmaFault :=
  match Properties.ofByte? (number portion 0 1) with
  | none => .badProperties (number portion 0 1)
  | some properties =>
    let size := number portion 5 8
    let code := (List.range 4).foldl (fun code k => 256 * code + number portion (14 + k) 1) 0
    let progress : Progress :=
      ⟨.fresh properties (max leastReach (number portion 1 4)), 0xFFFFFFFF, code.toUInt32,
        properties.freshProbabilities, if size = unknownSize then none else some size, .empty⟩
    let position := headerSize % portion.size
    faultFrom portion symbolLimit position position progress

end LzmaAlone

/-- The data that was packed with a header of its own. Where nothing is packed there is no data. -/
def unpackLzma (bytes : ByteArray) : Except LzmaFault ByteArray :=
  if bytes.isEmpty then .ok .empty
  else .error (LzmaAlone.fault (bytes.extract 0 LzmaAlone.portionSize))

end Metaspace
