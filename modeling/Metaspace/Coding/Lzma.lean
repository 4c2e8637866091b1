import Metaspace.Coding.Bytes

set_option autoImplicit false

namespace Metaspace.Lzma

/-- How many bits of the byte before (`contextBits`) and of the position (`literalBits`, for copies
`positionBits`) the probabilities depend on. -/
structure Properties where
  contextBits : Nat
  literalBits : Nat
  positionBits : Nat
  deriving DecidableEq, Repr

def Properties.ofByte? (n : Nat) : Option Properties :=
  if n < 225 then some ⟨n % 9, n / 9 % 5, n / 45⟩ else none

inductive Kind where
  | isCopy | isOld | isSecond | isThird | isFourth | isLong
  | slot | distance | lowDistance | freshLength | oldLength | literal

def Kind.start : Kind → Nat
  | .isCopy => 0
  | .isOld => 192
  | .isSecond => 204
  | .isThird => 216
  | .isFourth => 228
  | .isLong => 240
  | .slot => 432
  | .distance => 688
  | .lowDistance => 816
  | .freshLength => 832
  | .oldLength => 1346
  | .literal => 1860

def literalSize : Nat := 0x300

def Properties.probabilityCount (p : Properties) : Nat :=
  Kind.literal.start + literalSize * Nat.pow 2 (p.contextBits + p.literalBits)

def Properties.freshProbabilities (p : Properties) : Array UInt16 :=
  Array.replicate p.probabilityCount 1024

/-- Why packed data cannot be read. Distances are those that cannot be reached. -/
inductive Fault where
  | incomplete
  | corrupt
  /-- The byte that a literal is matched with is farther away than copies may reach. -/
  | literalBeyondReach (distance reach : Nat)
  | literalBeyondOutput (distance size : Nat)
  | copyBeyondReach (distance reach : Nat)
  | copyBeyondOutput (distance size : Nat)
  deriving DecidableEq, Repr

/-- The part of the range of numbers that is left, and where in it the coded number is. -/
structure Coder where
  input : ByteArray
  position : Nat
  range : UInt32
  code : UInt32
  probabilities : Array UInt16
  /-- Input is taken as soon as the range is small, and not only when the next bit is read. -/
  isEager : Bool
  isLearning : Bool

abbrev Decoder := StateT Coder (Except Fault)

def nextByte : Decoder UInt32 := fun coder =>
  match coder.input[coder.position]? with
  | some byte => .ok (byte.toUInt32, { coder with position := coder.position + 1 })
  | none => .error .incomplete

def normalize : Decoder Unit := do
  if (← get).range < 0x1000000 then
    let byte ← nextByte
    modify fun coder =>
      { coder with range := coder.range <<< 8, code := (coder.code <<< 8) ||| byte }

def Coder.learn (coder : Coder) (place : Nat) (p : UInt16) : Coder :=
  if coder.isLearning then
    { coder with probabilities := coder.probabilities.setIfInBounds place p }
  else coder

/-- Divides the range by the probability in a place, which then moves towards the bit that was
found. -/
def Coder.bit (place : Nat) (coder : Coder) : Nat × Coder :=
  let p := coder.probabilities.getD place 0
  let bound := (coder.range >>> 11) * p.toUInt32
  if coder.code < bound then
    (0, { coder with range := bound }.learn place (p + ((2048 - p) >>> 5)))
  else
    (1, { coder with range := coder.range - bound, code := coder.code - bound }.learn place
      (p - (p >>> 5)))

def Coder.evenBit (coder : Coder) : Nat × Coder :=
  let range := coder.range >>> 1
  if coder.code < range then (0, { coder with range })
  else (1, { coder with range, code := coder.code - range })

def divide (division : Coder → Nat × Coder) : Decoder Nat := do
  if (← get).isEager then
    let b ← modifyGet division
    normalize
    return b
  else
    normalize
    modifyGet division

def bit (place : Nat) : Decoder Nat := divide (Coder.bit place)

def evenBits : Nat → Nat → Decoder Nat
  | 0, value => return value
  | n + 1, value => do evenBits n (2 * value + (← divide Coder.evenBit))

/-- A number of `n` bits, highest first; the probability of each depends on those before it, which
are kept in `node` behind a one. -/
def treeFrom (start : Nat) : Nat → Nat → Decoder Nat
  | 0, node => return node
  | n + 1, node => do treeFrom start n (2 * node + (← bit (start + node)))

def tree (start n : Nat) : Decoder Nat := do
  return (← treeFrom start n 1) - Nat.pow 2 n

def reverseTreeFrom (start : Nat) : Nat → Nat → Nat → Decoder Nat
  | 0, _, _ => return 0
  | n + 1, node, weight => do
    let b ← bit (start + node)
    return b * weight + (← reverseTreeFrom start n (2 * node + b) (2 * weight))

def reverseTree (start n : Nat) : Decoder Nat :=
  reverseTreeFrom start n 1 1

inductive Recent where
  | latest
  | second
  | third
  | fourth
  deriving DecidableEq, Repr

inductive Symbol where
  | literal (byte : UInt8)
  | fresh (length distance : Nat)
  | again (length : Nat) (recent : Recent)
  deriving DecidableEq, Repr

def shortest : Nat := 2

def length (start place : Nat) : Decoder Nat := do
  if (← bit start) = 0 then return shortest + (← tree (start + 2 + 8 * place) 3)
  else if (← bit (start + 1)) = 0 then return shortest + 8 + (← tree (start + 130 + 8 * place) 3)
  else return shortest + 16 + (← tree (start + 258) 8)

def distance (length : Nat) : Decoder Nat := do
  let slot ← tree (Kind.slot.start + 64 * min (length - shortest) 3) 6
  if slot < 4 then return slot
  let extra := slot / 2 - 1
  let base := (2 + slot % 2) * Nat.pow 2 extra
  if slot < 14 then
    return base + (← reverseTree (Kind.distance.start + base - slot) extra)
  else
    let high ← evenBits (extra - 4) 0
    return base + 16 * high + (← reverseTree Kind.lowDistance.start 4)

def matchedFrom (start : Nat) : Nat → Nat → Nat → Decoder Nat
  | 0, node, _ => return node
  | n + 1, node, byte => do
    let expected := byte / 128 % 2
    let b ← bit (start + (1 + expected) * 256 + node)
    let node := 2 * node + b
    if b = expected then matchedFrom start n node (2 * byte) else treeFrom start n node

structure Distances where
  latest : Nat
  second : Nat
  third : Nat
  fourth : Nat
  deriving DecidableEq, Repr

namespace Distances

def zero : Distances := ⟨0, 0, 0, 0⟩

def push (d : Distances) (distance : Nat) : Distances :=
  ⟨distance, d.latest, d.second, d.third⟩

def bringForward (d : Distances) : Recent → Distances
  | .latest => d
  | .second => ⟨d.second, d.latest, d.third, d.fourth⟩
  | .third => ⟨d.third, d.latest, d.second, d.fourth⟩
  | .fourth => ⟨d.fourth, d.latest, d.second, d.third⟩

end Distances

structure State where
  properties : Properties
  history : Nat
  distances : Distances
  out : ByteArray
  start : Nat
  reach : Nat

namespace State

def fresh (properties : Properties) (reach : Nat) : State :=
  ⟨properties, 0, .zero, .empty, 0, reach⟩

def reset (state : State) (properties : Properties) : State :=
  { state with properties, history := 0, distances := .zero }

def size (state : State) : Nat := state.out.size - state.start

def back (state : State) (distance : Nat) : UInt8 :=
  if distance < state.size then (state.out[state.out.size - distance - 1]?).getD 0 else 0

def afterCopy (state : State) : Bool := 7 ≤ state.history

def matched (state : State) : Except Fault UInt8 :=
  let distance := state.distances.latest
  if state.reach ≤ distance then .error (.literalBeyondReach (distance + 1) state.reach)
  else if state.size ≤ distance then .error (.literalBeyondOutput (distance + 1) state.size)
  else .ok (state.back distance)

def literal (state : State) : Decoder UInt8 := do
  let p := state.properties
  let context := state.size % Nat.pow 2 p.literalBits * Nat.pow 2 p.contextBits
    + (state.back 0).toNat / Nat.pow 2 (8 - p.contextBits)
  let start := Kind.literal.start + literalSize * context
  let node ← if state.afterCopy then do matchedFrom start 8 1 (← state.matched).toNat
    else treeFrom start 8 1
  return UInt8.ofNat node

def oldCopy (state : State) (place : Nat) : Decoder Symbol := do
  let copy (recent : Recent) : Decoder Symbol := do
    return .again (← length Kind.oldLength.start place) recent
  if (← bit (Kind.isSecond.start + state.history)) = 0 then
    if (← bit (Kind.isLong.start + 16 * state.history + place)) = 0 then return .again 1 .latest
    else copy .latest
  else if (← bit (Kind.isThird.start + state.history)) = 0 then copy .second
  else if (← bit (Kind.isFourth.start + state.history)) = 0 then copy .third
  else copy .fourth

def symbol (state : State) (beforeOld : Decoder Unit) : Decoder Symbol := do
  let place := state.size % Nat.pow 2 state.properties.positionBits
  if (← bit (Kind.isCopy.start + 16 * state.history + place)) = 0 then
    return .literal (← state.literal)
  else if (← bit (Kind.isOld.start + state.history)) = 0 then
    let length ← length Kind.freshLength.start place
    return .fresh length (← distance length)
  else
    beforeOld
    state.oldCopy place

def follow (state : State) : Symbol → State
  | .literal _ =>
    { state with
      history := if state.history < 4 then 0
        else if state.history < 10 then state.history - 3 else state.history - 6 }
  | .fresh _ distance =>
    { state with
      distances := state.distances.push distance
      history := if state.afterCopy then 10 else 7 }
  | .again length recent =>
    { state with
      distances := state.distances.bringForward recent
      history := if state.afterCopy then 11 else if length = 1 then 9 else 8 }

def copy (state : State) (length : Nat) : Except Fault State :=
  let distance := state.distances.latest
  if state.reach ≤ distance then .error (.copyBeyondReach (distance + 1) state.reach)
  else if state.size ≤ distance then .error (.copyBeyondOutput (distance + 1) state.size)
  else .ok { state with out := Coding.copyBack (distance + 1) length state.out }

def apply (state : State) (symbol : Symbol) : Except Fault State :=
  let next := state.follow symbol
  match symbol with
  | .literal byte => .ok { next with out := next.out.push byte }
  | .fresh length _ => next.copy length
  | .again length _ => next.copy length

end State
end Metaspace.Lzma
