import Metaspace.Coding.Bytes

set_option autoImplicit false

namespace Metaspace

open Coding

structure Backward where
  bytes : ByteArray
  left : Int

namespace Backward

def ofBytes? (bytes : ByteArray) : Option Backward :=
  match bytes[bytes.size - 1]? with
  | none => none
  | some last => if last = 0 then none else some ⟨bytes, 8 * (bytes.size - 1) + last.toNat.log2⟩

def wordBits : Nat := 64

def firstWord (bits : Backward) : Nat := bitsAt bits.bytes 0 wordBits

/-- The next `n` bits. Where no more are left there are zeros; behind the end the first word comes
again. -/
def peek (bits : Backward) (n : Nat) : Nat :=
  if n ≤ bits.left then bitsAt bits.bytes (bits.left.toNat - n) n
  else
    let passed := (-bits.left % wordBits).toNat
    bits.firstWord * Nat.pow 2 passed % Nat.pow 2 wordBits / Nat.pow 2 (wordBits - n)

/-- The next `n` bits. Bits that are cut by the end come from the highest ones of the first word. -/
def peekAround (bits : Backward) (n : Nat) : Nat :=
  if n ≤ bits.left then bitsAt bits.bytes (bits.left.toNat - n) n
  else bits.firstWord / Nat.pow 2 ((bits.left - n) % wordBits).toNat % Nat.pow 2 n

def skip (bits : Backward) (n : Nat) : Backward :=
  { bits with left := bits.left - n }

def isUsedUp (bits : Backward) : Bool := bits.left = 0

def isOverrun (bits : Backward) : Bool := bits.left < 0

end Backward

structure CodeState where
  symbol : Nat
  bits : Nat
  base : Nat

structure StateCode where
  log : Nat
  states : Array CodeState

namespace StateCode

def single (symbol : Nat) : StateCode := ⟨0, #[⟨symbol, 0, 0⟩]⟩

/-- The symbols of the states. Symbols that are rarer than one in `2 ^ log` have a state at the end
each; the other symbols go in steps through the rest. -/
def spread (log : Nat) (counts : List Int) : List Nat :=
  let size := Nat.pow 2 log
  let rare := (counts.zipIdx.filter (·.1 < 0)).map (·.2)
  let common := counts.zipIdx.flatMap fun (count, symbol) => List.replicate count.toNat symbol
  let step := size / 2 + size / 8 + 3
  let places := ((List.range size).map fun k => k * step % size).filter (· < size - rare.length)
  let placed := (places.zip common).foldl
    (fun states (place, symbol) => states.setIfInBounds place symbol) (Array.replicate size 0)
  placed.toList.take (size - rare.length) ++ rare.reverse

/-- The code in which symbol `n` has the `n`-th count of states; a negative count is one state for a
rarer symbol. -/
def ofCounts (log : Nat) (counts : List Int) : StateCode :=
  let first := counts.map fun count => if count < 0 then 1 else count.toNat
  let (states, _) := (spread log counts).foldl
    (fun (states, next) symbol =>
      let number := next.getD symbol 1
      let bits := log - number.log2
      (states.push ⟨symbol, bits, number * Nat.pow 2 bits - Nat.pow 2 log⟩,
        next.setIfInBounds symbol (number + 1)))
    ((#[] : Array CodeState), first.toArray)
  ⟨log, states⟩

/-- A place in bytes that are looked at by words of 32 bits: the bits from `offset` on of the word
at `place`. The word never reaches beyond the bytes. -/
structure WordPlace where
  place : Nat
  offset : Nat

namespace WordPlace

def bits (bytes : ByteArray) (spot : WordPlace) : Nat :=
  bitsAt bytes (8 * spot.place) 32 / Nat.pow 2 spot.offset

def settle (size : Nat) (spot : WordPlace) : WordPlace :=
  let place := spot.place + spot.offset / 8
  if spot.place + 7 ≤ size ∨ place + 4 ≤ size then ⟨place, spot.offset % 8⟩
  else ⟨size - 4, (spot.offset - 8 * (size - 4 - spot.place)) % 32⟩

def jump (size : Nat) (spot : WordPlace) : WordPlace :=
  if spot.place + 7 ≤ size then { spot with place := spot.place + 3 }
  else ⟨size - 4, (spot.offset + 8 * (spot.place + 7 - size)) % 32⟩

end WordPlace

def threes : Nat → Nat → Nat
  | 0, _ => 0
  | n + 1, bits => if bits % 4 = 3 then 1 + threes n (bits / 4) else 0

def jumpThrees : Nat := 12

def zeros (bytes : ByteArray) : Nat → WordPlace → Nat × WordPlace
  | 0, spot => (0, spot)
  | fuel + 1, spot =>
    let bits := spot.bits bytes
    let full := threes 15 bits
    if jumpThrees ≤ full then
      let (count, spot) := zeros bytes fuel (spot.jump bytes.size)
      (3 * jumpThrees + count, spot)
    else
      (3 * full + bits / Nat.pow 4 full % 4, { spot with offset := spot.offset + 2 * full + 2 })

/-- Reads counts until all states are given out; `remaining` is one more than those that are not.
`read` has the counts so far, the latest first. -/
def counts (bytes : ByteArray) (limit : Nat) :
    Nat → Nat → List Int → WordPlace → Option (List Int × WordPlace)
  | 0, _, _, _ => none
  | fuel + 1, remaining, read, spot =>
    let width := remaining.log2
    let bits := spot.bits bytes
    let few := Nat.pow 2 (width + 1) - 1 - remaining
    let low := bits % Nat.pow 2 width
    let value := bits % Nat.pow 2 (width + 1)
    let (value, used) :=
      if low < few then (low, width)
      else (if Nat.pow 2 width ≤ value then value - few else value, width + 1)
    let spot := { spot with offset := spot.offset + used }
    let remaining := remaining - if value = 0 then 1 else value - 1
    let read := (Int.ofNat value - 1) :: read
    if remaining ≤ 1 then some (read.reverse, spot)
    else if limit ≤ read.length then none
    else
      let spot := spot.settle bytes.size
      if value = 1 then
        let (count, spot) := zeros bytes bytes.size spot
        let read := List.replicate count 0 ++ read
        if limit ≤ read.length then none
        else counts bytes limit fuel remaining read (spot.settle bytes.size)
      else counts bytes limit fuel remaining read spot

def leastBytes : Nat := 8

/-- Reads a code for symbols below `limit` at the start of some bytes. Tells how many bytes it
takes. -/
def read? (bytes : ByteArray) (maxLog limit : Nat) : Option (StateCode × Nat) := do
  let filled := bytes ++ ⟨Array.replicate (leastBytes - bytes.size) 0⟩
  let log := bitsAt filled 0 4 + 5
  if maxLog < log then none
  let (counts, spot) ← counts filled limit (limit + 1) (Nat.pow 2 log + 1) [] ⟨0, 4⟩
  if 32 < spot.offset then none
  let used := spot.place + (spot.offset + 7) / 8
  if bytes.size < used then none
  return (.ofCounts log counts, used)

def state (code : StateCode) (n : Nat) : CodeState := code.states.getD n ⟨0, 0, 0⟩

def start (code : StateCode) (bits : Backward) : CodeState × Backward :=
  (code.state (bits.peekAround code.log), bits.skip code.log)

def next (code : StateCode) (state : CodeState) (bits : Backward) : CodeState × Backward :=
  (code.state (state.base + bits.peekAround state.bits), bits.skip state.bits)

end StateCode
end Metaspace
