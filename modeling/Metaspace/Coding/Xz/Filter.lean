import Metaspace.Coding.Bytes

set_option autoImplicit false

namespace Metaspace.Xz

open Coding

inductive Filter where
  | difference (distance : Nat)
  | x86 (start : UInt32)
  | sparc (start : UInt32)
  deriving DecidableEq, Repr

namespace Filter

def undoDifference (distance : Nat) (bytes : ByteArray) : ByteArray :=
  bytes.foldl
    (fun out byte =>
      let before := if distance ≤ out.size then byteAt out (out.size - distance) else 0
      out.push (byte + before))
    .empty

def startsCall (byte : UInt8) : Bool := byte = 0xE8 ∨ byte = 0xE9

def isSign (byte : UInt8) : Bool := byte = 0 ∨ byte = 0xFF

/-- How far data of this kind was gone through. The marks tell, bit by bit, where before the present
place a call could have started, and in the upper half where its last byte could be a sign. -/
structure Scan where
  bytes : ByteArray
  place : Nat
  marks : Nat
  last? : Option Nat

def moveMarks : Nat → Nat → Nat
  | 0, marks => marks
  | n + 1, marks => moveMarks n ((marks &&& 0x77) * 2)

def isFree (marks : Nat) : Bool :=
  [0, 1, 2, 4].contains (marks / 2)

def shared (marks : Nat) : Nat :=
  [0, 1, 2, 2, 3].getD (marks / 2) 0

def relative (place : UInt32) (marks : Nat) : Nat → UInt32 → UInt32
  | 0, target => target - place
  | fuel + 1, target =>
    let found := target - place
    let low := 24 - 8 * shared marks
    if marks = 0 ∨ ¬isSign (UInt8.ofNat (found.toNat / Nat.pow 2 low)) then found
    else relative place marks fuel (found ^^^ UInt32.ofNat (Nat.pow 2 (low + 8) - 1))

def putTarget (bytes : ByteArray) (place : Nat) (target : UInt32) : ByteArray :=
  let n := target.toNat
  let sign : UInt8 := if n / 0x1000000 % 2 = 1 then 0xFF else 0
  (((bytes.set! place (UInt8.ofNat n)).set! (place + 1) (UInt8.ofNat (n / 0x100))).set! (place + 2)
    (UInt8.ofNat (n / 0x10000))).set! (place + 3) sign

def target (bytes : ByteArray) (place : Nat) : UInt32 :=
  UInt32.ofNat (numberAt bytes place 4)

def markReach : Nat := 5

def Scan.step (start : UInt32) (scan : Scan) : Scan :=
  if startsCall (byteAt scan.bytes scan.place) then
    let distance := scan.last?.elim (markReach + 1) (scan.place - ·)
    let marks := if markReach < distance then 0 else moveMarks distance scan.marks
    let last? := some scan.place
    let sign := byteAt scan.bytes (scan.place + 4)
    if isSign sign ∧ isFree marks then
      let stop := start + UInt32.ofNat (scan.place + 5)
      let found := relative stop marks 16 (target scan.bytes (scan.place + 1))
      ⟨putTarget scan.bytes (scan.place + 1) found, scan.place + 5, 0, last?⟩
    else
      ⟨scan.bytes, scan.place + 1, marks ||| (if isSign sign then 0x11 else 1), last?⟩
  else { scan with place := scan.place + 1 }

def Scan.run (start : UInt32) : Nat → Scan → Scan
  | 0, scan => scan
  | fuel + 1, scan =>
    if scan.bytes.size < scan.place + 5 then scan else Scan.run start fuel (scan.step start)

def undoX86 (start : UInt32) (bytes : ByteArray) : ByteArray :=
  (Scan.run start bytes.size ⟨bytes, 0, 0, none⟩).bytes

def isNearCall (bytes : ByteArray) (place : Nat) : Bool :=
  let first := byteAt bytes place
  let second := (byteAt bytes (place + 1)).toNat / 64
  (first = 0x40 && second = 0) || (first = 0x7F && second = 3)

def undoCall (start : UInt32) (bytes : ByteArray) (place : Nat) : ByteArray :=
  if isNearCall bytes place then
    let word := (List.range 4).foldl
      (fun high k => 256 * high + (byteAt bytes (place + k)).toNat) 0
    let found := (4 * UInt32.ofNat word - (start + UInt32.ofNat place)).toNat / 4
    let sign := if found / 0x400000 % 2 = 1 then 0x40000000 - 0x400000 else 0
    let word := 0x40000000 + sign + found % 0x400000
    (List.range 4).foldl
      (fun bytes k => bytes.set! (place + k) (UInt8.ofNat (word / Nat.pow 256 (3 - k)))) bytes
  else bytes

def undoSparc (start : UInt32) (bytes : ByteArray) : ByteArray :=
  (List.range (bytes.size / 4)).foldl (fun bytes k => undoCall start bytes (4 * k)) bytes

def undo : Filter → ByteArray → ByteArray
  | .difference distance, bytes => undoDifference distance bytes
  | .x86 start, bytes => undoX86 start bytes
  | .sparc start, bytes => undoSparc start bytes

end Filter
end Metaspace.Xz
