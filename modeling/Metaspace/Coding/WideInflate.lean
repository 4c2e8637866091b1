import Metaspace.Coding.Inflate

set_option autoImplicit false

namespace Metaspace.WideInflate

open Coding

structure Progress where
  position : Nat
  out : ByteArray

abbrev Unpacker := ReaderT ByteArray (EStateM CodingFault Progress)

def left : Unpacker Nat := do
  return 8 * (← read).size - (← get).position

def available (n : Nat) : Unpacker Unit := do
  if (← left) < n then throw .incomplete

def peek (n : Nat) : Unpacker Nat := do
  return bitsAt (← read) (← get).position n

def skip (n : Nat) : Unpacker Unit := do
  available n
  modify fun progress => { progress with position := progress.position + n }

def bits (n : Nat) : Unpacker Nat := do
  let number ← peek n
  skip n
  return number

def write (byte : UInt8) : Unpacker Unit :=
  modify fun progress => { progress with out := progress.out.push byte }

inductive Branch where
  | symbol (n : Nat)
  | fork (zero one : Branch)

namespace Branch

/-- Gives the code that goes on with the given bits to a symbol. There is no way through a symbol
other than zero. -/
def insert? (new : Nat) : List Nat → Branch → Option Branch
  | [], _ => some (.symbol new)
  | _ :: _, .symbol (_ + 1) => none
  | bit :: path, .symbol 0 => do
    let inner ← insert? new path (.symbol 0)
    return if bit = 0 then .fork inner (.symbol 0) else .fork (.symbol 0) inner
  | bit :: path, .fork zero one =>
    if bit = 0 then do return .fork (← insert? new path zero) one
    else do return .fork zero (← insert? new path one)

def find : Branch → Nat → Nat
  | .symbol n, _ => n
  | .fork zero one, bits => if bits % 2 = 0 then zero.find (bits / 2) else one.find (bits / 2)

end Branch

/-- A branch for all that codes may start with, and the length of each symbol's code. -/
structure Code where
  lengths : Array Nat
  directBits : Nat
  branches : Array Branch

namespace Code

def path (number : Nat) : Nat → List Nat
  | 0 => []
  | n + 1 => number / Nat.pow 2 n % 2 :: path number n

def ofPath (path : List Nat) : Nat :=
  path.foldr (fun bit high => bit + 2 * high) 0

def blank (lengths : List Nat) (directBits : Nat) : Code :=
  ⟨lengths.toArray, directBits, Array.replicate (Nat.pow 2 directBits) (.symbol 0)⟩

def insert? (code : Code) (symbol : Nat) (path : List Nat) : Option Code :=
  let start := ofPath (path.take code.directBits)
  if path.length ≤ code.directBits then
    let step := Nat.pow 2 path.length
    let branches := (List.range (Nat.pow 2 (code.directBits - path.length))).foldl
      (fun branches k => branches.setIfInBounds (start + k * step) (.symbol symbol)) code.branches
    some { code with branches }
  else do
    let branch ← (code.branches.getD start (.symbol 0)).insert? symbol (path.drop code.directBits)
    return { code with branches := code.branches.setIfInBounds start branch }

def firstNumbers (lengths : List Nat) : Array Nat :=
  ((List.range Inflate.maxLength).foldl
    (fun (numbers, next) length =>
      let next := 2 * (next + if length = 0 then 0 else lengths.count length)
      (numbers.push next, next))
    ((#[0] : Array Nat), 0)).1

def literalCount : Nat := 288

def distanceCount : Nat := 32

def ofLengths? (lengths : List Nat) : Option Code := do
  let directBits := if lengths.length = literalCount then 9 else 7
  let (code, _) ← lengths.zipIdx.foldlM
    (fun (code, next) (length, symbol) => do
      if length = 0 then return (code, next)
      let number := next.getD length 0
      let code ← code.insert? symbol (path number length)
      return (code, next.setIfInBounds length (number + 1)))
    (blank lengths directBits, firstNumbers lengths)
  return code

def decode (code : Code) : Unpacker Nat := do
  available 1
  let number ← peek Inflate.maxLength
  let branch := code.branches.getD (number % Nat.pow 2 code.directBits) (.symbol 0)
  let symbol := branch.find (number / Nat.pow 2 code.directBits)
  let length := code.lengths.getD symbol 0
  if length = 0 then throw .corrupt
  skip length
  return symbol

end Code

def codeOf (lengths : List Nat) : Unpacker Code :=
  match Code.ofLengths? lengths with
  | some code => return code
  | none => throw .corrupt

def lengths : Array (Nat × Nat) := Inflate.lengths.pop.push (3, 16)

def distances : Array (Nat × Nat) := Inflate.distances ++ #[(32769, 14), (49153, 14)]

def extended (table : Array (Nat × Nat)) (symbol : Nat) : Unpacker Nat :=
  match table[symbol]? with
  | none => throw .corrupt
  | some (base, extra) => do return base + (← bits extra)

def fixedDistance : Unpacker Nat := do
  return Code.ofPath (Code.path (← bits 5) 5)

def symbols (literals : Code) (distance : Unpacker Nat) : Nat → Unpacker Unit
  | 0 => throw .incomplete
  | fuel + 1 => do
    let symbol ← literals.decode
    if symbol < 256 then
      write (UInt8.ofNat symbol)
      symbols literals distance fuel
    else if symbol = 256 then return
    else
      let length ← extended lengths (symbol - 257)
      let back ← extended distances (← distance)
      modify fun progress =>
        { progress with out := copyBack back length progress.out }
      symbols literals distance fuel

def codeLengths (code : Code) (total : Nat) : Nat → List Nat → Unpacker (List Nat)
  | 0, _ => throw .incomplete
  | fuel + 1, found =>
    if total ≤ found.length then return found.reverse
    else do
      let symbol ← code.decode
      if symbol < 16 then codeLengths code total fuel (symbol :: found)
      else
        let (base, extra) := if symbol = 16 then (3, 2) else if symbol = 17 then (3, 3) else (11, 7)
        available extra
        if symbol = 16 ∧ found = [] then throw .corrupt
        let length := if symbol = 16 then found.headD 0 else 0
        let count := base + (← bits extra)
        if total < found.length + count then throw .corrupt
        codeLengths code total fuel (List.replicate count length ++ found)

def endMark : Nat := 256

def ownCodes : Unpacker (Code × Code) := do
  let literals := (← bits 5) + 257
  let distances := (← bits 5) + 1
  let count := (← bits 4) + 4
  let written ← (Inflate.lengthOrder.take count).mapM fun symbol => do return (symbol, ← bits 3)
  let code ← codeOf ((List.range 19).map fun symbol => (written.lookup symbol).getD 0)
  let total := literals + distances
  let all ← codeLengths code total (total + 1) []
  if all.getD endMark 0 = 0 then throw .corrupt
  let forLiterals := all.take literals ++ List.replicate (Code.literalCount - literals) 0
  let forDistances := all.drop literals ++ List.replicate (Code.distanceCount - distances) 0
  return (← codeOf forLiterals, ← codeOf forDistances)

def stored : Unpacker Unit := do
  modify fun progress => { progress with position := (progress.position + 7) / 8 * 8 }
  let length ← bits 16
  let complement ← bits 16
  if length + complement ≠ 65535 then throw .corrupt
  let found := min length ((← left) / 8)
  let bytes ← read
  modify fun progress =>
    let start := progress.position / 8
    ⟨progress.position + 8 * found, progress.out ++ bytes.extract start (start + found)⟩
  if found < length then throw .incomplete

def blocks : Nat → Unpacker Unit
  | 0 => throw .incomplete
  | fuel + 1 => do
    let last ← bits 1
    match ← bits 2 with
    | 0 => stored
    | 1 => symbols (← codeOf Inflate.fixedLengths) fixedDistance (fuel + 1)
    | 2 => do
      let (literals, distances) ← ownCodes
      symbols literals distances.decode (fuel + 1)
    | _ => throw .corrupt
    if last = 1 then return else blocks fuel

end Metaspace.WideInflate

namespace Metaspace

def inflateWide (bytes : ByteArray) : Except CodingFault ByteArray :=
  match (ReaderT.run (WideInflate.blocks (8 * bytes.size + 1)) bytes).run ⟨0, .empty⟩ with
  | .ok _ progress => .ok progress.out
  | .error .incomplete progress => .ok progress.out
  | .error fault _ => .error fault

end Metaspace
