import Metaspace.Source.Archive
import Metaspace.Source.Zip.Ending
import Metaspace.Text.Lenient

set_option autoImplicit false

namespace Metaspace.Zip

def upperHalf : List Char :=
  ("ÇüéâäàåçêëèïîìÄÅÉæÆôöòûùÿÖÜ¢£¥₧ƒáíóúñÑªº¿⌐¬½¼¡«»░▒▓"
    ++ "│┤╡╢╖╕╣║╗╝╜╛┐└┴┬├─┼╞╟╚╔╩╦╠═╬╧╨╤╥╙╘╒╓╫╪┘┌█▄▌▐▀"
    ++ "αßΓπΣσµτΦΘΩδ∞φε∩≡±≥≤⌠⌡÷≈°∙·√ⁿ²■\u00A0").toList

def decodeLegacy (bytes : List UInt8) : List Char :=
  bytes.map fun byte =>
    if byte < 128 then Char.ofNat byte.toNat else upperHalf.getD (byte.toNat - 128) ' '

def decodeText (marked : Bool) (bytes : ByteArray) : String :=
  let decode := if marked then Lenient.decode else decodeLegacy
  String.ofList (decode bytes.data.toList)

structure Details where
  rawName : ByteArray
  name : String
  comment : String
  method : Nat
  isSealed : Bool
  size : Nat
  packedSize : Nat
  start : Nat

inductive Stop where
  | brokenOff
  | wrong
  deriving DecidableEq, Repr

abbrev Extra := ReaderT ByteArray (ExceptT Stop (StateM (Details × Nat)))

namespace Extra

def bytes (length : Nat) : Extra ByteArray := do
  let all ← read
  let (details, position) ← get
  if all.size < position + length then throw .brokenOff
  set (details, position + length)
  return all.extract position (position + length)

def number (width : Nat) : Extra Nat := do
  return (number? (← bytes width) 0 width).getD 0

def demand (holds : Bool) : Extra Unit :=
  if holds then return else throw .wrong

def change (f : Details → Details) : Extra Unit :=
  modify fun (details, position) => (f details, position)

def wideNumbers (length : Nat) : Extra Unit := do
  let isAll := 24 ≤ length
  let full := 0xFFFFFFFF
  let before := (← get).1
  if isAll ∨ before.size = full then
    let size ← number 8
    change fun details => { details with size }
  if isAll ∨ before.packedSize = full then
    let packedSize ← number 8
    change fun details => { details with packedSize }
  if isAll ∨ before.start = full then
    let start ← number 8
    change fun details => { details with start }
  let read := if isAll then 3
    else [before.size, before.packedSize, before.start].countP (· = full)
  demand (8 * read ≤ length)
  let _ ← bytes (length - 8 * read)

def sealing (length : Nat) : Extra Unit := do
  demand (length = 7)
  let version ← number 2
  let vendor ← number 2
  let strength ← number 1
  let method ← number 2
  demand (vendor = 0x4541)
  demand (version = 1 ∨ version = 2)
  demand (1 ≤ strength ∧ strength ≤ 3)
  change fun details => { details with method, isSealed := true }

def fileTimes (length : Nat) : Extra Unit := do
  demand (length = 32)
  let _ ← number 4
  demand ((← number 2) = 1)
  demand ((← number 2) = 24)
  let _ ← bytes 24

def chosenTimes (length : Nat) : Extra Unit := do
  let flags ← number 1
  let present := [1, 2, 4].filter fun weight => flags / weight % 2 = 1
  let times := (List.range 8).countP fun n => flags / Nat.pow 2 n % 2 = 1
  demand (length = 5 ∨ length = 1 + 4 * times)
  demand (flags < 8)
  let read := if length = 5 then 1 else present.length
  let _ ← bytes (4 * read)

def replacing (length : Nat) (replaced : ByteArray) : Extra ByteArray := do
  let _ ← number 1
  let checksum ← number 4
  demand (5 ≤ length)
  let content ← bytes (length - 5)
  demand (checksum = (Checksum.crc32 replaced).toNat)
  demand (content.validateUTF8)
  return content

def field : Extra Unit := do
  let kind ← number 2
  let length ← number 2
  match kind with
  | 0x0001 => wideNumbers length
  | 0x000A => fileTimes length
  | 0x5455 => chosenTimes length
  | 0x9901 => sealing length
  | 0x6375 =>
    let comment ← replacing length (← get).1.comment.toUTF8
    change fun details => { details with comment := decodeText true comment }
  | 0x7075 =>
    let rawName ← replacing length (← get).1.rawName
    change fun details => { details with rawName, name := decodeText true rawName }
  | _ => let _ ← bytes length

def fields : Nat → Extra Unit
  | 0 => return
  | n + 1 => do
    if (← get).2 < (← read).size then
      field
      fields n

end Extra

def Details.withExtra? (details : Details) (extra : ByteArray) : Option Details :=
  match ((Extra.fields extra.size).run extra).run (details, 0) with
  | (.error .wrong, _) => none
  | (_, (details, _)) => some details

def dataAt (bytes : ByteArray) (start length : Nat) : Except ArchiveError ByteArray :=
  match number? bytes (start + 26) 2, number? bytes (start + 28) 2 with
  | some nameLength, some extraLength =>
    if isAt bytes entrySignature start then
      let offset := min (start + 30 + nameLength + extraLength) bytes.size
      .ok (bytes.extract offset (min (offset + length) bytes.size))
    else .error (.malformed .badEntry)
  | _, _ => .error .truncated

def sealedMethod : Nat := 99

def unixSystem : Nat := 3

def isLink (system attributes : Nat) : Bool :=
  system = unixSystem ∧ (attributes / 0x10000) &&& 0xA000 = 0xA000

def access (bytes : ByteArray) (isEncrypted : Bool) (details : Details) :
    Except ArchiveError (Packing × ByteArray) := do
  if isEncrypted then throw .encrypted
  let data ← dataAt bytes details.start details.packedSize
  let packing? := Packing.ofCode? details.method
  if packing?.isNone ∧ details.method ≠ sealedMethod then throw .unsupportedMethod
  if details.isSealed then throw .wrongPassword
  match packing? with
  | some packing => return (packing, data)
  | none => throw .unsupportedMethod

def entryAt? (bytes : ByteArray) (directory : Directory) (offset : Nat) :
    Option (ArchiveEntry × Nat) := do
  guard (isAt bytes listingSignature offset)
  let madeBy ← number? bytes (offset + 4) 2
  let flags ← number? bytes (offset + 8) 2
  let method ← number? bytes (offset + 10) 2
  let checksum ← number? bytes (offset + 16) 4
  let packedSize ← number? bytes (offset + 20) 4
  let size ← number? bytes (offset + 24) 4
  let nameLength ← number? bytes (offset + 28) 2
  let extraLength ← number? bytes (offset + 30) 2
  let commentLength ← number? bytes (offset + 32) 2
  let attributes ← number? bytes (offset + 38) 4
  let start ← number? bytes (offset + 42) 4
  let nameEnd := offset + 46 + nameLength
  let extraEnd := nameEnd + extraLength
  let next := extraEnd + commentLength
  guard (next ≤ bytes.size)
  let isMarked := flags / 2048 % 2 = 1
  let rawName := bytes.extract (offset + 46) nameEnd
  let details : Details :=
    { rawName, method, size, packedSize, start
      name := decodeText isMarked rawName
      comment := decodeText isMarked (bytes.extract extraEnd next)
      isSealed := false }
  let details ← details.withExtra? (bytes.extract nameEnd extraEnd)
  guard (details.method ≠ sealedMethod ∨ details.isSealed)
  let details := { details with start := details.start + directory.skipped }
  guard (details.start < numberLimit)
  guard (details.start < directory.start)
  let access := access bytes (flags % 2 = 1) details
  let entry : ArchiveEntry :=
    { name := details.name
      isLink := isLink (madeBy / 256) attributes
      packing := (access.toOption.map (·.1)).getD .stored
      checksum := checksum.toUInt32
      size := details.size
      data := access.map (·.2) }
  return (entry, next)

def entriesFrom? (bytes : ByteArray) (directory : Directory) :
    Nat → Nat → Option (List ArchiveEntry)
  | 0, _ => some []
  | count + 1, offset => do
    let (entry, next) ← entryAt? bytes directory offset
    return entry :: (← entriesFrom? bytes directory count next)

def Directory.entries? (bytes : ByteArray) (directory : Directory) :
    Option (List ArchiveEntry) := do
  guard (directory.isConsistent ∧ directory.isOnOneDisk ∧ directory.start < numberLimit)
  entriesFrom? bytes directory directory.count directory.start

/-- Reads the archive that one of the records at some places ends, if possible the first of them.
The error is the one of the last place that has no usable record since the last that has one. -/
def readFrom (bytes : ByteArray) : List Nat → Option ArchiveError →
    Except ArchiveError (List ArchiveEntry)
  | [], e => .error (e.getD (.malformed .noEnd))
  | position :: rest, e =>
    match endingAt bytes position with
    | .error new => readFrom bytes rest (e.or (some new))
    | .ok ending =>
      match ending.resolve bytes position with
      | .error new => readFrom bytes rest (some new)
      | .ok directory =>
        match directory.entries? bytes with
        | some entries => .ok (Archive.merge entries)
        | none => readFrom bytes rest none

def read (bytes : ByteArray) : Except ArchiveError (List ArchiveEntry) :=
  readFrom bytes (places bytes endSignature 0 bytes.size).reverse none

end Metaspace.Zip
