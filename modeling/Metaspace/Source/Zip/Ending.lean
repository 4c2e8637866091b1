import Metaspace.Failure
import Metaspace.Source.Zip.Layout

/-!
The end of an archive. The record there says where the directory is, as seen from the start of the
archive. Bytes in front of the archive are passed over: how many there are shows in where the first
entry of the directory really is. Archives whose numbers do not fit have a second record with wider
numbers before the first.
-/

set_option autoImplicit false

namespace Metaspace.Zip

structure Directory where
  count : Nat
  offset : Nat
  skipped : Nat
  isOnOneDisk : Bool
  isConsistent : Bool
  deriving DecidableEq, Repr

def Directory.start (directory : Directory) : Nat :=
  directory.offset + directory.skipped

structure Ending where
  disk : Nat
  directoryDisk : Nat
  countHere : Nat
  count : Nat
  offset : Nat
  deriving DecidableEq, Repr

def endLength : Nat := 22

def endingAt (bytes : ByteArray) (offset : Nat) : Except ArchiveError Ending :=
  let ending? : Option (Ending × Nat) := do
    let disk ← number? bytes (offset + 4) 2
    let directoryDisk ← number? bytes (offset + 6) 2
    let countHere ← number? bytes (offset + 8) 2
    let count ← number? bytes (offset + 10) 2
    let start ← number? bytes (offset + 16) 4
    let comment ← number? bytes (offset + 20) 2
    return (⟨disk, directoryDisk, countHere, count, start⟩, comment)
  match ending? with
  | none => .error .truncated
  | some (ending, comment) =>
    if offset + endLength + comment ≤ bytes.size then .ok ending
    else .error (.malformed .longComment)

def Ending.isFull (ending : Ending) : Bool :=
  ending.count = 0xFFFF ∨ ending.offset = 0xFFFFFFFF

def Ending.directory (bytes : ByteArray) (position : Nat) (ending : Ending) :
    Except ArchiveFault Directory :=
  let directory (skipped : Nat) : Directory :=
    ⟨ending.countHere, ending.offset, skipped, ending.disk = ending.directoryDisk, true⟩
  if ending.count = 0 then .ok (directory (position - ending.offset))
  else if position ≤ ending.offset then .error .directoryAfterEnd
  else
    match places bytes listingSignature ending.offset position with
    | [] => .error .noDirectory
    | first :: _ => .ok (directory (first - ending.offset))

structure Locator where
  disk : Nat
  offset : Nat
  disks : Nat
  deriving DecidableEq, Repr

def locatorLength : Nat := 20

def locator? (bytes : ByteArray) (position : Nat) : Option Locator := do
  guard (locatorLength ≤ position)
  let start := position - locatorLength
  guard (isAt bytes locatorSignature start)
  let disk ← number? bytes (start + 4) 4
  let offset ← number? bytes (start + 8) 8
  let disks ← number? bytes (start + 16) 4
  return ⟨disk, offset, disks⟩

def wideEndLength : Nat := 44

/-- The directory that the record with wider numbers at `start` tells of, which the locator at
`stop` led to. -/
def wideDirectory (bytes : ByteArray) (locator : Locator) (stop start : Nat) :
    Except ArchiveError Directory := do
  let number (offset width : Nat) : Except ArchiveError Nat :=
    (number? bytes (start + offset) width).elim (.error .truncated) .ok
  let length ← number 4 8
  let madeBy ← number 12 2
  let needed ← number 14 2
  let disk ← number 16 4
  let directoryDisk ← number 20 4
  let countHere ← number 24 8
  let count ← number 32 8
  let offset ← number 48 8
  if length < wideEndLength then throw (.malformed .shortWideEnd)
  if stop - start < length + 12 then throw (.malformed .longWideEnd)
  if directoryDisk ≠ locator.disk then throw (.malformed .wideEndElsewhere)
  if length + 12 ≠ stop - start then throw (.malformed .wideEndLength)
  if start < count * 46 + offset then throw (.malformed .wideEndCount)
  return ⟨count, offset, start - locator.offset, disk = directoryDisk,
    countHere ≤ count ∧ needed ≤ madeBy⟩

def firstWide (bytes : ByteArray) (locator : Locator) (stop : Nat) :
    List Nat → ArchiveError → Except ArchiveError Directory
  | [], e => .error e
  | start :: rest, _ =>
    match wideDirectory bytes locator stop start with
    | .ok directory => .ok directory
    | .error e => firstWide bytes locator stop rest e

def Locator.directory (bytes : ByteArray) (stop : Nat) (locator : Locator) :
    Except ArchiveError Directory :=
  if stop ≤ locator.offset then .error (.malformed .wideEndAfterLocator)
  else if 1 < locator.disks then .error (.malformed .manyDisks)
  else
    firstWide bytes locator stop (places bytes wideEndSignature locator.offset stop)
      (.malformed .noWideEnd)

def Ending.resolve (bytes : ByteArray) (position : Nat) (ending : Ending) :
    Except ArchiveError Directory :=
  match if ending.isFull then locator? bytes position else none with
  | none => (ending.directory bytes position).mapError .malformed
  | some locator => locator.directory bytes (position - locatorLength)

end Metaspace.Zip
