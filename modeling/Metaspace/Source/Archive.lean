import Metaspace.Failure

set_option autoImplicit false

namespace Metaspace

/-- An entry of an archive with its packed data, if that can be got at. Directories have names that
end in a slash. -/
structure ArchiveEntry where
  name : String
  isLink : Bool
  packing : Packing
  checksum : UInt32
  size : Nat
  data : Except ArchiveError ByteArray

namespace ArchiveEntry

def ofFile (name : String) (bytes : ByteArray) : ArchiveEntry where
  name
  isLink := false
  packing := .stored
  checksum := Checksum.crc32 bytes
  size := bytes.size
  data := .ok bytes

def obstacle? (entry : ArchiveEntry) : Option ArchiveError :=
  match entry.data with
  | .error e => some e
  | .ok _ => none

def sizeLimit : Nat := 0x8000000000000000

def content (entry : ArchiveEntry) : Except ArchiveError ByteArray :=
  if sizeLimit ≤ entry.size then .error .oversized
  else do
    let packed ← entry.data
    match entry.packing.unpack packed entry.size with
    | .error fault => throw (.badData fault)
    | .ok bytes =>
      if Checksum.crc32 bytes = entry.checksum then return bytes else throw .badChecksum

theorem content_ofFile {name : String} {bytes : ByteArray} (h : bytes.size < sizeLimit) :
    (ofFile name bytes).content = .ok bytes := by
  have hsize : ¬ sizeLimit ≤ (ofFile name bytes).size := Nat.not_le.mpr h
  rw [content, if_neg hsize]
  exact if_pos rfl

theorem obstacle?_of_content {entry : ArchiveEntry} {bytes : ByteArray}
    (h : entry.content = .ok bytes) : entry.obstacle? = none := by
  unfold obstacle?
  split
  · rename_i e hdata
    rw [content, hdata] at h
    split at h <;> cases h
  · rfl

end ArchiveEntry

namespace Archive

def classSuffix : List Char := ".class".toList

private def trimReversed : List Char → List Char
  | 's' :: 's' :: 'a' :: 'l' :: 'c' :: '.' :: cs => trimReversed cs
  | cs => cs

def trimClass (cs : List Char) : List Char :=
  (trimReversed cs.reverse).reverse

theorem trimClass_append (cs : List Char) : trimClass (cs ++ classSuffix) = trimClass cs := by
  rw [trimClass, List.reverse_append]
  rfl

theorem trimClass_eq_self {cs : List Char} (h : ¬ classSuffix <:+ cs) : trimClass cs = cs := by
  have hself (rs : List Char) (hrs : ¬ classSuffix.reverse <+: rs) : trimReversed rs = rs := by
    unfold trimReversed
    split
    · exact absurd ⟨_, rfl⟩ hrs
    · rfl
  rw [trimClass, hself cs.reverse (mt List.reverse_prefix.mp h), List.reverse_reverse]

def isClassEntry (entry : ArchiveEntry) : Bool :=
  classSuffix.isSuffixOf entry.name.toList && !entry.isLink

def key (entry : ArchiveEntry) : List Char :=
  trimClass entry.name.toList

def find? (entries : List ArchiveEntry) (name : String) : Option ArchiveEntry :=
  (entries.filter isClassEntry).reverse.find? fun entry => key entry = name.toList

/-- Entries of one name are one entry, in the place of the first, with the content of the last. -/
def merge (entries : List ArchiveEntry) : List ArchiveEntry :=
  entries.foldl
    (fun merged entry =>
      if merged.any (·.name = entry.name) then
        merged.map fun old => if old.name = entry.name then entry else old
      else merged ++ [entry])
    []

end Archive
end Metaspace
