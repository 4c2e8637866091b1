import Metaspace.Source.Archive
import Metaspace.Source.Zip.Layout

set_option autoImplicit false

namespace Metaspace.Zip

def fields (entry : ArchiveEntry) (name data : ByteArray) : List UInt8 :=
  littleEndian 2 20 ++ littleEndian 2 2048 ++ littleEndian 2 (entry.packing.code)
    ++ littleEndian 4 0 ++ littleEndian 4 entry.checksum.toNat ++ littleEndian 4 data.size
    ++ littleEndian 4 data.size ++ littleEndian 2 name.size ++ littleEndian 2 0

def sections (offset : Nat) : List ArchiveEntry → ByteArray × ByteArray
  | [] => (.empty, .empty)
  | entry :: entries =>
    let name := entry.name.toUTF8
    let data := entry.data.toOption.getD .empty
    let shared := fields entry name data
    let header : ByteArray := ⟨(littleEndian 4 entrySignature ++ shared).toArray⟩ ++ name ++ data
    let listed : ByteArray :=
      ⟨(littleEndian 4 listingSignature ++ littleEndian 2 20 ++ shared ++ littleEndian 10 0
        ++ littleEndian 4 offset).toArray⟩ ++ name
    let (headers, directory) := sections (offset + header.size) entries
    (header ++ headers, listed ++ directory)

def write (entries : List ArchiveEntry) : ByteArray :=
  let (headers, directory) := sections 0 entries
  headers ++ directory ++
    ⟨(littleEndian 4 endSignature ++ littleEndian 4 0 ++ littleEndian 2 entries.length
      ++ littleEndian 2 entries.length ++ littleEndian 4 directory.size
      ++ littleEndian 4 headers.size ++ littleEndian 2 0).toArray⟩

end Metaspace.Zip
