import Metaspace.Source.Archive
import Metaspace.Source.FileTree
import Metaspace.Source.Zip.Listing
import Metaspace.Source.Zip.Writer

set_option autoImplicit false

namespace Metaspace

inductive Source where
  | memory (classes : List (String × ByteArray))
  | directory (tree : FileTree) (path : String)
  | jar (entries : List ArchiveEntry)
  | failing (text : String)

namespace Source

/-- The jar with the given bytes, if all of its entries can be opened. -/
def ofJarBytes (bytes : ByteArray) : Except Failure Source :=
  match Zip.read bytes with
  | .error e => .error ((Failure.of (.archive e)).within .openingJar)
  | .ok entries =>
    match entries.findSome? ArchiveEntry.obstacle? with
    | some e => .error (.of (.archive e))
    | none => .ok (.jar entries)

def load (source : Source) (name : String) : Except Failure (Option ByteArray) :=
  match source with
  | .memory classes => .ok ((classes.reverse.find? (·.1 = name)).map (·.2))
  | .directory tree path =>
    let file := Path.ofClass path name
    if tree.contains file then
      match tree.read file with
      | .ok bytes => .ok (some bytes)
      | .error e => .error ((Failure.of (.file e)).within (.reading file))
    else .ok none
  | .jar entries =>
    match Archive.find? entries (internalName name) with
    | none => .ok none
    | some entry =>
      match entry.content with
      | .ok bytes => .ok (some bytes)
      | .error e => .error (.of (.archive e))
  | .failing text => .error (.of (.source text))

end Source
end Metaspace
