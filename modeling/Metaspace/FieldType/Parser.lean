import Metaspace.FieldType.Basic

set_option autoImplicit false

namespace Metaspace

def utf8Length (cs : List Char) : Nat :=
  (cs.map Char.utf8Size).foldl (· + ·) 0

namespace Descriptor

abbrev Reading := FieldType × Nat

/-- Reads `L`, a non-empty name and `;`. Slashes in the name read as dots. -/
def readObject? : List Char → Option Reading
  | 'L' :: cs =>
    let body := cs.takeWhile (· ≠ ';')
    if body ≠ [] ∧ body.length < cs.length then
      let name := String.ofList (body.map fun c => if c = '/' then '.' else c)
      some (.object name, utf8Length body + 2)
    else none
  | _ => none

def readPrimitive? : List Char → Option Reading
  | c :: _ => (Primitive.ofLetter? c).map fun p => (.primitive p, 1)
  | [] => none

def readElement? (cs : List Char) : Option Reading :=
  if cs.head? = some 'L' then readObject? cs else readPrimitive? cs

def read? (cs : List Char) : Option Reading :=
  let brackets := (cs.takeWhile (· = '[')).length
  if brackets ≤ FieldType.maxDimensions then
    (readElement? (cs.drop brackets)).map fun (type, length) =>
      (type.wrap brackets, length + brackets)
  else none

def readArray? (cs : List Char) : Option Reading :=
  if cs.head? = some '[' then read? cs else none

end Descriptor

namespace FieldType

def ofDescriptor? (text : String) : Option FieldType :=
  match Descriptor.read? text.toList with
  | some (type, length) => if length = text.utf8ByteSize then some type else none
  | none => none

/-- The type with a binary name. Arrays are named by their descriptor, primitive types by their
keyword, and all other texts without `[`, `;` and `/` name classes. -/
def ofName? (name : String) : Option FieldType :=
  match name.toList with
  | [] => none
  | '[' :: _ => ofDescriptor? name
  | cs =>
    match Primitive.ofKeyword? name with
    | some p => some (.primitive p)
    | none => if cs.any fun c => c = '[' || c = ';' || c = '/' then none else some (.object name)

end FieldType
end Metaspace
