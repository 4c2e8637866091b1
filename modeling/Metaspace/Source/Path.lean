import Metaspace.FieldType.Basic

set_option autoImplicit false

namespace Metaspace.Path

/-- The path of `name` seen from `base`. An absolute name stands for itself. -/
def join (base name : List Char) : List Char :=
  if name.head? = some '/' then name
  else if base = [] ∨ base.getLast? = some '/' then base ++ name
  else base ++ '/' :: name

/-- Drops separators and `.` components from the front of a reversed path. -/
def trimReversed : List Char → List Char
  | '/' :: cs => trimReversed cs
  | '.' :: '/' :: cs => trimReversed cs
  | cs => cs

/-- The last component of a path and the text before it; none if that is `.` or `..`, or if the path
names a root or nothing. -/
def splitLast? (path : List Char) : Option (List Char × List Char) :=
  let reversed := trimReversed path.reverse
  let last := (reversed.takeWhile (· ≠ '/')).reverse
  if last = [] ∨ last = ['.'] ∨ last = ['.', '.'] then none
  else some ((reversed.drop last.length).reverse, last)

/-- A file name without its extension. A dot at the front starts no extension. -/
def stem (name : List Char) : List Char :=
  let before := (name.reverse.dropWhile (· ≠ '.')).drop 1
  if before = [] then name else before.reverse

/-- What follows the last dot of the last component, unless that dot is at its front. -/
def extension? (path : List Char) : Option (List Char) :=
  (splitLast? path).bind fun (_, name) =>
    if stem name = name then none else some (name.drop ((stem name).length + 1))

def withExtension (path extension : List Char) : List Char :=
  match splitLast? path with
  | none => path
  | some (before, name) => before ++ stem name ++ '.' :: extension

def ofClass (directory name : String) : String :=
  String.ofList
    (withExtension (join directory.toList (internalName name).toList) "class".toList)

end Metaspace.Path
