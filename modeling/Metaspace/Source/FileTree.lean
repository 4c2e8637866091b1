import Metaspace.Failure
import Metaspace.Source.Path

set_option autoImplicit false

namespace Metaspace

inductive FileNode where
  | file (bytes : ByteArray)
  | directory

/-- Where a node is: the names that lead to it from the root or the current directory. -/
abbrev Location := List (List Char)

namespace Location

def root : Location := [['/']]

def current : Location := []

def upName : List Char := ['.', '.']

/-- The names go from the current directory upwards and not down again. -/
def isUpwards (location : Location) : Bool := location.all (· = upName)

def parent (location : Location) : Location :=
  if location = root then root
  else if location.isUpwards then location ++ [upName]
  else location.dropLast

def isIdle (part : List Char) : Bool := part = [] ∨ part = ['.']

def step (location : Location) (part : List Char) : Location :=
  if isIdle part then location
  else if part = upName then location.parent
  else location ++ [part]

def start (path : List Char) : Location :=
  if path.head? = some '/' then root else current

end Location

structure FileTree where
  nodes : List (Location × FileNode)

namespace FileTree

def maxNameLength : Nat := 255

def maxPathLength : Nat := 4095

def empty : FileTree := ⟨[]⟩

/-- Adds a node, which hides an earlier one in its location, and the directories on the way. -/
def insert (tree : FileTree) (path : String) (node : FileNode) : FileTree :=
  let parts := path.toList.splitOn '/'
  let onTheWay := (List.range parts.length).map fun n =>
    (parts.take n).foldl Location.step (Location.start path.toList)
  let location := parts.foldl Location.step (Location.start path.toList)
  ⟨(location, node) :: tree.nodes ++ onTheWay.map fun location => (location, .directory)⟩

def node? (tree : FileTree) (location : Location) : Option FileNode :=
  match tree.nodes.find? (·.1 = location) with
  | some (_, node) => some node
  | none => if location = Location.root ∨ location.isUpwards then some .directory else none

/-- Follows the parts of a path. Each of them, also one that stays where it is, is looked up in a
directory. -/
def walk (tree : FileTree) : Location → List (List Char) → Except FileError FileNode
  | location, [] => (tree.node? location).elim (.error .notFound) .ok
  | location, part :: parts =>
    match tree.node? location with
    | some .directory =>
      if (String.ofList part).utf8ByteSize > maxNameLength then .error .nameTooLong
      else tree.walk (location.step part) parts
    | some (.file _) => .error .notDirectory
    | none => .error .notFound

def lookup (tree : FileTree) (path : List Char) : Except FileError FileNode :=
  if path = [] then .error .notFound
  else if (String.ofList path).utf8ByteSize > maxPathLength then .error .nameTooLong
  else tree.walk (Location.start path) (path.splitOn '/')

def read (tree : FileTree) (path : String) : Except FileError ByteArray :=
  match tree.lookup path.toList with
  | .ok (.file bytes) => .ok bytes
  | .ok .directory => .error .isDirectory
  | .error e => .error e

def contains (tree : FileTree) (path : String) : Bool :=
  (tree.lookup path.toList).isOk

end FileTree
end Metaspace
