import Metaspace.Heap.Basic

set_option autoImplicit false

namespace Metaspace

structure RootTable where
  entries : Array (Option Ref)
  free : List Nat
  deriving DecidableEq, Repr

namespace RootTable

def empty : RootTable := ⟨#[], []⟩

def get? (table : RootTable) (index : Nat) : Option Ref :=
  (table.entries[index]?).join

def add (table : RootTable) (r : Ref) : Nat × RootTable :=
  match table.free with
  | index :: free => (index, ⟨table.entries.setIfInBounds index (some r), free⟩)
  | [] => (table.entries.size, { table with entries := table.entries.push (some r) })

/-- Removes the reference at an index, if there is one, and frees the index. -/
def remove (table : RootTable) (index : Nat) : Option Ref × RootTable :=
  match table.get? index with
  | some r => (some r, ⟨table.entries.setIfInBounds index none, index :: table.free⟩)
  | none => (none, table)

def refs (table : RootTable) : List Ref :=
  table.entries.toList.filterMap id

def size (table : RootTable) : Nat := table.refs.length

def isEmpty (table : RootTable) : Bool := table.refs.isEmpty

end RootTable
end Metaspace
