import Metaspace.Id.Basic

set_option autoImplicit false

namespace Metaspace

inductive Insertion (space : IdSpace) where
  | inserted (id : Id space)
  | taken (id : Id space)
  | exhausted
  deriving DecidableEq

/-- `entries` holds at position `n` what was inserted under id `n + 1`, unless it was removed. -/
structure IdTable (space : IdSpace) (κ : Type) (α : Type) [Ord κ] where
  index : Std.TreeMap κ (Id space)
  entries : Array (Option (κ × α))
  size : Nat

namespace IdTable

variable {space : IdSpace} {κ α : Type} [Ord κ]

def empty : IdTable space κ α := ⟨∅, #[], 0⟩

def isEmpty (table : IdTable space κ α) : Bool := table.size == 0

def idOf? (table : IdTable space κ α) (key : κ) : Option (Id space) :=
  table.index[key]?

def containsKey (table : IdTable space κ α) (key : κ) : Bool :=
  (table.idOf? key).isSome

def entry? (table : IdTable space κ α) (id : Id space) : Option (κ × α) :=
  match id.number with
  | 0 => none
  | position + 1 => (table.entries[position]?).join

def get? (table : IdTable space κ α) (id : Id space) : Option α :=
  (table.entry? id).map (·.2)

def contains (table : IdTable space κ α) (id : Id space) : Bool :=
  (table.get? id).isSome

def getKeyed? (table : IdTable space κ α) (key : κ) : Option α :=
  (table.idOf? key).bind table.get?

def insertWith (table : IdTable space κ α) (key : κ) (make : Id space → α) :
    Insertion space × IdTable space κ α :=
  match table.idOf? key with
  | some id => (.taken id, table)
  | none =>
    match Id.ofNumber? (table.entries.size + 1) with
    | none => (.exhausted, table)
    | some id => (.inserted id,
      { index := table.index.insert key id
        entries := table.entries.push (some (key, make id))
        size := table.size + 1 })

def insert (table : IdTable space κ α) (key : κ) (value : α) :
    Insertion space × IdTable space κ α :=
  table.insertWith key fun _ => value

def erase (table : IdTable space κ α) (id : Id space) : Option α × IdTable space κ α :=
  match table.entry? id with
  | none => (none, table)
  | some (key, value) => (some value,
    { index := table.index.erase key
      entries := table.entries.setIfInBounds (id.number - 1) none
      size := table.size - 1 })

def modify (table : IdTable space κ α) (id : Id space) (f : α → α) : IdTable space κ α :=
  match table.entry? id with
  | none => table
  | some (key, value) =>
    { table with entries := table.entries.setIfInBounds (id.number - 1) (some (key, f value)) }

/-- The values that have not been removed, in the order of their ids. -/
def toList (table : IdTable space κ α) : List (Id space × α) :=
  table.entries.toList.zipIdx.filterMap fun (entry, position) =>
    match entry, Id.ofNumber? (position + 1) with
    | some (_, value), some id => some (id, value)
    | _, _ => none

def values (table : IdTable space κ α) : List α :=
  table.entries.toList.filterMap fun entry => entry.map (·.2)

end IdTable
end Metaspace
