import Metaspace.Coding.Reader

set_option autoImplicit false

namespace Metaspace

structure PrefixCode where
  counts : Array Nat
  symbols : Array Nat

namespace PrefixCode

open Coding

def symbolsOfLength (lengths : List Nat) (length : Nat) : List Nat :=
  lengths.zipIdx.filterMap fun (l, symbol) => if l = length then some symbol else none

def ofLengths (maxLength : Nat) (lengths : List Nat) : PrefixCode where
  counts := ((List.range (maxLength + 1)).map fun l => if l = 0 then 0 else lengths.count l).toArray
  symbols := ((List.range maxLength).flatMap fun l => symbolsOfLength lengths (l + 1)).toArray

def space (maxLength : Nat) (lengths : List Nat) : Nat :=
  ((lengths.filter (· ≠ 0)).map fun l => Nat.pow 2 (maxLength - l)).foldl (· + ·) 0

def isComplete (maxLength : Nat) (lengths : List Nat) : Bool :=
  space maxLength lengths = Nat.pow 2 maxLength

/-- Reads bit by bit until the bits are a code. `first` is the first code of the length, `index` the
place of its symbol. -/
def decodeFrom (code : PrefixCode) (bit : Reader Nat) (length value first index : Nat) :
    Nat → Reader Nat
  | 0 => throw .corrupt
  | n + 1 => do
    let value := 2 * value + (← bit)
    let first := 2 * first
    let count := code.counts.getD length 0
    if value < first + count then
      match code.symbols[index + (value - first)]? with
      | some symbol => return symbol
      | none => throw .corrupt
    else code.decodeFrom bit (length + 1) value (first + count) (index + count) n

def decode (code : PrefixCode) (bit : Reader Nat) : Reader Nat :=
  code.decodeFrom bit 1 0 0 0 (code.counts.size - 1)

end PrefixCode
end Metaspace
