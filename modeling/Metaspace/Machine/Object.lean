import Metaspace.Class.Descriptor
import Metaspace.Heap.Basic

/-!
The objects of a machine. Instances and arrays point at the mirror of their class; a mirror points
at the holder of the class's loader and, for an array class, at the mirror of its component; a
holder points at the mirrors of the classes that its loader defines. Marking objects thereby marks
the classes and loaders they depend on.
-/

set_option autoImplicit false

namespace Metaspace

inductive Object where
  | instanceOf (classId : ClassId) (mirror : Ref) (fields : Array (Option Ref))
  | arrayOf (classId : ClassId) (mirror : Ref) (elements : Array (Option Ref))
  | mirrorOf (classId : ClassId) (loader component : Option Ref)
  | holderOf (loader : LoaderId) (mirrors : Array Ref)
  deriving DecidableEq

def saturating (n : Nat) : UInt64 :=
  UInt64.ofNat (min n 0xFFFFFFFFFFFFFFFF)

namespace Object

def referenceSize : Nat := 8

/-- Bytes of an array of that length; lengths that no heap can hold come to the greatest word. -/
def arraySize (length : Nat) : UInt64 :=
  saturating ((length + 1) * referenceSize + 8)

def refs : Object → List Ref
  | .instanceOf _ mirror fields => mirror :: fields.toList.filterMap id
  | .arrayOf _ mirror elements => mirror :: elements.toList.filterMap id
  | .mirrorOf _ loader component => loader.toList ++ component.toList
  | .holderOf _ mirrors => mirrors.toList

def size : Object → UInt64
  | .instanceOf _ _ fields => UInt64.ofNat (referenceSize * (fields.size + 1))
  | .arrayOf _ _ elements => arraySize elements.size
  | .mirrorOf _ _ _ => 24
  | .holderOf _ _ => 32

instance : HeapObject Object := ⟨refs, size⟩

def class? : Object → Option ClassId
  | .instanceOf c _ _ => some c
  | .arrayOf c _ _ => some c
  | _ => none

def slots : Object → Array (Option Ref)
  | .instanceOf _ _ fields => fields
  | .arrayOf _ _ elements => elements
  | _ => #[]

/-- Puts a reference into a place of the object, if there is such a place. -/
def store (object : Object) (index : Nat) (value : Option Ref) : Object :=
  match object with
  | .instanceOf c mirror fields => .instanceOf c mirror (fields.setIfInBounds index value)
  | .arrayOf c mirror elements => .arrayOf c mirror (elements.setIfInBounds index value)
  | object => object

def length? : Object → Option Nat
  | .arrayOf _ _ elements => some elements.size
  | _ => none

def kind : Object → String
  | .instanceOf _ _ _ => "Instance"
  | .arrayOf _ _ _ => "Array"
  | .mirrorOf _ _ _ => "Mirror"
  | .holderOf _ _ => "Loader"

def inspect : Object → String
  | .instanceOf c _ fields =>
    "Instance(" ++ c.bracketed ++ ", " ++ toString fields.size ++ " fields)"
  | .arrayOf c _ elements => "Array(" ++ c.bracketed ++ ", length " ++ toString elements.size ++ ")"
  | .mirrorOf c _ _ => "Mirror(" ++ c.bracketed ++ ")"
  | .holderOf loader mirrors =>
    "Loader(" ++ loader.bracketed ++ ", " ++ toString mirrors.size ++ " classes)"

end Object
end Metaspace
