import Std.Data.TreeMap

set_option autoImplicit false

namespace Metaspace

structure IdSpace where
  label : String
  bound : Nat
  deriving DecidableEq, Repr

@[ext] structure Id (space : IdSpace) where
  number : Nat
  number_le : number ≤ space.bound
  deriving DecidableEq

namespace Id

variable {space : IdSpace}

def ofNumber? (number : Nat) : Option (Id space) :=
  if h : number ≤ space.bound then some ⟨number, h⟩ else none

def display (id : Id space) : String :=
  space.label ++ "#" ++ toString id.number

def bracketed (id : Id space) : String :=
  space.label ++ "<" ++ toString id.number ++ ">"

instance : Ord (Id space) := ⟨fun a b => compare a.number b.number⟩

instance : Std.TransOrd (Id space) where
  eq_swap := Std.OrientedOrd.eq_swap (α := Nat)
  isLE_trans := Std.TransOrd.isLE_trans (α := Nat)

instance : Std.LawfulEqOrd (Id space) where
  eq_of_compare h := Id.ext (Std.LawfulEqOrd.eq_of_compare (α := Nat) h)

end Id
end Metaspace
