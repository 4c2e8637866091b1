set_option autoImplicit false

namespace Metaspace

variable {α κ : Type} [Ord κ]

/-- The element with a key. In a list that does not ascend it may be missed. -/
def bisect? (keyOf : α → κ) (key : κ) (xs : List α) : Option α :=
  let middle := xs.length / 2
  if middle = 0 then xs.find? fun x => compare (keyOf x) key = .eq
  else if (xs.drop middle).head?.any fun x => compare key (keyOf x) = .lt then
    bisect? keyOf key (xs.take middle)
  else bisect? keyOf key (xs.drop middle)
termination_by xs.length
decreasing_by
  · rw [List.length_take]
    omega
  · rw [List.length_drop]
    omega

end Metaspace
