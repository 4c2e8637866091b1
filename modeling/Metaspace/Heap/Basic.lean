/-!
The heap: a fixed number of bytes, shared by objects that never move. An object lives in a slot and
is named by a reference, the slot's index together with its generation. The generation moves on when
the object is freed, so that old references stop resolving instead of naming the slot's next object.

Sizes are 64-bit words, whose sums may not leave their range; generations are 32-bit words, which
wrap around.
-/

set_option autoImplicit false

namespace Metaspace

def overflowMessage : String := "attempt to add with overflow"

structure Ref where
  index : Nat
  generation : UInt32
  deriving DecidableEq, Repr

def Ref.display (r : Ref) : String :=
  "GcRef(" ++ toString r.index ++ "v" ++ toString r.generation ++ ")"

class HeapObject (α : Type) where
  /-- The references an object holds, in the order in which they are visited. -/
  refs : α → List Ref
  size : α → UInt64

inductive AllocationError where
  | outOfHeap
  | objectTooBig
  | overflow
  deriving DecidableEq, Repr

def AllocationError.message : AllocationError → String
  | .outOfHeap => "Out of heap space"
  | .objectTooBig => "Object is too big to be allocated"
  | .overflow => overflowMessage

/-- An object on the heap, with the bytes charged for it. It is marked if its flag equals the
polarity of the heap. -/
structure Cell (α : Type) where
  object : α
  charge : UInt64
  flag : Bool

structure Slot (α : Type) where
  generation : UInt32
  cell : Option (Cell α)

/-- `free` holds the empty slots, the one to be used next at its front. The polarity changes with
every mark, which makes all that was marked unmarked. `unswept` says that a mark ran after the last
sweep. -/
structure Heap (α : Type) where
  capacity : UInt64
  slots : Array (Slot α)
  free : List Nat
  frozen : List Ref
  polarity : Bool
  unswept : Bool
  used : UInt64
  objects : Nat

namespace Heap

variable {α : Type}

def header : UInt64 := 16

def slotLimit : Nat := 0x100000000

def empty (capacity : UInt64) : Heap α :=
  ⟨capacity, #[], [], [], false, false, 0, 0⟩

def Slot.at? (slot : Slot α) (generation : UInt32) : Option (Cell α) :=
  if slot.generation = generation then slot.cell else none

def cell? (heap : Heap α) (r : Ref) : Option (Cell α) :=
  (heap.slots[r.index]?).bind fun slot => Slot.at? slot r.generation

def get? (heap : Heap α) (r : Ref) : Option α :=
  (heap.cell? r).map (·.object)

def contains (heap : Heap α) (r : Ref) : Bool :=
  (heap.cell? r).isSome

/-- Whether the object was reached by the last mark or allocated after it. -/
def isMarked (heap : Heap α) (r : Ref) : Bool :=
  (heap.cell? r).any (·.flag = heap.polarity)

/-- Replaces the object a reference names. What is charged for it stays. -/
def modify (heap : Heap α) (r : Ref) (f : α → α) : Heap α :=
  { heap with slots := heap.slots.modify r.index fun slot =>
      if slot.generation = r.generation then
        { slot with cell := slot.cell.map fun cell => { cell with object := f cell.object } }
      else slot }

/-- Refuses a size that no empty heap of this capacity could take. -/
def ensureFits (heap : Heap α) (size : UInt64) : Except AllocationError Unit :=
  if size.toNat + header.toNat ≤ heap.capacity.toNat then .ok () else .error .objectTooBig

def Overflow (a b : UInt64) : Prop := UInt64.size ≤ a.toNat + b.toNat

instance (a b : UInt64) : Decidable (Overflow a b) :=
  inferInstanceAs (Decidable (UInt64.size ≤ a.toNat + b.toNat))

variable [HeapObject α]

def alloc (heap : Heap α) (object : α) : Except AllocationError (Ref × Heap α) :=
  let charge := HeapObject.size object + header
  let used := heap.used + charge
  if Overflow (HeapObject.size object) header then .error .overflow
  else if charge > heap.capacity then .error .objectTooBig
  else if Overflow heap.used charge then .error .overflow
  else if used > heap.capacity then .error .outOfHeap
  else
    let cell : Cell α := ⟨object, charge, heap.polarity⟩
    match heap.free with
    | index :: free =>
      let generation := (heap.slots[index]?).elim 0 (·.generation)
      .ok (⟨index, generation⟩,
        { heap with
          slots := heap.slots.setIfInBounds index ⟨generation, some cell⟩
          free := free
          used := used
          objects := heap.objects + 1 })
    | [] =>
      if heap.slots.size < slotLimit then
        .ok (⟨heap.slots.size, 0⟩,
          { heap with
            slots := heap.slots.push ⟨0, some cell⟩
            used := used
            objects := heap.objects + 1 })
      else .error .outOfHeap

end Heap

/-- Why a change of the frozen references is refused. -/
inductive FreezeError where
  | alreadyFrozen
  | notFrozen
  deriving DecidableEq, Repr

def FreezeError.message : FreezeError → String
  | .alreadyFrozen => "Double insertion!"
  | .notFrozen => "Removed a reference which was not frozen. (did you double free?)"

namespace Heap

variable {α : Type}

def freeze (heap : Heap α) (r : Ref) : Except FreezeError (Heap α) :=
  if heap.frozen.contains r then .error .alreadyFrozen
  else .ok { heap with frozen := r :: heap.frozen }

def unfreeze (heap : Heap α) (r : Ref) : Except FreezeError (Heap α) :=
  if heap.frozen.contains r then .ok { heap with frozen := heap.frozen.erase r }
  else .error .notFrozen

end Heap
end Metaspace
