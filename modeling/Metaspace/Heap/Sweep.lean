import Metaspace.Heap.Mark

set_option autoImplicit false

namespace Metaspace

structure SweepStatistics where
  cleared : Nat
  remaining : Nat
  freed : UInt64
  deriving DecidableEq, Repr

namespace Slot

variable {α : Type}

def isCondemned (polarity : Bool) (slot : Slot α) : Bool :=
  slot.cell.any (·.flag ≠ polarity)

def charge (slot : Slot α) : UInt64 :=
  slot.cell.elim 0 (·.charge)

/-- A condemned slot loses its object and moves on to its next generation. -/
def swept (polarity : Bool) (slot : Slot α) : Slot α :=
  if slot.isCondemned polarity then ⟨slot.generation + 1, none⟩ else slot

end Slot

namespace Heap

variable {α : Type}

def condemned (heap : Heap α) : List Nat :=
  heap.slots.toList.zipIdx.filterMap fun (slot, index) =>
    if slot.isCondemned heap.polarity then some index else none

def condemnedBytes (heap : Heap α) : UInt64 :=
  ((heap.slots.toList.filter (Slot.isCondemned heap.polarity)).map Slot.charge).foldl (· + ·) 0

def sweep (heap : Heap α) : SweepStatistics × Heap α :=
  if heap.unswept then
    let condemned := heap.condemned
    let freed := heap.condemnedBytes
    let objects := heap.objects - condemned.length
    (⟨condemned.length, objects, freed⟩,
      { heap with
        slots := heap.slots.map (Slot.swept heap.polarity)
        free := condemned.reverse ++ heap.free
        unswept := false
        used := heap.used - freed
        objects := objects })
  else (⟨0, heap.objects, 0⟩, heap)

def collect [HeapObject α] (heap : Heap α) (roots : List Ref) : SweepStatistics × Heap α :=
  (heap.mark roots).2.sweep

/-- The objects that the last mark reached or that were allocated after it, by slot. -/
def marked (heap : Heap α) : List (Ref × α) :=
  heap.slots.toList.zipIdx.filterMap fun (slot, index) =>
    slot.cell.bind fun cell =>
      if cell.flag = heap.polarity then some (⟨index, slot.generation⟩, cell.object) else none

end Heap
end Metaspace
