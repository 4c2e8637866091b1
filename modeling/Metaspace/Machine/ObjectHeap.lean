import Metaspace.Heap.RootTable
import Metaspace.Heap.Sweep
import Metaspace.Machine.Object
import Std.Data.TreeMap

set_option autoImplicit false

namespace Metaspace

structure ObjectHeap where
  heap : Heap Object
  roots : RootTable
  mirrors : Std.TreeMap ClassId Ref
  holders : Std.TreeMap LoaderId Ref
  lastCollection : SweepStatistics

structure Root where
  index : Nat
  ref : Ref
  deriving DecidableEq, Repr

def Root.inspect (root : Root) : String := "Root(" ++ root.ref.display ++ ")"

namespace ObjectHeap

def new (capacity : UInt64) : ObjectHeap where
  heap := .empty capacity
  roots := .empty
  mirrors := ∅
  holders := ∅
  lastCollection := ⟨0, 0, 0⟩

def mirror? (objects : ObjectHeap) (id : ClassId) : Option Ref := objects.mirrors[id]?

def holder? (objects : ObjectHeap) (id : LoaderId) : Option Ref := objects.holders[id]?

def get? (objects : ObjectHeap) (r : Ref) : Option Object := objects.heap.get? r

def root (objects : ObjectHeap) (r : Ref) : Root × ObjectHeap :=
  let (index, roots) := objects.roots.add r
  (⟨index, r⟩, { objects with roots })

def drop (objects : ObjectHeap) (root : Root) : ObjectHeap :=
  { objects with roots := (objects.roots.remove root.index).2 }

def dropAll (objects : ObjectHeap) (roots : List Root) : ObjectHeap :=
  roots.foldl drop objects

def alloc (objects : ObjectHeap) (object : Object) :
    Except AllocationError Ref × ObjectHeap :=
  match objects.heap.alloc object with
  | .ok (r, heap) => (.ok r, { objects with heap })
  | .error e => (.error e, objects)

/-- What a mark starts from: the roots and, for metadata that is never unloaded, every mirror and
holder. -/
def markRoots (objects : ObjectHeap) (strongMetadata : Bool) : List Ref :=
  objects.roots.refs
    ++ if strongMetadata then objects.mirrors.values ++ objects.holders.values else []

def mark (objects : ObjectHeap) (strongMetadata : Bool) : ObjectHeap :=
  { objects with heap := (objects.heap.mark (objects.markRoots strongMetadata)).2 }

/-- Sweeps the heap and forgets the objects that stood for what has been unloaded. -/
def sweep (objects : ObjectHeap) (classes : List ClassId) (loaders : List LoaderId) : ObjectHeap :=
  let (statistics, heap) := objects.heap.sweep
  { objects with
    heap := heap
    mirrors := classes.foldl (fun mirrors id => mirrors.erase id) objects.mirrors
    holders := loaders.foldl (fun holders id => holders.erase id) objects.holders
    lastCollection := statistics }

end ObjectHeap
end Metaspace
