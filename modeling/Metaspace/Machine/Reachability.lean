import Metaspace.Machine.ObjectHeap
import Metaspace.Unload.Cycle

/-!
Liveness by reachability. A mark of the object heap shows the classes that have reachable instances,
the classes that have reachable mirrors and the loaders that have reachable holders. Beyond those a
live class keeps its component and its loader alive, and a live loader keeps all its classes.
-/

set_option autoImplicit false

namespace Metaspace

/-- What a mark found, closed over what live classes depend on. -/
structure Reachability where
  instances : Std.TreeSet ClassId
  referenced : Std.TreeSet ClassId
  loaders : Std.TreeSet LoaderId

namespace Reachability

variable {σ : Type}

def empty : Reachability := ⟨∅, ∅, ∅⟩

def note (found : Reachability) : Object → Reachability
  | .instanceOf c _ _ => { found with instances := found.instances.insert c }
  | .arrayOf c _ _ => { found with instances := found.instances.insert c }
  | .mirrorOf c _ _ => { found with referenced := found.referenced.insert c }
  | .holderOf l _ => { found with loaders := found.loaders.insert l }

/-- A loader that is in use is alive if it is permanent or was found. -/
def loaderAlive (found : Reachability) (registry : Registry σ) (l : Loader σ) : Bool :=
  !registry.isUnloading l.id && (l.permanent || found.loaders.contains l.id)

def classAlive (found : Reachability) (registry : Registry σ) (snapshot : Snapshot σ)
    (c : ClassDescriptor) : Bool :=
  found.instances.contains c.id || found.referenced.contains c.id
    || (snapshot.loader? c.loader).any (found.loaderAlive registry)

def sustain (found : Reachability) (c : ClassDescriptor) : Reachability :=
  { found with
    referenced := c.component?.elim found.referenced found.referenced.insert
    loaders := found.loaders.insert c.loader }

/-- What a marked heap says about a snapshot. Loaders that have no holder yet are alive. -/
def ofMarked (objects : ObjectHeap) (registry : Registry σ) (snapshot : Snapshot σ) :
    Reachability :=
  let unheld := (snapshot.loaders.map (·.id)).filter fun id => (objects.holder? id).isNone
  let seen := (objects.heap.marked.map (·.2)).foldl note
    { empty with loaders := Std.TreeSet.ofList unheld }
  saturate (fun found c => found.classAlive registry snapshot c) sustain seen snapshot.classes

def liveness (found : Reachability) (registry : Registry σ) (c : ClassDescriptor)
    (l : Option (Loader σ)) : Liveness where
  instances := found.instances.contains c.id
  referenced := found.referenced.contains c.id
  loader := l.any (found.loaderAlive registry)

end Reachability

/-- The object heap as seen by cycles, with what the last mark found. -/
abbrev HeapView := ObjectHeap × Reachability

/-- The oracle that marks the heap when a cycle begins and sweeps it when the cycle is complete. It
never fails. -/
def heapOracle {σ : Type} (classUnloading : Bool) : Oracle σ HeapView where
  beginCycle snapshot := fun (engine, objects, _) =>
    let objects := objects.mark (!classUnloading)
    (.ok (), engine, objects, .ofMarked objects engine.registry snapshot)
  query c l := fun (engine, objects, found) =>
    (.ok (found.liveness engine.registry c l), engine, objects, found)
  queryLoader l := fun (engine, objects, found) =>
    (.ok (found.loaderAlive engine.registry l), engine, objects, found)
  endCycle report := fun (engine, objects, found) =>
    (.ok (), engine,
      objects.sweep (report.unloaded.map (·.id)) (report.unloadedLoaders.map (·.id)), found)

end Metaspace
