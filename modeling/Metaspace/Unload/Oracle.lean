import Metaspace.Registry.Snapshot
import Metaspace.Unload.Coordinator
import Metaspace.Unload.Event

/-!
The engine of unload cycles and the oracle it asks. An oracle answers for one cycle at a time: it is
shown the snapshot, asked about every class and every loader in it, and told the report in the end.
Its calls may do whatever they like to the engine and to the state outside of it.
-/

set_option autoImplicit false

namespace Metaspace

/-- The registry, the coordinator of its cycles and the publisher of their events. -/
structure Engine (σ : Type) where
  registry : Registry σ
  coordinator : Coordinator σ
  publisher : Publisher
  classUnloading : Bool

def Engine.new {σ : Type} (bootSources : List σ) (classUnloading : Bool) : Engine σ :=
  ⟨.new bootSources, .new, .empty, classUnloading⟩

structure Liveness where
  instances : Bool
  referenced : Bool
  loader : Bool
  deriving DecidableEq, Repr

def Liveness.isLive (liveness : Liveness) : Bool :=
  liveness.instances || liveness.referenced || liveness.loader

inductive Interruption where
  | failed (e : OracleError)
  | panicked (text : String)
  deriving DecidableEq, Repr

abbrev EngineCall (σ ω ε α : Type) :=
  Engine σ × ω → Except ε α × (Engine σ × ω)

/-- By default all loaders are alive and nothing is done at the end. The last call cannot fail, but
it can panic. -/
structure Oracle (σ ω : Type) where
  beginCycle : Snapshot σ → EngineCall σ ω Interruption Unit
  query : ClassDescriptor → Option (Loader σ) → EngineCall σ ω Interruption Liveness
  queryLoader : Loader σ → EngineCall σ ω Interruption Bool := fun _ state => (.ok true, state)
  endCycle : CycleReport σ → EngineCall σ ω String Unit := fun _ state => (.ok (), state)

end Metaspace
