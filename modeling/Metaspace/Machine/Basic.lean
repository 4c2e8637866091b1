import Metaspace.Machine.Reachability

set_option autoImplicit false

namespace Metaspace

structure Config where
  heapSize : UInt64 := 1048576
  /-- Without class unloading collections free objects but no classes and loaders. -/
  classUnloading : Bool := true
  maxArrayDimensions : Nat := FieldType.maxDimensions
  /-- Run one full collection before an allocation fails for lack of space. -/
  retryAllocation : Bool := true
  deriving DecidableEq, Repr

structure Machine (σ : Type) where
  config : Config
  engine : Engine σ
  objects : ObjectHeap
  found : Reachability

structure HeldLoader where
  id : LoaderId
  holder : Root
  deriving DecidableEq

structure HeldClass where
  descriptor : ClassDescriptor
  mirror : Root
  deriving DecidableEq

abbrev Attempt (σ : Type) := Registry σ → ObjectHeap → Except Cause Ref × ObjectHeap

namespace Machine

variable {σ : Type}

def new (config : Config) (bootSources : List σ) : Machine σ where
  config := config
  engine := .new bootSources config.classUnloading
  objects := .new config.heapSize
  found := .empty

def registry (m : Machine σ) : Registry σ := m.engine.registry

def withRegistry (m : Machine σ) (registry : Registry σ) : Machine σ :=
  { m with engine := { m.engine with registry } }

def isAlive (m : Machine σ) (name : String) : Bool := m.registry.containsName name

def drop (m : Machine σ) (root : Root) : Machine σ :=
  { m with objects := m.objects.drop root }

def dropAll (m : Machine σ) (roots : List Root) : Machine σ :=
  roots.foldl drop m

def clone (m : Machine σ) (root : Root) : Root × Machine σ :=
  let (root, objects) := m.objects.root root.ref
  (root, { m with objects })

/-- Runs a full cycle over the heap. The heap's oracle does not fail, and the cycles of a machine do
not overlap. -/
def collect (m : Machine σ) : Except Failure (CycleReport σ) × Machine σ :=
  let fail (e : UnloadError) : Except Failure (CycleReport σ) :=
    .error ((Failure.of (.unload e)).within .collecting)
  let (triggered, engine, objects, found) :=
    trigger (heapOracle m.config.classUnloading) (m.engine, m.objects, m.found)
  let m := { m with engine, objects, found }
  match triggered with
  | .finished (.ok report) => (.ok report, m)
  | .finished (.error e) => (fail e, m)
  | .waits cycle => (fail (.panicked cycle), m)
  | .panicked cycle _ => (fail (.panicked cycle), m)

def attempt (m : Machine σ) (make : Attempt σ) : Except Cause Root × Machine σ :=
  match make m.registry m.objects with
  | (.error cause, objects) => (.error cause, { m with objects })
  | (.ok r, objects) =>
    let (root, objects) := objects.root r
    (.ok root, { m with objects })

/-- Makes an attempt and, if the heap was full, one more after a full collection. -/
def allocateRooted (m : Machine σ) (make : Attempt σ) : Except Failure Root × Machine σ :=
  match m.attempt make with
  | (.ok root, m) => (.ok root, m)
  | (.error cause, m) =>
    if cause = .allocation .outOfHeap ∧ m.config.retryAllocation then
      match m.collect with
      | (.error failure, m) => (.error failure, m)
      | (.ok _, m) =>
        match m.attempt make with
        | (.ok root, m) => (.ok root, m)
        | (.error cause, m) => (.error (.of cause), m)
    else (.error (.of cause), m)

end Machine
end Metaspace
