import Metaspace.Machine.Basic
import Metaspace.Registry.Derivation
import Metaspace.Registry.Loading

set_option autoImplicit false

namespace Metaspace

namespace ObjectHeap

variable {σ : Type}

def currentMirror (objects : ObjectHeap) (registry : Registry σ) (c : ClassDescriptor) :
    Except Cause (Option Ref) :=
  let unloaded : Except Cause (Option Ref) := .error (.classError (.classUnloaded c.name))
  if !registry.contains c.id then unloaded
  else
    match (objects.mirror? c.id).filter objects.heap.contains with
    | none => .ok none
    | some r => if objects.heap.isMarked r then .ok (some r) else unloaded

def pin (objects : ObjectHeap) (r : Ref) : ObjectHeap :=
  match objects.heap.freeze r with
  | .ok heap => { objects with heap }
  | .error _ => objects

def hold (objects : ObjectHeap) (holder mirror : Ref) : ObjectHeap :=
  { objects with heap := objects.heap.modify holder fun object =>
      match object with
      | .holderOf loader mirrors => .holderOf loader (mirrors.push mirror)
      | object => object }

/-- Makes a mirror. Those of the boot loader's classes, which have no holder, stay for good. -/
def makeMirror (objects : ObjectHeap) (c : ClassDescriptor) (component : Option Ref) :
    Except Cause Ref × ObjectHeap :=
  let holder := objects.holder? c.loader
  match objects.alloc (.mirrorOf c.id holder component) with
  | (.error e, objects) => (.error (.allocation e), objects)
  | (.ok r, objects) =>
    let objects := { objects with mirrors := objects.mirrors.insert c.id r }
    match holder with
    | some holder => (.ok r, objects.hold holder r)
    | none => (.ok r, if c.loader = Registry.bootLoader then objects.pin r else objects)

/-- The mirror of a class, made after those of its components if need be. -/
def ensureMirror (registry : Registry σ) (c : ClassDescriptor) (components : List ClassDescriptor)
    (objects : ObjectHeap) : Except Cause Ref × ObjectHeap :=
  match objects.currentMirror registry c with
  | .error cause => (.error cause, objects)
  | .ok (some r) => (.ok r, objects)
  | .ok none =>
    match components with
    | [] => objects.makeMirror c none
    | d :: ds =>
      match ensureMirror registry d ds objects with
      | (.error cause, objects) => (.error cause, objects)
      | (.ok r, objects) => objects.makeMirror c (some r)

def makeHolder (objects : ObjectHeap) (id : LoaderId) : Except Cause Ref × ObjectHeap :=
  match objects.alloc (.holderOf id #[]) with
  | (.error e, objects) => (.error (.allocation e), objects)
  | (.ok r, objects) => (.ok r, { objects with holders := objects.holders.insert id r })

end ObjectHeap

namespace Machine

variable {σ ω : Type}

/-- Makes a loader and its holder. Without the holder there is no loader either. -/
def newLoader (m : Machine σ) (name : String) (sources : List σ) :
    Except Failure HeldLoader × Machine σ :=
  match m.registry.newLoader? name sources with
  | none => (.error (.of (.classError .idsExhausted)), m)
  | some (id, registry) =>
    match (m.withRegistry registry).allocateRooted fun _ objects => objects.makeHolder id with
    | (.ok holder, m) => (.ok ⟨id, holder⟩, m)
    | (.error failure, m) =>
      (.error (failure.within (.allocatingHolder name)),
        m.withRegistry (m.registry.unloadLoaders [id]).2)

/-- Roots the mirror of a class. The collection that made room for it may have unloaded the
class. -/
def mirrorOf (m : Machine σ) (c : ClassDescriptor) : Except Failure Root × Machine σ :=
  let make : Attempt σ := fun registry objects =>
    objects.ensureMirror registry c (registry.components c)
  match m.allocateRooted make with
  | (.error failure, m) => (.error (failure.within (.allocatingMirror c.name)), m)
  | (.ok root, m) =>
    if m.registry.contains c.id then (.ok root, m)
    else (.error (.of (.classError (.classUnloaded c.name))), m.drop root)

def holdClass (m : Machine σ) (c : ClassDescriptor) : Except Failure HeldClass × Machine σ :=
  match m.mirrorOf c with
  | (.ok mirror, m) => (.ok ⟨c, mirror⟩, m)
  | (.error failure, m) => (.error failure, m)

/-- Loads a class through the sources of a loader, which may change the registry while asked. -/
def load (ask : Asking σ ω) (loader : LoaderId) (name : String) (state : Machine σ × ω) :
    Except Failure HeldClass × (Machine σ × ω) :=
  let (m, outside) := state
  match Registry.load ask loader name (m.registry, outside) with
  | (.error failure, registry, outside) =>
    (.error (failure.within (.loadingClass name)), m.withRegistry registry, outside)
  | (.ok c, registry, outside) =>
    let (outcome, m) := (m.withRegistry registry).holdClass c
    (outcome, m, outside)

/-- The array class with `dimensions` dimensions more than `component`. -/
def deriveArray (m : Machine σ) (component : ClassDescriptor) (dimensions : Nat) :
    Except Failure HeldClass × Machine σ :=
  let max := m.config.maxArrayDimensions - component.dimensions
  if max < dimensions then
    (.error (.of (.classError (.invalidDimensions dimensions max))), m)
  else
    match m.registry.deriveArray component dimensions with
    | (.error e, registry) => (.error (.of (.classError e)), m.withRegistry registry)
    | (.ok c, registry) => (m.withRegistry registry).holdClass c

end Machine
end Metaspace
