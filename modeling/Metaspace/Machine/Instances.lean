import Metaspace.Machine.Metadata

set_option autoImplicit false

namespace Metaspace

/-- One level of nested arrays: the class, its mirror and the length. -/
structure ArrayLevel where
  classId : ClassId
  mirror : Ref
  length : Nat
  deriving DecidableEq

namespace ObjectHeap

def fail {α : Type} (objects : ObjectHeap) (e : AllocationError) : Except Cause α × ObjectHeap :=
  (.error (.allocation e), objects)

def allocArray (objects : ObjectHeap) (level : ArrayLevel) (elements : Array (Option Ref)) :
    Except Cause Ref × ObjectHeap :=
  match objects.alloc (.arrayOf level.classId level.mirror elements) with
  | (.ok r, objects) => (.ok r, objects)
  | (.error e, objects) => objects.fail e

def allocMany (make : ObjectHeap → Except Cause Ref × ObjectHeap) :
    Nat → Array (Option Ref) → ObjectHeap → Except Cause (Array (Option Ref)) × ObjectHeap
  | 0, made, objects => (.ok made, objects)
  | n + 1, made, objects =>
    match make objects with
    | (.ok r, objects) => allocMany make n (made.push (some r)) objects
    | (.error cause, objects) => (.error cause, objects)

/-- Puts nested arrays on the heap, the elements before the arrays that hold them. A length that
fits no heap is refused before any element is made. -/
def allocNested (level : ArrayLevel) (inner : List ArrayLevel) (objects : ObjectHeap) :
    Except Cause Ref × ObjectHeap :=
  match objects.heap.ensureFits (Object.arraySize level.length) with
  | .error e => objects.fail e
  | .ok () =>
    match inner with
    | [] => objects.allocArray level (Array.replicate level.length none)
    | next :: inner =>
      match allocMany (allocNested next inner) level.length #[] objects with
      | (.error cause, objects) => (.error cause, objects)
      | (.ok elements, objects) => objects.allocArray level elements

end ObjectHeap

namespace Machine

variable {σ : Type}

/-- Puts something on the heap and drops roots that were needed only meanwhile. -/
def allocateWith (m : Machine σ) (needed : List Root) (context : Context) (make : Attempt σ) :
    Except Failure Root × Machine σ :=
  match m.allocateRooted make with
  | (.ok root, m) => (.ok root, m.dropAll needed)
  | (.error failure, m) => (.error (failure.within context), m.dropAll needed)

def newArray (m : Machine σ) (component : ClassDescriptor) (length : Nat) :
    Except Failure Root × Machine σ :=
  match m.deriveArray component 1 with
  | (.error failure, m) => (.error failure, m)
  | (.ok ⟨c, mirror⟩, m) =>
    m.allocateWith [mirror] (.allocatingArray c.name length) fun _ objects =>
      objects.allocNested ⟨c.id, mirror.ref, length⟩ []

def deriveNested (m : Machine σ) (component : ClassDescriptor) :
    Nat → Except Failure (List HeldClass) × Machine σ
  | 0 => (.ok [], m)
  | n + 1 =>
    match m.deriveArray component (n + 1) with
    | (.error failure, m) => (.error failure, m)
    | (.ok c, m) =>
      match m.deriveNested component n with
      | (.error failure, m) => (.error failure, m.drop c.mirror)
      | (.ok inner, m) => (.ok (c :: inner), m)

/-- Nested arrays, one level per length, the innermost filled with nulls. -/
def newArrays (m : Machine σ) (component : ClassDescriptor) (lengths : List Nat) :
    Except Failure Root × Machine σ :=
  match m.deriveNested component lengths.length with
  | (.error failure, m) => (.error failure, m)
  | (.ok classes, m) =>
    let levels := classes.zipWith (fun c length => ⟨c.descriptor.id, c.mirror.ref, length⟩) lengths
    match classes, levels with
    | c :: _, level :: inner =>
      m.allocateWith (classes.map (·.mirror)) (.allocatingArrays c.descriptor.name lengths)
        fun _ objects => objects.allocNested level inner
    | _, _ =>
      (.error (.of (.classError (.invalidDimensions 0 m.config.maxArrayDimensions))), m)

def newInstance (m : Machine σ) (c : ClassDescriptor) : Except Failure Root × Machine σ :=
  if c.isArray then (.error (.of (.arrayInstance c.name)), m)
  else
    match m.mirrorOf c with
    | (.error failure, m) => (.error failure, m)
    | (.ok mirror, m) =>
      m.allocateWith [mirror] (.allocatingInstance c.name) fun _ objects =>
        match objects.alloc (.instanceOf c.id mirror.ref #[none]) with
        | (.ok r, objects) => (.ok r, objects)
        | (.error e, objects) => objects.fail e

/-- Stores a reference into an array or into the field of an instance. -/
def store (m : Machine σ) (target : Root) (index : Nat) (value : Option Ref) :
    Except Failure Unit × Machine σ :=
  if index < ((m.objects.get? target.ref).elim 0 (·.slots.size)) then
    let heap := m.objects.heap.modify target.ref (·.store index value)
    (.ok (), { m with objects := { m.objects with heap } })
  else (.error (.of (.unstorable target.ref index)), m)

/-- Roots the reference that an array or an instance holds at an index. -/
def fetch (m : Machine σ) (target : Root) (index : Nat) : Option Root × Machine σ :=
  match (m.objects.get? target.ref).bind fun object => (object.slots[index]?).join with
  | none => (none, m)
  | some r =>
    let (root, objects) := m.objects.root r
    (some root, { m with objects })

def classOf (m : Machine σ) (object : Root) : Option ClassDescriptor :=
  ((m.objects.get? object.ref).bind (·.class?)).bind m.registry.get?

def lengthOf (m : Machine σ) (object : Root) : Option Nat :=
  (m.objects.get? object.ref).bind (·.length?)

end Machine
end Metaspace
