import Metaspace.Class.Descriptor

set_option autoImplicit false

namespace Metaspace

structure UnloadEvent where
  cycle : Nat
  classId : ClassId
  name : String
  dimensions : Option Nat
  loader : LoaderId
  deriving DecidableEq

namespace UnloadEvent

def ofClass (cycle : Nat) (c : ClassDescriptor) : UnloadEvent where
  cycle := cycle
  classId := c.id
  name := c.name
  dimensions := if c.dimensions = 0 then none else some c.dimensions
  loader := c.loader

def kind (event : UnloadEvent) : String :=
  match event.dimensions with
  | none => "class"
  | some n => "array class[" ++ toString n ++ "]"

end UnloadEvent

structure Subscription where
  id : Nat
  pending : Array UnloadEvent
  deriving DecidableEq

structure Publisher where
  subscriptions : List Subscription
  issued : Nat
  deriving DecidableEq

namespace Publisher

def empty : Publisher := ⟨[], 0⟩

def subscribe (publisher : Publisher) : Nat × Publisher :=
  let id := publisher.issued + 1
  (id, ⟨publisher.subscriptions ++ [⟨id, #[]⟩], id⟩)

def unsubscribe (publisher : Publisher) (id : Nat) : Publisher :=
  { publisher with subscriptions := publisher.subscriptions.filter (·.id ≠ id) }

def publish (publisher : Publisher) (event : UnloadEvent) : Publisher :=
  { publisher with
    subscriptions := publisher.subscriptions.map fun s =>
      { s with pending := s.pending.push event } }

def publishAll (publisher : Publisher) (events : List UnloadEvent) : Publisher :=
  events.foldl publish publisher

def pending (publisher : Publisher) (id : Nat) : List UnloadEvent :=
  ((publisher.subscriptions.find? (·.id = id)).map (·.pending.toList)).getD []

/-- Hands out the pending events of a subscriber, which are then no longer pending. -/
def take (publisher : Publisher) (id : Nat) : List UnloadEvent × Publisher :=
  (publisher.pending id,
    { publisher with
      subscriptions := publisher.subscriptions.map fun s =>
        if s.id = id then { s with pending := #[] } else s })

end Publisher
end Metaspace
