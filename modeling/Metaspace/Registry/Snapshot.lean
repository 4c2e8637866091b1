import Metaspace.Bisection
import Metaspace.Registry.Basic

set_option autoImplicit false

namespace Metaspace

structure Snapshot (σ : Type) where
  generation : Nat
  counts : ClassCounts
  classes : List ClassDescriptor
  loaders : List (Loader σ)

namespace Snapshot

variable {σ : Type}

def get? (snapshot : Snapshot σ) (id : ClassId) : Option ClassDescriptor :=
  bisect? ClassDescriptor.id id snapshot.classes

def loader? (snapshot : Snapshot σ) (id : LoaderId) : Option (Loader σ) :=
  bisect? Loader.id id snapshot.loaders

def size (snapshot : Snapshot σ) : Nat := snapshot.classes.length

def isEmpty (snapshot : Snapshot σ) : Bool := snapshot.classes.isEmpty

end Snapshot

def Registry.snapshot {σ : Type} (registry : Registry σ) : Snapshot σ where
  generation := registry.generation
  counts := registry.counts
  classes := registry.classes.values
  loaders := registry.loaders.map (·.loader)

end Metaspace
