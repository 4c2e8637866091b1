import Metaspace.Registry.Basic

set_option autoImplicit false

namespace Metaspace.Registry

variable {σ : Type}

def deriveOne (registry : Registry σ) (component : ClassDescriptor) :
    Except ClassError (ClassDescriptor × Registry σ) :=
  if h : component.dimensions < FieldType.maxDimensions then
    let d := ClassDefinition.arrayOver component h
    match (registry.lookupIn? component.loader d.type.name).filter (·.kind = d.kind) with
    | some c => .ok (c, registry)
    | none =>
      match registry.insert d with
      | .ok (definition, registry) => .ok (definition.descriptor, registry)
      | .error e => .error e
  else .error .dimensionsOverflow

/-- Adds dimensions one by one. What was derived before a failure stays. -/
def deriveSteps (registry : Registry σ) (component : ClassDescriptor) :
    Nat → Except ClassError ClassDescriptor × Registry σ
  | 0 => (.ok component, registry)
  | n + 1 =>
    match registry.deriveOne component with
    | .ok (c, registry) => registry.deriveSteps c n
    | .error e => (.error e, registry)

/-- The array class with `dimensions` dimensions more than `component`. -/
def deriveArray (registry : Registry σ) (component : ClassDescriptor) (dimensions : Nat) :
    Except ClassError ClassDescriptor × Registry σ :=
  let max := FieldType.maxDimensions - component.dimensions
  if dimensions = 0 ∨ max < dimensions then (.error (.invalidDimensions dimensions max), registry)
  else
    match registry.get? component.id with
    | none => (.error (.componentNotLoaded component.name), registry)
    | some c => registry.deriveSteps c dimensions

/-- The components of a class, from its own down to the element class, as far as registered. -/
def componentsWithin (registry : Registry σ) : Nat → ClassDescriptor → List ClassDescriptor
  | 0, _ => []
  | n + 1, c =>
    match c.component?.bind registry.get? with
    | some component => component :: registry.componentsWithin n component
    | none => []

/-- The components of a class, of which there are as many as it has dimensions. -/
def components (registry : Registry σ) (c : ClassDescriptor) : List ClassDescriptor :=
  registry.componentsWithin c.dimensions c

end Metaspace.Registry
