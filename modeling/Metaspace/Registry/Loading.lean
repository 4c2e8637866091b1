import Metaspace.FieldType.Parser
import Metaspace.Registry.Basic

set_option autoImplicit false

namespace Metaspace

/-- How sources are asked for the bytes of a class. The state is the registry and whatever `ω` the
sources live in. -/
abbrev Asking (σ ω : Type) :=
  σ → String → Registry σ × ω → Except Failure (Option ByteArray) × (Registry σ × ω)

namespace Registry

variable {σ ω : Type}

def findClass (ask : Asking σ ω) (name : String) :
    List σ → Registry σ × ω → Except Failure (Option ByteArray) × (Registry σ × ω)
  | [], state => (.ok none, state)
  | source :: sources, state =>
    match ask source name state with
    | (.ok (some bytes), state) => (.ok (some bytes), state)
    | (.ok none, state) => findClass ask name sources state
    | (.error failure, state) => (.error (failure.within (.askingSource name)), state)

/-- Defines a class that was found. If its name got taken meanwhile, that class is the answer. -/
def define (registry : Registry σ) (loader : LoaderId) (name : String) (size : Nat) :
    Except Failure ClassDescriptor × Registry σ :=
  match registry.insert (.ordinary (.object name) loader size) with
  | .ok (definition, registry) => (.ok definition.descriptor, registry)
  | .error (.duplicateClass _ _) =>
    match registry.lookupIn? loader name with
    | some c => (.ok c, registry)
    | none => (.error (.of (.vanished name)), registry)
  | .error e => (.error (.of (.classError e)), registry)

/-- The class of that name in a loader, loaded through the loader's sources if need be. -/
def load (ask : Asking σ ω) (loader : LoaderId) (name : String) (state : Registry σ × ω) :
    Except Failure ClassDescriptor × (Registry σ × ω) :=
  let fail (e : ClassError) : Except Failure ClassDescriptor := .error (.of (.classError e))
  match FieldType.ofName? name with
  | some (.object _) =>
    match state.1.lookupIn? loader name with
    | some c => (.ok c, state)
    | none =>
      match state.1.loader? loader with
      | none => (fail (.unknownLoader loader), state)
      | some l =>
        if state.1.isUnloading loader then (fail (.loaderUnloading loader), state)
        else
          match findClass ask name l.sources state with
          | (.error failure, state) => (.error (failure.within (.loading name)), state)
          | (.ok none, state) => (fail (.classNotFound name loader), state)
          | (.ok (some bytes), registry, outside) =>
            let (outcome, registry) := registry.define loader name bytes.size
            (outcome, registry, outside)
  | _ => (fail (.invalidName name), state)

end Registry
end Metaspace
