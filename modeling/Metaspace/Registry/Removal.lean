import Std.Data.TreeSet
import Metaspace.Registry.Basic
import Metaspace.Saturation

set_option autoImplicit false

namespace Metaspace.Registry

variable {σ : Type}

/-- Whether a class is an array class over one of the given classes. -/
def dependsOn (doomed : Std.TreeSet ClassId) (c : ClassDescriptor) : Bool :=
  c.component?.any doomed.contains

/-- The registered classes among `ids` and the array classes that depend on them. -/
def doomed (registry : Registry σ) (ids : List ClassId) : Std.TreeSet ClassId :=
  saturate dependsOn (fun doomed c => doomed.insert c.id)
    (Std.TreeSet.ofList (ids.filter registry.contains)) registry.classes.values

def erase (registry : Registry σ) (id : ClassId) : Option ClassDescriptor × Registry σ :=
  match registry.classes.erase id with
  | (none, _) => (none, registry)
  | (some c, classes) =>
    let registry := { registry with classes }
    let registry := registry.modifyNamed c.name (·.filter (· ≠ id))
    let registry := registry.modifyClassesOf c.loader (·.filter (· ≠ id))
    (some c, { registry with counts := registry.counts.remove c })

/-- Takes classes out one after the other and lists those that were there. -/
def eraseAll (registry : Registry σ) : List ClassId → List ClassDescriptor × Registry σ
  | [] => ([], registry)
  | id :: ids =>
    match registry.erase id with
    | (none, registry) => registry.eraseAll ids
    | (some c, registry) =>
      let (removed, registry) := registry.eraseAll ids
      (c :: removed, registry)

/-- Removes classes and whatever depends on them in one step, and lists them by id. -/
def removeBatch (registry : Registry σ) (ids : List ClassId) : List ClassDescriptor × Registry σ :=
  let (removed, registry) := registry.eraseAll (registry.doomed ids).toList
  if removed.isEmpty then (removed, registry)
  else (removed, { registry with generation := registry.generation + 1 })

def dropLoader? (registry : Registry σ) (id : LoaderId) : Option (Loader σ × Registry σ) :=
  match registry.entry? id with
  | none => none
  | some entry =>
    if entry.loader.permanent ∨ entry.classes ≠ [] then none
    else some (entry.loader,
      { registry with
        loaders := registry.loaders.filter (·.loader.id ≠ id)
        retired := id :: registry.retired })

/-- Drops those of the candidates that can be dropped, in their order. -/
def unloadLoaders (registry : Registry σ) : List LoaderId → List (Loader σ) × Registry σ
  | [] => ([], registry)
  | id :: ids =>
    match registry.dropLoader? id with
    | none => registry.unloadLoaders ids
    | some (loader, registry) =>
      let (dropped, registry) := registry.unloadLoaders ids
      (loader :: dropped, registry)

end Metaspace.Registry
