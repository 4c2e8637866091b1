import Metaspace.Class.Descriptor
import Metaspace.Failure
import Metaspace.Id.Table

set_option autoImplicit false

namespace Metaspace

structure ClassKey where
  loader : LoaderId
  name : String
  deriving DecidableEq

namespace ClassKey

instance : Ord ClassKey := ⟨compareLex (compareOn ClassKey.loader) (compareOn ClassKey.name)⟩

instance : Std.TransOrd ClassKey :=
  inferInstanceAs (Std.TransCmp (compareLex (compareOn ClassKey.loader) (compareOn ClassKey.name)))

end ClassKey

structure ClassCounts where
  ordinary : Nat
  arrays : Nat
  deriving DecidableEq, Repr

namespace ClassCounts

def add (counts : ClassCounts) (c : ClassDescriptor) : ClassCounts :=
  if c.isArray then { counts with arrays := counts.arrays + 1 }
  else { counts with ordinary := counts.ordinary + 1 }

def remove (counts : ClassCounts) (c : ClassDescriptor) : ClassCounts :=
  if c.isArray then { counts with arrays := counts.arrays - 1 }
  else { counts with ordinary := counts.ordinary - 1 }

end ClassCounts

/-- A loader in the graph and the classes it defines, ascending by id. -/
structure LoaderEntry (σ : Type) where
  loader : Loader σ
  classes : List ClassId

/-- `retired` holds the loaders that have been dropped from the graph, and `issued` counts the
loaders ever made. The generation moves with every change of the class table. -/
structure Registry (σ : Type) where
  classes : IdTable classIds ClassKey ClassDescriptor
  names : Std.TreeMap String (List ClassId)
  loaders : List (LoaderEntry σ)
  retired : List LoaderId
  issued : Nat
  generation : Nat
  counts : ClassCounts

inductive Definition where
  | defined (c : ClassDescriptor)
  | existing (c : ClassDescriptor)
  deriving DecidableEq

namespace Definition

def descriptor : Definition → ClassDescriptor
  | .defined c => c
  | .existing c => c

def isNew : Definition → Bool
  | .defined _ => true
  | .existing _ => false

end Definition

namespace Registry

variable {σ : Type}

/-- The loader that is there from the start and is never unloaded. -/
def bootLoader : LoaderId := ⟨1, by decide⟩

def new (bootSources : List σ) : Registry σ where
  classes := .empty
  names := ∅
  loaders := [⟨⟨bootLoader, "bootstrap", true, bootSources⟩, []⟩]
  retired := []
  issued := 1
  generation := 0
  counts := ⟨0, 0⟩

/-- Adds a loader to the graph. There is none to add once the ids are used up. -/
def newLoader? (registry : Registry σ) (name : String) (sources : List σ) :
    Option (LoaderId × Registry σ) :=
  (Id.ofNumber? (registry.issued + 1)).map fun id =>
    (id, { registry with
      loaders := registry.loaders ++ [⟨⟨id, name, false, sources⟩, []⟩]
      issued := registry.issued + 1 })

def entry? (registry : Registry σ) (id : LoaderId) : Option (LoaderEntry σ) :=
  registry.loaders.find? (·.loader.id = id)

def loader? (registry : Registry σ) (id : LoaderId) : Option (Loader σ) :=
  (registry.entry? id).map (·.loader)

def isUnloading (registry : Registry σ) (id : LoaderId) : Bool :=
  registry.retired.contains id

def activeLoaders (registry : Registry σ) : List (Loader σ) :=
  (registry.loaders.map (·.loader)).filter fun l => !registry.isUnloading l.id

def get? (registry : Registry σ) (id : ClassId) : Option ClassDescriptor :=
  registry.classes.get? id

def contains (registry : Registry σ) (id : ClassId) : Bool :=
  registry.classes.contains id

def size (registry : Registry σ) : Nat := registry.classes.size

def isEmpty (registry : Registry σ) : Bool := registry.size == 0

def named (registry : Registry σ) (name : String) : List ClassId :=
  registry.names.getD name []

/-- The class of that name that was defined last, by whichever loader. -/
def lookup? (registry : Registry σ) (name : String) : Option ClassDescriptor :=
  (registry.named name).getLast?.bind registry.get?

def containsName (registry : Registry σ) (name : String) : Bool :=
  !(registry.named name).isEmpty

def lookupIn? (registry : Registry σ) (loader : LoaderId) (name : String) :
    Option ClassDescriptor :=
  registry.classes.getKeyed? ⟨loader, name⟩

def classesOf (registry : Registry σ) (loader : LoaderId) : List ClassDescriptor :=
  match registry.entry? loader with
  | none => []
  | some entry => entry.classes.filterMap registry.get?

def modifyClassesOf (registry : Registry σ) (loader : LoaderId) (f : List ClassId → List ClassId) :
    Registry σ :=
  { registry with loaders := registry.loaders.map fun entry =>
      if entry.loader.id = loader then { entry with classes := f entry.classes } else entry }

/-- Changes the list of classes with a name. Names without classes are not kept. -/
def modifyNamed (registry : Registry σ) (name : String) (f : List ClassId → List ClassId) :
    Registry σ :=
  let ids := f (registry.named name)
  { registry with
    names := if ids.isEmpty then registry.names.erase name else registry.names.insert name ids }

/-- Whether a definition makes sense on its own: only array classes have array types, and their
component has to be registered. -/
def admits (registry : Registry σ) (d : ClassDefinition) : Except ClassError Unit :=
  match d.kind with
  | .ordinary => if d.type.isArray then .error (.invalidName d.type.name) else .ok ()
  | .array a =>
    if registry.contains a.component.id then .ok ()
    else .error (.componentNotLoaded a.component.name)

/-- Enters a new class, under the id it has in the class table, into the other views. -/
def record (registry : Registry σ) (c : ClassDescriptor) : Registry σ :=
  let registry := registry.modifyNamed c.name (· ++ [c.id])
  let registry := registry.modifyClassesOf c.loader (· ++ [c.id])
  { registry with
    generation := registry.generation + 1
    counts := registry.counts.add c }

/-- Registers a class. An array class that is there already, of the same kind, is found again. -/
def insert (registry : Registry σ) (d : ClassDefinition) :
    Except ClassError (Definition × Registry σ) :=
  match registry.entry? d.loader with
  | none => .error (.unknownLoader d.loader)
  | some _ =>
    if registry.isUnloading d.loader then .error (.loaderUnloading d.loader)
    else
      match registry.admits d with
      | .error e => .error e
      | .ok () =>
        match registry.classes.insertWith ⟨d.loader, d.type.name⟩ (.ofDefinition · d) with
        | (.exhausted, _) => .error .idsExhausted
        | (.taken id, _) =>
          match registry.get? id with
          | some c =>
            if c.isArray ∧ c.kind = d.kind then .ok (.existing c, registry)
            else .error (.duplicateClass d.type.name d.loader)
          | none => .error (.duplicateClass d.type.name d.loader)
        | (.inserted id, classes) =>
          let c := ClassDescriptor.ofDefinition id d
          .ok (.defined c, { registry with classes }.record c)

end Registry
end Metaspace
