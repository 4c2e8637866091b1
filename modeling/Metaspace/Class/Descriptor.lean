import Metaspace.FieldType.Basic
import Metaspace.Id.Basic
import Metaspace.Text.Quoted

set_option autoImplicit false

namespace Metaspace

def classIds : IdSpace := ⟨"Class", 0xFFFFFFFF⟩

def loaderIds : IdSpace := ⟨"Loader", 0xFFFFFFFF⟩

abbrev ClassId := Id classIds

abbrev LoaderId := Id loaderIds

structure ComponentRef where
  id : ClassId
  name : String
  deriving DecidableEq

structure ArrayClass where
  component : ComponentRef
  dimensions : Nat
  dimensions_pos : 0 < dimensions
  dimensions_le : dimensions ≤ FieldType.maxDimensions
  deriving DecidableEq

inductive ClassKind where
  | ordinary
  | array (arrayClass : ArrayClass)
  deriving DecidableEq

structure ClassDefinition where
  type : FieldType
  loader : LoaderId
  kind : ClassKind
  size : Nat
  deriving DecidableEq

structure ClassDescriptor where
  id : ClassId
  type : FieldType
  loader : LoaderId
  kind : ClassKind
  size : Nat
  deriving DecidableEq

namespace ClassDescriptor

def name (c : ClassDescriptor) : String := c.type.name

def array? (c : ClassDescriptor) : Option ArrayClass :=
  match c.kind with
  | .ordinary => none
  | .array a => some a

def isArray (c : ClassDescriptor) : Bool := c.array?.isSome

def dimensions (c : ClassDescriptor) : Nat :=
  c.array?.elim 0 (·.dimensions)

theorem dimensions_le (c : ClassDescriptor) : c.dimensions ≤ FieldType.maxDimensions := by
  unfold dimensions
  cases c.array? with
  | none => exact Nat.zero_le _
  | some a => exact a.dimensions_le

def component? (c : ClassDescriptor) : Option ClassId :=
  c.array?.map (·.component.id)

def ofDefinition (id : ClassId) (d : ClassDefinition) : ClassDescriptor :=
  ⟨id, d.type, d.loader, d.kind, d.size⟩

private def kindText : ClassKind → String
  | .ordinary => "Ordinary"
  | .array a =>
    "Array(ArrayClass \x7b component: ComponentRef \x7b id: " ++ a.component.id.bracketed
      ++ ", name: " ++ quoted a.component.name ++ " \x7d, dimensions: "
      ++ toString a.dimensions ++ " \x7d)"

def inspect (c : ClassDescriptor) : String :=
  "ClassDescriptor \x7b id: " ++ c.id.bracketed ++ ", name: " ++ quoted c.name ++ ", loader: "
    ++ c.loader.bracketed ++ ", kind: " ++ kindText c.kind ++ " \x7d"

end ClassDescriptor

namespace ClassDefinition

def ordinary (type : FieldType) (loader : LoaderId) (size : Nat) : ClassDefinition :=
  ⟨type, loader, .ordinary, size⟩

def arrayOver (component : ClassDescriptor)
    (h : component.dimensions < FieldType.maxDimensions) : ClassDefinition where
  type := .array component.type
  loader := component.loader
  kind := .array ⟨⟨component.id, component.name⟩, component.dimensions + 1, Nat.succ_pos _, h⟩
  size := 0

end ClassDefinition

/-- A class loader. The places it loads from are the sources, asked in their order. A permanent
loader is never unloaded. -/
structure Loader (σ : Type) where
  id : LoaderId
  name : String
  permanent : Bool
  sources : List σ

def Loader.inspect {σ : Type} (loader : Loader σ) (unloading : Bool) : String :=
  "LoaderData \x7b id: " ++ loader.id.bracketed ++ ", name: " ++ quoted loader.name
    ++ ", permanent: " ++ toString loader.permanent ++ ", unloading: " ++ toString unloading
    ++ " \x7d"

end Metaspace
