import Metaspace.Proofs.Registry.Evolution

set_option autoImplicit false

namespace Metaspace.Registry

def stocked : Asking Unit Unit := fun _ _ state => (.ok (some .empty), state)

section

variable {rule : Registry Unit → ClassDefinition → Prop} {before after : Registry Unit}

theorem Develops.load_stocked (h : Develops rule before after) (loader : LoaderId)
    (name : String) : Develops rule before (Registry.load stocked loader name (after, ())).2.1 :=
  h.load stocked () loader name fun _ _ _ => .refl _

def inserting (registry : Registry Unit) (d : ClassDefinition) : Registry Unit :=
  (registry.insert d).toOption.elim registry (·.2)

theorem Develops.inserting (h : Develops rule before after) {d : ClassDefinition}
    (hrule : rule after d) : Develops rule before (after.inserting d) := by
  unfold Registry.inserting
  cases hinsert : after.insert d with
  | error e => exact h
  | ok made => exact h.insert hrule hinsert

end

def classId (number : Nat) : ClassId := (Id.ofNumber? number).getD ⟨0, Nat.zero_le _⟩

def loaderId (number : Nat) : LoaderId := (Id.ofNumber? number).getD ⟨0, Nat.zero_le _⟩

def classA (loader : LoaderId) (number : Nat) : ClassDescriptor :=
  ⟨classId number, .object "A", loader, .ordinary, 0⟩

def kindOver (component : ClassId) (name : String) : ClassKind :=
  .array ⟨⟨component, name⟩, 1, by decide, by decide⟩

def arrayOverA : ClassDescriptor :=
  ⟨classId 2, .array (.object "A"), bootLoader, kindOver (classId 1) "A", 0⟩

def classAndArray : Registry Unit :=
  let loaded := (load stocked bootLoader "A" (.new [()], ())).2.1
  (loaded.deriveArray (classA bootLoader 1) 1).2

theorem develops_classAndArray (rule : Registry Unit → ClassDefinition → Prop) :
    Develops rule (new [()]) classAndArray :=
  ((Develops.refl _).load_stocked _ _).derive _ _

/-- A registry whose boot loader loaded a class, lost it together with the arrays over it, and
loaded it again with an array class over it. -/
def reloaded : Registry Unit :=
  let first := (load stocked bootLoader "A" (.new [()], ())).2.1
  let nested := (first.deriveArray (classA bootLoader 1) 2).2
  let second := (load stocked bootLoader "A" ((nested.removeBatch [classId 1]).2, ())).2.1
  (second.deriveArray (classA bootLoader 4) 1).2

theorem develops_reloaded (rule : Registry Unit → ClassDefinition → Prop) :
    Develops rule (new [()]) reloaded :=
  (((((Develops.refl _).load_stocked _ _).derive _ _).removeBatch _).load_stocked _ _).derive _ _

/-- Two classes of the boot loader and the array class over the second. -/
def secondAndArray : Registry Unit :=
  let first := (load stocked bootLoader "A" (.new [()], ())).2.1
  let second := (load stocked bootLoader "B" (first, ())).2.1
  (second.deriveArray ⟨classId 2, .object "B", bootLoader, .ordinary, 0⟩ 1).2

theorem develops_secondAndArray (rule : Registry Unit → ClassDefinition → Prop) :
    Develops rule (new [()]) secondAndArray :=
  (((Develops.refl _).load_stocked _ _).load_stocked _ _).derive _ _

/-- The array class over `B`, with the kind that it has in that registry. -/
def foreignArray : ClassDefinition :=
  ⟨.array (.object "B"), bootLoader, kindOver (classId 2) "B", 0⟩

theorem foreign_kind : ∃ c ∈ secondAndArray.registered, c.kind = foreignArray.kind := by
  decide +kernel

/-- The array class over the array class, with the kind of that array class. -/
def mistypedArray : ClassDefinition :=
  ⟨.array (.array (.object "A")), bootLoader, kindOver (classId 1) "A", 0⟩

theorem mistyped_kind : ∃ c ∈ classAndArray.registered, c.kind = mistypedArray.kind := by
  decide +kernel

end Metaspace.Registry
