import Metaspace.Proofs.Machine.Mirrors

set_option autoImplicit false

namespace Metaspace

variable {σ : Type}

/-- The references of an object, but for that of a mirror to the holder of its loader. -/
def Object.coreRefs : Object → List Ref
  | .mirrorOf _ _ component => component.toList
  | object => object.refs

theorem Object.coreRefs_subset (object : Object) : object.coreRefs ⊆ object.refs := by
  cases object with
  | mirrorOf id loader component => exact List.subset_append_right _ _
  | _ => exact List.Subset.refl _

theorem Object.mem_coreRefs_store {object : Object} {index : Nat} {value : Option Ref} {r : Ref}
    (h : r ∈ (object.store index value).coreRefs) : r ∈ object.coreRefs ∨ value = some r := by
  cases object with
  | instanceOf id mirror fields =>
    have hrefs : r ∈ ((Object.instanceOf id mirror fields).store index value).refs := h
    exact ObjectHeap.mem_refs_store hrefs
  | arrayOf id mirror elements =>
    have hrefs : r ∈ ((Object.arrayOf id mirror elements).store index value).refs := h
    exact ObjectHeap.mem_refs_store hrefs
  | mirrorOf => exact Or.inl h
  | holderOf => exact Or.inl h

theorem Object.mem_coreRefs_listing {object : Object} {l : LoaderId} {mirror r : Ref}
    (h : r ∈ (object.listing l mirror).coreRefs) : r ∈ object.coreRefs ∨ r = mirror := by
  cases object with
  | holderOf id mirrors =>
    have hrefs : r ∈ ((Object.holderOf id mirrors).listing l mirror).refs := h
    exact Object.mem_refs_listing hrefs
  | _ => exact Or.inl h

namespace ObjectHeap

variable {pending : Option LoaderId} {registry : Registry σ} {objects before after : ObjectHeap}

structure Shaded (objects : ObjectHeap) : Prop where
  refs : ∀ r object, objects.Marked r → objects.get? r = some object →
    ∀ r' ∈ object.coreRefs, objects.Marked r'
  frozen : ∀ r ∈ objects.heap.frozen, objects.Marked r

theorem Shaded.marked_or_mirror (h : objects.Shaded) {r : Ref} {object : Object}
    (hr : objects.Marked r) (hget : objects.get? r = some object) {r' : Ref}
    (hr' : r' ∈ object.refs) :
    objects.Marked r' ∨ ∃ id component, object = .mirrorOf id (some r') component := by
  cases object with
  | mirrorOf id loader component =>
    rcases List.mem_append.mp hr' with hloader | hcomponent
    · exact .inr ⟨id, component, by rw [Option.mem_toList.mp hloader]⟩
    · exact .inl (h.refs r _ hr hget r' hcomponent)
  | _ => exact .inl (h.refs r _ hr hget r' hr')

theorem Linked.shaded (h : objects.Linked pending registry) (hall : objects.heap.AllMarked) :
    objects.Shaded := by
  have hmarked : ∀ r object, objects.get? r = some object → objects.Marked r :=
    fun r object hget => hall.isMarked (Heap.contains_of_get? hget)
  constructor
  · intro r object _ hget r' hr'
    obtain ⟨object', hget'⟩ := h.closed r object hget r' (object.coreRefs_subset hr')
    exact hmarked r' object' hget'
  · intro r hr
    obtain ⟨object, hget⟩ := h.frozen_live hr
    exact hmarked r object hget

/-- An object heap in use, whether or not a mark on it waits for its sweep. -/
structure Intact (pending : Option LoaderId) (registry : Registry σ) (objects : ObjectHeap) :
    Prop where
  linked : objects.Linked pending registry
  sound : objects.heap.Sound
  shaded : objects.Shaded

theorem Shaded.allocated (h : objects.Shaded) {object : Object} {r : Ref} {heap : Heap Object}
    (halloc : objects.heap.Allocated object r heap)
    (hrefs : ∀ r' ∈ object.refs, objects.Marked r') : Shaded { objects with heap } := by
  have hkeep : ∀ {x}, objects.Marked x → heap.isMarked x = true :=
    fun hx => (halloc.isMarked _).mpr (.inr hx)
  constructor
  · intro x other hx hget y hy
    rcases halloc.get?_cases hget with hold | ⟨-, rfl⟩
    · have hne : x ≠ r := by
        rintro rfl
        rw [halloc.get?_fresh] at hold
        contradiction
      have hbefore := ((halloc.isMarked x).mp hx).resolve_left hne
      exact hkeep (h.refs x other hbefore hold y hy)
    · exact hkeep (hrefs y (other.coreRefs_subset hy))
  · intro x hx
    rw [show ({ objects with heap } : ObjectHeap).heap.frozen = objects.heap.frozen from
      halloc.frozen] at hx
    exact hkeep (h.frozen x hx)

theorem Intact.allocated (h : objects.Intact pending registry) {object : Object} {r : Ref}
    {heap : Heap Object} (halloc : objects.heap.Allocated object r heap) {id : ClassId}
    (hclass : object.class? = some id) (hfits : objects.Fits registry r object)
    (hrefs : ∀ r' ∈ object.refs, objects.Marked r') :
    Intact pending registry { objects with heap } where
  linked := h.linked.allocated halloc hclass hfits fun r' hr' => (hrefs r' hr').live
  sound := halloc.sound h.sound
  shaded := h.shaded.allocated halloc hrefs

theorem Intact.storing (h : objects.Intact pending registry) (target : Ref) (index : Nat)
    {value : Option Ref} (hvalue : ∀ r, value = some r → objects.Marked r) :
    (objects.storing target index value).Intact pending registry where
  linked := h.linked.storing target index fun r hr => (hvalue r hr).live
  sound := h.sound.modify target fun object => object.store index value
  shaded := by
    have hsame : ∀ x, (objects.storing target index value).Marked x ↔ objects.Marked x := by
      intro x
      rw [Marked, Marked, ObjectHeap.storing, Heap.isMarked_modify]
    constructor
    · intro x object hx hget y hy
      rw [hsame] at hx ⊢
      rw [get?_storing] at hget
      obtain ⟨old, hold, rfl⟩ := Option.map_eq_some_iff.mp hget
      split at hy
      · rcases Object.mem_coreRefs_store hy with hy | hstored
        · exact h.shaded.refs x old hx hold y hy
        · exact hvalue y hstored
      · exact h.shaded.refs x old hx hold y hy
    · intro x hx
      exact (hsame x).mpr (h.shaded.frozen x hx)

theorem Grows.storing (objects : ObjectHeap) (target : Ref) (index : Nat) (value : Option Ref) :
    Grows objects (objects.storing target index value) where
  live r object hget := by
    rw [get?_storing, hget]
    exact ⟨_, rfl⟩
  mirrors r id loader component hget := by
    rw [get?_storing, hget, Option.map_some]
    split <;> rfl
  minted _ _ hmirror := .inl hmirror
  holders _ _ hholder := hholder
  enrolled _ _ hholder := .inl hholder
  unswept := rfl
  marked r := by
    rw [Marked, Marked, ObjectHeap.storing, Heap.isMarked_modify]
    refine (or_iff_left ?_).symm
    rintro ⟨hnone, object, hget⟩
    have hget' := (get?_storing objects target index value r).symm.trans hget
    rw [hnone] at hget'
    contradiction

theorem Intact.mirrored (h : before.Intact pending registry) (hsound : after.heap.Sound)
    {c : ClassDescriptor} {component : Option Ref} {r : Ref}
    (hmade : Mirrors before c component r after) (hget : registry.get? c.id = some c)
    (hnone : before.mirror? c.id = none) (hcomponent : component = c.component?.bind before.mirror?)
    (hsome : component.isSome = c.isArray) (hmarked : ∀ k, component = some k → before.Marked k) :
    after.Intact pending registry where
  linked := h.linked.mirrored hmade hget hnone hcomponent hsome
  sound := hsound
  shaded := by
    constructor
    · intro x object hx hobject y hy
      rw [hmade.marked] at hx ⊢
      rw [hmade.get?_eq] at hobject
      split at hobject
      · obtain rfl := Option.some.inj hobject
        exact .inr (hmarked y (Option.mem_toList.mp hy))
      · rename_i hne
        obtain ⟨old, hold, rfl⟩ := Option.map_eq_some_iff.mp hobject
        rcases Object.mem_coreRefs_listing hy with hy | rfl
        · exact .inr (h.shaded.refs x old (hx.resolve_left hne) hold y hy)
        · exact .inl rfl
    · intro x hx
      rw [hmade.marked]
      rcases (hmade.mem_frozen x).mp hx with ⟨-, rfl⟩ | hx
      · exact .inl rfl
      · exact .inr (h.shaded.frozen x hx)

end ObjectHeap
end Metaspace
