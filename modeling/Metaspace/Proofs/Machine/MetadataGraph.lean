import Metaspace.Proofs.Machine.Session

set_option autoImplicit false

namespace Metaspace

variable {σ : Type}

namespace Machine

/-- What an instance or array of a class points at: the recorded mirror of the class, which is
registered. -/
def PointsAt (m : Machine σ) (id : ClassId) (mirror : Ref) : Prop :=
  (∃ c, m.registry.get? id = some c ∧ c.id = id) ∧ m.objects.mirror? id = some mirror ∧
    ∃ loader component, m.objects.get? mirror = some (.mirrorOf id loader component)

/-- What a mirror says of its class: where the mirror of the component and the holder of the loader
are. Classes of the boot loader have no holder, and their mirrors are frozen. -/
structure Mirroring (m : Machine σ) (r : Ref) (c : ClassDescriptor)
    (loader component : Option Ref) : Prop where
  recorded : m.objects.mirror? c.id = some r
  component_eq : component = c.component?.bind m.objects.mirror?
  array : component.isSome = c.isArray
  loader_eq : loader = m.objects.holder? c.loader
  boot : loader = none ↔ c.loader = Registry.bootLoader
  frozen : r ∈ m.objects.heap.frozen ↔ c.loader = Registry.bootLoader

/-- How the objects on the heap of a machine are linked with its registry. -/
structure MetadataGraph (m : Machine σ) : Prop where
  closed : ∀ r object, m.objects.get? r = some object →
    ∀ r' ∈ object.refs, ∃ object', m.objects.get? r' = some object'
  instances : ∀ r id mirror fields, m.objects.get? r = some (.instanceOf id mirror fields) →
    m.PointsAt id mirror
  arrays : ∀ r id mirror elements, m.objects.get? r = some (.arrayOf id mirror elements) →
    m.PointsAt id mirror
  mirrors : ∀ r id loader component, m.objects.get? r = some (.mirrorOf id loader component) →
    ∃ c, m.registry.get? id = some c ∧ c.id = id ∧ m.Mirroring r c loader component
  holders : ∀ r id mirrors, m.objects.get? r = some (.holderOf id mirrors) →
    m.objects.holder? id = some r ∧ (∃ l ∈ m.registry.graph, l.id = id) ∧ mirrors.toList.Nodup ∧
      ∀ x, x ∈ mirrors.toList ↔ ∃ c ∈ m.registry.classesOf id, m.objects.mirror? c.id = some x
  mirrorRecords : ∀ id r, m.objects.mirror? id = some r →
    ∃ loader component, m.objects.get? r = some (.mirrorOf id loader component)
  holderRecords : ∀ id r, m.objects.holder? id = some r →
    ∃ mirrors, m.objects.get? r = some (.holderOf id mirrors)
  held : ∀ l ∈ m.registry.graph, l.id = Registry.bootLoader ∨ ∃ r, m.objects.holder? l.id = some r
  frozen : ∀ r ∈ m.objects.heap.frozen,
    ∃ id component, m.objects.get? r = some (.mirrorOf id none component)

section Sound

variable {handles : List Root} {m : Machine σ}

theorem Sound.pointsAt (h : m.Sound none handles) {id : ClassId} {mirror : Ref}
    (hcontains : m.registry.contains id = true) (hmirror : m.objects.mirror? id = some mirror) :
    m.PointsAt id mirror := by
  obtain ⟨c, hc⟩ := Option.isSome_iff_exists.mp hcontains
  exact ⟨⟨c, hc, h.linked.coherent.id_of_get? hc⟩, hmirror, h.linked.mirrors id mirror hmirror⟩

theorem Sound.mirroring (h : m.Sound none handles) {r : Ref} {id : ClassId}
    {loader component : Option Ref}
    (hget : m.objects.get? r = some (.mirrorOf id loader component)) :
    ∃ c, m.registry.get? id = some c ∧ c.id = id ∧ m.Mirroring r c loader component := by
  obtain ⟨hmirror, c, hc, hloader, hcomponent, harray⟩ := h.linked.fits r _ hget
  have hid := h.linked.coherent.id_of_get? hc
  refine ⟨c, hc, hid, hid ▸ hmirror, hcomponent, harray, hloader, ?_, ?_⟩
  · rw [hloader]
    exact h.linked.holder?_eq_none_iff hc
  · rw [h.linked.frozen]
    constructor
    · rintro ⟨id', d, hmirror', hd, hboot⟩
      obtain rfl := h.linked.mirror_injective hmirror hmirror'
      rw [hc, Option.some.injEq] at hd
      rw [hd]
      exact hboot
    · intro hboot
      exact ⟨id, c, hmirror, hc, hboot⟩

theorem Sound.metadataGraph (h : m.Sound none handles) : m.MetadataGraph := by
  constructor
  case closed => exact h.linked.closed
  case instances =>
    intro r id mirror fields hget
    obtain ⟨hcontains, hmirror⟩ := h.linked.fits r _ hget
    exact h.pointsAt hcontains hmirror
  case arrays =>
    intro r id mirror elements hget
    obtain ⟨hcontains, hmirror⟩ := h.linked.fits r _ hget
    exact h.pointsAt hcontains hmirror
  case mirrors => exact fun r id loader component hget => h.mirroring hget
  case holders =>
    intro r id mirrors hget
    obtain ⟨hholder, hnodup, hmem⟩ := h.linked.fits r _ hget
    refine ⟨hholder, (h.linked.holders id r hholder).2.1, hnodup, ?_⟩
    intro x
    rw [hmem]
    constructor
    · rintro ⟨k, c, hmirror, hc, hloader⟩
      refine ⟨c, h.linked.coherent.mem_classesOf.mpr ⟨h.linked.coherent.get?_self hc, hloader⟩, ?_⟩
      rw [h.linked.coherent.id_of_get? hc]
      exact hmirror
    · rintro ⟨c, hc, hmirror⟩
      obtain ⟨hget, hloader⟩ := h.linked.coherent.mem_classesOf.mp hc
      exact ⟨c.id, c, hmirror, hget, hloader⟩
  case mirrorRecords => exact h.linked.mirrors
  case holderRecords => exact fun id r hholder => (h.linked.holders id r hholder).2.2
  case held =>
    intro l hl
    rcases h.linked.held l hl with hboot | hpending | hheld
    · exact Or.inl hboot
    · contradiction
    · exact Or.inr hheld
  case frozen =>
    intro r hr
    obtain ⟨id, c, hmirror, hc, hboot⟩ := (h.linked.frozen r).mp hr
    obtain ⟨loader, component, hget⟩ := h.linked.mirrors id r hmirror
    obtain ⟨-, d, hd, hloader, -⟩ := h.linked.fits r _ hget
    rw [hc, Option.some.injEq] at hd
    rw [← hd, hboot, h.linked.holder_boot] at hloader
    exact ⟨id, component, hloader ▸ hget⟩

theorem Sound.classOf (h : m.Sound none handles) {root : Root} {object : Object}
    (hget : m.objects.get? root.ref = some object) {id : ClassId}
    (hclass : object.class? = some id) :
    ∃ c, m.classOf root = some c ∧ c.id = id := by
  obtain ⟨c, mirror, hc, -⟩ := h.linked.mirror_of_class? hget hclass
  refine ⟨c, ?_, h.linked.coherent.id_of_get? hc⟩
  unfold Machine.classOf
  rw [hget, Option.bind_some, hclass, Option.bind_some, hc]

end Sound

end Machine

/-- In every session the metadata graph is whole, and what is held is there and has its class. -/
theorem Session.Reached.metadata_graph {config : Config} {bootSources : List σ} {s : Session σ}
    (h : Reached config bootSources s) :
    s.machine.MetadataGraph ∧ ∀ root ∈ s.handles,
      ∃ object, s.machine.objects.get? root.ref = some object ∧
        ∀ id, object.class? = some id → ∃ c, s.machine.classOf root = some c ∧ c.id = id := by
  obtain ⟨hsound, -⟩ := h.sound
  refine ⟨hsound.machine.metadataGraph, ?_⟩
  intro root hroot
  obtain ⟨object, hget⟩ := hsound.machine.live root hroot
  exact ⟨object, hget, fun id hclass => hsound.machine.classOf hget hclass⟩

theorem Session.metadata_graph_of_array :
    holdingArray.handles.map (fun root => (holdingArray.machine.classOf root).map (·.name)) =
      [some "[LA;"] ∧
    holdingArray.machine.MetadataGraph :=
  ⟨by decide +kernel, holdingArray_reached.metadata_graph.1⟩

end Metaspace
