import Metaspace.Machine.Metadata
import Metaspace.Proofs.Heap.Cells
import Metaspace.Proofs.Registry.Defining
import Metaspace.Proofs.Registry.Removal

/-!
How the objects of a heap are linked to a registry. Every object that stands for a class or a loader
is the one recorded for it and points where the registry says, and everything else on the heap
points at the mirror of a registered class.
-/

set_option autoImplicit false

namespace Metaspace

variable {σ : Type}

def Registry.Kindred (registry : Registry σ) : Prop :=
  ∀ id c k component, registry.get? id = some c → c.component? = some k →
    registry.get? k = some component → component.loader = c.loader

theorem Registry.Coherent.ne_of_newLoader? {registry next : Registry σ} (h : registry.Coherent)
    {name : String} {sources : List σ} {id : LoaderId}
    (hnew : registry.newLoader? name sources = some (id, next)) :
    ∀ l ∈ registry.graph, l.id ≠ id := by
  obtain ⟨hid, -⟩ := Registry.newLoader?_eq_some hnew
  rintro l hl rfl
  have hle := h.roster.numbered l hl
  omega

namespace ObjectHeap

def Marked (objects : ObjectHeap) (r : Ref) : Prop := objects.heap.isMarked r = true

theorem Marked.live {objects : ObjectHeap} {r : Ref} (h : objects.Marked r) :
    ∃ object, objects.get? r = some object :=
  Heap.contains_iff.mp (Heap.contains_of_isMarked h)

/-- Whether an object is linked as it should be, for an object of its kind named by a reference. -/
def Fits (registry : Registry σ) (objects : ObjectHeap) (r : Ref) : Object → Prop
  | .instanceOf id mirror _ => registry.contains id = true ∧ objects.mirror? id = some mirror
  | .arrayOf id mirror _ => registry.contains id = true ∧ objects.mirror? id = some mirror
  | .mirrorOf id loader component => objects.mirror? id = some r ∧
      ∃ c, registry.get? id = some c ∧ loader = objects.holder? c.loader ∧
        component = c.component?.bind objects.mirror? ∧ component.isSome = c.isArray
  | .holderOf id mirrors => objects.holder? id = some r ∧ mirrors.toList.Nodup ∧
      ∀ x, x ∈ mirrors.toList ↔
        ∃ k c, objects.mirror? k = some x ∧ registry.get? k = some c ∧ c.loader = id

/-- A loader that is being made is in the graph but has neither classes nor a holder yet. -/
structure Pending (registry : Registry σ) (objects : ObjectHeap) (id : LoaderId) : Prop where
  mem_graph : ∃ l ∈ registry.graph, l.id = id
  not_boot : id ≠ Registry.bootLoader
  unheld : objects.holder? id = none
  unused : ∀ c ∈ registry.registered, c.loader ≠ id

/-- The links between a registry and the objects on a heap. At most one loader is `pending`. -/
structure Linked (pending : Option LoaderId) (registry : Registry σ) (objects : ObjectHeap) :
    Prop where
  coherent : registry.Coherent
  kindred : registry.Kindred
  fits : ∀ r object, objects.get? r = some object → objects.Fits registry r object
  closed : ∀ r object, objects.get? r = some object →
    ∀ r' ∈ object.refs, ∃ object', objects.get? r' = some object'
  mirrors : ∀ id r, objects.mirror? id = some r →
    ∃ loader component, objects.get? r = some (.mirrorOf id loader component)
  holders : ∀ id r, objects.holder? id = some r → id ≠ Registry.bootLoader ∧
    (∃ l ∈ registry.graph, l.id = id) ∧ ∃ mirrors, objects.get? r = some (.holderOf id mirrors)
  frozen : ∀ r, r ∈ objects.heap.frozen ↔
    ∃ id c, objects.mirror? id = some r ∧ registry.get? id = some c ∧
      c.loader = Registry.bootLoader
  held : ∀ l ∈ registry.graph, l.id = Registry.bootLoader ∨ pending = some l.id ∨
    ∃ r, objects.holder? l.id = some r
  pending : ∀ id, pending = some id → objects.Pending registry id

section Linked

variable {pending : Option LoaderId} {registry : Registry σ} {objects : ObjectHeap}

theorem Linked.mirror_registered (h : objects.Linked pending registry) {id : ClassId} {r : Ref}
    (hmirror : objects.mirror? id = some r) : ∃ c, registry.get? id = some c := by
  obtain ⟨loader, component, hget⟩ := h.mirrors id r hmirror
  obtain ⟨-, c, hc, -⟩ := h.fits r _ hget
  exact ⟨c, hc⟩

theorem Linked.mirror_injective (h : objects.Linked pending registry) {id id' : ClassId} {r : Ref}
    (hmirror : objects.mirror? id = some r) (hmirror' : objects.mirror? id' = some r) :
    id = id' := by
  obtain ⟨loader, component, hget⟩ := h.mirrors id r hmirror
  obtain ⟨loader', component', hget'⟩ := h.mirrors id' r hmirror'
  rw [hget, Option.some.injEq, Object.mirrorOf.injEq] at hget'
  exact hget'.1

theorem Linked.holder_boot (h : objects.Linked pending registry) :
    objects.holder? Registry.bootLoader = none := by
  cases hholder : objects.holder? Registry.bootLoader with
  | none => rfl
  | some r => exact absurd rfl (h.holders _ r hholder).1

theorem Linked.class_held (h : objects.Linked pending registry) {id : ClassId}
    {c : ClassDescriptor} (hget : registry.get? id = some c) :
    c.loader = Registry.bootLoader ∨ ∃ r, objects.holder? c.loader = some r := by
  obtain ⟨l, hl, hloader⟩ := h.coherent.loader_of_get? hget
  rcases h.held l hl with hboot | hpending | hheld
  · exact Or.inl (hloader ▸ hboot)
  · have hused := (h.pending l.id hpending).unused c (h.coherent.mem_registered_of_get? hget)
    exact absurd hloader.symm hused
  · exact Or.inr (hloader ▸ hheld)

theorem Linked.holder?_eq_none_iff (h : objects.Linked pending registry) {id : ClassId}
    {c : ClassDescriptor} (hget : registry.get? id = some c) :
    objects.holder? c.loader = none ↔ c.loader = Registry.bootLoader := by
  constructor
  · intro hnone
    rcases h.class_held hget with hboot | ⟨r, hholder⟩
    · exact hboot
    · rw [hnone] at hholder
      contradiction
  · intro hboot
    rw [hboot]
    exact h.holder_boot

theorem Linked.mirror_of_class? (h : objects.Linked pending registry) {r : Ref} {object : Object}
    (hget : objects.get? r = some object) {id : ClassId} (hclass : object.class? = some id) :
    ∃ c mirror, registry.get? id = some c ∧ objects.mirror? id = some mirror ∧
      mirror ∈ object.refs := by
  have hfits := h.fits r object hget
  cases object with
  | instanceOf k mirror fields =>
    obtain rfl := Option.some.inj hclass
    obtain ⟨c, hc⟩ := Option.isSome_iff_exists.mp hfits.1
    exact ⟨c, mirror, hc, hfits.2, List.mem_cons_self⟩
  | arrayOf k mirror elements =>
    obtain rfl := Option.some.inj hclass
    obtain ⟨c, hc⟩ := Option.isSome_iff_exists.mp hfits.1
    exact ⟨c, mirror, hc, hfits.2, List.mem_cons_self⟩
  | mirrorOf => contradiction
  | holderOf => contradiction

section Adding

variable {c : ClassDescriptor}

theorem Linked.get?_adding_of_mirror? (h : objects.Linked none registry) (hc : registry.Fresh c)
    {id : ClassId} {r : Ref} (hmirror : objects.mirror? id = some r) :
    (registry.adding c).get? id = registry.get? id := by
  obtain ⟨d, hget⟩ := h.mirror_registered hmirror
  rw [hget]
  exact hc.get?_adding_of_get? hget

theorem Linked.adding_fits (h : objects.Linked none registry) (hc : registry.Fresh c) {r : Ref}
    {object : Object} (hget : objects.get? r = some object) :
    objects.Fits (registry.adding c) r object := by
  have hfits := h.fits r object hget
  cases object with
  | instanceOf id mirror fields =>
    obtain ⟨e, he⟩ := Option.isSome_iff_exists.mp hfits.1
    exact ⟨Option.isSome_iff_exists.mpr ⟨e, hc.get?_adding_of_get? he⟩, hfits.2⟩
  | arrayOf id mirror elements =>
    obtain ⟨e, he⟩ := Option.isSome_iff_exists.mp hfits.1
    exact ⟨Option.isSome_iff_exists.mpr ⟨e, hc.get?_adding_of_get? he⟩, hfits.2⟩
  | mirrorOf id loader component =>
    obtain ⟨hmirror, e, he, hrest⟩ := hfits
    exact ⟨hmirror, e, hc.get?_adding_of_get? he, hrest⟩
  | holderOf id mirrors =>
    obtain ⟨hholder, hnodup, hmem⟩ := hfits
    refine ⟨hholder, hnodup, ?_⟩
    intro x
    rw [hmem]
    constructor
    · rintro ⟨k, e, hmirror, he, hloader⟩
      exact ⟨k, e, hmirror, hc.get?_adding_of_get? he, hloader⟩
    · rintro ⟨k, e, hmirror, he, hloader⟩
      rw [h.get?_adding_of_mirror? hc hmirror] at he
      exact ⟨k, e, hmirror, he, hloader⟩

theorem Linked.adding (h : objects.Linked none registry) {d : ClassDefinition}
    (hc : registry.Entered d c) (hgenuine : registry.Genuine d.kind)
    (hkindred : ∀ k component, c.component? = some k → registry.get? k = some component →
      component.loader = c.loader) :
    objects.Linked none (registry.adding c) := by
  have hfresh := hc.toFresh
  have hcoherent := hc.coherent h.coherent hgenuine
  constructor
  case coherent => exact hcoherent
  case kindred =>
    intro id e k component he hk hcomponent
    obtain ⟨a, harray, rfl⟩ := Option.map_eq_some_iff.mp hk
    rw [hfresh.get?_adding] at he
    split at he
    · obtain rfl := Option.some.inj he
      obtain ⟨component', hcomponent', hover⟩ := hcoherent.components c.id c a (by
        rw [hfresh.get?_adding, if_pos rfl]) harray
      have hne : a.component.id ≠ c.id := by
        intro heq
        have holder := hover.older
        rw [hcoherent.id_of_get? hcomponent', heq] at holder
        exact Nat.lt_irrefl _ holder
      rw [hfresh.get?_adding, if_neg hne] at hcomponent
      exact hkindred _ _ hk hcomponent
    · obtain ⟨component', hcomponent', -⟩ := h.coherent.components id e a he harray
      rw [hfresh.get?_adding_of_get? hcomponent', Option.some.injEq] at hcomponent
      subst hcomponent
      exact h.kindred id e _ component' he hk hcomponent'
  case fits => exact fun r object hget => h.adding_fits hfresh hget
  case closed => exact h.closed
  case mirrors => exact h.mirrors
  case holders =>
    rw [Registry.adding_graph]
    exact h.holders
  case frozen =>
    intro r
    rw [h.frozen]
    constructor
    · rintro ⟨id, e, hmirror, he, hloader⟩
      exact ⟨id, e, hmirror, hfresh.get?_adding_of_get? he, hloader⟩
    · rintro ⟨id, e, hmirror, he, hloader⟩
      rw [h.get?_adding_of_mirror? hfresh hmirror] at he
      exact ⟨id, e, hmirror, he, hloader⟩
  case held =>
    rw [Registry.adding_graph]
    exact h.held
  case pending =>
    intro id hid
    contradiction

end Adding

theorem Linked.rerouted (h : objects.Linked pending registry) {after : Registry σ}
    (hcoherent : after.Coherent) (hclasses : after.classes = registry.classes)
    (hholders : ∀ l r, objects.holder? l = some r → ∃ loader ∈ after.graph, loader.id = l)
    {settled : Option LoaderId}
    (hheld : ∀ l ∈ after.graph, l.id = Registry.bootLoader ∨ settled = some l.id ∨
      ∃ r, objects.holder? l.id = some r)
    (hpending : ∀ id, settled = some id → objects.Pending after id) :
    objects.Linked settled after := by
  have hget : ∀ id, after.get? id = registry.get? id := by
    intro id
    rw [Registry.get?, hclasses, Registry.get?]
  have hcontains : ∀ id, after.contains id = registry.contains id := by
    intro id
    rw [Registry.contains, hclasses, Registry.contains]
  constructor
  case coherent => exact hcoherent
  case kindred =>
    intro id c k component hc hk hcomponent
    rw [hget] at hc hcomponent
    exact h.kindred id c k component hc hk hcomponent
  case fits =>
    intro r object hobject
    have hfits := h.fits r object hobject
    cases object <;> simpa only [Fits, hget, hcontains] using hfits
  case closed => exact h.closed
  case mirrors => exact h.mirrors
  case holders =>
    intro l r hholder
    obtain ⟨hboot, -, hobject⟩ := h.holders l r hholder
    exact ⟨hboot, hholders l r hholder, hobject⟩
  case frozen =>
    intro r
    simp only [hget]
    exact h.frozen r
  case held => exact hheld
  case pending => exact hpending

theorem Linked.entering (h : objects.Linked none registry) {name : String} {sources : List σ}
    {id : LoaderId} {next : Registry σ}
    (hnew : registry.newLoader? name sources = some (id, next)) :
    objects.Linked (some id) next := by
  have hcoherent := h.coherent.newLoader? hnew
  have hfresh := h.coherent.ne_of_newLoader? hnew
  have hgraph : ∀ l, l ∈ next.graph ↔ l ∈ registry.graph ∨ l = ⟨id, name, false, sources⟩ := by
    intro l
    rw [Registry.newLoader?_graph hnew, List.mem_append, List.mem_singleton]
  obtain ⟨-, rfl⟩ := Registry.newLoader?_eq_some hnew
  have hunheld : objects.holder? id = none := by
    cases hholder : objects.holder? id with
    | none => rfl
    | some r =>
      obtain ⟨-, ⟨l, hl, heq⟩, -⟩ := h.holders id r hholder
      exact absurd heq (hfresh l hl)
  refine h.rerouted hcoherent rfl ?_ ?_ ?_
  · intro l r hholder
    obtain ⟨-, ⟨loader, hl, heq⟩, -⟩ := h.holders l r hholder
    exact ⟨loader, (hgraph loader).mpr (Or.inl hl), heq⟩
  · intro l hl
    rcases (hgraph l).mp hl with hl | rfl
    · rcases h.held l hl with hboot | hpending | hheld
      · exact Or.inl hboot
      · contradiction
      · exact Or.inr (Or.inr hheld)
    · exact Or.inr (Or.inl rfl)
  · intro l hl
    obtain rfl := Option.some.inj hl
    refine ⟨⟨_, (hgraph _).mpr (Or.inr rfl), rfl⟩, ?_, hunheld, ?_⟩
    · rintro rfl
      obtain ⟨l, hl, hboot⟩ := h.coherent.roster.boot
      exact hfresh l hl hboot
    · rintro c hc rfl
      obtain ⟨l, hl, heq⟩ := h.coherent.housed c hc
      exact hfresh l hl heq

theorem Linked.mem_graph_leaving {id : LoaderId} (h : objects.Linked (some id) registry)
    (l : Loader σ) :
    l ∈ (registry.unloadLoaders [id]).2.graph ↔ l ∈ registry.graph ∧ l.id ≠ id := by
  have hpending := h.pending id rfl
  rw [(h.coherent.toIndexed.unloadLoaders [id]).mem_graph, List.mem_singleton]
  refine and_congr_right fun hl => not_congr (and_iff_left_of_imp ?_)
  rintro rfl
  refine ⟨?_, hpending.unused⟩
  rw [Bool.eq_false_iff]
  intro hpermanent
  exact hpending.not_boot ((h.coherent.roster.permanent l hl).mp hpermanent)

theorem Linked.leaving {id : LoaderId} (h : objects.Linked (some id) registry) :
    objects.Linked none (registry.unloadLoaders [id]).2 := by
  have hdrops := h.coherent.toIndexed.unloadLoaders [id]
  have hpending := h.pending id rfl
  have hstays := h.mem_graph_leaving
  refine h.rerouted (hdrops.coherent h.coherent) hdrops.classes_eq ?_ ?_ ?_
  · intro l r hholder
    obtain ⟨-, ⟨loader, hl, rfl⟩, -⟩ := h.holders l r hholder
    refine ⟨loader, (hstays loader).mpr ⟨hl, ?_⟩, rfl⟩
    rintro rfl
    rw [hpending.unheld] at hholder
    contradiction
  · intro l hl
    obtain ⟨hl, hne⟩ := (hstays l).mp hl
    rcases h.held l hl with hboot | heq | hheld
    · exact Or.inl hboot
    · exact absurd (Option.some.inj heq).symm hne
    · exact Or.inr (Or.inr hheld)
  · intro l hl
    contradiction

end Linked

end ObjectHeap
end Metaspace
