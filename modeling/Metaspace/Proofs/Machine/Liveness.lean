import Metaspace.Proofs.Machine.Linkage
import Metaspace.Proofs.Machine.Verdict

set_option autoImplicit false

namespace Metaspace

variable {σ : Type}

namespace ObjectHeap

def Closes (objects : ObjectHeap) (reached : Ref → Prop) : Prop :=
  ∀ r object, reached r → objects.get? r = some object → ∀ r' ∈ object.refs, reached r'

/-- No holder recorded for a loader is out of reach. This holds of the boot loader and of a pending
one, which have no holder. -/
def Keeps (objects : ObjectHeap) (reached : Ref → Prop) (l : LoaderId) : Prop :=
  ∀ r, objects.holder? l = some r → reached r

section Keeps

variable {pending : Option LoaderId} {registry : Registry σ} {objects : ObjectHeap}
  {reached : Ref → Prop}

theorem Linked.keeps_boot (h : objects.Linked pending registry) :
    objects.Keeps reached Registry.bootLoader := by
  intro r hholder
  rw [h.holder_boot] at hholder
  contradiction

theorem Linked.closes_reaches (h : objects.Linked pending registry) (starts : List Ref) :
    objects.Closes (objects.heap.Reaches starts) := by
  intro r object hr hget r' hr'
  obtain ⟨object', hobject'⟩ := h.closed r object hget r' hr'
  exact .step hr hget hr' (Heap.contains_of_get? hobject')

theorem Linked.keeps_of_mirror (h : objects.Linked pending registry)
    (hclosed : objects.Closes reached) {r : Ref} {id : ClassId} {loader component : Option Ref}
    (hr : reached r) (hget : objects.get? r = some (.mirrorOf id loader component))
    {c : ClassDescriptor} (hc : registry.get? id = some c) : objects.Keeps reached c.loader := by
  obtain ⟨-, d, hd, hloader, -⟩ := h.fits r _ hget
  rw [hc, Option.some.injEq] at hd
  subst hd
  intro x hx
  refine hclosed r _ hr hget x ?_
  rw [hloader, hx]
  exact List.mem_cons_self

theorem Linked.keeps_of_holder (h : objects.Linked pending registry) {r : Ref} {l : LoaderId}
    {mirrors : Array Ref} (hr : reached r)
    (hget : objects.get? r = some (.holderOf l mirrors)) : objects.Keeps reached l := by
  obtain ⟨hholder, -⟩ := h.fits r _ hget
  intro x hx
  rw [hholder, Option.some.injEq] at hx
  subst hx
  exact hr

theorem Linked.keeps_of_class? (h : objects.Linked pending registry)
    (hclosed : objects.Closes reached) {r : Ref} {object : Object} (hr : reached r)
    (hget : objects.get? r = some object) {id : ClassId} (hclass : object.class? = some id)
    {c : ClassDescriptor} (hc : registry.get? id = some c) : objects.Keeps reached c.loader := by
  obtain ⟨d, mirror, -, hmirror, hmem⟩ := h.mirror_of_class? hget hclass
  obtain ⟨loader, component, hobject⟩ := h.mirrors id mirror hmirror
  exact h.keeps_of_mirror hclosed (hclosed r object hr hget mirror hmem) hobject hc

/-- The mirrors of a loader that is kept are reached: the holder lists them, and those of the boot
loader are frozen. -/
theorem Linked.reached_mirror (h : objects.Linked pending registry)
    (hclosed : objects.Closes reached) (hfrozen : ∀ r ∈ objects.heap.frozen, reached r)
    {id : ClassId} {c : ClassDescriptor} (hc : registry.get? id = some c)
    (hkeeps : objects.Keeps reached c.loader) {r : Ref} (hmirror : objects.mirror? id = some r) :
    reached r := by
  rcases h.class_held hc with hboot | ⟨x, hholder⟩
  · exact hfrozen r ((h.frozen r).mpr ⟨id, c, hmirror, hc, hboot⟩)
  · obtain ⟨-, -, mirrors, hheld⟩ := h.holders c.loader x hholder
    obtain ⟨-, -, hmem⟩ := h.fits x _ hheld
    exact hclosed x _ (hkeeps x hholder) hheld r ((hmem r).mpr ⟨id, c, hmirror, hc, rfl⟩)

end Keeps
end ObjectHeap

namespace Reachability

variable {pending : Option LoaderId} {registry : Registry σ} {objects : ObjectHeap}
  {starts : List Ref}

def foundBy (objects : ObjectHeap) (registry : Registry σ) (strong : Bool) : Reachability :=
  .ofMarked (objects.mark strong) registry registry.snapshot

def startsOf (objects : ObjectHeap) (strong : Bool) : List Ref :=
  objects.markRoots strong ++ objects.heap.frozen

def reachedBy (objects : ObjectHeap) (strong : Bool) (r : Ref) : Prop :=
  objects.heap.Reaches (startsOf objects strong) r

section Found

variable {strong : Bool}

theorem shows_mark (hsound : objects.heap.Sound) {object : Object} :
    (objects.mark strong).Shows object ↔
      ∃ r, reachedBy objects strong r ∧ objects.get? r = some object := by
  refine exists_congr fun r => and_congr (hsound.isMarked_mark _ r) ?_
  exact Eq.congr_left (Heap.get?_mark _ _ r)

/-- The loaders that are kept leave out none that has to be alive with them: a live class has the
loader of its component. -/
theorem closed_keeps (h : objects.Linked pending registry) (hsound : objects.heap.Sound) :
    registry.snapshot.Closed (objects.mark strong)
      {l | objects.Keeps (reachedBy objects strong) l} where
  permanent l hl hpermanent := by
    rw [(h.coherent.roster.permanent l hl).mp hpermanent]
    exact h.keeps_boot
  unheld l _ hnone r hholder := by
    rw [show objects.holder? l.id = none from hnone] at hholder
    contradiction
  held l _ object hshows hheld := by
    obtain ⟨r, hr, hget⟩ := (shows_mark hsound).mp hshows
    cases object with
    | holderOf k mirrors =>
      rw [← Option.some.inj hheld]
      exact h.keeps_of_holder hr hget
    | _ => contradiction
  used c hc huses := by
    have hc' := h.coherent.mem_registered.mp hc
    obtain ⟨object, hshows, hclass | hmirrored⟩ := huses
    · obtain ⟨r, hr, hget⟩ := (shows_mark hsound).mp hshows
      exact h.keeps_of_class? (h.closes_reaches _) hr hget hclass hc'
    · obtain ⟨r, hr, hget⟩ := (shows_mark hsound).mp hshows
      cases object with
      | mirrorOf k loader component =>
        rw [Object.mirrored?, Option.some.injEq] at hmirrored
        rw [hmirrored] at hget
        exact h.keeps_of_mirror (h.closes_reaches _) hr hget hc'
      | _ => contradiction
  component c hc d hd hcomponent hkeeps := by
    have hsame := h.kindred c.id c d.id d (h.coherent.mem_registered.mp hc) hcomponent
      (h.coherent.mem_registered.mp hd)
    rw [hsame]
    exact hkeeps

theorem loaderAlive_iff (h : objects.Linked pending registry) (hsound : objects.heap.Sound)
    {l : Loader σ} (hl : l ∈ registry.graph) :
    (foundBy objects registry strong).loaderAlive registry l = true ↔
      objects.Keeps (reachedBy objects strong) l.id := by
  constructor
  · exact (bounded_ofMarked (closed_keeps h hsound)).mem_of_loaderAlive (closed_keeps h hsound) hl
  · intro hkeeps
    have hinUse := Snapshot.inUse_of_indexed h.coherent.toIndexed
    have hclosed := (isLeast_loaders hinUse (objects.mark strong)).1
    have hfound : ∃ k ∈ registry.snapshot.loaders, k.id = l.id ∧
        (foundBy objects registry strong).loaderAlive registry k = true := by
      cases hholder : objects.holder? l.id with
      | none => exact hclosed.unheld l hl hholder
      | some r =>
        obtain ⟨-, -, mirrors, hget⟩ := h.holders l.id r hholder
        exact hclosed.held l hl _ ((shows_mark hsound).mpr ⟨r, hkeeps r hholder, hget⟩) rfl
    obtain ⟨k, hk, hid, halive⟩ := hfound
    rw [hinUse.ordered.eq_of_loader_id hk hl hid] at halive
    exact halive

theorem isLive_iff (h : objects.Linked pending registry) (hsound : objects.heap.Sound)
    {c : ClassDescriptor} (hc : registry.get? c.id = some c) :
    ((foundBy objects registry strong).liveness registry c
      (registry.snapshot.loader? c.loader)).isLive = true ↔
        objects.Keeps (reachedBy objects strong) c.loader := by
  obtain ⟨l, hl, hid⟩ := h.coherent.loader_of_get? hc
  rw [← hid, ← loaderAlive_iff h hsound hl]
  have hsame := classAlive_eq_loaderAlive (Snapshot.inUse_of_indexed h.coherent.toIndexed)
    (objects.mark strong) (h.coherent.mem_registered.mpr hc) hl hid
  rw [hid]
  exact Bool.eq_iff_iff.mp hsame

end Found

end Reachability
end Metaspace
