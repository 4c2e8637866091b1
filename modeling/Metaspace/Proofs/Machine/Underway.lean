import Mathlib.Logic.Relation
import Metaspace.Proofs.Machine.Session

/-!
Sessions while a cycle is under way. The cycle has marked the heap, and until it evicts and sweeps
others go on using the machine. What they make is marked, and no mark comes or goes otherwise, so
that the loaders whose holders the mark has missed stay the same ones.
-/

set_option autoImplicit false

namespace Metaspace

open Reachability

variable {σ : Type}

namespace ObjectHeap

variable {pending settled : Option LoaderId} {registry next : Registry σ}
  {objects before after : ObjectHeap}

/-- Whether a loader is kept does not change: a new holder is marked, and the others stay marked or
unmarked. -/
theorem Grows.keeps_iff (h : Grows before after) (hbefore : before.Linked pending registry)
    (hafter : after.Linked settled next) (l : LoaderId) :
    after.Keeps after.Marked l ↔ before.Keeps before.Marked l := by
  constructor
  · intro hkept r hholder
    obtain ⟨-, -, mirrors, hget⟩ := hbefore.holders l r hholder
    refine ((h.marked r).mp (hkept r (h.holders l r hholder))).resolve_right ?_
    rintro ⟨hnone, -⟩
    rw [hget] at hnone
    contradiction
  · intro hkept r hholder
    obtain ⟨-, -, mirrors, hget⟩ := hafter.holders l r hholder
    rw [h.marked]
    exact (h.enrolled l r hholder).imp (hkept r) fun hnone => ⟨hnone, _, hget⟩

end ObjectHeap

namespace Machine

def begun (m : Machine σ) : Machine σ :=
  { m with
    engine := m.engine.entered
    objects := m.objects.mark (!m.config.classUnloading)
    found := foundBy m.objects m.registry (!m.config.classUnloading) }

def Saves (m : Machine σ) (l : LoaderId) : Prop := m.objects.Keeps m.Reached l

theorem Upheld.shaded_mark {pending : Option LoaderId} {handles : List Root} {m : Machine σ}
    (h : m.Upheld pending handles) : (m.objects.mark (!m.config.classUnloading)).Shaded := by
  have hmarked : (m.objects.mark (!m.config.classUnloading)).Marked = m.Reached :=
    ObjectHeap.marked_mark h.sound _
  constructor
  · rw [hmarked, ObjectHeap.get?_mark]
    intro r object hr hget r' hr'
    exact h.linked.closes_reaches _ r object hr hget r' (object.coreRefs_subset hr')
  · rw [hmarked]
    exact fun _ => h.reaches_frozen

theorem Sound.begun {handles : List Root} {m : Machine σ} (h : m.Sound none handles) :
    m.begun.Upheld none handles where
  linked := h.linked.mark _
  sound := h.sound.mark _
  shaded := h.shaded_mark
  holds := h.holds
  marked root hroot := by
    have hmarked : m.begun.objects.Marked = m.Reached := ObjectHeap.marked_mark h.sound _
    rw [hmarked]
    exact h.reaches_root hroot
  rests hidle := by contradiction
  classUnloading := h.classUnloading

end Machine

namespace Session

/-- A step while a cycle is under way. It needs no collection, which would wait for that cycle. -/
structure Mutates (s t : Session σ) : Prop where
  step : Step s t
  unjoined : t.machine.engine.coordinator.coalesced = s.machine.engine.coordinator.coalesced

def Mutations : Session σ → Session σ → Prop := Relation.ReflTransGen Mutates

/-- A session that another one can have become since a cycle began on it. -/
structure Underway (start s : Session σ) : Prop extends Upheld s where
  sound : start.Sound
  running : s.machine.engine.coordinator.phase ≠ .idle
  outgrows : Registry.Outgrows start.machine.registry s.machine.registry
  config : s.machine.config = start.machine.config
  endures : Machine.Endures start.machine.begun s.machine

section Underway

variable {start s t : Session σ}

theorem Sound.begun (h : start.Sound) :
    Underway start { start with machine := start.machine.begun } where
  machine := h.machine.begun
  known := h.known
  sound := h
  running := Phase.noConfusion
  outgrows := .refl _
  config := rfl
  endures := .refl _

theorem Underway.mutates (h : Underway start s) (hmutates : Mutates s t) : Underway start t := by
  obtain ⟨hupheld, hcontinues⟩ := hmutates.step.keeps h.toUpheld
  exact
    { toUpheld := hupheld
      sound := h.sound
      running := hcontinues.phase ▸ h.running
      outgrows := h.outgrows.trans hcontinues.outgrows
      config := hcontinues.config.trans h.config
      endures := h.endures.trans (hcontinues.running h.running) }

theorem Underway.mutations (h : Underway start s) (hmutations : Mutations s t) :
    Underway start t := by
  induction hmutations with
  | refl => exact h
  | tail _ hmutates ih => exact ih.mutates hmutates

theorem get?_begun (start : Session σ) :
    start.machine.begun.objects.get? = start.machine.objects.get? :=
  ObjectHeap.get?_mark _ _

theorem Sound.marked_begun (h : start.Sound) :
    start.machine.begun.objects.Marked = start.machine.Reached :=
  ObjectHeap.marked_mark h.machine.sound _

theorem Underway.marked_iff (h : Underway start s) (r : Ref) :
    s.machine.objects.Marked r ↔ start.machine.Reached r ∨
      start.machine.objects.get? r = none ∧ ∃ object, s.machine.objects.get? r = some object := by
  rw [h.endures.grows.marked, h.sound.marked_begun, get?_begun]

theorem Underway.keeps_iff (h : Underway start s) (l : LoaderId) :
    s.machine.objects.Keeps s.machine.objects.Marked l ↔ start.machine.Saves l := by
  rw [h.endures.grows.keeps_iff h.sound.machine.begun.linked h.machine.linked, h.sound.marked_begun]
  exact Iff.rfl

/-- A mirror that was made since the mark, of a class whose loader has a holder that the mark has
missed. -/
def Strays (start s : Session σ) (r : Ref) : Prop :=
  start.machine.objects.get? r = none ∧ ∃ id holder component,
    s.machine.objects.get? r = some (.mirrorOf id (some holder) component) ∧
      ¬ s.machine.objects.Marked holder

theorem Underway.marked_of_mirror (h : Underway start s) {r holder : Ref} {id : ClassId}
    {component : Option Ref} (hr : s.machine.objects.Marked r)
    (hget : s.machine.objects.get? r = some (.mirrorOf id (some holder) component))
    (hstays : ¬ start.Strays s r) : s.machine.objects.Marked holder := by
  by_contra hmissed
  have hthere : start.machine.objects.get? r ≠ none :=
    fun hnone => hstays ⟨hnone, id, holder, component, hget, hmissed⟩
  have hreached : start.machine.Reached r :=
    ((h.marked_iff r).mp hr).resolve_right fun hnew => hthere hnew.1
  obtain ⟨hmirror, -⟩ := h.machine.linked.fits r _ hget
  have hgrows := h.endures.grows
  rcases hgrows.minted id r hmirror with hbefore | hnone
  -- the mirror was there when the cycle marked, and the mark went on to its holder
  · obtain ⟨loader, k, hthen⟩ := h.sound.machine.linked.mirrors id r hbefore
    have hnow := hgrows.mirrors r id loader k ((congrFun (get?_begun start) r).trans hthen)
    rw [hget, Option.some.injEq, Object.mirrorOf.injEq] at hnow
    obtain ⟨-, rfl, -⟩ := hnow
    refine hmissed ((h.marked_iff holder).mpr (.inl ?_))
    exact h.sound.machine.linked.closes_reaches _ r _ hreached hthen holder
      (List.mem_append_left _ List.mem_cons_self)
  · exact hthere ((congrFun (get?_begun start) r).symm.trans hnone)

theorem Underway.marked_of_ref (h : Underway start s) {r : Ref} {object : Object}
    (hr : s.machine.objects.Marked r) (hget : s.machine.objects.get? r = some object)
    (hstays : ¬ start.Strays s r) : ∀ r' ∈ object.refs, s.machine.objects.Marked r' := by
  intro r' hr'
  rcases h.machine.shaded.marked_or_mirror hr hget hr' with hmarked | ⟨id, component, rfl⟩
  · exact hmarked
  · exact h.marked_of_mirror hr hget hstays

theorem Underway.loaderAlive_eq (h : Underway start s) {l : Loader σ}
    (hl : l ∈ start.machine.registry.graph) :
    s.machine.found.loaderAlive s.machine.registry l =
      (foundBy start.machine.objects start.machine.registry
        (!start.machine.config.classUnloading)).loaderAlive start.machine.registry l := by
  have hthen := h.sound.machine.linked.coherent.isUnloading_eq_false hl
  have hnow := h.machine.linked.coherent.isUnloading_eq_false (h.endures.graph hl)
  rw [h.endures.found, loaderAlive, loaderAlive, hthen, hnow]
  rfl

theorem Underway.loaderAlive_iff (h : Underway start s) {l : Loader σ}
    (hl : l ∈ start.machine.registry.graph) :
    s.machine.found.loaderAlive s.machine.registry l = true ↔ start.machine.Saves l.id := by
  rw [h.loaderAlive_eq hl]
  exact Reachability.loaderAlive_iff h.sound.machine.linked h.sound.machine.sound hl

theorem Underway.saves_of_unasked (h : Underway start s) {l : Loader σ}
    (hl : l ∈ start.machine.registry.graph)
    (hskipped : (l.permanent || s.machine.registry.isUnloading l.id) = true) :
    start.machine.Saves l.id := by
  have hlinked := h.sound.machine.linked
  rw [h.machine.linked.coherent.isUnloading_eq_false (h.endures.graph hl), Bool.or_false]
    at hskipped
  rw [(hlinked.coherent.roster.permanent l hl).mp hskipped]
  exact hlinked.keeps_boot

theorem Underway.isLive_iff (h : Underway start s) {c : ClassDescriptor}
    (hc : c ∈ start.machine.registry.registered) :
    (s.machine.found.liveness s.machine.registry c
      (start.machine.registry.snapshot.loader? c.loader)).isLive = true ↔
        start.machine.Saves c.loader := by
  have hcoherent := h.sound.machine.linked.coherent
  have hget := hcoherent.mem_registered.mp hc
  obtain ⟨l, hl, hid⟩ := hcoherent.loader_of_get? hget
  have hloader : start.machine.registry.snapshot.loader? c.loader = some l := by
    rw [← hid]
    exact (Snapshot.inUse_of_indexed hcoherent.toIndexed).ordered.loader?_eq_some hl
  have hlive : ((foundBy start.machine.objects start.machine.registry
      (!start.machine.config.classUnloading)).liveness start.machine.registry c
        (start.machine.registry.snapshot.loader? c.loader)).isLive = true ↔
          start.machine.Saves c.loader :=
    Reachability.isLive_iff h.sound.machine.linked h.sound.machine.sound hget
  unfold liveness at hlive ⊢
  rw [hloader, Option.any_some] at hlive ⊢
  rw [h.loaderAlive_eq hl, h.endures.found]
  exact hlive

def Dooms (start : Session σ) (id : ClassId) : Prop :=
  ∃ c, start.machine.registry.get? id = some c ∧ ¬ start.machine.Saves c.loader

theorem Underway.not_saves_of_falls (h : Underway start s) {id : ClassId}
    (hfalls : s.machine.registry.Falls start.Dooms id) :
    ∃ c, s.machine.registry.get? id = some c ∧ ¬ start.machine.Saves c.loader := by
  induction hfalls with
  | @given id hdooms hcontains =>
    obtain ⟨c, hget, hmissed⟩ := hdooms
    obtain ⟨d, hd⟩ := Option.isSome_iff_exists.mp hcontains
    have hsame := h.outgrows.get?_before (IdTable.issued_of_get? hget) hd
    rw [hget, Option.some.injEq] at hsame
    exact ⟨d, hd, hsame ▸ hmissed⟩
  | @array id k c hget hcomponent _ ih =>
    obtain ⟨d, hd, hmissed⟩ := ih
    rw [h.machine.linked.kindred id c k d hget hcomponent hd] at hmissed
    exact ⟨c, hget, hmissed⟩

end Underway
end Session
end Metaspace
