import Metaspace.Proofs.Machine.Departure
import Metaspace.Proofs.Machine.Secured
import Mathlib.Logic.Relation

/-!
Machines without class unloading. Whatever stands for a class or a loader stays for good, and a
collection frees exactly the instances and arrays that cannot be reached from the roots: mirrors and
holders refer to mirrors and holders only, so that they keep no other object.
-/

set_option autoImplicit false

namespace Metaspace

variable {σ : Type}

open Reachability

namespace ObjectHeap.Linked

variable {pending : Option LoaderId} {registry : Registry σ} {objects : ObjectHeap}

theorem class?_of_mirror? (h : objects.Linked pending registry) {id : ClassId} {r : Ref}
    (hmirror : objects.mirror? id = some r) {object : Object}
    (hget : objects.get? r = some object) : object.class? = none := by
  obtain ⟨loader, component, hobject⟩ := h.mirrors id r hmirror
  rw [hget, Option.some.injEq] at hobject
  rw [hobject]
  rfl

theorem class?_of_holder? (h : objects.Linked pending registry) {l : LoaderId} {r : Ref}
    (hholder : objects.holder? l = some r) {object : Object}
    (hget : objects.get? r = some object) : object.class? = none := by
  obtain ⟨-, -, mirrors, hobject⟩ := h.holders l r hholder
  rw [hget, Option.some.injEq] at hobject
  rw [hobject]
  rfl

theorem class?_of_mem_refs (h : objects.Linked pending registry) {r r' : Ref}
    {object object' : Object} (hget : objects.get? r = some object) (hclass : object.class? = none)
    (hr' : r' ∈ object.refs) (hget' : objects.get? r' = some object') : object'.class? = none := by
  have hfits := h.fits r object hget
  cases object with
  | instanceOf id mirror fields => contradiction
  | arrayOf id mirror elements => contradiction
  | mirrorOf id loader component =>
    obtain ⟨-, c, -, hloader, hcomponent, -⟩ := hfits
    rcases List.mem_append.mp hr' with hmem | hmem
    · have hholder := Option.mem_toList.mp hmem
      exact h.class?_of_holder? (hloader.symm.trans hholder) hget'
    · have hbind := hcomponent.symm.trans (Option.mem_toList.mp hmem)
      obtain ⟨k, -, hmirror⟩ := Option.bind_eq_some_iff.mp hbind
      exact h.class?_of_mirror? hmirror hget'
  | holderOf l mirrors =>
    obtain ⟨-, -, hmem⟩ := hfits
    obtain ⟨k, -, hmirror, -⟩ := (hmem r').mp hr'
    exact h.class?_of_mirror? hmirror hget'

theorem reaches_roots (h : objects.Linked pending registry) {r : Ref}
    (hr : reachedBy objects true r) {object : Object} (hget : objects.get? r = some object)
    {id : ClassId} (hclass : object.class? = some id) :
    objects.heap.Reaches objects.roots.refs r := by
  induction hr generalizing object id with
  | @start r hmem hlive =>
    unfold startsOf markRoots at hmem
    simp only [if_true, List.mem_append] at hmem
    rcases hmem with (hroot | hmirror | hholder) | hfrozen
    · exact .start hroot hlive
    · obtain ⟨k, hmirror⟩ := mem_values_iff.mp hmirror
      rw [h.class?_of_mirror? hmirror hget] at hclass
      contradiction
    · obtain ⟨l, hholder⟩ := mem_values_iff.mp hholder
      rw [h.class?_of_holder? hholder hget] at hclass
      contradiction
    · obtain ⟨k, c, hmirror, -⟩ := (h.frozen r).mp hfrozen
      rw [h.class?_of_mirror? hmirror hget] at hclass
      contradiction
  | @step r r' before _ hbefore hmem hlive ih =>
    cases hkind : before.class? with
    | none =>
      rw [h.class?_of_mem_refs hbefore hkind hmem hget] at hclass
      contradiction
    | some k => exact .step (ih hbefore hkind) hbefore hmem hlive

/-- Without class unloading a mark reaches all mirrors and holders, and beyond those what the roots
reach. -/
theorem reachedBy_strong (h : objects.Linked pending registry) {r : Ref} {object : Object}
    (hget : objects.get? r = some object) :
    reachedBy objects true r ↔
      object.class? = none ∨ objects.heap.Reaches objects.roots.refs r := by
  constructor
  · intro hr
    cases hclass : object.class? with
    | none => exact .inl rfl
    | some id => exact .inr (h.reaches_roots hr hget hclass)
  · have hstrong : ∀ {x}, x ∈ objects.mirrors.values ++ objects.holders.values →
        x ∈ startsOf objects true := by
      intro x hx
      unfold startsOf markRoots
      simp only [if_true]
      exact List.mem_append_left _ (List.mem_append_right _ hx)
    have hlive := Heap.contains_of_get? hget
    rintro (hclass | hroots)
    · have hfits := h.fits r object hget
      cases object with
      | instanceOf id mirror fields => contradiction
      | arrayOf id mirror elements => contradiction
      | mirrorOf id loader component =>
        exact .start (hstrong (List.mem_append_left _ (mem_values_iff.mpr ⟨id, hfits.1⟩))) hlive
      | holderOf l mirrors =>
        exact .start (hstrong (List.mem_append_right _ (mem_values_iff.mpr ⟨l, hfits.1⟩))) hlive
    · refine hroots.mono fun x hx => ?_
      exact List.mem_append_left _ (List.mem_append_left _ hx)

end ObjectHeap.Linked

namespace Machine

/-- What is left of a machine when classes are not unloaded: all but instances and arrays. -/
structure Lasts (before after : Machine σ) : Prop where
  config : after.config = before.config
  retains : Registry.Retains before.registry after.registry
  housed : ∀ l, before.Housed l → after.Housed l
  mirrors : ∀ r id loader component,
    before.objects.get? r = some (.mirrorOf id loader component) →
      after.objects.get? r = some (.mirrorOf id loader component)
  holders : ∀ l r, before.objects.holder? l = some r → after.objects.holder? l = some r

theorem Lasts.refl (m : Machine σ) : Lasts m m :=
  ⟨rfl, .refl _, fun _ hl => hl, fun _ _ _ _ hget => hget, fun _ _ hholder => hholder⟩

theorem Lasts.trans {a b c : Machine σ} (hab : Lasts a b) (hbc : Lasts b c) : Lasts a c where
  config := hbc.config.trans hab.config
  retains := hab.retains.trans hbc.retains
  housed l hl := hbc.housed l (hab.housed l hl)
  mirrors r id loader component hget :=
    hbc.mirrors r id loader component (hab.mirrors r id loader component hget)
  holders l r hholder := hbc.holders l r (hab.holders l r hholder)

theorem Advances.lasts {before after : Machine σ} (h : Advances before after) :
    Lasts before after :=
  { h with
    mirrors := h.grows.mirrors
    holders := h.grows.holders }

/-- A collection that takes out no class and no loader, publishes nothing, and frees exactly the
instances and arrays that the roots do not reach. -/
structure Collection.Spares (c : Collection σ) : Prop where
  unloaded : c.report.unloaded = []
  unloadedLoaders : c.report.unloadedLoaders = []
  publisher : c.after.engine.publisher = c.before.engine.publisher
  get?_eq_some : ∀ r object, c.after.objects.get? r = some object ↔
    c.before.objects.get? r = some object ∧
      (object.class? = none ∨ c.before.objects.heap.Reaches (c.handles.map (·.ref)) r)

section Collections

variable {pending : Option LoaderId} {handles : List Root} {m n : Machine σ}

theorem Sound.reaches_iff (h : m.Sound pending handles) (r : Ref) :
    m.objects.heap.Reaches m.objects.roots.refs r ↔
      m.objects.heap.Reaches (handles.map (·.ref)) r := by
  constructor
  · exact Heap.Reaches.mono fun x hx => h.holds.mem_refs.mp hx
  · exact Heap.Reaches.mono fun x hx => h.holds.mem_refs.mpr hx

theorem reached_strong (hkept : m.config.classUnloading = false) :
    m.Reached = reachedBy m.objects true := by
  unfold Machine.Reached
  rw [hkept]
  rfl

theorem Sound.spared_strong (h : m.Sound pending handles)
    (hkept : m.config.classUnloading = false) : m.Spared := by
  intro l _
  rw [reached_strong hkept]
  exact h.linked.keeps_strong l.id

theorem Sound.collect_spares (h : m.Sound pending handles) (hkept : m.config.classUnloading = false)
    {report : CycleReport σ} (hcollect : m.collect = (.ok report, n)) :
    Lasts m n ∧ Collection.Spares ⟨m, handles, report, n⟩ := by
  have hfrees := h.collect_frees (h.spared_strong hkept) hcollect
  obtain ⟨-, hcontinues, -⟩ := h.collected hcollect
  have hget : ∀ r object, n.objects.get? r = some object ↔ m.objects.get? r = some object ∧
      (object.class? = none ∨ m.objects.heap.Reaches (handles.map (·.ref)) r) := by
    intro r object
    rw [hfrees.get?_eq_some, and_comm]
    refine and_congr_right fun hobject => ?_
    rw [reached_strong hkept, h.linked.reachedBy_strong hobject, h.reaches_iff]
  refine ⟨⟨hcontinues.config, ?_, ?_, ?_, hfrees.holders⟩,
    hfrees.unloaded, hfrees.unloadedLoaders, hfrees.publisher, hget⟩
  · intro id c hc
    rw [hfrees.registry]
    exact hc
  · rintro l ⟨hl, hheld⟩
    refine ⟨?_, hheld.imp_right fun ⟨r, hr⟩ => ⟨r, hfrees.holders l.id r hr⟩⟩
    rw [hfrees.registry]
    exact hl
  · intro r id loader component hobject
    exact (hget r _).mpr ⟨hobject, .inl rfl⟩

/-- Without class unloading all of this is left by every run. Nothing is published on the way, and
the collections only free instances and arrays. -/
theorem Course.lasts {collections : List (Collection σ)} (h : Course m collections n)
    (hkept : m.config.classUnloading = false) :
    Lasts m n ∧ n.engine.publisher = m.engine.publisher ∧ ∀ c ∈ collections, c.Spares := by
  induction h with
  | advance hadvances => exact ⟨hadvances.lasts, hadvances.publisher, by simp⟩
  | collect hsound hcollect =>
    obtain ⟨hlasts, hspares⟩ := hsound.collect_spares hkept hcollect
    exact ⟨hlasts, hspares.publisher, List.forall_mem_singleton.mpr hspares⟩
  | trans _ _ ih ih' =>
    obtain ⟨hlasts, hpublisher, hspares⟩ := ih hkept
    obtain ⟨hlasts', hpublisher', hspares'⟩ := ih' (by rw [hlasts.config]; exact hkept)
    refine ⟨hlasts.trans hlasts', hpublisher'.trans hpublisher, ?_⟩
    intro c hc
    rcases List.mem_append.mp hc with hc | hc
    · exact hspares c hc
    · exact hspares' c hc

end Collections

end Machine

namespace Session

structure Lasting (s t : Session σ) : Prop where
  classes : ∀ id c, s.machine.registry.get? id = some c → t.machine.registry.get? id = some c
  loaders : s.machine.registry.graph ⊆ t.machine.registry.graph
  mirrors : ∀ id r, s.machine.objects.mirror? id = some r → ∃ loader component,
    s.machine.objects.get? r = some (.mirrorOf id loader component) ∧
      t.machine.objects.mirror? id = some r ∧
      ∀ x object, object.mirrored? = some id →
        (t.machine.objects.get? x = some object ↔ x = r ∧ object = .mirrorOf id loader component)
  holders : ∀ l r, s.machine.objects.holder? l = some r →
    t.machine.objects.holder? l = some r ∧
      ∃ mirrors, t.machine.objects.get? r = some (.holderOf l mirrors)
  metadata : ∀ r object, s.machine.objects.get? r = some object → object.class? = none →
    ∃ object', t.machine.objects.get? r = some object' ∧ object'.class? = none

/-- The step is one of the subscribers, who come, take their events and go. -/
def Listens (s t : Session σ) : Prop :=
  ∃ publisher, t =
    s.moved { s.machine with engine := { s.machine.engine with publisher } } s.handles

/-- What a step does without class unloading: it publishes nothing and takes nothing out, and the
collections that it runs only free instances and arrays. -/
structure Spares (s t : Session σ) : Prop where
  publisher : t.machine.engine.publisher = s.machine.engine.publisher
  course : ∃ collections, Machine.Course s.machine collections t.machine ∧
    ∀ c ∈ collections, c.Spares

theorem Step.lasts {s t : Session σ} (hstep : Step s t) (h : s.Sound)
    (hkept : s.machine.config.classUnloading = false) :
    Machine.Lasts s.machine t.machine ∧ (s.Listens t ∨ s.Spares t) := by
  rcases hstep.runs h with hlistens | ⟨collections, hcourse⟩
  · refine ⟨?_, .inl hlistens⟩
    obtain ⟨publisher, rfl⟩ := hlistens
    exact { Machine.Lasts.refl s.machine with }
  · obtain ⟨hlasts, hpublisher, hspares⟩ := hcourse.lasts hkept
    exact ⟨hlasts, .inr ⟨hpublisher, collections, hcourse, hspares⟩⟩

theorem Sound.step {s t : Session σ} (h : s.Sound) (hstep : Step s t) : t.Sound := by
  obtain ⟨hupheld, hcontinues⟩ := hstep.keeps ⟨h.machine.toUpheld, h.known⟩
  exact ⟨⟨hupheld.machine, hcontinues.phase.trans h.machine.idle⟩, hupheld.known⟩

theorem Sound.lasts {s t : Session σ} (h : s.Sound)
    (hkept : s.machine.config.classUnloading = false) (hleads : Relation.ReflTransGen Step s t) :
    t.Sound ∧ Machine.Lasts s.machine t.machine := by
  induction hleads with
  | refl => exact ⟨h, .refl _⟩
  | tail _ hstep ih =>
    obtain ⟨hsound, hlasts⟩ := ih
    have hstill := (hstep.lasts hsound (by rw [hlasts.config]; exact hkept)).1
    exact ⟨hsound.step hstep, hlasts.trans hstill⟩

theorem Sound.lasting {s t : Session σ} (h : s.Sound)
    (hkept : s.machine.config.classUnloading = false) (hleads : Relation.ReflTransGen Step s t) :
    s.Lasting t := by
  obtain ⟨hsound, hlasts⟩ := h.lasts hkept hleads
  have hlinked := h.machine.linked
  have hlinked' := hsound.machine.linked
  constructor
  case classes => exact hlasts.retains
  case loaders =>
    intro l hl
    refine (hlasts.housed l ⟨hl, ?_⟩).1
    rcases hlinked.held l hl with hboot | hpending | hheld
    · exact .inl hboot
    · contradiction
    · exact .inr hheld
  case mirrors =>
    intro id r hmirror
    obtain ⟨loader, component, hget⟩ := hlinked.mirrors id r hmirror
    have hget' := hlasts.mirrors r id loader component hget
    have hmirror' : t.machine.objects.mirror? id = some r := (hlinked'.fits r _ hget').1
    refine ⟨loader, component, hget, hmirror', ?_⟩
    intro x object hmirrored
    constructor
    · intro hobject
      cases object with
      | mirrorOf k loader' component' =>
        obtain rfl : k = id := Option.some.inj hmirrored
        have hx : t.machine.objects.mirror? k = some x := (hlinked'.fits x _ hobject).1
        obtain rfl : r = x := Option.some.inj (hmirror'.symm.trans hx)
        exact ⟨rfl, Option.some.inj (hobject.symm.trans hget')⟩
      | _ => contradiction
    · rintro ⟨rfl, rfl⟩
      exact hget'
  case holders =>
    intro l r hholder
    have hholder' := hlasts.holders l r hholder
    exact ⟨hholder', (hlinked'.holders l r hholder').2.2⟩
  case metadata =>
    intro r object hget hclass
    cases object with
    | instanceOf => contradiction
    | arrayOf => contradiction
    | mirrorOf id loader component => exact ⟨_, hlasts.mirrors r id loader component hget, rfl⟩
    | holderOf l mirrors =>
      have hholder' := hlasts.holders l r (hlinked.fits r _ hget).1
      obtain ⟨-, -, mirrors', hget'⟩ := hlinked'.holders l r hholder'
      exact ⟨_, hget', rfl⟩

theorem Sound.mem_graph_newLoader {s : Session σ} (h : s.Sound) {name : String} {sources : List σ}
    {held : HeldLoader} (hmade : (s.machine.newLoader name sources).1 = .ok held) :
    ∃ l ∈ (s.machine.newLoader name sources).2.registry.graph, l.id = held.id := by
  obtain ⟨hupheld, object, hget, rfl⟩ := (h.machine.toUpheld.newLoader name sources).ok held hmade
  have hholder := (hupheld.linked.fits held.holder.ref _ hget).1
  exact (hupheld.linked.holders held.id held.holder.ref hholder).2.1

/-- Without class unloading metadata is there for good: classes, the loaders that were made, mirrors
and holders stay, whatever is done later. No step but those of the subscribers touches what is
published, and every collection frees exactly the instances and arrays that no root reaches. -/
theorem Reached.metadata_lasts {config : Config} {bootSources : List σ} {s : Session σ}
    (h : Reached config bootSources s) (hkept : config.classUnloading = false) :
    (∀ t, Relation.ReflTransGen Step s t → s.Lasting t) ∧
    (∀ name sources held, (s.machine.newLoader name sources).1 = .ok held →
      ∀ t, Relation.ReflTransGen Step
        (s.after (fun held => [held.holder]) (s.machine.newLoader name sources)) t →
          ∃ l ∈ t.machine.registry.graph, l.id = held.id) ∧
    ∀ t, Step s t → s.Listens t ∨ s.Spares t := by
  obtain ⟨hsound, hconfig⟩ := h.sound
  have hkept' : s.machine.config.classUnloading = false := by
    rw [hconfig]
    exact hkept
  refine ⟨fun t hleads => hsound.lasting hkept' hleads, ?_, fun t hstep =>
    (hstep.lasts hsound hkept').2⟩
  intro name sources held hmade t hleads
  have hstep : Step s (s.after (fun held => [held.holder]) (s.machine.newLoader name sources)) :=
    .newLoader s name sources
  have hnext := (hsound.step hstep).lasting
    (by rw [(hstep.lasts hsound hkept').1.config]; exact hkept') hleads
  obtain ⟨l, hl, hid⟩ := hsound.mem_graph_newLoader hmade
  exact ⟨l, hnext.loaders hl, hid⟩

/-- A class and an array over it on a machine without class unloading. -/
def filled : Session Unit :=
  let loaded := withA 2 (withLoader (new { classUnloading := false } []))
  loaded.after (fun root => [root])
    (loaded.machine.newArray (Registry.classA (Registry.loaderId 2) 1) 1)

def unheld : Session Unit :=
  without ⟨0, ⟨0, 0⟩⟩ (without ⟨1, ⟨1, 0⟩⟩ (without ⟨3, ⟨3, 0⟩⟩ filled))

theorem unheld_reached : Reached { classUnloading := false } [] unheld := by
  have hstart : Reached { classUnloading := false } ([] : List Unit) (new _ _) := .start
  have hloaded := hstart.withLoader.withA 2
  have hfilled : Reached { classUnloading := false } [] filled :=
    hloaded.step (.newArray _ (Registry.classA (Registry.loaderId 2) 1) 1)
  exact ((hfilled.without (by decide +kernel)).without (by decide +kernel)).without
    (by decide +kernel)

/-- The array goes, and the mirrors of its class and of the array class stay. -/
theorem unheld_metadata_lasts :
    unheld.handles = [] ∧ unheld.machine.objects.get? ⟨3, 0⟩ ≠ none ∧
      ∃ t, Step unheld t ∧ t.machine.objects.get? ⟨3, 0⟩ = none ∧
        t.machine.objects.mirror? ⟨1, by decide⟩ = some ⟨1, 0⟩ ∧
        t.machine.objects.mirror? ⟨2, by decide⟩ = some ⟨2, 0⟩ := by
  have hstep := Step.collect unheld
  obtain ⟨hlasting, -, -⟩ := unheld_reached.metadata_lasts rfl
  have hlasts := hlasting _ (.single hstep)
  obtain ⟨-, -, -, hfirst, -⟩ := hlasts.mirrors ⟨1, by decide⟩ ⟨1, 0⟩ (by decide +kernel)
  obtain ⟨-, -, -, hsecond, -⟩ := hlasts.mirrors ⟨2, by decide⟩ ⟨2, 0⟩ (by decide +kernel)
  exact ⟨by decide +kernel, by decide +kernel, _, hstep, by decide +kernel, hfirst, hsecond⟩

end Session

end Metaspace
