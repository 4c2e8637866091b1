import Metaspace.Proofs.Machine.Course
import Metaspace.Proofs.Machine.Passage

/-!
Machines whose loaders are all kept. A collection then takes out nothing and only frees objects, so
that the registry changes by what an operation defines and not by the collections on its way, and
the instances and arrays on the heap are those from before and the one that was asked for.
-/

set_option autoImplicit false

namespace Metaspace

variable {σ ω : Type}

open Reachability

namespace ObjectHeap

variable {pending : Option LoaderId} {registry : Registry σ} {before after : ObjectHeap}

/-- Of instances and arrays there are those from before and at most the one that is answered. -/
def Adds (before : ObjectHeap) (outcome : Except Cause Ref × ObjectHeap) : Prop :=
  ∀ r object, outcome.2.get? r = some object → object.class? ≠ none →
    before.get? r = some object ∨ outcome.1 = .ok r

theorem adds_nothing (before : ObjectHeap) (result : Except Cause Ref) :
    before.Adds (result, before) := fun _ _ hget _ => .inl hget

theorem Adds.of_allocated {object : Object} {r : Ref} {heap : Heap Object}
    (h : before.heap.Allocated object r heap) : before.Adds (.ok r, { before with heap }) := by
  intro x other hget _
  rcases h.get?_cases hget with hold | ⟨rfl, -⟩
  · exact .inl hold
  · exact .inr rfl

theorem makeHolder_adds (hsound : before.heap.Sound) (id : LoaderId) :
    before.Adds (before.makeHolder id) := by
  unfold makeHolder
  rcases alloc_cases hsound (.holderOf id #[]) with ⟨e, heq⟩ | ⟨r, heap, heq, halloc⟩
  · rw [heq]
    exact before.adds_nothing _
  · rw [heq]
    exact Adds.of_allocated halloc

theorem allocArray_adds (hsound : before.heap.Sound) (level : ArrayLevel)
    (elements : Array (Option Ref)) : before.Adds (before.allocArray level elements) := by
  unfold allocArray
  rcases alloc_cases hsound (.arrayOf level.classId level.mirror elements) with
    ⟨e, heq⟩ | ⟨r, heap, heq, halloc⟩
  · rw [heq]
    exact before.adds_nothing _
  · rw [heq]
    exact Adds.of_allocated halloc

theorem allocNested_adds (hsound : before.heap.Sound) (level : ArrayLevel) :
    before.Adds (allocNested level [] before) := by
  unfold allocNested
  split
  · exact before.adds_nothing _
  · exact allocArray_adds hsound level _

theorem makeMirror_adds (h : before.Intact pending registry) {c : ClassDescriptor}
    (hget : registry.get? c.id = some c) (component : Option Ref) {r : Ref} {object : Object}
    (hr : (before.makeMirror c component).2.get? r = some object) (hclass : object.class? ≠ none) :
    before.get? r = some object := by
  rcases makeMirror_cases h.linked h.sound hget component with
    ⟨e, heq⟩ | ⟨mirror, after, heq, -, hmade⟩
  · rw [heq] at hr
    exact hr
  · rw [heq] at hr
    rw [hmade.get?_eq] at hr
    split at hr
    · obtain rfl := Option.some.inj hr
      exact absurd rfl hclass
    · obtain ⟨old, hold, rfl⟩ := Option.map_eq_some_iff.mp hr
      cases old with
      | holderOf => exact absurd rfl hclass
      | _ => exact hold

theorem ensureMirror_adds (h : before.Intact pending registry) {c : ClassDescriptor}
    (hget : registry.get? c.id = some c) {components : List ClassDescriptor}
    (hchain : registry.Chain c components) {r : Ref} {object : Object}
    (hr : (ensureMirror registry c components before).2.get? r = some object)
    (hclass : object.class? ≠ none) : before.get? r = some object := by
  induction components generalizing c r object with
  | nil =>
    unfold ensureMirror at hr
    split at hr
    · exact hr
    · exact hr
    · exact makeMirror_adds h hget none hr hclass
  | cons d ds ih =>
    obtain ⟨-, hgetd, -, htail⟩ := hchain
    have hlands := (ensureMirror_lands h hgetd htail).1
    have hearlier : ∀ x other, (ensureMirror registry d ds before).2.get? x = some other →
        other.class? ≠ none → before.get? x = some other :=
      fun _ _ hx hother => ih hgetd htail hx hother
    unfold ensureMirror at hr
    split at hr
    · exact hr
    · exact hr
    · dsimp only at hr
      generalize ensureMirror registry d ds before = outcome at hlands hearlier hr
      obtain ⟨result, objects⟩ := outcome
      cases result with
      | error cause => exact hearlier r object hr hclass
      | ok mirror =>
        obtain ⟨hintact, -⟩ := hlands.ok mirror rfl
        exact hearlier r object (makeMirror_adds hintact hget (some mirror) hr hclass) hclass

theorem mirror_adds (h : before.Intact pending registry) {c : ClassDescriptor}
    (hsame : ∀ d, registry.get? c.id = some d → d = c) :
    before.Adds (ensureMirror registry c (registry.components c) before) := by
  cases hget : registry.get? c.id with
  | none =>
    rw [ensureMirror_of_gone hget]
    exact before.adds_nothing _
  | some d =>
    obtain rfl := hsame d hget
    intro r object hr hclass
    exact .inl (ensureMirror_adds h hget (h.linked.coherent.chain_components hget) hr hclass)

end ObjectHeap

namespace Machine

def Spared (m : Machine σ) : Prop := ∀ l ∈ m.registry.graph, m.objects.Keeps m.Reached l.id

/-- A collection that takes out no class and no loader, and frees what is out of reach. -/
structure Collection.Frees (c : Collection σ) : Prop where
  unloaded : c.report.unloaded = []
  unloadedLoaders : c.report.unloadedLoaders = []
  registry : c.after.registry = c.before.registry
  publisher : c.after.engine.publisher = c.before.engine.publisher
  holders : ∀ l r, c.before.objects.holder? l = some r → c.after.objects.holder? l = some r
  get?_eq_some : ∀ r object, c.after.objects.get? r = some object ↔
    c.before.Reached r ∧ c.before.objects.get? r = some object

section Collections

variable {pending : Option LoaderId} {handles : List Root} {m n : Machine σ}

theorem Sound.collect_frees (h : m.Sound pending handles) (hspared : m.Spared)
    {report : CycleReport σ} (hcollect : m.collect = (.ok report, n)) :
    Collection.Frees ⟨m, handles, report, n⟩ := by
  obtain ⟨-, -, hculled, hswept⟩ := h.collected hcollect
  have hcoherent := h.linked.coherent
  have hunloaded : report.unloaded = [] := by
    rw [List.eq_nil_iff_forall_not_mem]
    intro c hc
    obtain ⟨hget, hdead⟩ := (hculled.unloaded c).mp hc
    obtain ⟨l, hl, hid⟩ := hcoherent.loader_of_get? hget
    exact hdead (hid ▸ hspared l hl)
  have hloaders : report.unloadedLoaders = [] := by
    rw [List.eq_nil_iff_forall_not_mem]
    intro l hl
    obtain ⟨hgraph, hdead⟩ := (hculled.unloadedLoaders l).mp hl
    exact hdead (hspared l hgraph)
  obtain ⟨engine, after, classes, loaders, hbefore, -, hevict, hafter, -⟩ :=
    h.collect_evicts hcollect
  have hsame := Cycle.evict_of_nil engine (hbefore ▸ hcoherent.toIndexed)
    (m.engine.coordinator.started + 1) m.registry.snapshot.size classes loaders
  rw [hevict] at hsame
  refine ⟨hunloaded, hloaders, ?_, ?_, ?_, hswept.get?_eq_some⟩
  · show n.registry = m.registry
    rw [hafter, hsame hunloaded hloaders, hbefore]
  · show n.engine.publisher = m.engine.publisher
    rw [h.publisher_collect hcollect, hunloaded]
    rfl
  · intro l r hholder
    obtain ⟨-, ⟨k, hk, rfl⟩, -⟩ := h.linked.holders l r hholder
    exact (hswept.holder?_eq_some k.id r).mpr ⟨hholder, hspared k hk⟩

theorem Upheld.reached_metadata (h : m.Upheld pending handles) (hspared : m.Spared) {r : Ref}
    {object : Object} (hget : m.objects.get? r = some object) (hclass : object.class? = none) :
    m.Reached r := by
  have hfits := h.linked.fits r object hget
  cases object with
  | instanceOf => contradiction
  | arrayOf => contradiction
  | mirrorOf id loader component =>
    obtain ⟨hmirror, c, hc, -⟩ := hfits
    obtain ⟨l, hl, hid⟩ := h.linked.coherent.loader_of_get? hc
    exact h.linked.reached_mirror (h.linked.closes_reaches _) (fun _ => h.reaches_frozen) hc
      (hid ▸ hspared l hl) hmirror
  | holderOf l mirrors =>
    obtain ⟨-, ⟨k, hk, rfl⟩, -⟩ := h.linked.holders l r hfits.1
    exact hspared k hk r hfits.1

def Secured (handles : List Root) (m : Machine σ) : Prop :=
  ∀ l r, m.objects.holder? l = some r → r ∈ handles.map (·.ref)

theorem Secured.mono {more : List Root} (h : m.Secured handles) (hsub : handles ⊆ more) :
    m.Secured more :=
  fun l r hholder => List.map_subset _ hsub (h l r hholder)

theorem Upheld.spared (h : m.Upheld pending handles) (hsecured : m.Secured handles) :
    m.Spared := by
  intro l _ r hholder
  obtain ⟨root, hroot, rfl⟩ := List.mem_map.mp (hsecured l.id r hholder)
  exact h.reaches_root hroot

end Collections

/-- A machine before and after work that left the registry alone. Of instances and arrays it added
at most the fresh ones. -/
structure Rests (fresh : List Ref) (before after : Machine σ) : Prop where
  registry : after.registry = before.registry
  publisher : after.engine.publisher = before.engine.publisher
  holders : ∀ l r, before.objects.holder? l = some r → after.objects.holder? l = some r
  bodies : ∀ r object, after.objects.get? r = some object → object.class? ≠ none →
    before.objects.get? r = some object ∨ r ∈ fresh

namespace Rests

theorem refl (m : Machine σ) : Rests [] m m :=
  ⟨rfl, rfl, fun _ _ hholder => hholder, fun _ _ hget _ => .inl hget⟩

theorem trans {fresh more : List Ref} {a b c : Machine σ} (hab : Rests fresh a b)
    (hbc : Rests more b c) : Rests (fresh ++ more) a c where
  registry := hbc.registry.trans hab.registry
  publisher := hbc.publisher.trans hab.publisher
  holders l r hholder := hbc.holders l r (hab.holders l r hholder)
  bodies r object hget hclass := by
    rcases hbc.bodies r object hget hclass with hget' | hmore
    · exact (hab.bodies r object hget' hclass).imp_right (List.mem_append_left more)
    · exact .inr (List.mem_append_right fresh hmore)

theorem of_roots (m : Machine σ) (roots : RootTable) :
    Rests [] m { m with objects := { m.objects with roots } } :=
  { refl m with }

theorem of_dropAll (m : Machine σ) (roots : List Root) : Rests [] m (m.dropAll roots) := by
  induction roots generalizing m with
  | nil => exact .refl m
  | cons root roots ih => exact (of_roots m _).trans (ih (m.drop root))

theorem of_metadata {fresh : List Ref} {before after : Machine σ} (h : Rests fresh before after)
    (hfresh : ∀ r ∈ fresh, ∀ object, after.objects.get? r = some object →
      object.class? = none) : Rests [] before after :=
  { h with
    bodies := fun r object hget hclass => by
      rcases h.bodies r object hget hclass with hold | hnew
      · exact .inl hold
      · exact absurd (hfresh r hnew object hget) hclass }

theorem secured {fresh : List Ref} {m n : Machine σ} {pending : Option LoaderId}
    {handles : List Root} (h : Rests fresh m n) (hm : m.objects.Linked pending m.registry)
    (hn : n.objects.Linked pending n.registry) (hsecured : m.Secured handles) :
    n.Secured handles := by
  intro l r hholder
  obtain ⟨hboot, ⟨k, hk, rfl⟩, -⟩ := hn.holders l r hholder
  rw [h.registry] at hk
  rcases hm.held k hk with heq | hpending | ⟨r', hholder'⟩
  · exact absurd heq hboot
  · rw [(hn.pending k.id hpending).unheld] at hholder
    contradiction
  · obtain rfl : r' = r := Option.some.inj ((h.holders k.id r' hholder').symm.trans hholder)
    exact hsecured k.id r' hholder'

end Rests

def rooted {ε : Type} : Except ε Root → List Ref
  | .ok root => [root.ref]
  | .error _ => []

theorem rooted_mapError {ε ε' : Type} (f : ε → ε') (result : Except ε Root) :
    rooted (result.mapError f) = rooted result := by
  cases result <;> rfl

section Attempts

open ObjectHeap

variable {pending settled : Option LoaderId} {handles : List Root} {m : Machine σ}
  {made : Object → Prop}

theorem attempt_rests {make : Attempt σ}
    (hmake : Lands pending settled m.registry m.objects made (make m.registry m.objects))
    (hadds : m.objects.Adds (make m.registry m.objects)) :
    Rests (rooted (m.attempt make).1) m (m.attempt make).2 := by
  have hgrows := hmake.grows
  unfold Machine.attempt
  generalize make m.registry m.objects = outcome at hgrows hadds ⊢
  obtain ⟨result, objects⟩ := outcome
  cases result with
  | error cause =>
    exact ⟨rfl, rfl, hgrows.holders, fun r object hget hclass =>
      (hadds r object hget hclass).imp_right fun hok => by contradiction⟩
  | ok root =>
    refine ⟨rfl, rfl, hgrows.holders, fun r object hget hclass =>
      (hadds r object hget hclass).imp_right fun hok => ?_⟩
    rw [← Except.ok.inj hok]
    exact List.mem_singleton_self _

theorem Sound.collect_rests (h : m.Sound pending handles) (hspared : m.Spared) :
    Rests [] m m.collect.2 := by
  obtain ⟨report, next, hcollect, -⟩ := h.collect
  have hfrees := h.collect_frees hspared hcollect
  rw [hcollect]
  exact ⟨hfrees.registry, hfrees.publisher, hfrees.holders, fun r object hget _ =>
    .inl ((hfrees.get?_eq_some r object).mp hget).2⟩

theorem Sound.allocateRooted_rests (h : m.Sound pending handles) (hsecured : m.Secured handles)
    (make : Attempt σ)
    (hmake : ∀ next : Machine σ, next.Upheld pending handles → Continues handles m next →
      Lands pending settled next.registry next.objects made (make next.registry next.objects))
    (hadds : ∀ next : Machine σ, next.Upheld pending handles → Continues handles m next →
      next.objects.Adds (make next.registry next.objects)) :
    Rests (rooted (m.allocateRooted make).1) m (m.allocateRooted make).2 := by
  have hrests := attempt_rests (hmake m h.toUpheld (.refl handles m))
    (hadds m h.toUpheld (.refl handles m))
  rcases h.allocateRooted_cases make hmake with
    heq | ⟨cause, failed, report, next, hfailed, hsound, hcollect, hnext, hcontinues, heq⟩
  · rw [heq, rooted_mapError]
    exact hrests
  · rw [hfailed] at hrests
    have hspared := hsound.toUpheld.spared (hrests.secured h.linked hsound.linked hsecured)
    have hcollected := hsound.collect_rests hspared
    rw [hcollect] at hcollected
    rw [heq, rooted_mapError]
    exact (hrests.trans hcollected).trans
      (attempt_rests (hmake next hnext.toUpheld hcontinues) (hadds next hnext.toUpheld hcontinues))

theorem Sound.mirrorOf_rests (h : m.Sound none handles) (hsecured : m.Secured handles)
    {c : ClassDescriptor} (hc : m.registry.Knows c) : Rests [] m (m.mirrorOf c).2 := by
  have hlands := fun (next : Machine σ) (hnext : next.Upheld none handles)
    (hcontinues : Continues handles m next) =>
      mirror_lands hnext.toIntact (hcontinues.outgrows.knows hc).2
  have hserves := h.toUpheld.allocateRooted
    (fun registry objects => objects.ensureMirror registry c (registry.components c)) hlands
  have hrests := h.allocateRooted_rests hsecured
    (fun registry objects => objects.ensureMirror registry c (registry.components c)) hlands
    fun next hnext hcontinues => mirror_adds hnext.toIntact (hcontinues.outgrows.knows hc).2
  unfold Machine.mirrorOf
  dsimp only
  generalize m.allocateRooted _ = outcome at hserves hrests ⊢
  obtain ⟨result, next⟩ := outcome
  cases result with
  | error failure => exact hrests
  | ok root =>
    -- what was rooted is a mirror
    have hmirror : Rests [] m next := by
      refine hrests.of_metadata fun r hr object hget => ?_
      obtain ⟨-, other, hother, loader, component, rfl⟩ := hserves.ok root rfl
      rw [List.mem_singleton.mp hr] at hget
      rw [← Option.some.inj (hother.symm.trans hget)]
      rfl
    dsimp only
    split
    · exact hmirror
    · exact hmirror.trans (.of_roots next _)

theorem Sound.holdClass_rests (h : m.Sound none handles) (hsecured : m.Secured handles)
    {c : ClassDescriptor} (hc : m.registry.Knows c) : Rests [] m (m.holdClass c).2 := by
  have hmirror := h.mirrorOf_rests hsecured hc
  unfold Machine.holdClass
  generalize m.mirrorOf c = outcome at hmirror ⊢
  obtain ⟨_ | root, next⟩ := outcome <;> exact hmirror

theorem Sound.allocateWith_rests {needed : List Root} (h : m.Sound none (needed ++ handles))
    (hsecured : m.Secured (needed ++ handles)) (context : Context) (make : Attempt σ)
    (hmake : ∀ next : Machine σ, next.Upheld none (needed ++ handles) →
      Continues (needed ++ handles) m next →
        Lands none none next.registry next.objects made (make next.registry next.objects))
    (hadds : ∀ next : Machine σ, next.Upheld none (needed ++ handles) →
      Continues (needed ++ handles) m next →
        next.objects.Adds (make next.registry next.objects)) :
    Rests (rooted (m.allocateWith needed context make).1) m
      (m.allocateWith needed context make).2 := by
  have hrests := h.allocateRooted_rests hsecured make hmake hadds
  unfold Machine.allocateWith
  generalize m.allocateRooted make = outcome at hrests ⊢
  obtain ⟨_ | root, next⟩ := outcome <;> exact hrests.trans (.of_dropAll next needed)

end Attempts

section Operations

open ObjectHeap

variable {handles : List Root} {m : Machine σ}

theorem Sound.newLoader_rests (h : m.Sound none handles) (hsecured : m.Secured handles)
    {name : String} {sources : List σ} {held : HeldLoader} {next : Machine σ}
    (hmade : m.newLoader name sources = (.ok held, next)) :
    ∃ registry, m.registry.newLoader? name sources = some (held.id, registry) ∧
      Rests [] (m.withRegistry registry) next := by
  have hserves := h.toUpheld.newLoader name sources
  rw [hmade] at hserves
  obtain ⟨-, holder, hholder, rfl⟩ := hserves.ok held rfl
  cases hnew : m.registry.newLoader? name sources with
  | none =>
    rw [newLoader_of_none hnew] at hmade
    obtain ⟨hfailed, -⟩ := Prod.mk.inj hmade
    contradiction
  | some made =>
    obtain ⟨id, registry⟩ := made
    have hentered := h.entering hnew
    have hrests := hentered.allocateRooted_rests hsecured (fun _ objects => objects.makeHolder id)
      (fun next hnext _ => holder_lands hnext.toIntact)
      fun next hnext _ => makeHolder_adds hnext.sound id
    cases hallocated : (m.withRegistry registry).allocateRooted _ with
    | mk result after =>
    rw [hallocated] at hrests
    cases result with
    | error failure =>
      rw [newLoader_of_error hnew hallocated] at hmade
      obtain ⟨hfailed, -⟩ := Prod.mk.inj hmade
      contradiction
    | ok root =>
      rw [newLoader_of_ok hnew hallocated] at hmade
      obtain ⟨hok, rfl⟩ := Prod.mk.inj hmade
      obtain rfl := Except.ok.inj hok
      refine ⟨registry, rfl, hrests.of_metadata fun r hr object hget => ?_⟩
      rw [List.mem_singleton.mp hr] at hget
      rw [← Option.some.inj (hholder.symm.trans hget)]
      rfl

theorem Sound.load_rests (h : m.Sound none handles) (hsecured : m.Secured handles)
    {ask : Asking σ ω} (hask : Quiet ask) (loader : LoaderId) (name : String) (outside : ω) :
    Rests [] (m.withRegistry (Registry.load ask loader name (m.registry, outside)).2.1)
      (Machine.load ask loader name (m, outside)).2.1 := by
  obtain ⟨hbegins, hloaded⟩ := h.toUpheld.begins_load hask loader name outside
  unfold Machine.load
  dsimp only
  generalize Registry.load ask loader name (m.registry, outside) = outcome at *
  obtain ⟨result, registry, outside'⟩ := outcome
  cases result with
  | error failure => exact .refl _
  | ok c =>
    exact (hbegins.sound h.idle).holdClass_rests hsecured (Registry.knows_of_get? (hloaded c rfl))

theorem Sound.deriveArray_rests (h : m.Sound none handles) (hsecured : m.Secured handles)
    (component : ClassDescriptor) (dimensions : Nat) :
    Rests [] (m.withRegistry (m.derived component dimensions))
      (m.deriveArray component dimensions).2 := by
  obtain ⟨hbegins, hderived⟩ := h.toUpheld.begins_deriveArray component dimensions
  unfold Machine.deriveArray derived
  dsimp only
  split
  · exact .refl m
  · generalize m.registry.deriveArray component dimensions = outcome at *
    obtain ⟨result, registry⟩ := outcome
    cases result with
    | error e => exact .refl _
    | ok c =>
      exact (hbegins.sound h.idle).holdClass_rests hsecured
        (Registry.knows_of_get? (hderived c rfl))

theorem Sound.newArray_rests (h : m.Sound none handles) (hsecured : m.Secured handles)
    (component : ClassDescriptor) (length : Nat) :
    Rests (rooted (m.newArray component length).1) (m.withRegistry (m.derived component 1))
      (m.newArray component length).2 := by
  have hbegins := h.toUpheld.begins_derived component 1
  have hderived := h.toUpheld.deriveArray component 1
  have hrests := h.deriveArray_rests hsecured component 1
  unfold Machine.newArray
  generalize m.deriveArray component 1 = outcome at hderived hrests ⊢
  obtain ⟨result, next⟩ := outcome
  cases result with
  | error failure => exact hrests
  | ok held =>
    obtain ⟨hupheld, hholding⟩ := hderived.ok held rfl
    have hsound : next.Sound none ([held.mirror] ++ handles) :=
      ⟨hupheld, hderived.continues.phase.trans h.idle⟩
    have hstill : next.Secured handles :=
      hrests.secured hbegins.upheld.linked hupheld.linked hsecured
    exact hrests.trans (hsound.allocateWith_rests
      (hstill.mono (List.subset_append_right [held.mirror] handles)) _ _
      (fun later hlater hsince =>
        hlater.array_lands (hsince.names_mirror List.mem_cons_self hholding) length)
      fun later hlater _ => allocNested_adds hlater.sound _)

end Operations

end Machine
end Metaspace
