import Metaspace.Proofs.Machine.Session

/-!
The course of an operation. An operation advances the machine: it enters loaders and classes, puts
objects on the heap, and takes nothing away but a loader that did not get its holder. All else
happens in the full collections that it runs on its way, one after the other.
-/

set_option autoImplicit false

namespace Metaspace

variable {σ ω : Type}

namespace Machine

/-- The loader is in the graph and is the boot loader or has its holder. -/
def Housed (m : Machine σ) (l : Loader σ) : Prop :=
  l ∈ m.registry.graph ∧
    (l.id = Registry.bootLoader ∨ ∃ r, m.objects.holder? l.id = some r)

/-- A machine that another one can have become without a collection. -/
structure Advances (before after : Machine σ) : Prop where
  config : after.config = before.config
  coordinator : after.engine.coordinator = before.engine.coordinator
  publisher : after.engine.publisher = before.engine.publisher
  retains : Registry.Retains before.registry after.registry
  housed : ∀ l, before.Housed l → after.Housed l
  grows : ObjectHeap.Grows before.objects after.objects

namespace Advances

theorem refl (m : Machine σ) : Advances m m :=
  ⟨rfl, rfl, rfl, .refl _, fun _ hl => hl, .refl _⟩

theorem trans {a b c : Machine σ} (hab : Advances a b) (hbc : Advances b c) : Advances a c where
  config := hbc.config.trans hab.config
  coordinator := hbc.coordinator.trans hab.coordinator
  publisher := hbc.publisher.trans hab.publisher
  retains := hab.retains.trans hbc.retains
  housed l hl := hbc.housed l (hab.housed l hl)
  grows := hab.grows.trans hbc.grows

theorem of_grows (m : Machine σ) {objects : ObjectHeap}
    (hgrows : ObjectHeap.Grows m.objects objects) : Advances m { m with objects } where
  config := rfl
  coordinator := rfl
  publisher := rfl
  retains := .refl _
  housed _ := fun ⟨hl, hheld⟩ => ⟨hl, hheld.imp_right fun ⟨r, hr⟩ => ⟨r, hgrows.holders _ r hr⟩⟩
  grows := hgrows

theorem of_roots (m : Machine σ) (roots : RootTable) :
    Advances m { m with objects := { m.objects with roots } } :=
  of_grows m { ObjectHeap.Grows.refl m.objects with }

theorem of_drop (m : Machine σ) (root : Root) : Advances m (m.drop root) :=
  of_roots m _

theorem of_dropAll (m : Machine σ) (roots : List Root) : Advances m (m.dropAll roots) := by
  induction roots generalizing m with
  | nil => exact .refl m
  | cons root roots ih => exact (of_drop m root).trans (ih (m.drop root))

theorem of_registry (m : Machine σ) {registry : Registry σ}
    (hretains : Registry.Retains m.registry registry) (hgraph : m.registry.graph ⊆ registry.graph) :
    Advances m (m.withRegistry registry) where
  config := rfl
  coordinator := rfl
  publisher := rfl
  retains := hretains
  housed _ := fun ⟨hl, hheld⟩ => ⟨hgraph hl, hheld⟩
  grows := .refl _

end Advances

/-- A full collection: the machine and the roots it ran on, and what came out of it. -/
structure Collection (σ : Type) where
  before : Machine σ
  handles : List Root
  report : CycleReport σ
  after : Machine σ

/-- How one machine became another, with the collections that ran on the way. -/
inductive Course : Machine σ → List (Collection σ) → Machine σ → Prop where
  | advance {m n : Machine σ} : Advances m n → Course m [] n
  | collect {m n : Machine σ} {pending : Option LoaderId} {handles : List Root}
      {report : CycleReport σ} : m.Sound pending handles → m.collect = (.ok report, n) →
      Course m [⟨m, handles, report, n⟩] n
  | trans {a b c : Machine σ} {collections more : List (Collection σ)} : Course a collections b →
      Course b more c → Course a (collections ++ more) c

def Runs (m n : Machine σ) : Prop := ∃ collections, Course m collections n

theorem Advances.runs {m n : Machine σ} (h : Advances m n) : Runs m n := ⟨[], .advance h⟩

theorem Runs.refl (m : Machine σ) : Runs m m := (Advances.refl m).runs

theorem Runs.trans {a b c : Machine σ} (hab : Runs a b) (hbc : Runs b c) : Runs a c := by
  obtain ⟨collections, hab⟩ := hab
  obtain ⟨more, hbc⟩ := hbc
  exact ⟨collections ++ more, hab.trans hbc⟩

section Collections

variable {pending : Option LoaderId} {handles : List Root} {m : Machine σ}

theorem Sound.runs_collect (h : m.Sound pending handles) : Runs m m.collect.2 := by
  obtain ⟨report, next, hcollect, -⟩ := h.collect
  rw [hcollect]
  exact ⟨_, .collect h hcollect⟩

theorem Sound.collect_evicts (h : m.Sound pending handles) {report : CycleReport σ} {next : Machine σ}
    (hcollect : m.collect = (.ok report, next)) :
    ∃ (engine after : Engine σ) (classes : List ClassId) (loaders : List LoaderId),
      engine.registry = m.registry ∧ engine.publisher = m.engine.publisher ∧
      Cycle.evict engine (m.engine.coordinator.started + 1) m.registry.snapshot.size classes
        loaders = (report, after) ∧
      next.registry = after.registry ∧ next.engine.publisher = after.publisher := by
  have hunloading : m.entered.classUnloading = m.config.classUnloading := h.classUnloading
  obtain ⟨evicting, classes, loaders, hregistry, hpublisher, -, -, -, hrun⟩ := run_heapOracle_eq
    m.entered h.linked h.sound (m.engine.coordinator.started + 1) m.found
  rw [hunloading] at hrun
  rw [collect_of_run h.idle hrun] at hcollect
  obtain ⟨hreport, rfl⟩ := Prod.mk.inj hcollect
  rw [← Except.ok.inj hreport]
  exact ⟨evicting, (Cycle.evict evicting (m.engine.coordinator.started + 1)
    m.registry.snapshot.size classes loaders).2, classes, loaders, hregistry, hpublisher, rfl, rfl,
    rfl⟩

theorem Sound.statistics_collect (h : m.Sound pending handles) {report : CycleReport σ}
    {next : Machine σ} (hcollect : m.collect = (.ok report, next)) :
    report.statistics = ⟨m.engine.coordinator.started + 1, m.registry.snapshot.size,
      report.unloaded.length - (report.unloaded.filter (·.isArray)).length,
      (report.unloaded.filter (·.isArray)).length, report.unloadedLoaders.length⟩ := by
  obtain ⟨engine, after, classes, loaders, -, -, hevict, -⟩ := h.collect_evicts hcollect
  obtain ⟨rfl, rfl⟩ := Prod.mk.inj hevict
  rfl

theorem Sound.publisher_collect (h : m.Sound pending handles) {report : CycleReport σ}
    {next : Machine σ} (hcollect : m.collect = (.ok report, next)) :
    next.engine.publisher = m.engine.publisher.publishAll
      (report.unloaded.map (.ofClass (m.engine.coordinator.started + 1))) := by
  obtain ⟨engine, after, classes, loaders, -, hbefore, hevict, -, hafter⟩ :=
    h.collect_evicts hcollect
  obtain ⟨rfl, rfl⟩ := Prod.mk.inj hevict
  rw [hafter, ← hbefore]

end Collections

section Attempts

open ObjectHeap

variable {pending settled : Option LoaderId} {handles : List Root} {m : Machine σ}
  {made : Object → Prop}

theorem advances_attempt {make : Attempt σ}
    (hmake : Lands pending settled m.registry m.objects made (make m.registry m.objects)) :
    Advances m (m.attempt make).2 := by
  have hgrown := Advances.of_grows m hmake.grows
  unfold Machine.attempt
  generalize make m.registry m.objects = outcome at hgrown ⊢
  obtain ⟨_ | r, objects⟩ := outcome
  · exact hgrown
  · exact hgrown.trans (.of_roots _ _)

theorem Sound.runs_allocateRooted (h : m.Sound pending handles) (make : Attempt σ)
    (hmake : ∀ next : Machine σ, next.Upheld pending handles → Continues handles m next →
      Lands pending settled next.registry next.objects made (make next.registry next.objects)) :
    Runs m (m.allocateRooted make).2 := by
  have hadvances := advances_attempt (hmake m h.toUpheld (.refl handles m))
  rcases h.allocateRooted_cases make hmake with
    heq | ⟨cause, failed, report, next, hfailed, hsound, hcollect, hnext, hcontinues, heq⟩
  · rw [heq]
    exact hadvances.runs
  · rw [hfailed] at hadvances
    rw [heq]
    have hagain := advances_attempt (hmake next hnext.toUpheld hcontinues)
    exact (hadvances.runs.trans ⟨_, .collect hsound hcollect⟩).trans hagain.runs

theorem Sound.runs_mirrorOf (h : m.Sound none handles) {c : ClassDescriptor}
    (hc : m.registry.Knows c) : Runs m (m.mirrorOf c).2 := by
  have hmirror := h.runs_allocateRooted
    (fun registry objects => objects.ensureMirror registry c (registry.components c))
    fun next hnext hcontinues => mirror_lands hnext.toIntact (hcontinues.outgrows.knows hc).2
  unfold Machine.mirrorOf
  dsimp only
  generalize m.allocateRooted _ = outcome at hmirror ⊢
  obtain ⟨_ | root, next⟩ := outcome
  · exact hmirror
  · dsimp only
    split
    · exact hmirror
    · exact hmirror.trans (Advances.of_drop next root).runs

theorem Sound.runs_holdClass (h : m.Sound none handles) {c : ClassDescriptor}
    (hc : m.registry.Knows c) : Runs m (m.holdClass c).2 := by
  have hmirror := h.runs_mirrorOf hc
  unfold Machine.holdClass
  generalize m.mirrorOf c = outcome at hmirror ⊢
  obtain ⟨_ | root, next⟩ := outcome <;> exact hmirror

theorem Sound.runs_allocateWith {needed : List Root} (h : m.Sound none (needed ++ handles))
    (context : Context) (make : Attempt σ)
    (hmake : ∀ next : Machine σ, next.Upheld none (needed ++ handles) →
      Continues (needed ++ handles) m next →
        Lands none none next.registry next.objects made (make next.registry next.objects)) :
    Runs m (m.allocateWith needed context make).2 := by
  have hallocated := h.runs_allocateRooted make hmake
  unfold Machine.allocateWith
  generalize m.allocateRooted make = outcome at hallocated ⊢
  obtain ⟨_ | root, next⟩ := outcome <;>
    exact hallocated.trans (Advances.of_dropAll next needed).runs

end Attempts

section Operations

open ObjectHeap

variable {handles : List Root} {m : Machine σ}

theorem Begins.advances {registry : Registry σ} (h : Begins handles m registry) :
    Advances m (m.withRegistry registry) :=
  .of_registry m h.retains h.graph

theorem Begins.sound {registry : Registry σ} (h : Begins handles m registry)
    (hidle : m.engine.coordinator.phase = .idle) : (m.withRegistry registry).Sound none handles :=
  ⟨h.upheld, hidle⟩

theorem Advances.of_leaving {pending : Option LoaderId} {id : LoaderId} (hpending : pending = some id)
    (h : m.Upheld pending handles) :
    Advances m (m.withRegistry (m.registry.unloadLoaders [id]).2) where
  config := rfl
  coordinator := rfl
  publisher := rfl
  retains := by
    have hdrops := h.linked.coherent.toIndexed.unloadLoaders [id]
    intro k c hget
    show (m.registry.unloadLoaders [id]).2.get? k = some c
    rw [hdrops.get?_eq]
    exact hget
  housed l := by
    have hdrops := h.linked.coherent.toIndexed.unloadLoaders [id]
    have hunheld := h.linked.pending id hpending
    rintro ⟨hl, hheld⟩
    refine ⟨(hdrops.mem_graph l).mpr ⟨hl, ?_⟩, hheld⟩
    rintro ⟨hid, -⟩
    rcases hheld with hboot | ⟨r, hholder⟩
    · exact hunheld.not_boot ((List.mem_singleton.mp hid).symm.trans hboot)
    · rw [List.mem_singleton.mp hid, hunheld.unheld] at hholder
      contradiction
  grows := .refl _

theorem Sound.runs_newLoader (h : m.Sound none handles) (name : String) (sources : List σ) :
    Runs m (m.newLoader name sources).2 := by
  cases hnew : m.registry.newLoader? name sources with
  | none =>
    rw [newLoader_of_none hnew]
    exact .refl m
  | some made =>
    obtain ⟨id, registry⟩ := made
    have hentered := h.entering hnew
    have hentering : Advances m (m.withRegistry registry) := by
      have hgraph := Registry.newLoader?_graph hnew
      obtain ⟨-, rfl⟩ := Registry.newLoader?_eq_some hnew
      refine .of_registry m (fun _ _ hget => hget) ?_
      rw [hgraph]
      exact List.subset_append_left _ _
    have hlands := fun (next : Machine σ) (hnext : next.Upheld (some id) handles)
      (_ : Continues handles (m.withRegistry registry) next) => holder_lands hnext.toIntact
    have hruns := hentering.runs.trans
      (hentered.runs_allocateRooted (fun _ objects => objects.makeHolder id) hlands)
    have hholder := hentered.toUpheld.allocateRooted (fun _ objects => objects.makeHolder id) hlands
    cases hallocated : (m.withRegistry registry).allocateRooted _ with
    | mk result next =>
    rw [hallocated] at hruns hholder
    cases result with
    | ok holder =>
      rw [newLoader_of_ok hnew hallocated]
      exact hruns
    | error failure =>
      rw [newLoader_of_error hnew hallocated]
      exact hruns.trans (Advances.of_leaving rfl (hholder.error failure rfl)).runs

theorem Sound.runs_load (h : m.Sound none handles) {ask : Asking σ ω} (hask : Quiet ask)
    (loader : LoaderId) (name : String) (outside : ω) :
    Runs m (Machine.load ask loader name (m, outside)).2.1 := by
  obtain ⟨hbegins, hloaded⟩ := h.toUpheld.begins_load hask loader name outside
  unfold Machine.load
  dsimp only
  generalize Registry.load ask loader name (m.registry, outside) = outcome at *
  obtain ⟨result, registry, outside'⟩ := outcome
  cases result with
  | error failure => exact hbegins.advances.runs
  | ok c =>
    exact hbegins.advances.runs.trans
      ((hbegins.sound h.idle).runs_holdClass (Registry.knows_of_get? (hloaded c rfl)))

theorem Sound.runs_deriveArray (h : m.Sound none handles) (component : ClassDescriptor)
    (dimensions : Nat) : Runs m (m.deriveArray component dimensions).2 := by
  obtain ⟨hbegins, hderived⟩ := h.toUpheld.begins_deriveArray component dimensions
  unfold Machine.deriveArray
  dsimp only
  split
  · exact .refl m
  · generalize m.registry.deriveArray component dimensions = outcome at *
    obtain ⟨result, registry⟩ := outcome
    cases result with
    | error e => exact hbegins.advances.runs
    | ok c =>
      exact hbegins.advances.runs.trans
        ((hbegins.sound h.idle).runs_holdClass (Registry.knows_of_get? (hderived c rfl)))

theorem Sound.runs_newInstance (h : m.Sound none handles) {c : ClassDescriptor}
    (hc : m.registry.Knows c) : Runs m (m.newInstance c).2 := by
  unfold Machine.newInstance
  split
  · exact .refl m
  · have hmirror := h.toUpheld.mirrorOf hc
    have hruns := h.runs_mirrorOf hc
    generalize m.mirrorOf c = outcome at hmirror hruns ⊢
    obtain ⟨result, next⟩ := outcome
    cases result with
    | error failure => exact hruns
    | ok mirror =>
      obtain ⟨hupheld, hnames⟩ := hmirror.ok mirror rfl
      have hsound : next.Sound none ([mirror] ++ handles) :=
        ⟨hupheld, hmirror.continues.phase.trans h.idle⟩
      exact hruns.trans (hsound.runs_allocateWith _ _ fun later hlater hsince =>
        hlater.instance_lands List.mem_cons_self (hsince.names_mirror List.mem_cons_self hnames))

theorem Sound.runs_newArray (h : m.Sound none handles) (component : ClassDescriptor)
    (length : Nat) : Runs m (m.newArray component length).2 := by
  have hderived := h.toUpheld.deriveArray component 1
  have hruns := h.runs_deriveArray component 1
  unfold Machine.newArray
  generalize m.deriveArray component 1 = outcome at hderived hruns ⊢
  obtain ⟨result, next⟩ := outcome
  cases result with
  | error failure => exact hruns
  | ok held =>
    obtain ⟨hupheld, hholding⟩ := hderived.ok held rfl
    have hsound : next.Sound none ([held.mirror] ++ handles) :=
      ⟨hupheld, hderived.continues.phase.trans h.idle⟩
    exact hruns.trans (hsound.runs_allocateWith _ _ fun later hlater hsince =>
      hlater.array_lands (hsince.names_mirror List.mem_cons_self hholding) length)

theorem Sound.runs_deriveNested (h : m.Sound none handles) (component : ClassDescriptor)
    (n : Nat) : Runs m (m.deriveNested component n).2 := by
  induction n generalizing m handles with
  | zero => exact .refl m
  | succ n ih =>
    have hderived := h.toUpheld.deriveArray component (n + 1)
    have hruns := h.runs_deriveArray component (n + 1)
    unfold Machine.deriveNested
    generalize m.deriveArray component (n + 1) = outcome at hderived hruns ⊢
    obtain ⟨result, next⟩ := outcome
    cases result with
    | error failure => exact hruns
    | ok held =>
      obtain ⟨hupheld, -⟩ := hderived.ok held rfl
      have hsound : next.Sound none ([held.mirror] ++ handles) :=
        ⟨hupheld, hderived.continues.phase.trans h.idle⟩
      have hboth := hruns.trans (ih hsound)
      dsimp only
      generalize next.deriveNested component n = outcome at hboth ⊢
      obtain ⟨_ | inner, last⟩ := outcome
      · exact hboth.trans (Advances.of_drop last held.mirror).runs
      · exact hboth

theorem Sound.runs_newArrays (h : m.Sound none handles) (component : ClassDescriptor)
    (lengths : List Nat) : Runs m (m.newArrays component lengths).2 := by
  have hderived := h.toUpheld.deriveNested component lengths.length
  have hruns := h.runs_deriveNested component lengths.length
  unfold Machine.newArrays
  generalize m.deriveNested component lengths.length = outcome at hderived hruns ⊢
  obtain ⟨result, next⟩ := outcome
  cases result with
  | error failure => exact hruns
  | ok classes =>
    obtain ⟨hupheld, hlength, hclasses⟩ := hderived.ok classes rfl
    have hsound : next.Sound none (classes.map (·.mirror) ++ handles) :=
      ⟨hupheld, hderived.continues.phase.trans h.idle⟩
    cases classes with
    | nil => exact hruns
    | cons c classes =>
      cases lengths with
      | nil => contradiction
      | cons length lengths =>
        exact hruns.trans (hsound.runs_allocateWith _ _ fun later hlater hsince =>
          allocNested_lands _ _ hlater.toIntact
            (ready_of_holding hlater (length :: lengths) (hsince.holding hclasses)))

theorem advances_store (m : Machine σ) (target : Root) (index : Nat) (value : Option Ref) :
    Advances m (m.store target index value).2 := by
  unfold Machine.store
  split
  · exact .of_grows m (Grows.storing m.objects target.ref index value)
  · exact .refl m

theorem advances_fetch (m : Machine σ) (target : Root) (index : Nat) :
    Advances m (m.fetch target index).2 := by
  unfold Machine.fetch
  split
  · exact .refl m
  · exact .of_roots m _

theorem advances_clone (m : Machine σ) (root : Root) : Advances m (m.clone root).2 :=
  .of_roots m _

end Operations

end Machine

theorem Session.Step.runs {s t : Session σ} (hstep : Step s t) (h : s.Sound) :
    (∃ publisher, t =
      s.moved { s.machine with engine := { s.machine.engine with publisher } } s.handles) ∨
    Machine.Runs s.machine t.machine := by
  have hsound := h.machine
  cases hstep with
  | newLoader name sources => exact .inr (hsound.runs_newLoader name sources)
  | load ask outside loader name hquiet => exact .inr (hsound.runs_load hquiet loader name outside)
  | deriveArray component dimensions => exact .inr (hsound.runs_deriveArray component dimensions)
  | newInstance c hknown => exact .inr (hsound.runs_newInstance (h.known c hknown))
  | newArray component length => exact .inr (hsound.runs_newArray component length)
  | newArrays component lengths => exact .inr (hsound.runs_newArrays component lengths)
  | store target index value => exact .inr (Machine.advances_store _ target index _).runs
  | fetch target index => exact .inr (Machine.advances_fetch _ target index).runs
  | clone root => exact .inr (Machine.advances_clone _ root).runs
  | drop root => exact .inr (Machine.Advances.of_drop _ root).runs
  | collect => exact .inr hsound.runs_collect
  | listen publisher => exact .inl ⟨publisher, rfl⟩

end Metaspace
