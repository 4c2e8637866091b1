import Metaspace.Proofs.Machine.Passage
import Metaspace.Proofs.Machine.Session
import Metaspace.Proofs.Registry.Views

set_option autoImplicit false

namespace Metaspace

variable {σ ω : Type}

namespace Registry

structure Departed (registry : Registry σ) (c : ClassDescriptor) : Prop where
  issued : registry.classes.Issued c.id
  gone : registry.get? c.id = none
  loader_issued : c.loader.number ≤ registry.issued
  loader_gone : ∀ l ∈ registry.graph, l.id ≠ c.loader

theorem Departed.outgrows {before after : Registry σ} (hgrows : Outgrows before after)
    {c : ClassDescriptor} (h : before.Departed c) : after.Departed c where
  issued := hgrows.issued h.issued
  gone := by
    rw [Option.eq_none_iff_forall_ne_some]
    intro d hget
    have hbefore := hgrows.get?_before h.issued hget
    rw [h.gone] at hbefore
    contradiction
  loader_issued := Nat.le_trans h.loader_issued hgrows.loaderIssued_le
  loader_gone l hl hid :=
    h.loader_gone l (hgrows.loaders l hl (hid ▸ h.loader_issued)) hid

theorem Culled.departed {before after : Registry σ} {keeps : LoaderId → Prop}
    {report : CycleReport σ} (h : before.Coherent) (hculled : Culled before keeps report after)
    {c : ClassDescriptor} (hc : c ∈ report.unloaded) : after.Departed c := by
  obtain ⟨hget, hdead⟩ := (hculled.unloaded c).mp hc
  obtain ⟨l, hl, hid⟩ := h.loader_of_get? hget
  constructor
  case issued => exact hculled.outgrows.issued (IdTable.issued_of_get? hget)
  case gone =>
    rw [Option.eq_none_iff_forall_ne_some]
    intro d hd
    obtain ⟨hsame, hkept⟩ := (hculled.get?_eq_some _ _).mp hd
    rw [hget, Option.some.injEq] at hsame
    rw [← hsame] at hkept
    exact hdead hkept
  case loader_issued =>
    rw [← hid]
    exact Nat.le_trans (h.roster.numbered l hl) hculled.outgrows.loaderIssued_le
  case loader_gone =>
    intro l' hl' hid'
    rw [← hid'] at hdead
    exact hdead ((hculled.mem_graph l').mp hl').2

theorem Departed.ne_of_get? {registry : Registry σ} {c d : ClassDescriptor}
    (h : registry.Departed c) (hget : registry.get? d.id = some d) : d.id ≠ c.id := by
  intro heq
  rw [heq, h.gone] at hget
  contradiction

structure Gains (before after : Registry σ) : Prop where
  outgrows : Outgrows before after
  retains : Retains before after

theorem Gains.refl (registry : Registry σ) : Gains registry registry := ⟨.refl _, .refl _⟩

end Registry

namespace Machine

section Passes

variable {m n : Machine σ} {reports : List (CycleReport σ)}

theorem Sound.culled {pending : Option LoaderId} {handles : List Root} {report : CycleReport σ}
    (h : m.Sound pending handles) (hcollect : m.collect = (.ok report, n)) :
    m.registry.Culled (m.objects.Keeps m.Reached) report n.registry :=
  (h.collected hcollect).2.2.1

theorem Passes.outgrows (h : Passes Registry.Gains m reports n) :
    Registry.Outgrows m.registry n.registry := by
  induction h with
  | quiet hgains => exact hgains.outgrows
  | collect hsound hcollect => exact (hsound.culled hcollect).outgrows
  | trans _ _ ih ih' => exact ih.trans ih'

theorem Passes.departed (h : Passes Registry.Gains m reports n) :
    ∀ report ∈ reports, ∀ c ∈ report.unloaded, n.registry.Departed c := by
  induction h with
  | quiet => exact fun report hreport => absurd hreport List.not_mem_nil
  | collect hsound hcollect =>
    intro report hreport c hc
    obtain rfl := List.mem_singleton.mp hreport
    exact (hsound.culled hcollect).departed hsound.linked.coherent hc
  | trans _ hlater ih ih' =>
    intro report hreport c hc
    rcases List.mem_append.mp hreport with hearlier | hlast
    · exact (ih report hearlier c hc).outgrows hlater.outgrows
    · exact ih' report hlast c hc

theorem Passes.retained (h : Passes Registry.Gains m reports n) {id : ClassId} {c : ClassDescriptor}
    (hget : m.registry.get? id = some c) :
    n.registry.get? id = some c ∨ ∃ report ∈ reports, c ∈ report.unloaded := by
  induction h with
  | quiet hgains => exact Or.inl (hgains.retains id c hget)
  | @collect m n _ _ report hsound hcollect =>
    have hculled := hsound.culled hcollect
    by_cases hkept : m.objects.Keeps m.Reached c.loader
    · exact Or.inl ((hculled.get?_eq_some id c).mpr ⟨hget, hkept⟩)
    · have hself := hsound.linked.coherent.get?_self hget
      exact Or.inr ⟨report, List.mem_singleton_self _, (hculled.unloaded c).mpr ⟨hself, hkept⟩⟩
  | trans _ _ ih ih' =>
    rcases ih hget with hthere | ⟨report, hreport, hc⟩
    · rcases ih' hthere with hstill | ⟨report, hreport, hc⟩
      · exact Or.inl hstill
      · exact Or.inr ⟨report, List.mem_append_right _ hreport, hc⟩
    · exact Or.inr ⟨report, List.mem_append_left _ hreport, hc⟩

end Passes

/-- One machine became another, by changes that take nothing out and by collections. -/
def Proceeds (m n : Machine σ) : Prop := ∃ reports, Passes Registry.Gains m reports n

theorem Proceeds.trans {a b c : Machine σ} (hab : Proceeds a b) (hbc : Proceeds b c) :
    Proceeds a c := by
  obtain ⟨reports, hab⟩ := hab
  obtain ⟨more, hbc⟩ := hbc
  exact ⟨reports ++ more, hab.trans hbc⟩

theorem Proceeds.of_gains {m n : Machine σ} (h : Registry.Gains m.registry n.registry) :
    Proceeds m n :=
  ⟨[], .quiet h⟩

theorem Proceeds.of_eq {m n : Machine σ} (h : n.registry = m.registry) : Proceeds m n :=
  .of_gains (h ▸ .refl _)

theorem Collects.proceeds {m n : Machine σ} (h : Collects m n) : Proceeds m n := by
  obtain ⟨reports, hpasses⟩ := h
  refine ⟨reports, hpasses.mono ?_⟩
  rintro r _ rfl
  exact .refl r

section Operations

variable {handles : List Root} {m n : Machine σ}

theorem Begins.proceeds {registry : Registry σ} (h : Begins handles m registry)
    (hcollects : Collects (m.withRegistry registry) n) : Proceeds m n :=
  (Proceeds.of_gains (n := m.withRegistry registry) ⟨h.outgrows, h.retains⟩).trans
    hcollects.proceeds

theorem Upheld.proceeds_newLoader (h : m.Upheld none handles) (name : String) (sources : List σ) :
    Proceeds m (m.newLoader name sources).2 := by
  cases hnew : m.registry.newLoader? name sources with
  | none =>
    rw [newLoader_of_none hnew]
    exact .of_eq rfl
  | some made =>
    obtain ⟨id, registry⟩ := made
    have hentered : (m.withRegistry registry).Upheld (some id) handles :=
      h.withRegistry (h.linked.entering hnew)
    have hmade := fun (next : Machine σ) (hnext : next.Upheld (some id) handles) =>
      ObjectHeap.holder_lands hnext.toIntact
    have hcollects := hentered.collects_allocateRooted (fun _ objects => objects.makeHolder id)
      fun next hnext _ => hmade next hnext
    have hserves := hentered.allocateRooted (fun _ objects => objects.makeHolder id)
      fun next hnext _ => hmade next hnext
    have hgains : Registry.Gains m.registry registry := by
      refine ⟨Registry.outgrows_newLoader? hnew, ?_⟩
      obtain ⟨-, rfl⟩ := Registry.newLoader?_eq_some hnew
      exact .refl _
    have hproceeds := (Proceeds.of_gains (n := m.withRegistry registry) hgains).trans
      hcollects.proceeds
    cases hallocated : (m.withRegistry registry).allocateRooted _ with
    | mk result next =>
    rw [hallocated] at hproceeds hserves
    cases result with
    | ok holder =>
      rw [newLoader_of_ok hnew hallocated]
      exact hproceeds
    | error failure =>
      have hdrops :=
        (hserves.error failure rfl).linked.coherent.toIndexed.unloadLoaders [id]
      rw [newLoader_of_error hnew hallocated]
      refine hproceeds.trans (.of_gains ⟨hdrops.outgrows, fun k c hget => ?_⟩)
      show (next.registry.unloadLoaders [id]).2.get? k = some c
      rw [hdrops.get?_eq]
      exact hget

theorem registry_store (m : Machine σ) (target : Root) (index : Nat) (value : Option Ref) :
    (m.store target index value).2.registry = m.registry := by
  unfold Machine.store
  split <;> rfl

theorem registry_fetch (m : Machine σ) (target : Root) (index : Nat) :
    (m.fetch target index).2.registry = m.registry := by
  unfold Machine.fetch
  split <;> rfl

end Operations

section Stale

variable {m : Machine σ} {c : ClassDescriptor}

theorem deriveArray_of_gone (h : m.registry.get? c.id = none) (dimensions : Nat) :
    ∃ failure, m.deriveArray c dimensions = (.error failure, m) := by
  unfold Machine.deriveArray
  dsimp only
  split
  · exact ⟨_, rfl⟩
  · rcases m.registry.deriveArray_cases c dimensions with ⟨e, heq⟩ | ⟨d, hget, -⟩
    · rw [heq]
      exact ⟨_, rfl⟩
    · rw [h] at hget
      contradiction

theorem newArray_of_gone (h : m.registry.get? c.id = none) (length : Nat) :
    ∃ failure, m.newArray c length = (.error failure, m) := by
  obtain ⟨failure, heq⟩ := deriveArray_of_gone h 1
  unfold Machine.newArray
  rw [heq]
  exact ⟨failure, rfl⟩

theorem newArrays_of_gone (h : m.registry.get? c.id = none) (lengths : List Nat) :
    ∃ failure, m.newArrays c lengths = (.error failure, m) := by
  unfold Machine.newArrays
  cases lengths with
  | nil => exact ⟨_, rfl⟩
  | cons length lengths =>
    obtain ⟨failure, heq⟩ := deriveArray_of_gone h (lengths.length + 1)
    have hnested : m.deriveNested c (length :: lengths).length = (.error failure, m) := by
      rw [List.length_cons]
      unfold Machine.deriveNested
      rw [heq]
    rw [hnested]
    exact ⟨failure, rfl⟩

theorem mirrorOf_of_gone (h : m.registry.get? c.id = none) :
    ∃ failure, m.mirrorOf c = (.error failure, m) := by
  let refused : Cause := .classError (.classUnloaded c.name)
  have hattempt : m.attempt (fun registry objects =>
      objects.ensureMirror registry c (registry.components c)) = (.error refused, m) := by
    unfold Machine.attempt
    dsimp only
    rw [ObjectHeap.ensureMirror_of_gone h]
  have hallocate : m.allocateRooted (fun registry objects =>
      objects.ensureMirror registry c (registry.components c)) = (.error (.of refused), m) := by
    unfold Machine.allocateRooted
    rw [hattempt]
    simp [refused]
  unfold Machine.mirrorOf
  dsimp only
  rw [hallocate]
  exact ⟨_, rfl⟩

theorem newInstance_of_gone (h : m.registry.get? c.id = none) :
    ∃ failure, m.newInstance c = (.error failure, m) := by
  unfold Machine.newInstance
  split
  · exact ⟨_, rfl⟩
  · obtain ⟨failure, heq⟩ := mirrorOf_of_gone h
    rw [heq]
    exact ⟨failure, rfl⟩

end Stale

/-- What a machine makes of a class that is gone: it answers with others only, those that it defines
have greater ids, and calls with the old descriptor fail and do nothing. -/
structure Bars (m : Machine σ) (c : ClassDescriptor) : Prop where
  registered : ∀ d ∈ m.registry.registered, d.id ≠ c.id
  lookup : ∀ name d, m.registry.lookup? name = some d → d.id ≠ c.id
  lookupIn : ∀ loader name d, m.registry.lookupIn? loader name = some d → d.id ≠ c.id
  classOf : ∀ root d, m.classOf root = some d → d.id ≠ c.id
  load : ∀ {ω : Type} (ask : Asking σ ω) (outside : ω) (loader : LoaderId) (name : String)
    (held : HeldClass) (next : Machine σ × ω), Quiet ask →
    Machine.load ask loader name (m, outside) = (.ok held, next) →
      held.descriptor.id ≠ c.id ∧ (c.id < held.descriptor.id ∨
        held.descriptor ∈ m.registry.registered ∧ held.descriptor.loader ≠ c.loader)
  derive : ∀ component dimensions held next,
    m.deriveArray component dimensions = (.ok held, next) → held.descriptor.id ≠ c.id
  staleDerive : ∀ dimensions, ∃ failure, m.deriveArray c dimensions = (.error failure, m)
  staleArray : ∀ length, ∃ failure, m.newArray c length = (.error failure, m)
  staleArrays : ∀ lengths, ∃ failure, m.newArrays c lengths = (.error failure, m)
  staleInstance : ∃ failure, m.newInstance c = (.error failure, m)

section Answers

variable {handles : List Root} {m : Machine σ} {c : ClassDescriptor}

theorem descriptor_of_holdClass {d : ClassDescriptor} {held : HeldClass} {next : Machine σ}
    (h : m.holdClass d = (.ok held, next)) : held.descriptor = d := by
  unfold Machine.holdClass at h
  split at h
  · obtain ⟨hheld, -⟩ := Prod.mk.inj h
    rw [← Except.ok.inj hheld]
  · obtain ⟨hheld, -⟩ := Prod.mk.inj h
    contradiction

theorem registry_load_of_load {ask : Asking σ ω} {outside : ω} {loader : LoaderId} {name : String}
    {held : HeldClass} {next : Machine σ × ω}
    (h : Machine.load ask loader name (m, outside) = (.ok held, next)) :
    (Registry.load ask loader name (m.registry, outside)).1 = .ok held.descriptor := by
  unfold Machine.load at h
  dsimp only at h
  split at h
  · obtain ⟨hfailed, -⟩ := Prod.mk.inj h
    contradiction
  · rename_i d registry outside' heq
    obtain ⟨hheld, -⟩ := Prod.mk.inj h
    rw [heq, descriptor_of_holdClass (Prod.ext hheld rfl)]

theorem Upheld.registered_of_holding (h : m.Upheld none handles) {held : HeldClass}
    (hholding : Holding m held) : ∃ d, m.registry.get? held.descriptor.id = some d := by
  obtain ⟨object, hget, loader, component, rfl⟩ := hholding
  exact Option.isSome_iff_exists.mp (h.linked.fits_of_mirror hget).1

/-- A load finds a class of another loader, since the loader of the departed one is gone, or it defines
one, whose id is the next to be issued. -/
theorem Upheld.answer_of_departed (h : m.Upheld none handles) (hc : m.registry.Departed c)
    {ask : Asking σ ω} (hquiet : Quiet ask) {outside : ω} {loader : LoaderId} {name : String}
    {held : HeldClass} {next : Machine σ × ω}
    (hload : Machine.load ask loader name (m, outside) = (.ok held, next)) :
    held.descriptor.id ≠ c.id ∧ (c.id < held.descriptor.id ∨
      held.descriptor ∈ m.registry.registered ∧ held.descriptor.loader ≠ c.loader) := by
  have hanswer := registry_load_of_load hload
  have hasked : (Registry.asked ask loader name (m.registry, outside)).1 = m.registry :=
    Registry.asked_of_quiet hquiet loader name (m.registry, outside)
  have hindexed := h.linked.coherent.toIndexed
  rcases Registry.load_cases ask loader name (m.registry, outside) (hasked.symm ▸ hindexed) with
    ⟨failure, hfailed, -⟩ | ⟨d, hok, -, hget⟩ | ⟨d, size, hok, -, hd⟩
  · rw [hfailed] at hanswer
    contradiction
  · rw [hok, Except.ok.injEq] at hanswer
    subst hanswer
    rw [hasked] at hget
    obtain ⟨l, hl, hid⟩ := hindexed.loader_of_get? hget
    exact ⟨hc.ne_of_get? hget, Or.inr ⟨hindexed.mem_registered.mpr hget,
      fun hsame => hc.loader_gone l hl (hid.trans hsame)⟩⟩
  · rw [hok, Except.ok.injEq] at hanswer
    subst hanswer
    rw [hasked] at hd
    have hlt : c.id < held.descriptor.id := by
      have hnumber := hd.id_eq
      have hissued := hc.issued.2
      rw [Id.lt_def]
      omega
    refine ⟨fun heq => ?_, Or.inl hlt⟩
    rw [heq] at hlt
    exact Nat.lt_irrefl _ hlt

theorem Upheld.bars (h : m.Upheld none handles) (hc : m.registry.Departed c) : m.Bars c where
  registered d hd := hc.ne_of_get? (h.linked.coherent.mem_registered.mp hd)
  lookup name d hd := by
    obtain ⟨id, -, hget⟩ := Option.bind_eq_some_iff.mp hd
    exact hc.ne_of_get? (h.linked.coherent.toIndexed.get?_self hget)
  lookupIn loader name d hd :=
    hc.ne_of_get? (h.linked.coherent.toIndexed.lookupIn?_eq_some.mp hd).1
  classOf root d hd := by
    obtain ⟨id, -, hget⟩ := Option.bind_eq_some_iff.mp hd
    exact hc.ne_of_get? (h.linked.coherent.toIndexed.get?_self hget)
  load _ _ _ _ _ _ hquiet hload := h.answer_of_departed hc hquiet hload
  derive component dimensions held next hderived := by
    have hserves := h.deriveArray component dimensions
    rw [hderived] at hserves
    obtain ⟨hupheld, hholding⟩ := hserves.ok held rfl
    obtain ⟨d, hget⟩ := hupheld.registered_of_holding hholding
    have hlater := hc.outgrows hserves.continues.outgrows
    intro heq
    rw [heq, hlater.gone] at hget
    contradiction
  staleDerive := deriveArray_of_gone hc.gone
  staleArray := newArray_of_gone hc.gone
  staleArrays := newArrays_of_gone hc.gone
  staleInstance := newInstance_of_gone hc.gone

end Answers

end Machine

namespace Session

theorem Step.proceeds {s t : Session σ} (hstep : Step s t) (h : s.Upheld) :
    Machine.Proceeds s.machine t.machine := by
  cases hstep with
  | newLoader name sources => exact h.machine.proceeds_newLoader name sources
  | load ask outside loader name hquiet =>
    exact (h.machine.begins_load hquiet loader name outside).1.proceeds
      (h.machine.collects_load hquiet loader name outside)
  | deriveArray component dimensions =>
    exact (h.machine.begins_derived component dimensions).proceeds
      (h.machine.collects_deriveArray component dimensions)
  | newInstance c hknown => exact (h.machine.collects_newInstance (h.known c hknown)).proceeds
  | newArray component length =>
    exact (h.machine.begins_derived component 1).proceeds
      (h.machine.collects_newArray component length)
  | newArrays component lengths =>
    exact (h.machine.begins_derived component lengths.length).proceeds
      (h.machine.collects_newArrays component lengths)
  | store target index value => exact .of_eq (s.machine.registry_store target index _)
  | fetch target index => exact .of_eq (s.machine.registry_fetch target index)
  | clone root => exact .of_eq rfl
  | drop root => exact .of_eq rfl
  | collect => exact h.machine.collects_collect.proceeds
  | listen publisher => exact .of_eq rfl

/-- A run of a session with the reports of all its collections, in their order: those that a caller
asked for and those that a full heap caused. -/
inductive Recounted (config : Config) (bootSources : List σ) :
    Session σ → List (CycleReport σ) → Prop where
  | start : Recounted config bootSources (new config bootSources) []
  | step {s t : Session σ} {reports more : List (CycleReport σ)} :
      Recounted config bootSources s reports → Step s t →
      Machine.Passes Registry.Gains s.machine more t.machine →
      Recounted config bootSources t (reports ++ more)

theorem Reached.recounted {config : Config} {bootSources : List σ} {s : Session σ}
    (h : Reached config bootSources s) : ∃ reports, Recounted config bootSources s reports := by
  induction h with
  | start => exact ⟨[], .start⟩
  | step hs hstep ih =>
    obtain ⟨reports, hrecounted⟩ := ih
    obtain ⟨more, hpasses⟩ := hstep.proceeds ⟨hs.sound.1.machine.toUpheld, hs.sound.1.known⟩
    exact ⟨reports ++ more, hrecounted.step hstep hpasses⟩

theorem Recounted.departed {config : Config} {bootSources : List σ} {s : Session σ}
    {reports : List (CycleReport σ)} (h : Recounted config bootSources s reports) :
    ∀ report ∈ reports, ∀ c ∈ report.unloaded, s.machine.registry.Departed c := by
  induction h with
  | start => exact fun report hreport => absurd hreport List.not_mem_nil
  | step _ _ hpasses ih =>
    intro report hreport c hc
    rcases List.mem_append.mp hreport with hearlier | hlast
    · exact (ih report hearlier c hc).outgrows hpasses.outgrows
    · exact hpasses.departed report hlast c hc

theorem Recounted.reached {config : Config} {bootSources : List σ} {s : Session σ}
    {reports : List (CycleReport σ)} (h : Recounted config bootSources s reports) :
    Reached config bootSources s := by
  induction h with
  | start => exact .start
  | step _ hstep _ ih => exact ih.step hstep

theorem Step.known_eq {s t : Session σ} (h : Step s t) :
    t.known = t.machine.registry.registered ++ s.known := by
  cases h <;> rfl

theorem Recounted.reports_missing {config : Config} {bootSources : List σ} {s : Session σ}
    {reports : List (CycleReport σ)} (h : Recounted config bootSources s reports)
    {c : ClassDescriptor} (hknown : c ∈ s.known) :
    c ∈ s.machine.registry.registered ∨ ∃ report ∈ reports, c ∈ report.unloaded := by
  induction h with
  | start => exact absurd hknown List.not_mem_nil
  | @step s t reports more hs hstep hpasses ih =>
    rw [hstep.known_eq] at hknown
    rcases List.mem_append.mp hknown with hthere | hearlier
    · exact Or.inl hthere
    · have hs' := hs.reached.sound.1.machine.linked.coherent
      have ht := (hs.step hstep hpasses).reached.sound.1.machine.linked.coherent
      rcases ih hearlier with hregistered | ⟨report, hreport, hc⟩
      · rcases hpasses.retained (hs'.mem_registered.mp hregistered) with hget | ⟨report, hmore, hc⟩
        · exact Or.inl (ht.mem_registered.mpr hget)
        · exact Or.inr ⟨report, List.mem_append_right _ hmore, hc⟩
      · exact Or.inr ⟨report, List.mem_append_left _ hreport, hc⟩

/-- Every run of a session has an account of its collections. What any of them unloaded stays barred
from then on, and so does what was registered after some operation and is not any more. -/
theorem Reached.no_resurrection {config : Config} {bootSources : List σ} {s : Session σ}
    (h : Reached config bootSources s) :
    (∃ reports, Recounted config bootSources s reports) ∧
    (∀ reports, Recounted config bootSources s reports →
      ∀ report ∈ reports, ∀ c ∈ report.unloaded, s.machine.Bars c) ∧
    ∀ c ∈ s.known, c ∉ s.machine.registry.registered → s.machine.Bars c := by
  have hupheld := h.sound.1.machine.toUpheld
  have hbarred : ∀ reports, Recounted config bootSources s reports →
      ∀ report ∈ reports, ∀ c ∈ report.unloaded, s.machine.Bars c :=
    fun reports hrecounted report hreport c hc =>
      hupheld.bars (hrecounted.departed report hreport c hc)
  refine ⟨h.recounted, hbarred, fun c hknown hmissing => ?_⟩
  obtain ⟨reports, hrecounted⟩ := h.recounted
  obtain ⟨report, hreport, hc⟩ := (hrecounted.reports_missing hknown).resolve_left hmissing
  exact hbarred reports hrecounted report hreport c hc

def withLoader (s : Session Unit) : Session Unit :=
  s.after (fun held => [held.holder]) (s.machine.newLoader "app" [()])

/-- The session after the class `A` was loaded through the loader with a number. -/
def withA (number : Nat) (s : Session Unit) : Session Unit :=
  s.after (fun held => [held.mirror])
    ((Machine.load Registry.stocked (Registry.loaderId number) "A" (s.machine, ())).1,
      (Machine.load Registry.stocked (Registry.loaderId number) "A" (s.machine, ())).2.1)

def without (root : Root) (s : Session Unit) : Session Unit :=
  s.moved (s.machine.drop root) (s.handles.erase root)

theorem Reached.withLoader {config : Config} {s : Session Unit} (h : Reached config [] s) :
    Reached config [] (withLoader s) :=
  h.step (.newLoader s "app" [()])

theorem Reached.withA {config : Config} {s : Session Unit} (h : Reached config [] s)
    (number : Nat) : Reached config [] (withA number s) :=
  h.step (.load s Registry.stocked () (Registry.loaderId number) "A" fun _ _ _ => rfl)

theorem Reached.without {config : Config} {s : Session Unit} (h : Reached config [] s)
    {root : Root} (hroot : root ∈ s.handles) : Reached config [] (without root s) :=
  h.step (.drop s root hroot)

def bothLoaded : Session Unit := withA 3 (withA 2 (withLoader (withLoader (new {} []))))

def forsaken : Session Unit := without ⟨1, ⟨1, 0⟩⟩ (without ⟨3, ⟨3, 0⟩⟩ bothLoaded)

theorem forsaken_reached : Reached {} [] forsaken := by
  have hboth : Reached {} [] bothLoaded := ((Reached.start.withLoader.withLoader).withA 2).withA 3
  exact (hboth.without (by decide +kernel)).without (by decide +kernel)

def collected : Session Unit := forsaken.after (fun _ => []) forsaken.machine.collect

theorem collected_reached : Reached {} [] collected := forsaken_reached.step (.collect forsaken)

theorem forsaken_unloads :
    forsaken.machine.collect.1.toOption.map (·.unloaded.map fun c => (c.id.number, c.name)) =
      some [(2, "A")] := by
  decide +kernel

/-- The class of the second loader is unloaded, and then the first loader answers with its class of
the same name, which has the lesser id. -/
theorem lesser_id_after_unloading :
    Reached {} [] collected ∧
    forsaken.machine.collect.1.toOption.map (·.unloaded.map fun c => (c.id.number, c.name)) =
      some [(2, "A")] ∧
    (Machine.load Registry.stocked (Registry.loaderId 2) "A" (collected.machine, ())).1.toOption.map
      (fun held => (held.descriptor.id.number, held.descriptor.name)) = some (1, "A") :=
  ⟨collected_reached, forsaken_unloads, by decide +kernel⟩

theorem forsaken_class_barred :
    ∃ c, c.id.number = 2 ∧ c.name = "A" ∧ collected.machine.Bars c := by
  obtain ⟨report, next, hcollect, -⟩ := forsaken_reached.sound.1.machine.collect
  have hunloads := forsaken_unloads
  rw [hcollect] at hunloads
  have hlist : report.unloaded.map (fun c => (c.id.number, c.name)) = [(2, "A")] :=
    Option.some.inj hunloads
  have hmem : (2, "A") ∈ report.unloaded.map fun c => (c.id.number, c.name) :=
    hlist ▸ List.mem_singleton_self _
  obtain ⟨c, hc, hshape⟩ := List.mem_map.mp hmem
  obtain ⟨hnumber, hname⟩ := Prod.mk.inj hshape
  have hnext : forsaken.machine.collect = (.ok report, collected.machine) := by
    rw [hcollect, show collected.machine = next from congrArg Prod.snd hcollect]
  obtain ⟨reports, hrecounted⟩ := forsaken_reached.recounted
  have hagain := hrecounted.step (.collect forsaken)
    (.collect forsaken_reached.sound.1.machine hnext)
  exact ⟨c, hnumber, hname, (Reached.no_resurrection collected_reached).2.1 _ hagain report
    (List.mem_append_right _ (List.mem_singleton_self _)) c hc⟩

end Session
end Metaspace
