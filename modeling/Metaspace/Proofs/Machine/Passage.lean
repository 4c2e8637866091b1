import Metaspace.Proofs.Machine.Operations
import Metaspace.Proofs.Registry.Derivation

set_option autoImplicit false

namespace Metaspace

variable {σ ω : Type}

namespace Registry

/-- A registry before and after some of its loaders were taken out, with all their classes. -/
structure Sheds (before after : Registry σ) : Prop where
  coherent : after.Coherent
  outgrows : Outgrows before after
  graph : after.graph ⊆ before.graph
  get?_eq_some : ∀ id c, after.get? id = some c ↔
    before.get? id = some c ∧ ∃ l ∈ after.graph, l.id = c.loader

namespace Sheds

theorem refl {registry : Registry σ} (h : registry.Coherent) : Sheds registry registry where
  coherent := h
  outgrows := .refl registry
  graph := List.Subset.refl _
  get?_eq_some _ _ := ⟨fun hget => ⟨hget, h.loader_of_get? hget⟩, fun hget => hget.1⟩

theorem trans {a b c : Registry σ} (hab : Sheds a b) (hbc : Sheds b c) : Sheds a c where
  coherent := hbc.coherent
  outgrows := hab.outgrows.trans hbc.outgrows
  graph := List.Subset.trans hbc.graph hab.graph
  get?_eq_some id d := by
    rw [hbc.get?_eq_some, hab.get?_eq_some]
    constructor
    · rintro ⟨⟨hget, -⟩, hloader⟩
      exact ⟨hget, hloader⟩
    · rintro ⟨hget, l, hl, hid⟩
      exact ⟨⟨hget, l, hbc.graph hl, hid⟩, l, hl, hid⟩

end Sheds

theorem Culled.sheds {before after : Registry σ} {keeps : LoaderId → Prop} {report : CycleReport σ}
    (h : before.Coherent) (hculled : Culled before keeps report after) : Sheds before after where
  coherent := hculled.coherent
  outgrows := hculled.outgrows
  graph l hl := ((hculled.mem_graph l).mp hl).1
  get?_eq_some id c := by
    rw [hculled.get?_eq_some]
    refine and_congr_right fun hget => ?_
    obtain ⟨l, hl, hid⟩ := h.loader_of_get? hget
    constructor
    · intro hkept
      exact ⟨l, (hculled.mem_graph l).mpr ⟨hl, hid ▸ hkept⟩, hid⟩
    · rintro ⟨l', hl', hid'⟩
      exact hid' ▸ ((hculled.mem_graph l').mp hl').2

end Registry

namespace Machine

/-- How one machine became another: the registry changed as a relation allows, or by collections,
which gave these reports. -/
inductive Passes (allowed : Registry σ → Registry σ → Prop) :
    Machine σ → List (CycleReport σ) → Machine σ → Prop where
  | quiet {m n : Machine σ} : allowed m.registry n.registry → Passes allowed m [] n
  | collect {m n : Machine σ} {pending : Option LoaderId} {handles : List Root}
      {report : CycleReport σ} : m.Sound pending handles → m.collect = (.ok report, n) →
      Passes allowed m [report] n
  | trans {a b c : Machine σ} {reports more : List (CycleReport σ)} : Passes allowed a reports b →
      Passes allowed b more c → Passes allowed a (reports ++ more) c

theorem Passes.mono {allowed allowed' : Registry σ → Registry σ → Prop}
    (himp : ∀ r s, allowed r s → allowed' r s) {m n : Machine σ} {reports : List (CycleReport σ)}
    (h : Passes allowed m reports n) : Passes allowed' m reports n := by
  induction h with
  | quiet hquiet => exact .quiet (himp _ _ hquiet)
  | collect hsound hcollect => exact .collect hsound hcollect
  | trans _ _ ih ih' => exact ih.trans ih'

def Collects (m n : Machine σ) : Prop := ∃ reports, Passes (· = ·) m reports n

theorem Collects.of_eq {m n : Machine σ} (h : m.registry = n.registry) : Collects m n :=
  ⟨[], .quiet h⟩

theorem Collects.trans {a b c : Machine σ} (hab : Collects a b) (hbc : Collects b c) :
    Collects a c := by
  obtain ⟨reports, hab⟩ := hab
  obtain ⟨more, hbc⟩ := hbc
  exact ⟨reports ++ more, hab.trans hbc⟩

theorem Passes.sheds {m n : Machine σ} {reports : List (CycleReport σ)}
    (h : Passes (· = ·) m reports n) (hm : m.registry.Coherent) : m.registry.Sheds n.registry := by
  induction h with
  | quiet hquiet =>
    rw [← hquiet]
    exact .refl hm
  | collect hsound hcollect =>
    obtain ⟨-, -, hculled, -⟩ := hsound.collected hcollect
    exact hculled.sheds hm
  | trans _ _ ih ih' => exact (ih hm).trans (ih' (ih hm).coherent)

theorem Collects.sheds {m n : Machine σ} (h : Collects m n) (hm : m.registry.Coherent) :
    m.registry.Sheds n.registry := by
  obtain ⟨reports, hpasses⟩ := h
  exact hpasses.sheds hm

section Attempts

open ObjectHeap

variable {pending settled : Option LoaderId} {handles : List Root} {m : Machine σ}
  {made : Object → Prop}

theorem Upheld.collects_collect (h : m.Upheld pending handles) : Collects m m.collect.2 := by
  by_cases hidle : m.engine.coordinator.phase = .idle
  · obtain ⟨report, next, hcollect, -⟩ := Sound.collect ⟨h, hidle⟩
    rw [hcollect]
    exact ⟨[report], .collect ⟨h, hidle⟩ hcollect⟩
  · refine .of_eq ?_
    unfold Machine.collect trigger Coordinator.enter
    simp only [hidle, if_false]
    rfl

theorem registry_attempt (m : Machine σ) (make : Attempt σ) :
    (m.attempt make).2.registry = m.registry := by
  unfold Machine.attempt
  split <;> rfl

theorem registry_dropAll (m : Machine σ) (roots : List Root) :
    (m.dropAll roots).registry = m.registry := by
  induction roots generalizing m with
  | nil => rfl
  | cons root roots ih => exact ih (m.drop root)

theorem Upheld.collects_allocateRooted (h : m.Upheld pending handles) (make : Attempt σ)
    (hmake : ∀ next : Machine σ, next.Upheld pending handles → Continues handles m next →
      Lands pending settled next.registry next.objects made (make next.registry next.objects)) :
    Collects m (m.allocateRooted make).2 := by
  have hfirst := h.attempt (hmake m h (.refl handles m))
  have hsame := m.registry_attempt make
  unfold Machine.allocateRooted
  generalize m.attempt make = outcome at hfirst hsame ⊢
  obtain ⟨result, failed⟩ := outcome
  have htried : Collects m failed := .of_eq hsame.symm
  cases result with
  | ok root => exact htried
  | error cause =>
    by_cases hretry : cause = .allocation .outOfHeap ∧ failed.config.retryAllocation = true
    · have hcollected := htried.trans (hfirst.error cause rfl).collects_collect
      simp only [hretry]
      generalize failed.collect = outcome at hcollected ⊢
      obtain ⟨collected, next⟩ := outcome
      cases collected with
      | error failure => exact hcollected
      | ok report =>
        have hagain := hcollected.trans (.of_eq (next.registry_attempt make).symm)
        dsimp only
        generalize next.attempt make = outcome at hagain ⊢
        obtain ⟨_ | _, last⟩ := outcome <;> exact hagain
    · simp only [hretry, if_false]
      exact htried

theorem Upheld.collects_mirrorOf (h : m.Upheld none handles) {c : ClassDescriptor}
    (hc : m.registry.Knows c) : Collects m (m.mirrorOf c).2 := by
  have hmirror := h.collects_allocateRooted
    (fun registry objects => objects.ensureMirror registry c (registry.components c))
    fun next hnext hcontinues => mirror_lands hnext.toIntact (hcontinues.outgrows.knows hc).2
  unfold Machine.mirrorOf
  dsimp only
  generalize m.allocateRooted _ = outcome at hmirror ⊢
  obtain ⟨_ | root, next⟩ := outcome
  · exact hmirror
  · dsimp only
    split
    · exact hmirror
    · exact hmirror.trans (.of_eq rfl)

theorem Upheld.collects_holdClass (h : m.Upheld none handles) {c : ClassDescriptor}
    (hc : m.registry.Knows c) : Collects m (m.holdClass c).2 := by
  have hmirror := h.collects_mirrorOf hc
  unfold Machine.holdClass
  generalize m.mirrorOf c = outcome at hmirror ⊢
  obtain ⟨_ | root, next⟩ := outcome <;> exact hmirror

theorem Upheld.collects_allocateWith {needed : List Root} (h : m.Upheld none (needed ++ handles))
    (context : Context) (make : Attempt σ)
    (hmake : ∀ next : Machine σ, next.Upheld none (needed ++ handles) →
      Continues (needed ++ handles) m next →
        Lands none none next.registry next.objects made (make next.registry next.objects)) :
    Collects m (m.allocateWith needed context make).2 := by
  have hallocated := h.collects_allocateRooted make hmake
  unfold Machine.allocateWith
  generalize m.allocateRooted make = outcome at hallocated ⊢
  obtain ⟨_ | root, next⟩ := outcome <;>
    exact hallocated.trans (.of_eq (registry_dropAll next needed).symm)

end Attempts

section Operations

open ObjectHeap

variable {handles : List Root} {m : Machine σ}

theorem Upheld.collects_load (h : m.Upheld none handles) {ask : Asking σ ω} (hask : Quiet ask)
    (loader : LoaderId) (name : String) (outside : ω) :
    Collects (m.withRegistry (Registry.load ask loader name (m.registry, outside)).2.1)
      (Machine.load ask loader name (m, outside)).2.1 := by
  obtain ⟨hbegins, hloaded⟩ := h.begins_load hask loader name outside
  unfold Machine.load
  dsimp only
  generalize Registry.load ask loader name (m.registry, outside) = outcome at *
  obtain ⟨result, registry, outside'⟩ := outcome
  cases result with
  | error failure => exact .of_eq rfl
  | ok c => exact hbegins.upheld.collects_holdClass (Registry.knows_of_get? (hloaded c rfl))

/-- What the registry is once an array class was derived, before its mirror is made. -/
def derived (m : Machine σ) (component : ClassDescriptor) (dimensions : Nat) : Registry σ :=
  if m.config.maxArrayDimensions - component.dimensions < dimensions then m.registry
  else (m.registry.deriveArray component dimensions).2

theorem Upheld.begins_derived (h : m.Upheld none handles) (component : ClassDescriptor)
    (dimensions : Nat) : Begins handles m (m.derived component dimensions) := by
  unfold derived
  split
  · exact .refl h
  · exact (h.begins_deriveArray component dimensions).1

theorem Upheld.collects_deriveArray (h : m.Upheld none handles) (component : ClassDescriptor)
    (dimensions : Nat) :
    Collects (m.withRegistry (m.derived component dimensions))
      (m.deriveArray component dimensions).2 := by
  obtain ⟨hbegins, hderived⟩ := h.begins_deriveArray component dimensions
  unfold Machine.deriveArray derived
  dsimp only
  split
  · exact .of_eq rfl
  · generalize m.registry.deriveArray component dimensions = outcome at *
    obtain ⟨result, registry⟩ := outcome
    cases result with
    | error e => exact .of_eq rfl
    | ok c => exact hbegins.upheld.collects_holdClass (Registry.knows_of_get? (hderived c rfl))

theorem Upheld.collects_newInstance (h : m.Upheld none handles) {c : ClassDescriptor}
    (hc : m.registry.Knows c) : Collects m (m.newInstance c).2 := by
  unfold Machine.newInstance
  split
  · exact .of_eq rfl
  · have hmirror := h.mirrorOf hc
    have hcollects := h.collects_mirrorOf hc
    generalize m.mirrorOf c = outcome at hmirror hcollects ⊢
    obtain ⟨result, next⟩ := outcome
    cases result with
    | error failure => exact hcollects
    | ok mirror =>
      obtain ⟨hupheld, hnames⟩ := hmirror.ok mirror rfl
      exact hcollects.trans (hupheld.collects_allocateWith _ _ fun later hlater hsince =>
        hlater.instance_lands List.mem_cons_self (hsince.names_mirror List.mem_cons_self hnames))

theorem Upheld.collects_newArray (h : m.Upheld none handles) (component : ClassDescriptor)
    (length : Nat) :
    Collects (m.withRegistry (m.derived component 1)) (m.newArray component length).2 := by
  have hderived := h.deriveArray component 1
  have hcollects := h.collects_deriveArray component 1
  unfold Machine.newArray
  generalize m.deriveArray component 1 = outcome at hderived hcollects ⊢
  obtain ⟨result, next⟩ := outcome
  cases result with
  | error failure => exact hcollects
  | ok held =>
    obtain ⟨hupheld, hholding⟩ := hderived.ok held rfl
    exact hcollects.trans (hupheld.collects_allocateWith _ _ fun later hlater hsince =>
      hlater.array_lands (hsince.names_mirror List.mem_cons_self hholding) length)

/-- The array classes of fewer dimensions were derived on the way, and a collection took out either
all of them, with their component, or none. -/
theorem Upheld.derived_again (h : m.Upheld none handles) {component : ClassDescriptor} {n : Nat}
    {held : HeldClass} {next : Machine σ}
    (hderived : m.deriveArray component n = (.ok held, next)) {k : Nat} (hk : k ≤ n) :
    next.derived component k = next.registry := by
  have hbegins := h.begins_derived component n
  have hsheds := (h.collects_deriveArray component n).sheds hbegins.upheld.linked.coherent
  rw [hderived] at hsheds
  unfold Machine.deriveArray at hderived
  unfold derived at hbegins hsheds ⊢
  dsimp only at hderived
  split at hderived
  · obtain ⟨hfailed, -⟩ := Prod.mk.inj hderived
    contradiction
  · rename_i hrange
    rw [if_neg hrange] at hbegins hsheds
    have hok : ∃ d, (m.registry.deriveArray component n).1 = .ok d := by
      split at hderived
      · obtain ⟨hfailed, -⟩ := Prod.mk.inj hderived
        contradiction
      · rename_i d registry heq
        exact ⟨d, congrArg Prod.fst heq⟩
    obtain ⟨d, hok⟩ := hok
    split
    · rfl
    · refine h.linked.coherent.toIndexed.deriveArray_again hok hsheds.coherent.toIndexed ?_ hk
      intro c hget
      rw [or_iff_not_imp_left]
      intro hthere e he hloader
      obtain ⟨d, hd⟩ := Option.ne_none_iff_exists'.mp hthere
      obtain ⟨hd', hkept⟩ := (hsheds.get?_eq_some _ _).mp hd
      have hsame : d = c := Option.some.inj (hd'.symm.trans (hbegins.retains _ _ hget))
      exact (hsheds.get?_eq_some _ _).mpr ⟨he, hloader ▸ hsame ▸ hkept⟩

theorem Upheld.collects_deriveNested (h : m.Upheld none handles) (component : ClassDescriptor)
    (n : Nat) :
    Collects (m.withRegistry (m.derived component n)) (m.deriveNested component n).2 := by
  induction n generalizing m handles with
  | zero =>
    refine .of_eq ?_
    show m.derived component 0 = m.registry
    unfold derived Registry.deriveArray
    simp
  | succ n ih =>
    have hderived := h.deriveArray component (n + 1)
    have hcollects := h.collects_deriveArray component (n + 1)
    have hagain : ∀ held next, m.deriveArray component (n + 1) = (.ok held, next) →
        next.derived component n = next.registry := fun _ _ heq => h.derived_again heq n.le_succ
    unfold Machine.deriveNested
    generalize m.deriveArray component (n + 1) = outcome at hderived hcollects hagain ⊢
    obtain ⟨result, next⟩ := outcome
    cases result with
    | error failure => exact hcollects
    | ok held =>
      obtain ⟨hupheld, -⟩ := hderived.ok held rfl
      have hinner := ih hupheld
      rw [hagain held next rfl] at hinner
      have hboth : Collects _ (next.deriveNested component n).2 := hcollects.trans hinner
      dsimp only
      generalize next.deriveNested component n = outcome at hboth ⊢
      obtain ⟨_ | inner, last⟩ := outcome
      · exact hboth.trans (.of_eq rfl)
      · exact hboth

theorem Upheld.collects_newArrays (h : m.Upheld none handles) (component : ClassDescriptor)
    (lengths : List Nat) :
    Collects (m.withRegistry (m.derived component lengths.length))
      (m.newArrays component lengths).2 := by
  have hderived := h.deriveNested component lengths.length
  have hcollects := h.collects_deriveNested component lengths.length
  unfold Machine.newArrays
  generalize m.deriveNested component lengths.length = outcome at hderived hcollects ⊢
  obtain ⟨result, next⟩ := outcome
  cases result with
  | error failure => exact hcollects
  | ok classes =>
    obtain ⟨hupheld, hlength, hclasses⟩ := hderived.ok classes rfl
    cases classes with
    | nil => exact hcollects
    | cons c classes =>
      cases lengths with
      | nil => contradiction
      | cons length lengths =>
        exact hcollects.trans (hupheld.collects_allocateWith _ _ fun later hlater hsince =>
          allocNested_lands _ _ hlater.toIntact
            (ready_of_holding hlater (length :: lengths) (hsince.holding hclasses)))

end Operations

end Machine
end Metaspace
