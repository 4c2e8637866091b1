import Metaspace.Proofs.Registry.Stocked

/-!
Canonical array classes. An array class has the type and the loader that its component gives it, so
no component has two of them. Deriving sees to that. A caller that repeats the kind of an array
class is not asked for either, and what it defines may be an array class in kind only.
-/

set_option autoImplicit false

namespace Metaspace.Registry

variable {σ : Type} {registry : Registry σ}

/-- Array classes are what their components make them, and there is one for each component, number
of dimensions and loader. -/
structure Canonical (registry : Registry σ) : Prop where
  kinds : ∀ c ∈ registry.registered, c.isArray = c.type.isArray
  components : ∀ c ∈ registry.registered, ∀ a, c.kind = .array a →
    ∃ component ∈ registry.registered, component.id = a.component.id ∧
      c.type = .array component.type ∧ c.loader = component.loader
  unique : ∀ c ∈ registry.registered, ∀ d ∈ registry.registered, c.isArray = true →
    c.component? = d.component? → c.dimensions = d.dimensions → c.loader = d.loader → c = d

/-- Whether a type and a loader go with a kind. Those of an array class are settled by the component
that is registered. -/
def Befits (registry : Registry σ) (type : FieldType) (loader : LoaderId) : ClassKind → Prop
  | .ordinary => type.isArray = false
  | .array a => ∀ component, registry.get? a.component.id = some component →
      type = .array component.type ∧ loader = component.loader

theorem Befits.outgrows {before after : Registry σ} (hgrows : Outgrows before after)
    {type : FieldType} {loader : LoaderId} {kind : ClassKind} (hkind : before.Genuine kind)
    (h : before.Befits type loader kind) : after.Befits type loader kind := by
  cases kind with
  | ordinary => exact h
  | array a => exact fun component hget => h component (hgrows.get?_before hkind.1 hget)

theorem isArray_of_ordinary {c : ClassDescriptor} (h : c.kind = .ordinary) : c.isArray = false := by
  rw [ClassDescriptor.isArray, ClassDescriptor.array?, h]
  rfl

theorem isArray_of_array {c : ClassDescriptor} {a : ArrayClass} (h : c.kind = .array a) :
    c.isArray = true := by
  rw [ClassDescriptor.isArray, ClassDescriptor.array?, h]
  rfl

theorem eq_array_of_isArray {c : ClassDescriptor} (h : c.isArray = true) :
    ∃ a, c.kind = .array a := by
  cases hkind : c.kind with
  | ordinary =>
    rw [isArray_of_ordinary hkind] at h
    contradiction
  | array a => exact ⟨a, rfl⟩

/-- Type and loader settle under which name a class is found, and a loader has one class under each
name. -/
theorem Coherent.eq_of_type (h : registry.Coherent) {c d : ClassDescriptor}
    (hc : c ∈ registry.registered) (hd : d ∈ registry.registered) (htype : c.type = d.type)
    (hloader : c.loader = d.loader) : c = d := by
  have hname : c.name = d.name := by rw [ClassDescriptor.name, ClassDescriptor.name, htype]
  have hfound := h.lookupIn?_eq_some.mpr ⟨h.mem_registered.mp hc, hloader, hname⟩
  have hfound' := h.lookupIn?_eq_some.mpr ⟨h.mem_registered.mp hd, rfl, rfl⟩
  rw [hfound', Option.some.injEq] at hfound
  exact hfound.symm

theorem Coherent.component_of_befits (h : registry.Coherent) {c : ClassDescriptor}
    (hc : c ∈ registry.registered) (hfits : registry.Befits c.type c.loader c.kind) {a : ArrayClass}
    (hkind : c.kind = .array a) :
    ∃ component, registry.get? a.component.id = some component ∧
      c.type = .array component.type ∧ c.loader = component.loader := by
  obtain ⟨component, hget, -⟩ := h.components c.id c a (h.mem_registered.mp hc)
    (by rw [ClassDescriptor.array?, hkind])
  rw [hkind] at hfits
  exact ⟨component, hget, hfits component hget⟩

theorem Canonical.befits (hcanonical : registry.Canonical) (h : registry.Coherent)
    {c : ClassDescriptor} (hc : c ∈ registry.registered) :
    registry.Befits c.type c.loader c.kind := by
  cases hkind : c.kind with
  | ordinary =>
    have hsame := hcanonical.kinds c hc
    rw [isArray_of_ordinary hkind] at hsame
    exact hsame.symm
  | array a =>
    intro component hget
    obtain ⟨component', hmem, hid, hshape⟩ := hcanonical.components c hc a hkind
    have hget' := h.mem_registered.mp hmem
    rw [hid, hget, Option.some.injEq] at hget'
    subst hget'
    exact hshape

theorem Coherent.canonical_of_befits (h : registry.Coherent)
    (hbefits : ∀ c ∈ registry.registered, registry.Befits c.type c.loader c.kind) :
    registry.Canonical where
  kinds c hc := by
    cases hkind : c.kind with
    | ordinary =>
      have hfits := hbefits c hc
      rw [hkind] at hfits
      rw [isArray_of_ordinary hkind]
      exact hfits.symm
    | array a =>
      obtain ⟨component, -, htype, -⟩ := h.component_of_befits hc (hbefits c hc) hkind
      rw [isArray_of_array hkind, htype]
      rfl
  components c hc a hkind := by
    obtain ⟨component, hget, hshape⟩ := h.component_of_befits hc (hbefits c hc) hkind
    exact ⟨component, h.mem_registered_of_get? hget, h.id_of_get? hget, hshape⟩
  unique c hc d hd harray hsame _ _ := by
    have harray' : d.isArray = true := by
      rw [isArray_eq_isSome_component?] at harray ⊢
      rwa [← hsame]
    obtain ⟨a, hkind⟩ := eq_array_of_isArray harray
    obtain ⟨b, hkind'⟩ := eq_array_of_isArray harray'
    have hid : a.component.id = b.component.id := by
      simpa [ClassDescriptor.component?, ClassDescriptor.array?, hkind, hkind'] using hsame
    obtain ⟨component, hget, htype, hloader⟩ := h.component_of_befits hc (hbefits c hc) hkind
    obtain ⟨component', hget', htype', hloader'⟩ := h.component_of_befits hd (hbefits d hd) hkind'
    rw [← hid, hget, Option.some.injEq] at hget'
    subst hget'
    exact h.eq_of_type hc hd (htype.trans htype'.symm) (hloader.trans hloader'.symm)

theorem Coherent.canonical_iff (h : registry.Coherent) :
    registry.Canonical ↔ ∀ c ∈ registry.registered, registry.Befits c.type c.loader c.kind :=
  ⟨fun hcanonical _ hc => hcanonical.befits h hc, h.canonical_of_befits⟩

theorem Canonical.outgrows {before after : Registry σ} (hbefore : before.Coherent)
    (hcanonical : before.Canonical) (hafter : after.Coherent) (hgrows : Outgrows before after)
    (hnew : ∀ c ∈ after.registered, c ∈ before.registered ∨ after.Befits c.type c.loader c.kind) :
    after.Canonical := by
  rw [hbefore.canonical_iff] at hcanonical
  rw [hafter.canonical_iff]
  intro c hc
  rcases hnew c hc with hold | hfits
  · have hget := hbefore.mem_registered.mp hold
    exact (hcanonical c hold).outgrows hgrows (hbefore.genuine hget)
  · exact hfits

theorem Entered.canonical_iff {d : ClassDefinition} {c : ClassDescriptor} (h : registry.Coherent)
    (hcanonical : registry.Canonical) (hc : registry.Entered d c)
    (hkind : registry.Genuine d.kind) :
    (registry.adding c).Canonical ↔ registry.Befits d.type d.loader d.kind := by
  have hafter := hc.coherent h hkind
  have hgrows := hc.toFresh.outgrows
  have hmem : ∀ c', c' ∈ (registry.adding c).registered ↔ c' ∈ registry.registered ∨ c' = c := by
    simp
  have hshape : c.type = d.type ∧ c.loader = d.loader ∧ c.kind = d.kind := by
    rw [hc.eq_ofDefinition]
    exact ⟨rfl, rfl, rfl⟩
  obtain ⟨htype, hloader, hsame⟩ := hshape
  constructor
  · intro hnext
    have hfits := hafter.canonical_iff.mp hnext c ((hmem c).mpr (Or.inr rfl))
    rw [htype, hloader, hsame] at hfits
    cases hkind' : d.kind with
    | ordinary =>
      rw [hkind'] at hfits
      exact hfits
    | array a =>
      rw [hkind'] at hfits
      exact fun component hget => hfits component (hc.toFresh.get?_adding_of_get? hget)
  · intro hfits
    refine hcanonical.outgrows h hafter hgrows fun c' hc' => ?_
    rcases (hmem c').mp hc' with hold | rfl
    · exact Or.inl hold
    · right
      rw [htype, hloader, hsame]
      exact hfits.outgrows hgrows hkind

/-- A definition of the kind of a class that is or was registered, with the type and the loader that
go with it. -/
def Fitting (registry : Registry σ) (d : ClassDefinition) : Prop :=
  registry.Genuine d.kind ∧ registry.Befits d.type d.loader d.kind

theorem fitting_arrayOver {component : ClassDescriptor}
    (hget : registry.get? component.id = some component) (hdimensions) :
    registry.Fitting (.arrayOver component hdimensions) := by
  refine ⟨genuine_arrayOver hget hdimensions, fun other hother => ?_⟩
  have heq : some component = some other := hget.symm.trans hother
  obtain rfl := Option.some.inj heq
  exact ⟨rfl, rfl⟩

theorem Entered.fitting (h : registry.Coherent) (hcanonical : registry.Canonical)
    {d : ClassDefinition} {c : ClassDescriptor} (hc : registry.Entered d c)
    (hfits : registry.Fitting d) :
    (registry.adding c).Coherent ∧ (registry.adding c).Canonical :=
  ⟨hc.coherent h hfits.1, (hc.canonical_iff h hcanonical hfits.1).mpr hfits.2⟩

theorem Canonical.fewer {after : Registry σ} (hcanonical : registry.Canonical)
    (h : registry.Coherent) (hafter : after.Coherent) (hgrows : Outgrows registry after)
    (hsub : after.registered ⊆ registry.registered) : after.Canonical :=
  hcanonical.outgrows h hafter hgrows fun _ hc => Or.inl (hsub hc)

theorem canonical_invariant :
    Invariant (Fitting (σ := σ)) fun r => r.Coherent ∧ r.Canonical where
  indexed h := h.1.toIndexed
  newLoader h hnew := by
    have ht := h.1.newLoader? hnew
    exact ⟨ht, h.2.fewer h.1 ht (outgrows_newLoader? hnew) fun _ hc =>
      newLoader?_registered hnew ▸ hc⟩
  insert h hfits hc := hc.fitting h.1 h.2 hfits
  derive h hget hc := hc.fitting h.1 h.2 (fitting_arrayOver hget _)
  load h _ hc := hc.fitting h.1 h.2 ⟨trivial, rfl⟩
  removeBatch ids h := by
    have hevicts := h.1.toIndexed.removeBatch ids
    have ht := hevicts.coherent h.1
    exact ⟨ht, h.2.fewer h.1 ht hevicts.outgrows (hevicts.registered_subset h.1.toIndexed)⟩
  unloadLoaders ids h := by
    have hdrops := h.1.toIndexed.unloadLoaders ids
    have ht := hdrops.coherent h.1
    exact ⟨ht, h.2.fewer h.1 ht hdrops.outgrows hdrops.registered_subset⟩

structure Plain (registry : Registry σ) : Prop extends Indexed registry where
  type_eq : ∀ c ∈ registry.registered, c.kind = .ordinary → c.type.isArray = false

theorem Plain.entered (h : registry.Plain) {d : ClassDefinition} {c : ClassDescriptor}
    (hc : registry.Entered d c) : (registry.adding c).Plain where
  toIndexed := h.adding hc.toFresh
  type_eq c' hc' hkind := by
    rw [adding_registered, List.mem_append, List.mem_singleton] at hc'
    rcases hc' with hold | rfl
    · exact h.type_eq c' hold hkind
    · have hadmits := hc.admitted
      rw [hc.kind_eq] at hkind
      rw [hc.eq_ofDefinition]
      simp only [admits, hkind] at hadmits
      split at hadmits
      · contradiction
      · rename_i harray
        exact Bool.eq_false_iff.mpr harray

theorem Plain.fewer {after : Registry σ} (h : registry.Plain) (hafter : after.Indexed)
    (hsub : after.registered ⊆ registry.registered) : after.Plain :=
  ⟨hafter, fun c hc => h.type_eq c (hsub hc)⟩

theorem plain_invariant (rule : Registry σ → ClassDefinition → Prop) : Invariant rule Plain where
  indexed h := h.toIndexed
  newLoader h hnew :=
    h.fewer (h.toIndexed.newLoader? hnew) fun _ hc => newLoader?_registered hnew ▸ hc
  insert h _ hc := h.entered hc
  derive h _ hc := h.entered hc
  load h _ hc := h.entered hc
  removeBatch ids h :=
    have hevicts := h.toIndexed.removeBatch ids
    h.fewer hevicts.indexed (hevicts.registered_subset h.toIndexed)
  unloadLoaders ids h :=
    have hdrops := h.toIndexed.unloadLoaders ids
    h.fewer hdrops.indexed hdrops.registered_subset

theorem new_plain (bootSources : List σ) : (new bootSources).Plain :=
  ⟨(new_coherent bootSources).toIndexed, by simp [registered_new]⟩

/-- In every registry, array classes are canonical exactly if the type and the loader of each are
those that its component gives it. Deriving, loading and removing never disturb that. A caller does
exactly if it defines an array class with another type or another loader. -/
theorem Evolves.canonical_exactly {bootSources : List σ} (h : Evolves (new bootSources) registry) :
    (registry.Canonical ↔ ∀ c ∈ registry.registered, ∀ a component, c.kind = .array a →
      registry.get? a.component.id = some component →
        c.type = .array component.type ∧ c.loader = component.loader) ∧
    (registry.Canonical → ∀ later, Develops Fitting registry later → later.Canonical) ∧
    (registry.Canonical → ∀ d definition next, registry.Genuine d.kind →
      registry.insert d = .ok (definition, next) →
        (next.Canonical ↔
          (definition.isNew = true → registry.Befits d.type d.loader d.kind))) := by
  have hcoherent := (h.keeps (new_coherent bootSources)).1
  refine ⟨hcoherent.canonical_iff.trans ⟨?_, ?_⟩, fun hcanonical later hlater => ?_, ?_⟩
  · intro hbefits c hc a component hkind
    have hfits := hbefits c hc
    rw [hkind] at hfits
    exact hfits component
  · intro hover c hc
    cases hkind : c.kind with
    | ordinary =>
      exact ((plain_invariant _).develops h (new_plain bootSources)).type_eq c hc hkind
    | array a => exact fun component hget => hover c hc a component hkind hget
  · exact (canonical_invariant.develops hlater ⟨hcoherent, hcanonical⟩).2
  · intro hcanonical d definition next hkind hinsert
    rcases insert_cases hcoherent.toIndexed d with ⟨e, heq⟩ | ⟨c, heq, -⟩ | ⟨c, heq, hc⟩
    · rw [heq] at hinsert
      contradiction
    · rw [heq] at hinsert
      obtain ⟨rfl, rfl⟩ := Prod.mk.inj (Except.ok.inj hinsert)
      exact ⟨fun _ hnew => by contradiction, fun _ => hcanonical⟩
    · rw [heq] at hinsert
      obtain ⟨rfl, rfl⟩ := Prod.mk.inj (Except.ok.inj hinsert)
      rw [hc.canonical_iff hcoherent hcanonical hkind]
      exact ⟨fun hfits _ => hfits, fun hfits => hfits rfl⟩

/-- The kind of the array class over `A` with the type of an ordinary class `B`. -/
def disguise : ClassDefinition :=
  ⟨.object "B", bootLoader, kindOver (classId 4) "A", 0⟩

theorem evolves_reloaded : Evolves (new [()]) reloaded := develops_reloaded _

theorem repeats_disguise : ∃ c ∈ reloaded.registered, c.kind = disguise.kind := by decide +kernel

theorem genuine_disguise : reloaded.Genuine disguise.kind := by
  have hcoherent := (evolves_reloaded.keeps (new_coherent [()])).1
  obtain ⟨c, hc, hsame⟩ := repeats_disguise
  rw [← hsame]
  exact hcoherent.genuine (hcoherent.mem_registered.mp hc)

theorem insert_disguise :
    ∃ c, reloaded.insert disguise = .ok (.defined c, reloaded.adding c) ∧
      reloaded.Entered disguise c := by
  have hnew : (reloaded.insert disguise).toOption.map (·.1.isNew) = some true := by decide +kernel
  have hindexed := (evolves_reloaded.keeps (new_coherent [()])).1.toIndexed
  rcases insert_cases hindexed disguise with ⟨e, heq⟩ | ⟨c, heq, -⟩ | hdefined
  · rw [heq] at hnew
    contradiction
  · rw [heq] at hnew
    simp [Except.toOption, Definition.isNew] at hnew
  · exact hdefined

/-- The kind is that of a registered class, yet what is defined is an array class without an array
type. -/
theorem disguise_breaks_canonical :
    (∃ c ∈ reloaded.registered, c.kind = disguise.kind) ∧
    ∃ c next, reloaded.insert disguise = .ok (.defined c, next) ∧ Evolves (new [()]) next ∧
      c ∈ next.registered ∧ c.isArray = true ∧ c.type.isArray = false ∧ ¬ next.Canonical := by
  obtain ⟨c, hinsert, hc⟩ := insert_disguise
  have hmem : c ∈ (reloaded.adding c).registered := by simp
  have harray : c.isArray = true ∧ c.type.isArray = false := by
    rw [hc.eq_ofDefinition]
    exact ⟨rfl, rfl⟩
  refine ⟨repeats_disguise, c, _, hinsert, evolves_reloaded.insert genuine_disguise hinsert, hmem,
    harray.1, harray.2, fun hcanonical => ?_⟩
  have hsame := hcanonical.kinds c hmem
  rw [harray.1, harray.2] at hsame
  contradiction

theorem reloaded_canonical_until_disguise :
    reloaded.Canonical ∧ ∃ c next, reloaded.insert disguise = .ok (.defined c, next) ∧
      ¬ next.Canonical := by
  have hnew : (new [()]).Canonical := by
    refine (Evolves.canonical_exactly (.refl (new [()]))).1.mpr fun c hc => ?_
    simp [registered_new] at hc
  have hcanonical := (Evolves.canonical_exactly (.refl (new [()]))).2.1 hnew _ (develops_reloaded _)
  obtain ⟨c, hinsert, -⟩ := insert_disguise
  refine ⟨hcanonical, c, _, hinsert, fun hnext => ?_⟩
  have hfits := ((Evolves.canonical_exactly evolves_reloaded).2.2 hcanonical disguise _ _
    genuine_disguise hinsert).mp hnext rfl
  have htype : FieldType.object "B" = .array (classA bootLoader 4).type :=
    (hfits (classA bootLoader 4) (by decide +kernel)).1
  contradiction

end Metaspace.Registry
