import Metaspace.Proofs.Registry.Stocked
import Metaspace.Proofs.Unload.Conduct
import Metaspace.Proofs.Unload.Eviction

/-!
Array classes and their components. Of the kind it is given, an insertion looks up the component and
nothing else, so that a caller can pair any type with the kind of a class it once got hold of, or
with a kind from another registry.
-/

set_option autoImplicit false

namespace Metaspace

variable {σ : Type} {strange : ClassKind → Prop}

/-- A registry and those of its classes that callers got hold of, whether or not these are still
registered. -/
structure Moment (σ : Type) where
  registry : Registry σ
  held : List ClassDescriptor

/-- What callers define: ordinary classes, classes of the kind of one they hold, and classes of the
strange kinds, which they have from elsewhere. -/
def Repeats (strange : ClassKind → Prop) (held : List ClassDescriptor) :
    Registry σ → ClassDefinition → Prop :=
  fun _ d => d.kind = .ordinary ∨ (∃ c ∈ held, d.kind = c.kind) ∨ strange d.kind

open Metaspace.Cycle in
/-- What becomes of a registry by its operations and by cycles, in any order. Sources and oracles
may do all of this themselves while they are asked. -/
inductive Becomes (strange : ClassKind → Prop) : Moment σ → Moment σ → Prop where
  | refl (m : Moment σ) : Becomes strange m m
  | hold {m n : Moment σ} {c : ClassDescriptor} : Becomes strange m n →
      n.registry.get? c.id = some c → Becomes strange m ⟨n.registry, c :: n.held⟩
  | run {m n : Moment σ} {next : Registry σ} : Becomes strange m n →
      Registry.Develops (Repeats strange n.held) n.registry next →
      Becomes strange m ⟨next, n.held⟩
  | load {m n : Moment σ} {ω : Type} (ask : Asking σ ω) (outside : ω) (loader : LoaderId)
      (name : String) {held : List ClassDescriptor} : Becomes strange m n →
      Becomes strange n ⟨(Registry.asked ask loader name (n.registry, outside)).1, held⟩ →
      Becomes strange m ⟨(Registry.load ask loader name (n.registry, outside)).2.1, held⟩
  | aborted {m : Moment σ} {ω : Type} (oracle : Oracle σ ω) {engine : Engine σ} {outside : ω}
      {before held : List ClassDescriptor} {i : Interruption} {last : Engine σ × ω} :
      Becomes strange m ⟨engine.registry, before⟩ → engine.coordinator.phase = .idle →
      deliberate oracle engine.registry.snapshot (engine.entered, outside) = (.error i, last) →
      Becomes strange ⟨engine.registry, before⟩ ⟨last.1.registry, held⟩ →
      Becomes strange m ⟨(trigger oracle (engine, outside)).2.1.registry, held⟩
  | cycle {m : Moment σ} {ω : Type} (oracle : Oracle σ ω) {engine evicted : Engine σ} {outside : ω}
      {before held after : List ClassDescriptor} {dead : List ClassId × List LoaderId}
      {last : Engine σ × ω} {report : CycleReport σ} :
      Becomes strange m ⟨engine.registry, before⟩ → engine.coordinator.phase = .idle →
      deliberate oracle engine.registry.snapshot (engine.entered, outside) = (.ok dead, last) →
      Becomes strange ⟨engine.registry, before⟩ ⟨last.1.registry, held⟩ →
      evict (setPhase .evicting last).1 (engine.coordinator.started + 1)
        engine.registry.snapshot.size dead.1 dead.2 = (report, evicted) →
      Becomes strange ⟨evicted.registry, held⟩
        ⟨(oracle.endCycle report (evicted, last.2)).2.1.registry, after⟩ →
      Becomes strange m ⟨(trigger oracle (engine, outside)).2.1.registry, after⟩

section

open Metaspace.Cycle

variable {ω : Type} {oracle : Oracle σ ω} {engine : Engine σ} {outside : ω} {last : Engine σ × ω}

theorem trigger_registry_of_error {i : Interruption} (hidle : engine.coordinator.phase = .idle)
    (h : deliberate oracle engine.registry.snapshot (engine.entered, outside) = (.error i, last)) :
    (trigger oracle (engine, outside)).2.1.registry = last.1.registry := by
  rw [trigger_of_interrupted hidle h]
  rfl

theorem trigger_registry_of_ok {dead : List ClassId × List LoaderId} {report : CycleReport σ}
    {evicted : Engine σ} (hidle : engine.coordinator.phase = .idle)
    (h : deliberate oracle engine.registry.snapshot (engine.entered, outside) = (.ok dead, last))
    (hevict : evict (setPhase .evicting last).1 (engine.coordinator.started + 1)
      engine.registry.snapshot.size dead.1 dead.2 = (report, evicted)) :
    (trigger oracle (engine, outside)).2.1.registry =
      (oracle.endCycle report (evicted, last.2)).2.1.registry := by
  have hclosed : (close oracle (engine.coordinator.started + 1) engine.registry.snapshot.size dead
      last).2 = (oracle.endCycle report (evicted, last.2)).2 := by
    simp only [close, hevict]
    rcases oracle.endCycle report (evicted, last.2) with ⟨_ | _, final⟩ <;> rfl
  rw [trigger_of_deliberate hidle h rfl]
  exact congrArg (·.1.registry) hclosed

end

namespace Registry

variable {registry : Registry σ}

/-- What array classes say of their components is true, unless their kind is a strange one. -/
structure Vouched (strange : ClassKind → Prop) (registry : Registry σ) : Prop
    extends Layered registry where
  kinds : ∀ c ∈ registry.registered, strange c.kind ∨ registry.Genuine c.kind

theorem Vouched.fewer {after : Registry σ} (h : registry.Vouched strange) (hafter : after.Layered)
    (hgrows : Outgrows registry after) (hsub : after.registered ⊆ registry.registered) :
    after.Vouched strange :=
  ⟨hafter, fun c hc => (h.kinds c (hsub hc)).imp_right hgrows.genuine⟩

theorem Vouched.entered (h : registry.Vouched strange) {d : ClassDefinition} {c : ClassDescriptor}
    (hc : registry.Entered d c) (hkind : strange d.kind ∨ registry.Genuine d.kind) :
    (registry.adding c).Vouched strange where
  toLayered := hc.layered h.toLayered
  kinds c' hc' := by
    rw [adding_registered, List.mem_append, List.mem_singleton] at hc'
    rcases hc' with hold | rfl
    · exact (h.kinds c' hold).imp_right hc.toFresh.outgrows.genuine
    · rw [hc.kind_eq]
      exact hkind.imp_right hc.toFresh.outgrows.genuine

theorem vouched_invariant {before : Registry σ} {held : List ClassDescriptor}
    (hheld : ∀ c ∈ held, strange c.kind ∨ before.Genuine c.kind) :
    Invariant (Repeats strange held) fun r => r.Vouched strange ∧ Outgrows before r where
  indexed h := h.1.toIndexed
  newLoader h hnew :=
    have hgrows := outgrows_newLoader? hnew
    ⟨h.1.fewer (h.1.toLayered.newLoader? hnew) hgrows fun _ hc => newLoader?_registered hnew ▸ hc,
      h.2.trans hgrows⟩
  insert {r d c} h hrule hc := by
    refine ⟨h.1.entered hc ?_, h.2.trans hc.toFresh.outgrows⟩
    rcases hrule with hordinary | ⟨e, he, hsame⟩ | hstrange
    · rw [hordinary]
      exact Or.inr trivial
    · rw [hsame]
      exact (hheld e he).imp_right h.2.genuine
    · exact Or.inl hstrange
  derive h hget hc :=
    ⟨h.1.entered hc (Or.inr (genuine_arrayOver hget _)), h.2.trans hc.toFresh.outgrows⟩
  load h _ hc := ⟨h.1.entered hc (Or.inr trivial), h.2.trans hc.toFresh.outgrows⟩
  removeBatch ids h :=
    have hevicts := h.1.toIndexed.removeBatch ids
    ⟨h.1.fewer (hevicts.layered h.1.toLayered) hevicts.outgrows
      (hevicts.registered_subset h.1.toIndexed), h.2.trans hevicts.outgrows⟩
  unloadLoaders ids h :=
    have hdrops := h.1.toIndexed.unloadLoaders ids
    ⟨h.1.fewer (hdrops.layered h.1.toLayered) hdrops.outgrows hdrops.registered_subset,
      h.2.trans hdrops.outgrows⟩

theorem new_vouched (bootSources : List σ) : (new bootSources).Vouched strange :=
  ⟨(new_coherent bootSources).toLayered, by simp [registered_new]⟩

theorem Chain.unique {c : ClassDescriptor} {chain chain' : List ClassDescriptor}
    (h : registry.Chain c chain) (h' : registry.Chain c chain') : chain = chain' := by
  induction chain generalizing c chain' with
  | nil =>
    cases chain' with
    | nil => rfl
    | cons d ds => exact absurd (h.symm.trans h'.1) (by simp)
  | cons d ds ih =>
    cases chain' with
    | nil => exact absurd (h.1.symm.trans h') (by simp)
    | cons d' ds' =>
      obtain ⟨hcomponent, hget, -, hrest⟩ := h
      obtain ⟨hcomponent', hget', -, hrest'⟩ := h'
      have hid : d.id = d'.id := Option.some.inj (hcomponent.symm.trans hcomponent')
      obtain rfl : d = d' := by
        rw [hid, hget', Option.some.injEq] at hget
        exact hget.symm
      rw [ih hrest hrest']

theorem Layered.exists_chain (h : registry.Layered) {c : ClassDescriptor}
    (hget : registry.get? c.id = some c) : ∃ chain, registry.Chain c chain := by
  induction hn : c.id.number using Nat.strong_induction_on generalizing c with
  | _ n ih =>
    cases harray : c.array? with
    | none => exact ⟨[], by simp [Chain, ClassDescriptor.component?, harray]⟩
    | some a =>
      obtain ⟨component, hcomponent, holder⟩ := h.layers c.id c a hget harray
      have hid := h.id_of_get? hcomponent
      obtain ⟨chain, hchain⟩ := ih component.id.number (hn ▸ holder) (h.get?_self hcomponent) rfl
      refine ⟨component :: chain, ?_, h.get?_self hcomponent, holder, hchain⟩
      rw [ClassDescriptor.component?, harray, Option.map_some, hid]

theorem Vouched.chain_length (h : registry.Vouched strange) {c : ClassDescriptor}
    {chain : List ClassDescriptor} (hget : registry.get? c.id = some c)
    (hchain : registry.Chain c chain) (hkinds : ∀ d ∈ c :: chain, ¬ strange d.kind) :
    chain.length = c.dimensions := by
  induction chain generalizing c with
  | nil =>
    have harray : c.array? = none := Option.map_eq_none_iff.mp hchain
    simp [ClassDescriptor.dimensions, harray]
  | cons d ds ih =>
    obtain ⟨hcomponent, hd, -, hrest⟩ := hchain
    obtain ⟨hc, hrests⟩ := List.forall_mem_cons.mp hkinds
    obtain ⟨a, harray, hid⟩ := Option.map_eq_some_iff.mp hcomponent
    have hgenuine := (h.kinds c (h.mem_registered.mpr hget)).resolve_left hc
    rw [kind_of_array? harray] at hgenuine
    have hdimensions : c.dimensions = d.dimensions + 1 := by
      rw [ClassDescriptor.dimensions, harray]
      exact (hgenuine.2 d (hid ▸ hd)).2
    rw [List.length_cons, ih hd hrest hrests, hdimensions]

end Registry

structure Moment.Sound (strange : ClassKind → Prop) (m : Moment σ) : Prop where
  vouched : m.registry.Vouched strange
  held : ∀ c ∈ m.held, strange c.kind ∨ m.registry.Genuine c.kind

theorem Moment.Sound.grows {m : Moment σ} (h : m.Sound strange) {next : Registry σ}
    (hvouched : next.Vouched strange) (hgrows : Registry.Outgrows m.registry next) :
    Moment.Sound strange ⟨next, m.held⟩ :=
  ⟨hvouched, fun c hc => (h.held c hc).imp_right hgrows.genuine⟩

theorem Becomes.sound {m n : Moment σ} (h : Becomes strange m n) (hm : m.Sound strange) :
    n.Sound strange := by
  induction h with
  | refl => exact hm
  | @hold m n c _ hget ih =>
    have hn := ih hm
    refine ⟨hn.vouched, fun d hd => ?_⟩
    rcases List.mem_cons.mp hd with rfl | hd
    · exact hn.vouched.kinds d (hn.vouched.mem_registered.mpr hget)
    · exact hn.held d hd
  | run _ hdevelops ih =>
    obtain ⟨hvouched, hgrows⟩ := (Registry.vouched_invariant (ih hm).held).develops hdevelops
      ⟨(ih hm).vouched, .refl _⟩
    exact (ih hm).grows hvouched hgrows
  | load ask outside loader name _ _ ih ihasked =>
    have hasked := ihasked (ih hm)
    rcases Registry.load_cases ask loader name (_, outside) hasked.vouched.toIndexed with
      ⟨failure, -, heq⟩ | ⟨c, -, heq, -⟩ | ⟨c, size, -, heq, hc⟩
    · rw [heq]
      exact hasked
    · rw [heq]
      exact hasked
    · rw [heq]
      exact hasked.grows (hasked.vouched.entered hc (Or.inr trivial)) hc.toFresh.outgrows
  | aborted oracle _ hidle herror _ ih ihasked =>
    rw [trigger_registry_of_error hidle herror]
    exact ihasked (ih hm)
  | cycle oracle _ hidle hok _ hevict _ ih ihasked ihended =>
    rw [trigger_registry_of_ok hidle hok hevict]
    -- the calls before the eviction and the one after it are runs of their own
    have hlast := ihasked (ih hm)
    obtain ⟨hevicted, -⟩ :=
      Cycle.evict_spec (Cycle.setPhase .evicting _).1 hlast.vouched.toIndexed _ _ _ _
    rw [hevict] at hevicted
    refine ihended (hlast.grows (hlast.vouched.fewer (hevicted.layered hlast.vouched.toLayered)
      hevicted.outgrows fun c hc => ?_) hevicted.outgrows)
    exact hlast.vouched.mem_registered.mpr
      ((hevicted.get?_eq_some _ _).mp (hevicted.indexed.mem_registered.mp hc)).1

/-- Whatever callers, sources and oracles do, the component of every registered array class is
registered under a smaller id, and following components leads from each class to an ordinary one.
What an array class says of its component's name and dimensions is true unless its kind came from
elsewhere, and so the number of steps is that of its dimensions unless there is such a kind on the
way. -/
theorem Becomes.component_gates_array {bootSources : List σ} {n : Moment σ}
    (h : Becomes strange ⟨.new bootSources, []⟩ n) :
    (∀ c ∈ n.registry.registered, ∀ a, c.kind = .array a →
      ∃ component ∈ n.registry.registered, component.id = a.component.id ∧
        component.id < c.id ∧
        (¬ strange c.kind → Registry.StandsOver c a component)) ∧
    ∀ c ∈ n.registry.registered, ∃ chain, n.registry.Chain c chain ∧
      (∀ other, n.registry.Chain c other → other = chain) ∧
      ((∀ d ∈ c :: chain, ¬ strange d.kind) → chain.length = c.dimensions) := by
  have hn := (h.sound ⟨Registry.new_vouched bootSources, by simp⟩).vouched
  refine ⟨fun c hc a hkind => ?_, fun c hc => ?_⟩
  · obtain ⟨component, hget, holder⟩ := hn.layers c.id c a (hn.mem_registered.mp hc)
      (by simp [ClassDescriptor.array?, hkind])
    refine ⟨component, hn.mem_registered_of_get? hget, hn.id_of_get? hget, holder, fun hc' => ?_⟩
    have hgenuine := (hn.kinds c hc).resolve_left hc'
    rw [hkind] at hgenuine
    obtain ⟨hname, hdimensions⟩ := hgenuine.2 component hget
    exact ⟨holder, hname, hdimensions⟩
  · have hget := hn.mem_registered.mp hc
    obtain ⟨chain, hchain⟩ := hn.exists_chain hget
    exact ⟨chain, hchain, fun other hother => hother.unique hchain, hn.chain_length hget hchain⟩

open Registry in
/-- A kind from another registry, where its component is another class, is taken for what it says:
the array class has its component under another name and with more dimensions. And of a registered
kind another type can be defined, which stays when the class that is one dimension below it goes. -/
theorem recorded_component_unchecked :
    ((∃ elsewhere, Builds (new [()]) elsewhere ∧
        ∃ c ∈ elsewhere.registered, c.kind = foreignArray.kind) ∧
      ∃ registry, Becomes (· = foreignArray.kind) ⟨new [()], []⟩ ⟨registry, []⟩ ∧
        ∃ c ∈ registry.registered, ∃ component ∈ registry.registered, ∃ a,
          c.kind = .array a ∧ component.id = a.component.id ∧
          a.component.name ≠ component.name ∧ a.dimensions ≠ component.dimensions + 1 ∧
          ∃ chain, registry.Chain c chain ∧ chain.length ≠ c.dimensions) ∧
    ∃ registry held, Becomes (fun _ => False) ⟨new [()], []⟩ ⟨registry, held⟩ ∧
      (∃ c ∈ registry.registered, c.type = .array (.array (.object "A"))) ∧
      ∀ c ∈ registry.registered, c.type ≠ .array (.object "A") := by
  refine ⟨⟨⟨_, develops_secondAndArray _, foreign_kind⟩, classAndArray.inserting foreignArray, ?_, ?_⟩, ?_⟩
  · exact .run (.refl ⟨new [()], []⟩)
      ((develops_classAndArray _).inserting (Or.inr (Or.inr rfl)))
  · refine ⟨.ofDefinition (classId 3) foreignArray, by decide +kernel, arrayOverA, by decide +kernel, _,
      rfl, rfl, by decide, by decide, [arrayOverA, classA bootLoader 1], ?_, by decide⟩
    exact ⟨rfl, by decide +kernel, by decide, rfl, by decide +kernel, by decide, rfl⟩
  · have hheld : Becomes (fun _ => False) ⟨new [()], []⟩ ⟨classAndArray, [arrayOverA]⟩ :=
      .hold (.run (.refl ⟨new [()], []⟩) (develops_classAndArray _))
        (show classAndArray.get? arrayOverA.id = some arrayOverA by decide +kernel)
    have hmistyped : Develops (Repeats (fun _ => False) [arrayOverA]) classAndArray
        (classAndArray.inserting mistypedArray) :=
      (Develops.refl _).inserting (Or.inr (Or.inl ⟨arrayOverA, List.mem_cons_self, rfl⟩))
    exact ⟨((classAndArray.inserting mistypedArray).removeBatch [classId 2]).2, _,
      hheld.run (hmistyped.removeBatch [classId 2]), by decide +kernel, by decide +kernel⟩

/-- The array class stands over the second class of its name. -/
theorem reloaded_array_over_component :
    (Registry.reloaded.registered.map fun c => (Registry.reloaded.components c).map (·.id.number)) =
      [[], [4]] ∧
    ∀ c ∈ Registry.reloaded.registered,
      ∃ chain, Registry.reloaded.Chain c chain ∧ chain.length = c.dimensions := by
  have hbecomes : Becomes (fun _ => False) ⟨.new [()], []⟩ ⟨Registry.reloaded, []⟩ :=
    .run (.refl ⟨.new [()], []⟩) (Registry.develops_reloaded _)
  refine ⟨by decide +kernel, fun c hc => ?_⟩
  obtain ⟨chain, hchain, -, hlength⟩ := hbecomes.component_gates_array.2 c hc
  exact ⟨chain, hchain, hlength fun _ _ => id⟩

end Metaspace
