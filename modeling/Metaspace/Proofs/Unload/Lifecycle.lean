import Metaspace.Proofs.Registry.Views
import Metaspace.Proofs.Unload.Nesting

/-!
The life of a loader. It is made under a number higher than all before, stays in the graph for as
long as it defines a class, and once dropped is gone for good: nothing is defined in it any more.
The history of a registry, with all its operations and cycles, keeps book of both.
-/

set_option autoImplicit false

namespace Metaspace

variable {σ : Type}

namespace Registry

variable {registry : Registry σ}

/-- The same loaders are in the graph, as many were made and the same were dropped. -/
structure Undisturbed (before after : Registry σ) : Prop where
  graph_eq : after.graph = before.graph
  retired_eq : after.retired = before.retired
  issued_eq : after.issued = before.issued

namespace Undisturbed

theorem refl (registry : Registry σ) : Undisturbed registry registry := ⟨rfl, rfl, rfl⟩

variable {before : Registry σ}

theorem adding (h : Undisturbed before registry) (c : ClassDescriptor) :
    Undisturbed before (registry.adding c) where
  graph_eq := by
    rw [adding_graph]
    exact h.graph_eq
  retired_eq := h.retired_eq
  issued_eq := h.issued_eq

theorem removing (h : Undisturbed before registry) (c : ClassDescriptor) :
    Undisturbed before (registry.removing c) where
  graph_eq := by
    rw [removing_graph]
    exact h.graph_eq
  retired_eq := h.retired_eq
  issued_eq := h.issued_eq

end Undisturbed

theorem Indexed.insert_undisturbed (h : registry.Indexed) {d : ClassDefinition}
    {definition : Definition} {next : Registry σ}
    (hinsert : registry.insert d = .ok (definition, next)) :
    next.Indexed ∧ Undisturbed registry next := by
  rcases insert_cases h d with ⟨e, heq⟩ | ⟨c, heq, -⟩ | ⟨c, heq, hc⟩
  · rw [heq] at hinsert
    contradiction
  · rw [heq] at hinsert
    obtain ⟨-, rfl⟩ := Prod.mk.inj (Except.ok.inj hinsert)
    exact ⟨h, .refl registry⟩
  · rw [heq] at hinsert
    obtain ⟨-, rfl⟩ := Prod.mk.inj (Except.ok.inj hinsert)
    exact ⟨h.adding hc.toFresh, (Undisturbed.refl registry).adding c⟩

theorem Indexed.derive_undisturbed (h : registry.Indexed) (component : ClassDescriptor)
    (dimensions : Nat) : (registry.deriveArray component dimensions).2.Indexed ∧
      Undisturbed registry (registry.deriveArray component dimensions).2 :=
  (deriveArray_keeps (P := fun r => r.Indexed ∧ Undisturbed registry r) (fun _ hr => hr.1)
    (fun hr _ hc => ⟨hr.1.adding hc.toFresh, hr.2.adding _⟩) ⟨h, .refl registry⟩ component
    dimensions).1

theorem Indexed.load_undisturbed {ω : Type} (ask : Asking σ ω) (loader : LoaderId) (name : String)
    (state : Registry σ × ω) (hasked : (asked ask loader name state).1.Indexed) :
    (Registry.load ask loader name state).2.1.Indexed ∧
      Undisturbed (asked ask loader name state).1 (Registry.load ask loader name state).2.1 := by
  rcases load_cases ask loader name state hasked with
    ⟨failure, -, heq⟩ | ⟨c, -, heq, -⟩ | ⟨c, size, -, heq, hc⟩
  · rw [heq]
    exact ⟨hasked, .refl _⟩
  · rw [heq]
    exact ⟨hasked, .refl _⟩
  · rw [heq]
    exact ⟨hasked.adding hc.toFresh, (Undisturbed.refl _).adding c⟩

theorem Indexed.removeBatch_undisturbed (h : registry.Indexed) (ids : List ClassId) :
    (registry.removeBatch ids).2.Indexed ∧ Undisturbed registry (registry.removeBatch ids).2 :=
  removeBatch_keeps (P := fun r => r.Indexed ∧ Undisturbed registry r) (fun _ hr => hr.1)
    (fun _ c hr hget => ⟨hr.1.removing hget, hr.2.removing c⟩)
    (fun _ hr => ⟨{ hr.1 with }, { hr.2 with }⟩) ⟨h, .refl registry⟩ ids

theorem Indexed.droppable_iff (h : registry.Indexed) {l : Loader σ} (hl : l ∈ registry.graph) :
    registry.Droppable l ↔ l.id ≠ bootLoader ∧ registry.classesOf l.id = [] := by
  have hpermanent : l.permanent = false ↔ l.id ≠ bootLoader := by
    rw [ne_eq, ← h.roster.permanent l hl, Bool.not_eq_true]
  rw [Droppable, hpermanent, h.classesOf_eq, List.filter_eq_nil_iff]
  simp only [decide_eq_true_eq]

/-- A loader is not there: it has no classes, and whatever is to be defined in it or loaded by it is
refused, with nothing changed. -/
structure Disowns (registry : Registry σ) (id : LoaderId) : Prop where
  loader : registry.loader? id = none
  classesOf : registry.classesOf id = []
  insert : ∀ d : ClassDefinition, d.loader = id → registry.insert d = .error (.unknownLoader id)
  load : ∀ {ω : Type} (ask : Asking σ ω) (outside : ω) (name text : String),
    FieldType.ofName? name = some (.object text) →
      Registry.load ask id name (registry, outside) =
        (.error (.of (.classError (.unknownLoader id))), (registry, outside))

theorem Indexed.disowns (h : registry.Indexed) {id : LoaderId}
    (habsent : ∀ l ∈ registry.graph, l.id ≠ id) : registry.Disowns id := by
  have hentry : registry.entry? id = none := by
    cases hfound : registry.entry? id with
    | none => rfl
    | some e =>
      obtain ⟨hmem, hid⟩ := h.entry?_eq_some.mp hfound
      exact absurd hid (habsent e.loader (Indexed.mem_graph.mpr ⟨e, hmem, rfl⟩))
  have hloader : registry.loader? id = none := by
    rw [loader?, hentry, Option.map_none]
  exact
    { loader := hloader
      classesOf := by
        rw [Registry.classesOf, hentry]
      insert := by
        rintro d rfl
        rw [Registry.insert, hentry]
      load := by
        intro ω ask outside name text htype
        -- a class that the loader had defined would still be there, and so would the loader
        have hlookup : registry.lookupIn? id name = none := by
          cases hfound : registry.lookupIn? id name with
          | none => rfl
          | some c =>
            obtain ⟨hget, hc, -⟩ := h.lookupIn?_eq_some.mp hfound
            obtain ⟨l, hl, hid⟩ := h.loader_of_get? hget
            exact absurd (hid.trans hc) (habsent l hl)
        simp only [Registry.load, htype, hlookup, hloader] }

end Registry

/-- A registry, the loaders that were ever made for it and those that were ever dropped from it,
each in the order in which that happened. -/
structure Lineage (σ : Type) where
  registry : Registry σ
  made : List LoaderId
  dropped : List LoaderId

namespace Lineage

def start (bootSources : List σ) : Lineage σ := ⟨.new bootSources, [Registry.bootLoader], []⟩

open Metaspace.Cycle in
/-- What becomes of a registry by its operations and by cycles, in any order and with any arguments;
a call that fails is one that leaves it as it is. Sources and oracles may do all of this themselves
while they are asked. -/
inductive Leads : Lineage σ → Lineage σ → Prop where
  | refl (m : Lineage σ) : Leads m m
  | newLoader {m n : Lineage σ} {next : Registry σ} {name : String} {sources : List σ}
      {id : LoaderId} : Leads m n → n.registry.newLoader? name sources = some (id, next) →
      Leads m ⟨next, n.made ++ [id], n.dropped⟩
  | insert {m n : Lineage σ} {next : Registry σ} {d : ClassDefinition} {definition : Definition} :
      Leads m n → n.registry.insert d = .ok (definition, next) → Leads m ⟨next, n.made, n.dropped⟩
  | derive {m n : Lineage σ} (component : ClassDescriptor) (dimensions : Nat) : Leads m n →
      Leads m ⟨(n.registry.deriveArray component dimensions).2, n.made, n.dropped⟩
  | load {m n : Lineage σ} {ω : Type} (ask : Asking σ ω) (outside : ω) (loader : LoaderId)
      (name : String) {made dropped : List LoaderId} : Leads m n →
      Leads n ⟨(Registry.asked ask loader name (n.registry, outside)).1, made, dropped⟩ →
      Leads m ⟨(Registry.load ask loader name (n.registry, outside)).2.1, made, dropped⟩
  | removeBatch {m n : Lineage σ} (ids : List ClassId) : Leads m n →
      Leads m ⟨(n.registry.removeBatch ids).2, n.made, n.dropped⟩
  | unloadLoaders {m n : Lineage σ} (ids : List LoaderId) : Leads m n →
      Leads m ⟨(n.registry.unloadLoaders ids).2, n.made,
        n.dropped ++ (n.registry.unloadLoaders ids).1.map (·.id)⟩
  | aborted {m : Lineage σ} {ω : Type} (oracle : Oracle σ ω) {engine : Engine σ} {outside : ω}
      {made dropped made' dropped' : List LoaderId} {i : Interruption} {last : Engine σ × ω} :
      Leads m ⟨engine.registry, made, dropped⟩ → engine.coordinator.phase = .idle →
      deliberate oracle engine.registry.snapshot (engine.entered, outside) = (.error i, last) →
      Leads ⟨engine.registry, made, dropped⟩ ⟨last.1.registry, made', dropped'⟩ →
      Leads m ⟨(trigger oracle (engine, outside)).2.1.registry, made', dropped'⟩
  | cycle {m : Lineage σ} {ω : Type} (oracle : Oracle σ ω) {engine evicted : Engine σ} {outside : ω}
      {made dropped made' dropped' made'' dropped'' : List LoaderId}
      {dead : List ClassId × List LoaderId} {last : Engine σ × ω} {report : CycleReport σ} :
      Leads m ⟨engine.registry, made, dropped⟩ → engine.coordinator.phase = .idle →
      deliberate oracle engine.registry.snapshot (engine.entered, outside) = (.ok dead, last) →
      Leads ⟨engine.registry, made, dropped⟩ ⟨last.1.registry, made', dropped'⟩ →
      evict (setPhase .evicting last).1 (engine.coordinator.started + 1)
        engine.registry.snapshot.size dead.1 dead.2 = (report, evicted) →
      Leads ⟨evicted.registry, made', dropped' ++ report.unloadedLoaders.map (·.id)⟩
        ⟨(oracle.endCycle report (evicted, last.2)).2.1.registry, made'', dropped''⟩ →
      Leads m ⟨(trigger oracle (engine, outside)).2.1.registry, made'', dropped''⟩

structure Extends (m n : Lineage σ) : Prop where
  made : m.made <+: n.made
  dropped : m.dropped <+: n.dropped

theorem Extends.trans {m n o : Lineage σ} (hmn : m.Extends n) (hno : n.Extends o) : m.Extends o :=
  ⟨hmn.made.trans hno.made, hmn.dropped.trans hno.dropped⟩

theorem Leads.extends {m n : Lineage σ} (h : Leads m n) : m.Extends n := by
  induction h with
  | refl m => exact ⟨List.prefix_refl _, List.prefix_refl _⟩
  | newLoader _ _ ih => exact ⟨ih.made.trans (List.prefix_append _ _), ih.dropped⟩
  | insert _ _ ih => exact ⟨ih.made, ih.dropped⟩
  | derive _ _ _ ih => exact ⟨ih.made, ih.dropped⟩
  | load _ _ _ _ _ _ ih ihasked => exact ih.trans ⟨ihasked.made, ihasked.dropped⟩
  | removeBatch _ _ ih => exact ⟨ih.made, ih.dropped⟩
  | unloadLoaders _ _ ih => exact ⟨ih.made, ih.dropped.trans (List.prefix_append _ _)⟩
  | aborted _ _ _ _ _ ih ihasked => exact ih.trans ⟨ihasked.made, ihasked.dropped⟩
  | cycle _ _ _ _ _ _ _ ih ihasked ihended =>
    refine ih.trans (ihasked.trans ⟨ihended.made, ?_⟩)
    exact (List.prefix_append _ _).trans ihended.dropped

/-- The books agree with the registry: loaders are numbered from one on without a gap, and those in
the graph are the ones that were made and not dropped. -/
structure Kept (m : Lineage σ) : Prop where
  indexed : m.registry.Indexed
  retired_eq : m.registry.retired = m.dropped.reverse
  numbers : m.made.map (·.number) = List.range' 1 m.registry.issued
  mem_made : ∀ id, id ∈ m.made ↔ id ∈ m.dropped ∨ ∃ l ∈ m.registry.graph, l.id = id
  nodup : m.dropped.Nodup

theorem start_kept (bootSources : List σ) : (start bootSources).Kept where
  indexed := (Registry.new_coherent bootSources).toIndexed
  retired_eq := rfl
  numbers := rfl
  mem_made id := by
    simp [start, Registry.graph, Registry.new, eq_comm]
  nodup := List.nodup_nil

namespace Kept

variable {m : Lineage σ}

theorem not_mem_graph (h : m.Kept) {id : LoaderId} (hid : id ∈ m.dropped) :
    ∀ l ∈ m.registry.graph, l.id ≠ id := by
  refine (h.indexed.roster.retired id ?_).2
  rw [h.retired_eq, List.mem_reverse]
  exact hid

theorem undisturbed (h : m.Kept) {next : Registry σ}
    (hnext : next.Indexed ∧ Registry.Undisturbed m.registry next) :
    Kept ⟨next, m.made, m.dropped⟩ where
  indexed := hnext.1
  retired_eq := hnext.2.retired_eq.trans h.retired_eq
  numbers := by
    rw [hnext.2.issued_eq]
    exact h.numbers
  mem_made := by
    rw [hnext.2.graph_eq]
    exact h.mem_made
  nodup := h.nodup

theorem newLoader? (h : m.Kept) {name : String} {sources : List σ} {id : LoaderId}
    {next : Registry σ} (hnew : m.registry.newLoader? name sources = some (id, next)) :
    Kept ⟨next, m.made ++ [id], m.dropped⟩ := by
  have hindexed := h.indexed.newLoader? hnew
  obtain ⟨hid, rfl⟩ := Registry.newLoader?_eq_some hnew
  refine ⟨hindexed, h.retired_eq, ?_, ?_, h.nodup⟩
  · rw [List.map_append, h.numbers, List.map_singleton, hid, List.range'_1_concat, Nat.add_comm]
  · intro other
    have hgraph : ∀ l, l ∈ Registry.graph { m.registry with
        loaders := m.registry.loaders ++ [⟨⟨id, name, false, sources⟩, []⟩]
        issued := m.registry.issued + 1 } ↔
        l ∈ m.registry.graph ∨ l = ⟨id, name, false, sources⟩ := by
      intro l
      rw [Registry.graph, List.map_append, List.mem_append, List.map_singleton, List.mem_singleton]
      rfl
    simp only [List.mem_append, List.mem_singleton, h.mem_made, hgraph, or_and_right, exists_or,
      exists_eq_left, or_assoc]
    rw [eq_comm (a := other)]

theorem unloadLoaders (h : m.Kept) (ids : List LoaderId) :
    Kept ⟨(m.registry.unloadLoaders ids).2, m.made,
      m.dropped ++ (m.registry.unloadLoaders ids).1.map (·.id)⟩ := by
  have hdrops := h.indexed.unloadLoaders ids
  refine ⟨hdrops.indexed, ?_, ?_, ?_, ?_⟩
  · rw [hdrops.retired_eq, h.retired_eq, List.reverse_append]
  · rw [hdrops.issued_eq]
    exact h.numbers
  · intro id
    rw [h.mem_made, List.mem_append, List.mem_map, or_assoc]
    refine or_congr_right ⟨?_, ?_⟩
    · rintro ⟨l, hl, hid⟩
      by_cases hgone : l ∈ (m.registry.unloadLoaders ids).1
      · exact Or.inl ⟨l, hgone, hid⟩
      · refine Or.inr ⟨l, (hdrops.mem_graph l).mpr ⟨hl, fun hgo => hgone ?_⟩, hid⟩
        exact (hdrops.mem_dropped l).mpr ⟨hl, hgo⟩
    · rintro (⟨l, hgone, hid⟩ | ⟨l, hl, hid⟩)
      · exact ⟨l, ((hdrops.mem_dropped l).mp hgone).1, hid⟩
      · exact ⟨l, ((hdrops.mem_graph l).mp hl).1, hid⟩
  · refine h.nodup.append hdrops.nodup ?_
    intro id hbefore hnow
    obtain ⟨l, hl, hid⟩ := List.mem_map.mp hnow
    exact h.not_mem_graph hbefore l ((hdrops.mem_dropped l).mp hl).1 hid

theorem evict {engine : Engine σ} {made dropped : List LoaderId}
    (h : Kept ⟨engine.registry, made, dropped⟩) (cycle scanned : Nat) (classes : List ClassId)
    (loaders : List LoaderId) {report : CycleReport σ} {evicted : Engine σ}
    (hevict : Cycle.evict engine cycle scanned classes loaders = (report, evicted)) :
    Kept ⟨evicted.registry, made, dropped ++ report.unloadedLoaders.map (·.id)⟩ := by
  have hremoved := h.undisturbed (h.indexed.removeBatch_undisturbed classes)
  have hevicted := hremoved.unloadLoaders loaders
  obtain ⟨rfl, rfl⟩ := Prod.mk.inj hevict
  exact hevicted

end Kept

theorem Leads.kept {m n : Lineage σ} (h : Leads m n) (hm : m.Kept) : n.Kept := by
  induction h with
  | refl => exact hm
  | newLoader _ hnew ih => exact (ih hm).newLoader? hnew
  | insert _ hinsert ih => exact (ih hm).undisturbed ((ih hm).indexed.insert_undisturbed hinsert)
  | derive component dimensions _ ih =>
    exact (ih hm).undisturbed ((ih hm).indexed.derive_undisturbed component dimensions)
  | load ask outside loader name _ _ ih ihasked =>
    have hasked := ihasked (ih hm)
    exact hasked.undisturbed (Registry.Indexed.load_undisturbed ask loader name _ hasked.indexed)
  | removeBatch ids _ ih =>
    exact (ih hm).undisturbed ((ih hm).indexed.removeBatch_undisturbed ids)
  | unloadLoaders ids _ ih => exact (ih hm).unloadLoaders ids
  | aborted oracle _ hidle herror _ ih ihasked =>
    rw [trigger_registry_of_error hidle herror]
    exact ihasked (ih hm)
  | cycle oracle _ hidle hok _ hevict _ ih ihasked ihended =>
    rw [trigger_registry_of_ok hidle hok hevict]
    -- the calls before the eviction and the one after it are histories of their own
    have hlast : Kept ⟨(Cycle.setPhase .evicting _).1.registry, _, _⟩ := ihasked (ih hm)
    exact ihended (hlast.evict _ _ _ _ hevict)

/-- How it stands with the loaders of a registry, and which of them can be dropped from it. -/
structure Accounted (m : Lineage σ) : Prop where
  unmarked : ∀ l ∈ m.registry.graph, m.registry.isUnloading l.id = false
  marked : ∀ id, m.registry.isUnloading id = true ↔ id ∈ m.dropped
  increasing : m.made.Pairwise (· < ·)
  next : ∀ {name : String} {sources : List σ} {id : LoaderId} {next : Registry σ},
    m.registry.newLoader? name sources = some (id, next) → ∀ earlier ∈ m.made, earlier < id
  listed : ∀ id, (∃ l ∈ m.registry.graph, l.id = id) ↔ id ∈ m.made ∧ id ∉ m.dropped
  boot : ∃ l ∈ m.registry.graph, l.id = Registry.bootLoader
  once : m.dropped.Nodup
  /-- Of the candidates those go that are there, are not the boot loader and define no class. -/
  drops : ∀ ids l, l ∈ (m.registry.unloadLoaders ids).1 ↔
    l ∈ m.registry.graph ∧ l.id ∈ ids ∧ l.id ≠ Registry.bootLoader ∧
      m.registry.classesOf l.id = []
  leaves : ∀ ids l, l ∈ (m.registry.unloadLoaders ids).2.graph ↔
    l ∈ m.registry.graph ∧ l ∉ (m.registry.unloadLoaders ids).1
  evicts : ∀ engine : Engine σ, engine.registry = m.registry → ∀ cycle scanned classes loaders,
    ∀ l ∈ (Cycle.evict engine cycle scanned classes loaders).1.unloadedLoaders,
      l ∈ m.registry.graph ∧ l.id ≠ Registry.bootLoader ∧
        ∀ c ∈ m.registry.classesOf l.id,
          c ∈ (Cycle.evict engine cycle scanned classes loaders).1.unloaded

namespace Kept

variable {m : Lineage σ}

theorem evicts (h : m.Kept) {engine : Engine σ} (hengine : engine.registry = m.registry)
    (cycle scanned : Nat) (classes : List ClassId) (loaders : List LoaderId) {l : Loader σ}
    (hl : l ∈ (Cycle.evict engine cycle scanned classes loaders).1.unloadedLoaders) :
    l ∈ m.registry.graph ∧ l.id ≠ Registry.bootLoader ∧
      ∀ c ∈ m.registry.classesOf l.id,
        c ∈ (Cycle.evict engine cycle scanned classes loaders).1.unloaded := by
  obtain ⟨hindexed, hundisturbed⟩ := h.indexed.removeBatch_undisturbed classes
  have hparts : ∀ c ∈ m.registry.classesOf l.id,
      (m.registry.removeBatch classes).2.get? c.id = some c ∨
        c ∈ (m.registry.removeBatch classes).1 := fun c hc =>
    h.indexed.removeBatch_parts classes (h.indexed.mem_classesOf.mp hc).1
  simp only [Cycle.evict, hengine] at hl ⊢
  generalize m.registry.removeBatch classes = batch at hindexed hundisturbed hparts hl ⊢
  obtain ⟨removed, rest⟩ := batch
  obtain ⟨hgraph, -, hdrop⟩ := ((hindexed.unloadLoaders loaders).mem_dropped l).mp hl
  obtain ⟨hboot, hnone⟩ := (hindexed.droppable_iff hgraph).mp hdrop
  refine ⟨hundisturbed.graph_eq ▸ hgraph, hboot, fun c hc => List.mem_mergeSort.mpr ?_⟩
  rcases hparts c hc with hstill | hgone
  · -- a class that were still there would keep its loader
    have hkept := hindexed.mem_classesOf.mpr ⟨hstill, (h.indexed.mem_classesOf.mp hc).2⟩
    rw [hnone] at hkept
    contradiction
  · exact hgone

theorem accounted (h : m.Kept) : m.Accounted where
  unmarked l hl := h.indexed.isUnloading_eq_false hl
  marked id := by
    rw [Registry.isUnloading, List.contains_iff_mem, h.retired_eq, List.mem_reverse]
  increasing := by
    have hnumbers : (m.made.map (·.number)).Pairwise (· < ·) := by
      rw [h.numbers]
      exact List.pairwise_lt_range'
    rw [List.pairwise_map] at hnumbers
    exact hnumbers
  next := by
    intro name sources id next hnew earlier hearlier
    have hnumber : earlier.number ∈ m.made.map (·.number) := List.mem_map_of_mem hearlier
    rw [h.numbers, List.mem_range'_1] at hnumber
    rw [Id.lt_def, (Registry.newLoader?_eq_some hnew).1]
    omega
  listed id := by
    rw [h.mem_made]
    constructor
    · rintro ⟨l, hl, rfl⟩
      exact ⟨Or.inr ⟨l, hl, rfl⟩, fun hgone => h.not_mem_graph hgone l hl rfl⟩
    · rintro ⟨hgone | hthere, hstays⟩
      · exact absurd hgone hstays
      · exact hthere
  boot := h.indexed.roster.boot
  once := h.nodup
  drops ids l := by
    rw [(h.indexed.unloadLoaders ids).mem_dropped]
    exact and_congr_right fun hl => and_congr_right fun _ => h.indexed.droppable_iff hl
  leaves ids l := by
    rw [(h.indexed.unloadLoaders ids).mem_graph, (h.indexed.unloadLoaders ids).mem_dropped]
    tauto
  evicts engine hengine cycle scanned classes loaders l hl :=
    h.evicts hengine cycle scanned classes loaders hl

end Kept

/-- In whatever registry a history leads to, the loaders that were made and not dropped are in the
graph and not marked, those that were dropped are marked, and only a loader that defines no class
can be dropped; whatever comes after that, a dropped loader is unknown and takes no class. -/
theorem Leads.loader_lifecycle {bootSources : List σ} {m : Lineage σ}
    (h : Leads (start bootSources) m) :
    m.Accounted ∧
      ∀ n, Leads m n → m.Extends n ∧ ∀ id ∈ m.dropped, n.registry.Disowns id := by
  have hkept := h.kept (start_kept bootSources)
  refine ⟨hkept.accounted, fun n hn => ⟨hn.extends, fun id hid => ?_⟩⟩
  have hlater := hn.kept hkept
  exact hlater.indexed.disowns (hlater.not_mem_graph (hn.extends.dropped.subset hid))

def heedless : Oracle Unit Unit where
  beginCycle _ state := (.ok (), state)
  query _ _ state := (.ok ⟨false, false, false⟩, state)
  queryLoader _ state := (.ok false, state)

/-- An engine with a loader besides the boot loader, which loaded a class. -/
def lodged : Engine Unit :=
  let opened := ((Registry.new [()]).newLoader? "app" [()]).elim (.new [()]) (·.2)
  { Engine.new [()] true with
    registry := (Registry.load Registry.stocked (Registry.loaderId 2) "A" (opened, ())).2.1 }

theorem leads_lodged :
    Leads (start [()]) ⟨lodged.registry, [Registry.bootLoader, Registry.loaderId 2], []⟩ := by
  refine .load Registry.stocked () (Registry.loaderId 2) "A" (.newLoader (.refl _) rfl) ?_
  rw [Registry.asked_of_quiet (fun _ _ _ => rfl)]
  exact .refl _

def deserted : Lineage Unit where
  registry := (trigger heedless (lodged, ())).2.1.registry
  made := [Registry.bootLoader, Registry.loaderId 2]
  dropped := [Registry.loaderId 2]

theorem leads_deserted : Leads (start [()]) deserted := by
  have hgone : (Cycle.evict lodged 1 1 (Cycle.condemned lodged.registry.snapshot
      [Registry.classId 1]) [Registry.loaderId 2]).1.unloadedLoaders.map (·.id) =
        [Registry.loaderId 2] := by
    decide +kernel
  refine .cycle heedless leads_lodged rfl rfl (.refl _) rfl ?_
  exact (congrArg (Lineage.mk _ _) hgone) ▸ .refl _

/-- The loader stays for as long as it defines its class, and is gone after the cycle. -/
theorem deserted_lifecycle :
    (lodged.registry.unloadLoaders
      [Registry.loaderId 2, Registry.bootLoader, Registry.loaderId 9, Registry.loaderId 2]).1.map
        (·.id) = [] ∧
    deserted.registry.graph.map (·.id) = [Registry.bootLoader] ∧ deserted.Accounted ∧
    deserted.registry.Disowns (Registry.loaderId 2) :=
  have h := Leads.loader_lifecycle leads_deserted
  ⟨by decide +kernel, by decide +kernel, h.1,
    (h.2 deserted (.refl deserted)).2 _ (List.mem_singleton_self _)⟩

end Lineage
end Metaspace
