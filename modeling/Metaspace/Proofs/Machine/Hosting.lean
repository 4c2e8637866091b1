import Metaspace.Proofs.Machine.Permanence
import Metaspace.Proofs.Machine.Unloading

/-!
Machines with one loader. Its holder keeps all of its classes, and so does every instance or array of
one of them. Once nothing is held any more, a collection takes out the loader with its classes and
leaves an empty heap; without class unloading it frees the instances and arrays.
-/

set_option autoImplicit false

namespace Metaspace

variable {σ ω : Type}

theorem Cycle.ArraysFirst.eq_pair {report : CycleReport σ} (h : Cycle.ArraysFirst report)
    (hnodup : report.unloaded.Nodup) {a c : ClassDescriptor}
    (hmem : ∀ d, d ∈ report.unloaded ↔ d = a ∨ d = c) (hcomponent : a.component? = some c.id) :
    report.unloaded = [a, c] := by
  have hsub : [a, c].Sublist report.unloaded :=
    h a ((hmem a).mpr (.inl rfl)) c ((hmem c).mpr (.inr rfl)) hcomponent
  have hlength : report.unloaded.length ≤ [a, c].length := by
    refine (List.subperm_of_subset hnodup fun d hd => ?_).length_le
    simpa using (hmem d).mp hd
  exact (hsub.eq_of_length_le hlength).symm

namespace Machine

section Answers

variable {handles : List Root} {m n : Machine σ}

theorem registry_deriveArray_of_deriveArray {component : ClassDescriptor} {dimensions : Nat}
    {held : HeldClass} (h : m.deriveArray component dimensions = (.ok held, n)) :
    m.registry.deriveArray component dimensions =
      (.ok held.descriptor, m.derived component dimensions) := by
  unfold Machine.deriveArray at h
  dsimp only at h
  split at h
  · obtain ⟨hfailed, -⟩ := Prod.mk.inj h
    contradiction
  · rename_i hrange
    unfold derived
    rw [if_neg hrange]
    split at h
    · obtain ⟨hfailed, -⟩ := Prod.mk.inj h
      contradiction
    · rename_i c registry heq
      rw [heq, descriptor_of_holdClass h]

theorem Upheld.class_of_newArray (h : m.Upheld none handles) {component : ClassDescriptor}
    {length : Nat} {array : Root} (hmade : m.newArray component length = (.ok array, n)) :
    ∃ a mirror elements, m.registry.deriveArray component 1 = (.ok a, m.derived component 1) ∧
      n.objects.get? array.ref = some (.arrayOf a.id mirror elements) := by
  have hserves := h.deriveArray component 1
  unfold Machine.newArray at hmade
  cases hderived : m.deriveArray component 1 with
  | mk result next =>
    rw [hderived] at hserves hmade
    cases result with
    | error failure =>
      obtain ⟨hfailed, -⟩ := Prod.mk.inj hmade
      contradiction
    | ok held =>
      obtain ⟨hupheld, hholding⟩ := hserves.ok held rfl
      have hallocated := hupheld.allocateWith
        (.allocatingArray held.descriptor.name length)
        (fun _ objects => objects.allocNested ⟨held.descriptor.id, held.mirror.ref, length⟩ [])
        fun later hlater hsince =>
          hlater.array_lands (hsince.names_mirror List.mem_cons_self hholding) length
      dsimp only at hmade
      rw [hmade] at hallocated
      obtain ⟨-, _, hobject, elements, rfl⟩ := hallocated.ok array rfl
      exact ⟨held.descriptor, held.mirror.ref, elements,
        registry_deriveArray_of_deriveArray hderived, hobject⟩

end Answers

/-- Besides the boot loader there is one loader, which defines all classes there are. Instances and
arrays are found at the given references only. -/
structure Hosts (l : Loader σ) (classes : List ClassDescriptor) (bodies : List Ref)
    (m : Machine σ) : Prop where
  viewed : m.registry.Viewed
  registered : m.registry.registered = classes
  loader_eq : ∀ c ∈ classes, c.loader = l.id
  present : l ∈ m.registry.graph
  others : ∀ k ∈ m.registry.graph, k.id = Registry.bootLoader ∨ k = l
  apart : l.id ≠ Registry.bootLoader
  bodies : ∀ r object, m.objects.get? r = some object → object.class? ≠ none → r ∈ bodies

namespace Hosts

variable {l : Loader σ} {classes : List ClassDescriptor} {bodies : List Ref} {m n : Machine σ}
  {handles : List Root}

theorem isAlive_iff (h : m.Hosts l classes bodies) (name : String) :
    m.isAlive name = true ↔ ∃ c ∈ classes, c.name = name := by
  rw [← h.registered]
  exact h.viewed.agreeing.containsName name

theorem mem_classes (h : m.Hosts l classes bodies) {c : ClassDescriptor} :
    c ∈ classes ↔ m.registry.get? c.id = some c := by
  rw [← h.registered]
  exact h.viewed.mem_registered

theorem rests {fresh : List Ref} (h : m.Hosts l classes bodies) (hrests : Rests fresh m n) :
    n.Hosts l classes (bodies ++ fresh) where
  viewed := hrests.registry ▸ h.viewed
  registered := hrests.registry ▸ h.registered
  loader_eq := h.loader_eq
  present := hrests.registry ▸ h.present
  others := hrests.registry ▸ h.others
  apart := h.apart
  bodies r object hget hclass := by
    rcases hrests.bodies r object hget hclass with hold | hnew
    · exact List.mem_append_left fresh (h.bodies r object hold hclass)
    · exact List.mem_append_right bodies hnew

theorem adding (h : m.Hosts l classes bodies) {c : ClassDescriptor} (hc : m.registry.Fresh c)
    (hloader : c.loader = l.id) :
    (m.withRegistry (m.registry.adding c)).Hosts l (classes ++ [c]) bodies where
  viewed := h.viewed.adding hc
  registered := by
    rw [← h.registered]
    exact Registry.adding_registered m.registry c
  loader_eq d hd := by
    rcases List.mem_append.mp hd with hd | hd
    · exact h.loader_eq d hd
    · rw [List.mem_singleton.mp hd]
      exact hloader
  present := by
    rw [show (m.withRegistry (m.registry.adding c)).registry.graph = m.registry.graph from
      Registry.adding_graph m.registry c]
    exact h.present
  others := by
    rw [show (m.withRegistry (m.registry.adding c)).registry.graph = m.registry.graph from
      Registry.adding_graph m.registry c]
    exact h.others
  apart := h.apart
  bodies := h.bodies

theorem of_newLoader {bootSources : List σ} (h : m.Sound none handles)
    (hregistry : m.registry = .new bootSources) (hempty : ∀ r, m.objects.get? r = none)
    {name : String} {sources : List σ} {held : HeldLoader}
    (hmade : m.newLoader name sources = (.ok held, n)) :
    n.Hosts ⟨held.id, name, false, sources⟩ [] [] ∧
      n.objects.holder? held.id = some held.holder.ref ∧
      n.engine.publisher = m.engine.publisher := by
  have hserves := h.toUpheld.newLoader name sources
  rw [hmade] at hserves
  obtain ⟨hupheld, _, hget, rfl⟩ := hserves.ok held rfl
  have hholder : n.objects.holder? held.id = some held.holder.ref :=
    (hupheld.linked.fits held.holder.ref _ hget).1
  have hsecured : m.Secured handles := by
    intro k r hk
    obtain ⟨-, -, mirrors, hobject⟩ := h.linked.holders k r hk
    rw [hempty] at hobject
    contradiction
  obtain ⟨registry, hnew, hrests⟩ := h.newLoader_rests hsecured hmade
  refine ⟨?_, hholder, hrests.publisher⟩
  rw [hregistry] at hnew
  have hviewed := (Registry.new_viewed bootSources).newLoader? hnew
  have hregistry' : n.registry = registry := hrests.registry
  obtain ⟨-, rfl⟩ := Registry.newLoader?_eq_some hnew
  have hgraph : ∀ k, k ∈ n.registry.graph ↔
      k = ⟨Registry.bootLoader, "bootstrap", true, bootSources⟩ ∨
        k = ⟨held.id, name, false, sources⟩ := by
    intro k
    rw [hregistry']
    simp [Registry.graph, Registry.new]
  constructor
  case viewed => exact hregistry' ▸ hviewed
  case registered =>
    rw [hregistry']
    rfl
  case loader_eq =>
    intro c hc
    contradiction
  case present => exact (hgraph _).mpr (.inr rfl)
  case others =>
    intro k hk
    exact ((hgraph k).mp hk).imp_left fun heq => by rw [heq]
  case apart => exact (hupheld.linked.holders held.id held.holder.ref hholder).1
  case bodies =>
    intro r object hobject hclass
    rcases hrests.bodies r object hobject hclass with hold | hnew
    · have hold' : m.objects.get? r = some object := hold
      rw [hempty] at hold'
      contradiction
    · contradiction

theorem secured (h : m.Hosts l classes bodies) (hm : m.Upheld none handles) {holder : Root}
    (hmem : holder ∈ handles) (hholder : m.objects.holder? l.id = some holder.ref) :
    m.Secured handles := by
  intro k r hk
  obtain ⟨hboot, ⟨k', hk', rfl⟩, -⟩ := hm.linked.holders k r hk
  rcases h.others k' hk' with heq | rfl
  · exact absurd heq hboot
  · rw [hholder, Option.some.injEq] at hk
    exact hk ▸ List.mem_map_of_mem hmem

theorem load (h : m.Hosts l [] bodies) (hm : m.Sound none handles) (hsecured : m.Secured handles)
    {ask : Asking σ ω} (hask : Quiet ask) {name : String} {outside outside' : ω} {held : HeldClass}
    (hloaded : Machine.load ask l.id name (m, outside) = (.ok held, n, outside')) :
    ∃ size, held.descriptor =
        .ofDefinition held.descriptor.id (.ordinary (.object name) l.id size) ∧
      n.Hosts l [held.descriptor] bodies ∧
      (∀ k r, m.objects.holder? k = some r → n.objects.holder? k = some r) ∧
      n.engine.publisher = m.engine.publisher := by
  have hanswer := registry_load_of_load hloaded
  have hrests := hm.load_rests hsecured hask l.id name outside
  rw [hloaded] at hrests
  have hasked : (Registry.asked ask l.id name (m.registry, outside)).1 = m.registry :=
    Registry.asked_of_quiet hask l.id name (m.registry, outside)
  rcases Registry.load_cases ask l.id name (m.registry, outside)
      (hasked.symm ▸ h.viewed.toIndexed) with
    ⟨failure, hfailed, -⟩ | ⟨c, -, -, hget⟩ | ⟨c, size, hok, hnext, hc⟩
  · rw [hfailed] at hanswer
    contradiction
  · rw [hasked] at hget
    have hmem := h.viewed.mem_registered.mpr hget
    rw [h.registered] at hmem
    contradiction
  · rw [hok, Except.ok.injEq] at hanswer
    subst hanswer
    rw [hasked] at hnext hc
    rw [hnext] at hrests
    have hloader : held.descriptor.loader = l.id := by
      rw [hc.eq_ofDefinition]
      rfl
    have hhosts := (h.adding hc.toFresh hloader).rests hrests
    rw [List.append_nil] at hhosts
    exact ⟨size, hc.eq_ofDefinition, hhosts, hrests.holders, hrests.publisher⟩

theorem newArray {c : ClassDescriptor} (h : m.Hosts l [c] bodies) (hm : m.Sound none handles)
    (hsecured : m.Secured handles) {length : Nat} {array : Root}
    (hmade : m.newArray c length = (.ok array, n)) :
    ∃ a hdimensions, a = .ofDefinition a.id (.arrayOver c hdimensions) ∧
      n.Hosts l [c, a] (bodies ++ [array.ref]) ∧
      (∃ mirror elements, n.objects.get? array.ref = some (.arrayOf a.id mirror elements)) ∧
      n.engine.publisher = m.engine.publisher := by
  obtain ⟨a, mirror, elements, hderived, hobject⟩ := hm.toUpheld.class_of_newArray hmade
  have hrests := hm.newArray_rests hsecured c length
  rw [hmade] at hrests
  have hget := h.mem_classes.mp (List.mem_singleton_self c)
  obtain ⟨c', hget', hsteps⟩ := Registry.deriveArray_of_ok (congrArg Prod.fst hderived)
  obtain rfl : c' = c := Option.some.inj (hget'.symm.trans hget)
  rw [hsteps] at hderived
  rcases Registry.deriveOne_cases h.viewed.toIndexed c' with
    ⟨e, heq⟩ | ⟨d, heq, -⟩ | ⟨d, hdimensions, heq, hd⟩
  · rw [Registry.deriveSteps_of_error heq] at hderived
    obtain ⟨hfailed, -⟩ := Prod.mk.inj hderived
    contradiction
  · -- the only class has fewer dimensions than an array of it
    obtain ⟨-, hbound, hfound, hkind⟩ := h.viewed.toIndexed.found_of_deriveOne heq
    have hmem := h.viewed.mem_registered.mpr (h.viewed.toIndexed.lookupIn?_eq_some.mp hfound).1
    rw [h.registered] at hmem
    obtain rfl := List.mem_singleton.mp hmem
    have hdimensions : d.dimensions = d.dimensions + 1 := by
      conv_lhs => rw [ClassDescriptor.dimensions, ClassDescriptor.array?, hkind]
      rfl
    omega
  · rw [Registry.deriveSteps_of_ok heq] at hderived
    obtain ⟨hok, hregistry⟩ := Prod.mk.inj hderived
    obtain rfl := Except.ok.inj hok
    rw [← hregistry] at hrests
    have hloader : d.loader = l.id := by
      rw [hd.eq_ofDefinition]
      exact h.loader_eq c' (List.mem_singleton_self c')
    exact ⟨d, hdimensions, hd.eq_ofDefinition, (h.adding hd.toFresh hloader).rests hrests,
      ⟨mirror, elements, hobject⟩, hrests.publisher⟩

section Collections

variable {report : CycleReport σ}

theorem spared (h : m.Hosts l classes bodies) (hm : m.Upheld none handles) {root : Root}
    (hroot : root ∈ handles) {object : Object} (hget : m.objects.get? root.ref = some object)
    {id : ClassId} (hclass : object.class? = some id) : m.Spared := by
  intro k hk
  rcases h.others k hk with hboot | rfl
  · rw [hboot]
    exact hm.linked.keeps_boot
  · obtain ⟨c, -, hc, -⟩ := hm.linked.mirror_of_class? hget hclass
    have hmem : c ∈ classes := by
      rw [← h.registered]
      exact hm.linked.coherent.mem_registered_of_get? hc
    rw [← h.loader_eq c hmem]
    exact hm.linked.keeps_of_class? (hm.linked.closes_reaches _) (hm.reaches_root hroot) hget
      hclass hc

theorem get?_collect (h : m.Hosts l classes bodies) (hm : m.Sound none handles) (hspared : m.Spared)
    (hheld : bodies ⊆ handles.map (·.ref)) (hcollect : m.collect = (.ok report, n)) (r : Ref)
    (object : Object) : n.objects.get? r = some object ↔ m.objects.get? r = some object := by
  rw [(hm.collect_frees hspared hcollect).get?_eq_some]
  refine and_iff_right_of_imp fun hget => ?_
  by_cases hclass : object.class? = none
  · exact hm.toUpheld.reached_metadata hspared hget hclass
  · obtain ⟨root, hroot, rfl⟩ := List.mem_map.mp (hheld (h.bodies r object hget hclass))
    exact hm.toUpheld.reaches_root hroot

theorem get?_collect_strong (h : m.Hosts l classes bodies) (hm : m.Sound none [])
    (hkept : m.config.classUnloading = false)
    (hbodies : ∀ r ∈ bodies, ∀ object, m.objects.get? r = some object → object.class? ≠ none)
    (hcollect : m.collect = (.ok report, n)) (r : Ref) (object : Object) :
    n.objects.get? r = some object ↔ m.objects.get? r = some object ∧ r ∉ bodies := by
  rw [(hm.collect_spares hkept hcollect).2.get?_eq_some]
  refine and_congr_right fun hget => ?_
  constructor
  · rintro (hclass | hreaches) hr
    · exact hbodies r hr object hget hclass
    · exact Heap.not_reaches_nil r hreaches
  · intro hr
    by_contra hneither
    exact hr (h.bodies r object hget fun hclass => hneither (.inl hclass))

theorem not_reached (h : m.Hosts l classes bodies) (hm : m.Sound none [])
    (hunloading : m.config.classUnloading = true) (r : Ref) : ¬ m.Reached r := by
  have hfrozen : m.objects.heap.frozen = [] := by
    rw [List.eq_nil_iff_forall_not_mem]
    intro x hx
    obtain ⟨id, c, -, hc, hboot⟩ := (hm.linked.frozen x).mp hx
    have hmem : c ∈ classes := by
      rw [← h.registered]
      exact hm.linked.coherent.mem_registered_of_get? hc
    exact h.apart ((h.loader_eq c hmem).symm.trans hboot)
  rw [hm.reached_iff hunloading, Reachable, hfrozen]
  exact Heap.not_reaches_nil r

theorem collect_empties (h : m.Hosts l classes bodies) (hm : m.Sound none [])
    (hunloading : m.config.classUnloading = true) (hcollect : m.collect = (.ok report, n)) :
    Cycle.ArraysFirst report ∧ report.unloaded.Nodup ∧
      (∀ c, c ∈ report.unloaded ↔ c ∈ classes) ∧
      report.unloadedLoaders = [l] ∧ n.registry.Viewed ∧ n.registry.registered = [] ∧
      ∀ r, n.objects.get? r = none := by
  obtain ⟨-, -, hculled, hswept⟩ := hm.collected hcollect
  obtain ⟨engine, after, dead, loaders, hbefore, -, hevict, hafter, -⟩ := hm.collect_evicts hcollect
  have hcoherent : engine.registry.Coherent := hbefore.symm ▸ hm.linked.coherent
  have hlost : ¬ m.objects.Keeps m.Reached l.id := by
    intro hkept
    rcases hm.linked.held l h.present with hboot | hpending | ⟨r, hholder⟩
    · exact h.apart hboot
    · contradiction
    · exact h.not_reached hm hunloading r (hkept r hholder)
  have hunloaded : ∀ c, c ∈ report.unloaded ↔ c ∈ classes := by
    intro c
    rw [hculled.unloaded, ← h.mem_classes]
    refine and_iff_left_of_imp fun hc => ?_
    rw [h.loader_eq c hc]
    exact hlost
  have hviewed : n.registry.Viewed := by
    have hevicted := Cycle.viewed_evict engine (hbefore.symm ▸ h.viewed)
      (m.engine.coordinator.started + 1) m.registry.snapshot.size dead loaders
    rw [hevict] at hevicted
    rw [hafter]
    exact hevicted
  have hloaders : report.unloadedLoaders = [l] := by
    have hnodup := Cycle.evict_loaders_nodup engine hcoherent.toIndexed (m.engine.coordinator.started + 1)
      m.registry.snapshot.size dead loaders
    rw [hevict] at hnodup
    rw [← List.perm_singleton, List.perm_ext_iff_of_nodup hnodup.of_map (List.nodup_singleton l)]
    intro k
    rw [hculled.unloadedLoaders, List.mem_singleton]
    constructor
    · rintro ⟨hk, hdead⟩
      refine (h.others k hk).resolve_left fun hboot => hdead ?_
      rw [hboot]
      exact hm.linked.keeps_boot
    · rintro rfl
      exact ⟨h.present, hlost⟩
  refine ⟨?_, ?_, hunloaded, hloaders, hviewed, ?_, ?_⟩
  · have hfirst := Cycle.evict_arraysFirst engine hcoherent (m.engine.coordinator.started + 1)
      m.registry.snapshot.size dead loaders
    rw [hevict] at hfirst
    exact hfirst
  · have hevicted := (Cycle.evict_spec engine hcoherent.toIndexed
      (m.engine.coordinator.started + 1) m.registry.snapshot.size dead loaders).1
    rw [hevict] at hevicted
    exact hevicted.nodup
  · rw [List.eq_nil_iff_forall_not_mem]
    intro c hc
    obtain ⟨hget, hkept⟩ := (hculled.get?_eq_some c.id c).mp (hviewed.mem_registered.mp hc)
    rw [h.loader_eq c (h.mem_classes.mpr hget)] at hkept
    exact hlost hkept
  · intro r
    rw [Option.eq_none_iff_forall_not_mem]
    intro object hobject
    exact h.not_reached hm hunloading r ((hswept.get?_eq_some r object).mp hobject).1

end Collections

end Hosts

end Machine
end Metaspace
