import Metaspace.Proofs.Machine.Session

set_option autoImplicit false

namespace Metaspace

variable {σ : Type}

namespace Machine

/-- What can be reached from the roots that are held and from the frozen references. -/
def Reachable (m : Machine σ) (handles : List Root) (r : Ref) : Prop :=
  m.objects.heap.Reaches (handles.map (·.ref) ++ m.objects.heap.frozen) r

/-- A machine before and after a collection that unloads exactly what is out of reach. -/
structure Unloads (m : Machine σ) (handles : List Root) (report : CycleReport σ)
    (after : Machine σ) : Prop where
  boot : ∃ l ∈ after.registry.graph, l.id = Registry.bootLoader
  older : after.registry.graph ⊆ m.registry.graph
  /-- Every other loader has its holder, and stays exactly if that can be reached. -/
  loaders : ∀ l ∈ m.registry.graph, l.id ≠ Registry.bootLoader → ∃ r mirrors,
    m.objects.holder? l.id = some r ∧ m.objects.get? r = some (.holderOf l.id mirrors) ∧
      (l ∈ after.registry.graph ↔ m.Reachable handles r)
  survivors : ∀ l ∈ after.registry.graph,
    after.registry.classesOf l.id = m.registry.classesOf l.id
  unloaded : ∀ l ∈ m.registry.graph, l ∉ after.registry.graph →
    l ∈ report.unloadedLoaders ∧ after.registry.classesOf l.id = [] ∧
      ∀ c ∈ m.registry.classesOf l.id, c ∈ report.unloaded ∧ after.registry.get? c.id = none
  heap : ∀ r object, after.objects.get? r = some object ↔
    m.Reachable handles r ∧ m.objects.get? r = some object

section Sound

variable {handles : List Root} {m : Machine σ}

theorem Sound.reached_iff {pending : Option LoaderId} (h : m.Sound pending handles)
    (hunloading : m.config.classUnloading = true) (r : Ref) :
    m.Reached r ↔ m.Reachable handles r := by
  have hmem : ∀ x, x ∈ Reachability.startsOf m.objects (!m.config.classUnloading) ↔
      x ∈ handles.map (·.ref) ++ m.objects.heap.frozen := by
    intro x
    unfold Reachability.startsOf ObjectHeap.markRoots
    simp only [hunloading, Bool.not_true, List.mem_append, h.holds.mem_refs]
    simp
  constructor
  · exact Heap.Reaches.mono fun x hx => (hmem x).mp hx
  · exact Heap.Reaches.mono fun x hx => (hmem x).mpr hx

theorem classesOf_culled {before after : Registry σ} {keeps : LoaderId → Prop}
    {report : CycleReport σ} (h : before.Coherent) (hculled : before.Culled keeps report after)
    {l : LoaderId} (hkept : keeps l) : after.classesOf l = before.classesOf l := by
  rw [h.classesOf_eq, hculled.coherent.classesOf_eq]
  refine IdTable.eq_of_ascending (hculled.coherent.ascending.filter _) (h.ascending.filter _) ?_
  intro c
  rw [← hculled.coherent.classesOf_eq, ← h.classesOf_eq, hculled.coherent.mem_classesOf,
    h.mem_classesOf, hculled.get?_eq_some]
  constructor
  · rintro ⟨⟨hget, -⟩, hloader⟩
    exact ⟨hget, hloader⟩
  · rintro ⟨hget, rfl⟩
    exact ⟨⟨hget, hkept⟩, rfl⟩

theorem Sound.unloads (h : m.Sound none handles) (hunloading : m.config.classUnloading = true)
    {report : CycleReport σ} {after : Machine σ}
    (hculled : m.registry.Culled (m.objects.Keeps m.Reached) report after.registry)
    (hswept : ObjectHeap.Swept m.registry m.objects m.Reached after.objects) :
    m.Unloads handles report after := by
  have hcoherent := h.linked.coherent
  have hdead : ∀ l ∈ m.registry.graph, l ∉ after.registry.graph →
      ¬ m.objects.Keeps m.Reached l.id := by
    intro l hl hgone hkept
    exact hgone ((hculled.mem_graph l).mpr ⟨hl, hkept⟩)
  constructor
  case boot => exact hculled.coherent.roster.boot
  case older => exact fun l hl => ((hculled.mem_graph l).mp hl).1
  case loaders =>
    intro l hl hboot
    obtain ⟨r, hholder⟩ : ∃ r, m.objects.holder? l.id = some r := by
      rcases h.linked.held l hl with heq | hpending | hheld
      · exact absurd heq hboot
      · contradiction
      · exact hheld
    obtain ⟨-, -, mirrors, hget⟩ := h.linked.holders l.id r hholder
    refine ⟨r, mirrors, hholder, hget, ?_⟩
    rw [hculled.mem_graph, ← h.reached_iff hunloading]
    constructor
    · rintro ⟨-, hkept⟩
      exact hkept r hholder
    · intro hr
      refine ⟨hl, ?_⟩
      intro r' hholder'
      rw [hholder, Option.some.injEq] at hholder'
      exact hholder' ▸ hr
  case survivors =>
    intro l hl
    exact classesOf_culled hcoherent hculled ((hculled.mem_graph l).mp hl).2
  case unloaded =>
    intro l hl hgone
    have hlost := hdead l hl hgone
    refine ⟨(hculled.unloadedLoaders l).mpr ⟨hl, hlost⟩, ?_, ?_⟩
    · rw [List.eq_nil_iff_forall_not_mem]
      intro c hc
      obtain ⟨hget, hloader⟩ := hculled.coherent.mem_classesOf.mp hc
      exact hlost (hloader ▸ ((hculled.get?_eq_some c.id c).mp hget).2)
    · intro c hc
      obtain ⟨hget, hloader⟩ := hcoherent.mem_classesOf.mp hc
      rw [← hloader] at hlost
      refine ⟨(hculled.unloaded c).mpr ⟨hget, hlost⟩, ?_⟩
      rw [Option.eq_none_iff_forall_not_mem]
      intro d hd
      obtain ⟨hd, hkept⟩ := (hculled.get?_eq_some c.id d).mp hd
      rw [hget, Option.some.injEq] at hd
      exact hlost (hd ▸ hkept)
  case heap =>
    intro r object
    rw [hswept.get?_eq_some, h.reached_iff hunloading]

end Sound

end Machine

/-- With class unloading, a full collection succeeds in every session and unloads exactly what is
out of reach. -/
theorem Session.Reached.collect_unloads {config : Config} {bootSources : List σ} {s : Session σ}
    (h : Reached config bootSources s) (hunloading : config.classUnloading = true) :
    ∃ report after, s.machine.collect = (.ok report, after) ∧
      s.machine.Unloads s.handles report after := by
  obtain ⟨hsound, hconfig⟩ := h.sound
  obtain ⟨report, after, hcollect, -, -, hculled, hswept⟩ := hsound.machine.collect
  refine ⟨report, after, hcollect, hsound.machine.unloads ?_ hculled hswept⟩
  rw [hconfig]
  exact hunloading

/-- The array keeps its class's loader, which is reached over two mirrors. -/
theorem Session.collect_keeps_loader_of_array :
    ∃ report after, holdingArray.machine.collect = (.ok report, after) ∧
      ∃ l ∈ after.registry.graph, l.id ≠ Registry.bootLoader := by
  obtain ⟨report, after, hcollect, hunloads⟩ := holdingArray_reached.collect_unloads rfl
  obtain ⟨l, hl, hid⟩ : ∃ l ∈ holdingArray.machine.registry.graph, l.id = ⟨2, by decide⟩ := by
    decide +kernel
  have hboot : l.id ≠ Registry.bootLoader := by
    rw [hid]
    decide
  obtain ⟨r, mirrors, hholder, -, hstays⟩ := hunloads.loaders l hl hboot
  refine ⟨report, after, hcollect, l, hstays.mpr ?_, hboot⟩
  have hfound : holdingArray.machine.objects.holder? ⟨2, by decide⟩ = some ⟨0, 0⟩ := by
    decide +kernel
  rw [hid, hfound, Option.some.injEq] at hholder
  subst hholder
  have hget : holdingArray.machine.objects.get? ⟨3, 0⟩ =
      some (.arrayOf ⟨2, by decide⟩ ⟨2, 0⟩ #[none]) := by
    decide +kernel
  have hget' : holdingArray.machine.objects.get? ⟨2, 0⟩ =
      some (.mirrorOf ⟨2, by decide⟩ (some ⟨0, 0⟩) (some ⟨1, 0⟩)) := by
    decide +kernel
  have harray : holdingArray.machine.Reachable holdingArray.handles ⟨3, 0⟩ :=
    .start (by decide +kernel) (by decide +kernel)
  have hmirror : holdingArray.machine.Reachable holdingArray.handles ⟨2, 0⟩ :=
    .step harray hget (by decide) (by decide +kernel)
  exact .step hmirror hget' (by decide) (by decide +kernel)

end Metaspace
