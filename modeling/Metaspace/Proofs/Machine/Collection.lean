import Metaspace.Machine.Basic
import Metaspace.Proofs.Machine.Liveness
import Metaspace.Proofs.Unload.Hearing

set_option autoImplicit false

namespace Metaspace

variable {σ : Type}

theorem getElem?_foldl_erase {κ β : Type} [DecidableEq κ] [Ord κ] [Std.TransOrd κ]
    [Std.LawfulEqOrd κ] (ids : List κ) (t : Std.TreeMap κ β) (k : κ) :
    (ids.foldl (fun t id => t.erase id) t)[k]? = if k ∈ ids then none else t[k]? := by
  induction ids generalizing t with
  | nil => simp
  | cons id ids ih =>
    rw [List.foldl_cons, ih, Std.TreeMap.getElem?_erase]
    simp only [List.mem_cons, Std.LawfulEqOrd.compare_eq_iff_eq]
    by_cases hk : k = id
    · simp [hk]
    · simp [hk, Ne.symm hk]

theorem mem_values_iff {κ β : Type} [Ord κ] [Std.TransOrd κ] [Std.LawfulEqOrd κ]
    {t : Std.TreeMap κ β} {value : β} : value ∈ t.values ↔ ∃ k : κ, t[k]? = some value := by
  have hvalues : t.values = t.toList.map (·.2) := by
    have hmodel := Std.DTreeMap.Internal.Impl.Const.toList_eq_toListModel_map (t := t.inner.inner)
    show t.inner.inner.values = (Std.DTreeMap.Internal.Impl.Const.toList t.inner.inner).map _
    rw [Std.DTreeMap.Internal.Impl.values_eq_map_snd, hmodel, List.map_map]
    rfl
  rw [hvalues, List.mem_map]
  constructor
  · rintro ⟨⟨k, _⟩, hmem, rfl⟩
    exact ⟨k, Std.TreeMap.mem_toList_iff_getElem?_eq_some.mp hmem⟩
  · rintro ⟨k, hget⟩
    exact ⟨(k, value), Std.TreeMap.mem_toList_iff_getElem?_eq_some.mpr hget, rfl⟩

namespace Registry

/-- A registry before and after the loaders that are not kept were taken out with all their
classes. -/
structure Culled (before : Registry σ) (keeps : LoaderId → Prop) (report : CycleReport σ)
    (after : Registry σ) : Prop where
  coherent : after.Coherent
  outgrows : Outgrows before after
  get?_eq_some : ∀ id c, after.get? id = some c ↔ before.get? id = some c ∧ keeps c.loader
  mem_graph : ∀ l, l ∈ after.graph ↔ l ∈ before.graph ∧ keeps l.id
  unloaded : ∀ c, c ∈ report.unloaded ↔ before.get? c.id = some c ∧ ¬ keeps c.loader
  unloadedLoaders : ∀ l, l ∈ report.unloadedLoaders ↔ l ∈ before.graph ∧ ¬ keeps l.id

theorem Culled.of_evicted {before after : Registry σ} (h : before.Coherent)
    {keeps : LoaderId → Prop} (hboot : keeps bootLoader) {classes : ClassId → Prop}
    {loaders : LoaderId → Prop} {report : CycleReport σ}
    (hclasses : ∀ id, before.Falls classes id ↔ ∃ c, before.get? id = some c ∧ ¬ keeps c.loader)
    (hloaders : ∀ l ∈ before.graph, loaders l.id ↔ ¬ keeps l.id)
    (hevicted : Cycle.Evicted before classes loaders report after) :
    Culled before keeps report after := by
  have hfalls : ∀ {id c}, before.get? id = some c →
      (before.Falls classes id ↔ ¬ keeps c.loader) := by
    intro id c hget
    rw [hclasses]
    constructor
    · rintro ⟨d, hd, hdead⟩
      rw [hget, Option.some.injEq] at hd
      rw [hd]
      exact hdead
    · intro hdead
      exact ⟨c, hget, hdead⟩
  have hget : ∀ id c, after.get? id = some c ↔ before.get? id = some c ∧ keeps c.loader := by
    intro id c
    rw [hevicted.get?_eq_some]
    refine and_congr_right fun hc => ?_
    rw [hfalls hc, not_not]
  have hdropped : ∀ l, l ∈ report.unloadedLoaders ↔ l ∈ before.graph ∧ ¬ keeps l.id := by
    intro l
    rw [hevicted.unloadedLoaders]
    constructor
    · rintro ⟨hl, hdead, -⟩
      exact ⟨hl, (hloaders l hl).mp hdead⟩
    · rintro ⟨hl, hdead⟩
      refine ⟨hl, (hloaders l hl).mpr hdead, ?_, ?_⟩
      · rw [Bool.eq_false_iff]
        intro hpermanent
        rw [(h.roster.permanent l hl).mp hpermanent] at hdead
        exact hdead hboot
      · intro c hc hloader
        have hkept := ((hget c.id c).mp (hevicted.indexed.mem_registered.mp hc)).2
        rw [hloader] at hkept
        exact hdead hkept
  refine ⟨hevicted.coherent h, hevicted.outgrows, hget, ?_, ?_, hdropped⟩
  · intro l
    rw [hevicted.graph, hdropped]
    constructor
    · rintro ⟨hl, hstays⟩
      exact ⟨hl, not_not.mp fun hdead => hstays ⟨hl, hdead⟩⟩
    · rintro ⟨hl, hkept⟩
      exact ⟨hl, fun hgone => hgone.2 hkept⟩
  · intro c
    rw [hevicted.unloaded]
    exact and_congr_right fun hc => hfalls hc

end Registry

open Reachability

section Cycle

variable {pending : Option LoaderId} {objects : ObjectHeap}

theorem ObjectHeap.Linked.keeps_strong {registry : Registry σ}
    (h : objects.Linked pending registry) (l : LoaderId) :
    objects.Keeps (reachedBy objects true) l := by
  intro r hholder
  obtain ⟨-, -, mirrors, hget⟩ := h.holders l r hholder
  refine .start ?_ (Heap.contains_of_get? hget)
  unfold startsOf ObjectHeap.markRoots
  simp only [if_true, List.mem_append]
  exact Or.inl (Or.inr (Or.inr (mem_values_iff.mpr ⟨l, hholder⟩)))

/-- What falls when the classes of the loaders that are not kept are given: just these, since an
array class has the loader of its component. -/
theorem ObjectHeap.Linked.falls_iff {registry : Registry σ} (h : objects.Linked pending registry)
    {keeps : LoaderId → Prop} {given : ClassId → Prop}
    (hgiven : ∀ id, given id ↔ ∃ c, registry.get? id = some c ∧ ¬ keeps c.loader) (id : ClassId) :
    registry.Falls given id ↔ ∃ c, registry.get? id = some c ∧ ¬ keeps c.loader := by
  constructor
  · intro hfalls
    induction hfalls with
    | given hid _ => exact (hgiven _).mp hid
    | @array id k c hget hcomponent _ ih =>
      obtain ⟨d, hd, hdead⟩ := ih
      rw [h.kindred id c k d hget hcomponent hd] at hdead
      exact ⟨c, hget, hdead⟩
  · rintro ⟨c, hget, hdead⟩
    exact .given ((hgiven id).mpr ⟨c, hget, hdead⟩) (Option.isSome_iff_exists.mpr ⟨c, hget⟩)

theorem mem_deadClasses_found {registry : Registry σ} (h : objects.Linked pending registry)
    (hsound : objects.heap.Sound) (strong : Bool) (id : ClassId) :
    id ∈ Cycle.deadClasses (registry.snapshot.classes.map fun c =>
        (c, (foundBy objects registry strong).liveness registry c
          (registry.snapshot.loader? c.loader))) ↔
      ∃ c, registry.get? id = some c ∧ ¬ objects.Keeps (reachedBy objects strong) c.loader := by
  rw [Cycle.mem_deadClasses_map]
  constructor
  · rintro ⟨c, hc, rfl, hdead⟩
    have hget := h.coherent.mem_registered.mp hc
    refine ⟨c, hget, ?_⟩
    rw [← isLive_iff h hsound hget, hdead]
    exact Bool.false_ne_true
  · rintro ⟨c, hget, hdead⟩
    refine ⟨c, h.coherent.mem_registered_of_get? hget, h.coherent.id_of_get? hget, ?_⟩
    rw [← isLive_iff h hsound (h.coherent.get?_self hget)] at hdead
    exact Bool.eq_false_iff.mpr hdead

theorem mem_deadLoaders_found {registry : Registry σ} (h : objects.Linked pending registry)
    (hsound : objects.heap.Sound) (strong : Bool) {l : Loader σ} (hl : l ∈ registry.graph) :
    l.id ∈ Cycle.deadLoaders ((registry.snapshot.loaders.filter fun l =>
        !(l.permanent || registry.isUnloading l.id)).map fun l =>
          (l, (foundBy objects registry strong).loaderAlive registry l)) ↔
      ¬ objects.Keeps (reachedBy objects strong) l.id := by
  rw [Cycle.mem_deadLoaders_map]
  constructor
  · rintro ⟨asked, hasked, hid, hdead⟩
    have hgraph : asked ∈ registry.graph := (List.mem_filter.mp hasked).1
    rw [← hid, ← loaderAlive_iff h hsound hgraph, hdead]
    exact Bool.false_ne_true
  · intro hdead
    refine ⟨l, List.mem_filter.mpr ⟨hl, ?_⟩, rfl, ?_⟩
    · have hpermanent : l.permanent = false := by
        rw [Bool.eq_false_iff]
        intro hpermanent
        rw [(h.coherent.roster.permanent l hl).mp hpermanent] at hdead
        exact hdead h.keeps_boot
      rw [hpermanent, h.coherent.isUnloading_eq_false hl]
      rfl
    · rw [← loaderAlive_iff h hsound hl] at hdead
      exact Bool.eq_false_iff.mpr hdead

theorem decide_heapOracle (engine : Engine σ) (h : objects.Linked pending engine.registry)
    (hsound : objects.heap.Sound) :
    ∃ classes loaders,
      Cycle.decide (heapOracle engine.classUnloading) engine.registry.snapshot
          (engine, objects.mark (!engine.classUnloading),
            foundBy objects engine.registry (!engine.classUnloading)) =
        (.ok (classes, loaders), engine, objects.mark (!engine.classUnloading),
          foundBy objects engine.registry (!engine.classUnloading)) ∧
      (∀ id, engine.registry.Falls (· ∈ classes) id ↔
        ∃ c, engine.registry.get? id = some c ∧
          ¬ objects.Keeps (reachedBy objects (!engine.classUnloading)) c.loader) ∧
      (∀ l ∈ engine.registry.graph, l.id ∈ loaders ↔
        ¬ objects.Keeps (reachedBy objects (!engine.classUnloading)) l.id) := by
  cases hunloading : engine.classUnloading with
  | false =>
    refine ⟨[], [], by simp [Cycle.decide, hunloading], ?_, ?_⟩
    · refine h.falls_iff ?_
      intro id
      simp [h.keeps_strong]
    · intro l _
      simp [h.keeps_strong]
  | true =>
    let state : Engine σ × HeapView :=
      (engine, objects.mark false, foundBy objects engine.registry false)
    have hclasses : Cycle.ClassAnswers (heapOracle true) engine.registry.snapshot
        engine.registry.snapshot.classes state _ state := .of_still (fun _ => rfl) _
    have hloaders : Cycle.LoaderAnswers (heapOracle true) engine.registry.snapshot.loaders state _
        state := .of_still (fun _ => rfl) _
    have hdecide := Cycle.decide_of_answers hunloading hclasses hloaders
    refine ⟨_, _, hdecide, ?_, fun l hl => mem_deadLoaders_found h hsound false hl⟩
    intro id
    rw [Cycle.falls_condemned_iff h.coherent.toLayered h.coherent.toLayered (.refl _)]
    exact h.falls_iff (mem_deadClasses_found h hsound false) id

theorem run_heapOracle_eq (engine : Engine σ) (h : objects.Linked pending engine.registry)
    (hsound : objects.heap.Sound) (cycle : Nat) (found : Reachability) :
    ∃ (evicting : Engine σ) (classes : List ClassId) (loaders : List LoaderId),
      evicting.registry = engine.registry ∧ evicting.publisher = engine.publisher ∧
      evicting.classUnloading = engine.classUnloading ∧
      (∀ id, engine.registry.Falls (· ∈ classes) id ↔
        ∃ c, engine.registry.get? id = some c ∧
          ¬ objects.Keeps (reachedBy objects (!engine.classUnloading)) c.loader) ∧
      (∀ l ∈ engine.registry.graph, l.id ∈ loaders ↔
        ¬ objects.Keeps (reachedBy objects (!engine.classUnloading)) l.id) ∧
      Cycle.run (heapOracle engine.classUnloading) cycle (engine, objects, found) =
        (.ok (Cycle.evict evicting cycle engine.registry.snapshot.size classes loaders).1,
          (Cycle.evict evicting cycle engine.registry.snapshot.size classes loaders).2,
          (objects.mark (!engine.classUnloading)).sweep
            ((Cycle.evict evicting cycle engine.registry.snapshot.size classes
              loaders).1.unloaded.map (·.id))
            ((Cycle.evict evicting cycle engine.registry.snapshot.size classes
              loaders).1.unloadedLoaders.map (·.id)),
          foundBy objects engine.registry (!engine.classUnloading)) := by
  obtain ⟨classes, loaders, hdecide, hclasses, hloaders⟩ := decide_heapOracle
    { engine with coordinator := engine.coordinator.setPhase .deciding } h hsound
  let deciding := { engine with coordinator := engine.coordinator.setPhase .deciding }
  let evicting := { deciding with coordinator := deciding.coordinator.setPhase .evicting }
  refine ⟨evicting, classes, loaders, rfl, rfl, rfl, hclasses, hloaders, ?_⟩
  have hbegin : (heapOracle engine.classUnloading).beginCycle engine.registry.snapshot
      (engine, objects, found) = (.ok (), engine, objects.mark (!engine.classUnloading),
        foundBy objects engine.registry (!engine.classUnloading)) := rfl
  unfold Cycle.run
  simp only [hbegin, Cycle.setPhase]
  rw [hdecide]
  rfl

theorem run_heapOracle (engine : Engine σ) (h : objects.Linked pending engine.registry)
    (hsound : objects.heap.Sound) (cycle : Nat) (found : Reachability) :
    ∃ (report : CycleReport σ) (next : Engine σ),
      Cycle.run (heapOracle engine.classUnloading) cycle (engine, objects, found) =
        (.ok report, next,
          (objects.mark (!engine.classUnloading)).sweep (report.unloaded.map (·.id))
            (report.unloadedLoaders.map (·.id)),
          foundBy objects engine.registry (!engine.classUnloading)) ∧
      next.classUnloading = engine.classUnloading ∧
      engine.registry.Culled (objects.Keeps (reachedBy objects (!engine.classUnloading))) report
        next.registry := by
  obtain ⟨evicting, classes, loaders, hregistry, -, hunloading, hclasses, hloaders, hrun⟩ :=
    run_heapOracle_eq engine h hsound cycle found
  have hcoherent : evicting.registry.Coherent := hregistry.symm ▸ h.coherent
  obtain ⟨hevicted, -⟩ := Cycle.evict_spec evicting hcoherent.toIndexed cycle engine.registry.snapshot.size
    classes loaders
  rw [hregistry] at hevicted
  exact ⟨_, _, hrun, hunloading, .of_evicted h.coherent h.keeps_boot hclasses hloaders hevicted⟩

end Cycle

namespace Machine

def entered (m : Machine σ) : Engine σ :=
  { m.engine with
    coordinator := { m.engine.coordinator with
      phase := .scanning
      started := m.engine.coordinator.started + 1 } }

theorem collect_of_run {m : Machine σ} (hidle : m.engine.coordinator.phase = .idle)
    {report : CycleReport σ} {next : Engine σ} {objects : ObjectHeap} {found : Reachability}
    (hrun : Cycle.run (heapOracle m.config.classUnloading) (m.engine.coordinator.started + 1)
      (m.entered, m.objects, m.found) = (.ok report, next, objects, found)) :
    m.collect = (.ok report,
      { m with
        engine :=
          { next with
            coordinator := next.coordinator.finish (m.engine.coordinator.started + 1) (.ok report) }
        objects
        found }) := by
  have henter : m.engine.coordinator.enter = (.starts (m.engine.coordinator.started + 1),
      m.entered.coordinator) := by
    simp [Coordinator.enter, hidle, entered]
  unfold Machine.collect trigger
  simp only [henter]
  rw [show ({ m.engine with coordinator := m.entered.coordinator } : Engine σ) = m.entered from rfl,
    hrun]
  rfl

end Machine
end Metaspace
