import Metaspace.Proofs.Registry.Evolution
import Metaspace.Proofs.Registry.Snapshots
import Metaspace.Unload.Cycle

/-!
What a cycle evicts. The closure over the snapshot and the closure over the class table come to one
least set: the classes that were answered dead and the arrays over them, as far as they are still
registered when the cycle evicts.
-/

set_option autoImplicit false

namespace Metaspace

namespace Registry

variable {σ : Type} {registry : Registry σ}

theorem Falls.of_given {given given' : ClassId → Prop}
    (h : ∀ id, given id → registry.contains id = true → registry.Falls given' id) {id : ClassId}
    (hfalls : registry.Falls given id) : registry.Falls given' id := by
  induction hfalls with
  | given hgiven hcontains => exact h _ hgiven hcontains
  | array hget hcomponent _ ih => exact .array hget hcomponent ih

end Registry

namespace Cycle

variable {σ ω : Type}

@[simp] theorem setPhase_classUnloading (phase : Phase) (state : Engine σ × ω) :
    (setPhase phase state).1.classUnloading = state.1.classUnloading := rfl

@[simp] theorem setPhase_outside (phase : Phase) (state : Engine σ × ω) :
    (setPhase phase state).2 = state.2 := rfl

theorem mem_condemned_of_mem {snapshot : Snapshot σ} {dead : List ClassId} {id : ClassId}
    (h : id ∈ dead) : id ∈ condemned snapshot dead := by
  unfold condemned
  rw [Std.TreeSet.mem_toList]
  refine saturate_keeps (P := fun s : Std.TreeSet ClassId => id ∈ s) ?_ ?_
  · intro s c _ _ hid
    exact Std.TreeSet.mem_insert.mpr (Or.inr hid)
  · rw [Std.TreeSet.mem_ofList, List.contains_iff_mem]
    exact h

/-- A condemned class that is still registered falls with the dead ones: its component, which it was
condemned for, is still registered too and is the same class. -/
theorem falls_of_mem_condemned {before now : Registry σ} (hbefore : before.Layered)
    (hnow : now.Layered) (hgrows : Registry.Outgrows before now) {dead : List ClassId}
    {id : ClassId} (hid : id ∈ condemned before.snapshot dead)
    (hcontains : now.contains id = true) :
    now.Falls (· ∈ dead) id := by
  unfold condemned at hid
  rw [Std.TreeSet.mem_toList] at hid
  refine saturate_keeps (P := fun s : Std.TreeSet ClassId =>
    ∀ {id}, id ∈ s → now.contains id = true → now.Falls (· ∈ dead) id) ?_ ?_ hid hcontains
  · intro s c hc hready hs j hj hcontains
    rw [Std.TreeSet.mem_insert, Std.LawfulEqOrd.compare_eq_iff_eq] at hj
    rcases hj with rfl | hj
    · have hget := hbefore.mem_registered.mp hc
      obtain ⟨c', hnowget⟩ := Option.isSome_iff_exists.mp hcontains
      obtain rfl : c = c' := by
        have hsame := hgrows.get?_before (IdTable.issued_of_get? hget) hnowget
        rw [hget, Option.some.injEq] at hsame
        exact hsame
      unfold losesComponent at hready
      rw [Option.any_eq_true] at hready
      obtain ⟨component, hcomponent, hlost⟩ := hready
      obtain ⟨a, harray, rfl⟩ := Option.map_eq_some_iff.mp hcomponent
      obtain ⟨_, hthen, -⟩ := hbefore.layers c.id c a hget harray
      obtain ⟨_, hstill, -⟩ := hnow.layers c.id c a hnowget harray
      rw [Bool.or_eq_true] at hlost
      rcases hlost with hmem | hnone
      · refine .array hnowget hcomponent (hs (Std.TreeSet.mem_iff_contains.mpr hmem) ?_)
        exact Option.isSome_iff_exists.mpr ⟨_, hstill⟩
      · rw [hbefore.get?_snapshot, hthen] at hnone
        contradiction
    · exact hs hj hcontains
  · intro j hj hcontains
    rw [Std.TreeSet.mem_ofList, List.contains_iff_mem] at hj
    exact .given hj hcontains

theorem falls_condemned_iff {before now : Registry σ} (hbefore : before.Layered)
    (hnow : now.Layered) (hgrows : Registry.Outgrows before now) (dead : List ClassId)
    (id : ClassId) :
    now.Falls (· ∈ condemned before.snapshot dead) id ↔ now.Falls (· ∈ dead) id := by
  constructor
  · apply Registry.Falls.of_given
    intro j hj hcontains
    exact falls_of_mem_condemned hbefore hnow hgrows hj hcontains
  · apply Registry.Falls.of_given
    intro j hj hcontains
    exact .given (mem_condemned_of_mem hj) hcontains

/-- The report and the registry when the given classes and loaders are evicted. -/
structure Evicted (before : Registry σ) (classes : ClassId → Prop) (loaders : LoaderId → Prop)
    (report : CycleReport σ) (after : Registry σ) : Prop where
  indexed : after.Indexed
  outgrows : Registry.Outgrows before after
  unloaded : ∀ c, c ∈ report.unloaded ↔
    before.get? c.id = some c ∧ before.Falls classes c.id
  nodup : report.unloaded.Nodup
  get?_eq_some : ∀ id c, after.get? id = some c ↔
    before.get? id = some c ∧ ¬ before.Falls classes id
  unloadedLoaders : ∀ l, l ∈ report.unloadedLoaders ↔
    l ∈ before.graph ∧ loaders l.id ∧ after.Droppable l
  graph : ∀ l, l ∈ after.graph ↔ l ∈ before.graph ∧ l ∉ report.unloadedLoaders

theorem Evicted.layered {before after : Registry σ} {classes : ClassId → Prop}
    {loaders : LoaderId → Prop} {report : CycleReport σ}
    (hevicted : Evicted before classes loaders report after) (h : before.Layered) :
    after.Layered :=
  h.without_falls hevicted.indexed hevicted.get?_eq_some

theorem Evicted.coherent {before after : Registry σ} {classes : ClassId → Prop}
    {loaders : LoaderId → Prop} {report : CycleReport σ}
    (hevicted : Evicted before classes loaders report after) (h : before.Coherent) :
    after.Coherent :=
  h.without_falls hevicted.indexed hevicted.get?_eq_some

theorem evict_spec (engine : Engine σ) (h : engine.registry.Indexed) (cycle scanned : Nat)
    (classes : List ClassId) (loaders : List LoaderId) :
    Evicted engine.registry (· ∈ classes) (· ∈ loaders)
        (evict engine cycle scanned classes loaders).1
        (evict engine cycle scanned classes loaders).2.registry ∧
      ((evict engine cycle scanned classes loaders).1.unloadedLoaders.map (·.id)).Sublist
        loaders := by
  have hremoved := h.removeBatch classes
  have hdropped := hremoved.indexed.unloadLoaders loaders
  unfold evict
  generalize engine.registry.removeBatch classes = batch at hremoved hdropped ⊢
  obtain ⟨removed, rest⟩ := batch
  dsimp only at hremoved hdropped ⊢
  generalize rest.unloadLoaders loaders = drop at hdropped ⊢
  obtain ⟨dropped, after⟩ := drop
  dsimp only at hdropped ⊢
  have hdroppable : ∀ l, rest.Droppable l ↔ after.Droppable l := by
    intro l
    rw [Registry.Droppable, Registry.Droppable, Registry.registered, Registry.registered,
      hdropped.classes_eq]
  refine ⟨⟨hdropped.indexed, hremoved.outgrows.trans hdropped.outgrows, ?_, ?_, ?_, ?_, ?_⟩,
    hdropped.sublist⟩
  · intro c
    rw [List.mem_mergeSort]
    exact hremoved.mem_removed c
  · refine (List.mergeSort_perm _ _).nodup_iff.mpr (hremoved.ascending.imp ?_)
    intro a b hlt heq
    rw [heq] at hlt
    exact Nat.lt_irrefl _ hlt
  · intro id c
    rw [hdropped.get?_eq]
    exact hremoved.get?_eq_some id c
  · intro l
    rw [hdropped.mem_dropped, hremoved.graph_eq, hdroppable]
  · intro l
    rw [hdropped.mem_graph, hdropped.mem_dropped, hremoved.graph_eq]
    constructor
    · rintro ⟨hl, hstays⟩
      exact ⟨hl, fun hgone => hstays hgone.2⟩
    · rintro ⟨hl, hstays⟩
      exact ⟨hl, fun hgone => hstays ⟨hl, hgone⟩⟩

theorem evict_of_nil (engine : Engine σ) (h : engine.registry.Indexed) (cycle scanned : Nat)
    (classes : List ClassId) (loaders : List LoaderId)
    (hclasses : (evict engine cycle scanned classes loaders).1.unloaded = [])
    (hloaders : (evict engine cycle scanned classes loaders).1.unloadedLoaders = []) :
    (evict engine cycle scanned classes loaders).2.registry = engine.registry := by
  have hsorted : (engine.registry.removeBatch classes).1.mergeSort evictedBefore = [] := hclasses
  have hnone : (engine.registry.removeBatch classes).1 = [] :=
    List.perm_nil.mp (hsorted ▸ (List.mergeSort_perm _ evictedBefore).symm)
  have hsame : (engine.registry.removeBatch classes).2 = engine.registry := by
    rcases Registry.removeBatch_cases h classes with ⟨-, hsame⟩ | ⟨hsome, -⟩
    · exact hsame
    · exact absurd hnone hsome
  exact (Registry.unloadLoaders_of_nil loaders hloaders).trans hsame

theorem evict_loaders_nodup (engine : Engine σ) (h : engine.registry.Indexed)
    (cycle scanned : Nat) (classes : List ClassId) (loaders : List LoaderId) :
    ((evict engine cycle scanned classes loaders).1.unloadedLoaders.map (·.id)).Nodup :=
  ((h.removeBatch classes).indexed.unloadLoaders loaders).nodup

theorem viewed_evict (engine : Engine σ) (h : engine.registry.Viewed) (cycle scanned : Nat)
    (classes : List ClassId) (loaders : List LoaderId) :
    (evict engine cycle scanned classes loaders).2.registry.Viewed :=
  (h.removeBatch classes).unloadLoaders loaders

theorem size_evict (engine : Engine σ) (hviewed : engine.registry.Viewed) (cycle scanned : Nat)
    (classes : List ClassId) (loaders : List LoaderId) :
    engine.registry.size = (evict engine cycle scanned classes loaders).2.registry.size +
      (evict engine cycle scanned classes loaders).1.unloaded.length := by
  have hevicted := (evict_spec engine hviewed.toIndexed cycle scanned classes loaders).1
  have hafter := viewed_evict engine hviewed cycle scanned classes loaders
  generalize evict engine cycle scanned classes loaders = outcome at hevicted hafter ⊢
  obtain ⟨report, next⟩ := outcome
  have hnodup : ∀ {registry : Registry σ}, registry.Indexed → registry.registered.Nodup :=
    fun h => h.ascending.imp fun {a b} hlt (heq : a = b) => Nat.lt_irrefl _ (heq ▸ hlt)
  have hparted : (next.registry.registered ++ report.unloaded).Perm engine.registry.registered := by
    rw [List.perm_ext_iff_of_nodup ?_ (hnodup hviewed.toIndexed)]
    · intro c
      rw [List.mem_append, hafter.mem_registered, hevicted.get?_eq_some, hevicted.unloaded,
        hviewed.mem_registered]
      tauto
    · refine (hnodup hafter.toIndexed).append hevicted.nodup ?_
      intro c hkept hgone
      exact ((hevicted.get?_eq_some _ _).mp (hafter.mem_registered.mp hkept)).2
        ((hevicted.unloaded c).mp hgone).2
  rw [hviewed.size, hafter.size, ← hparted.length_eq, List.length_append]

def Precedes (a b : ClassDescriptor) : Prop :=
  b.dimensions < a.dimensions ∨ a.dimensions = b.dimensions ∧ a.id < b.id

theorem evictedBefore_iff {a b : ClassDescriptor} :
    evictedBefore a b = true ↔
      b.dimensions < a.dimensions ∨ a.dimensions = b.dimensions ∧ a.id.number ≤ b.id.number := by
  simp [evictedBefore]

theorem pairwise_unloaded (removed : List ClassDescriptor) :
    (removed.mergeSort evictedBefore).Pairwise fun a b => evictedBefore a b = true := by
  refine List.pairwise_mergeSort ?_ ?_ removed
  · intro a b c
    simp only [evictedBefore_iff]
    omega
  · intro a b
    simp only [Bool.or_eq_true, evictedBefore_iff]
    omega

/-- What a report says of the classes that went: each once, in order, and counted by kind. An array
class is announced before its component exactly if it records more dimensions. -/
structure Orderly (report : CycleReport σ) : Prop where
  ids : (report.unloaded.map (·.id)).Nodup
  total : report.statistics.ordinary + report.statistics.arrays = report.unloaded.length
  ordered : report.unloaded.Pairwise Precedes
  arraysFirst : ∀ a ∈ report.unloaded, ∀ c ∈ report.unloaded, a.component? = some c.id →
    ([a, c].Sublist report.unloaded ↔ c.dimensions < a.dimensions)

theorem sublist_of_precedes {unloaded : List ClassDescriptor} (h : unloaded.Pairwise Precedes)
    {a c : ClassDescriptor} (ha : a ∈ unloaded) (hc : c ∈ unloaded)
    (hdimensions : c.dimensions < a.dimensions) : [a, c].Sublist unloaded := by
  obtain ⟨front, back, rfl⟩ := List.append_of_mem ha
  have hback : c ∈ back := by
    rcases List.mem_append.mp hc with hfront | htail
    · have hca := (List.pairwise_append.mp h).2.2 c hfront a List.mem_cons_self
      unfold Precedes at hca
      omega
    · rcases List.mem_cons.mp htail with rfl | hback
      · omega
      · exact hback
  exact .trans (.cons_cons a (List.singleton_sublist.mpr hback)) (List.sublist_append_right _ _)

theorem precedes_of_sublist {unloaded : List ClassDescriptor} (h : unloaded.Pairwise Precedes)
    {a c : ClassDescriptor} (hsub : [a, c].Sublist unloaded) : Precedes a c :=
  List.pairwise_pair.mp (h.sublist hsub)

theorem evict_orderly (engine : Engine σ) (h : engine.registry.Layered) (cycle scanned : Nat)
    (classes : List ClassId) (loaders : List LoaderId) :
    Orderly (evict engine cycle scanned classes loaders).1 := by
  have hevicted := (evict_spec engine h.toIndexed cycle scanned classes loaders).1
  have hsorted : (evict engine cycle scanned classes loaders).1.unloaded.Pairwise
      fun a b => evictedBefore a b = true := pairwise_unloaded _
  have htotal : (evict engine cycle scanned classes loaders).1.statistics.ordinary +
      (evict engine cycle scanned classes loaders).1.statistics.arrays =
        (evict engine cycle scanned classes loaders).1.unloaded.length :=
    Nat.sub_add_cancel (List.length_filter_le _ _)
  generalize evict engine cycle scanned classes loaders = outcome at hevicted hsorted htotal ⊢
  obtain ⟨report, next⟩ := outcome
  dsimp only at hevicted hsorted htotal ⊢
  have hids : ∀ a ∈ report.unloaded, ∀ b ∈ report.unloaded, a.id = b.id → a = b := by
    intro a ha b hb hid
    have hget := ((hevicted.unloaded a).mp ha).1
    rw [hid, ((hevicted.unloaded b).mp hb).1] at hget
    exact (Option.some.inj hget).symm
  have hordered : report.unloaded.Pairwise Precedes := by
    refine (hsorted.and hevicted.nodup).imp_of_mem ?_
    rintro a b ha hb ⟨hbefore, hne⟩
    rcases evictedBefore_iff.mp hbefore with hlt | ⟨heq, hle⟩
    · exact Or.inl hlt
    · refine Or.inr ⟨heq, Nat.lt_of_le_of_ne hle fun hnumber => hne ?_⟩
      exact hids a ha b hb (Id.ext hnumber)
  refine ⟨?_, htotal, hordered, ?_⟩
  · exact List.Nodup.map_on hids hevicted.nodup
  · intro a ha c hc hcomponent
    refine ⟨fun hsub => ?_, sublist_of_precedes hordered ha hc⟩
    rcases precedes_of_sublist hordered hsub with hlt | ⟨-, hlt⟩
    · exact hlt
    · -- of two with equally many dimensions the component comes first, for it is older
      obtain ⟨k, harray, hid⟩ := Option.map_eq_some_iff.mp hcomponent
      obtain ⟨component, hget, holder⟩ := h.layers a.id a k ((hevicted.unloaded a).mp ha).1 harray
      rw [hid, ((hevicted.unloaded c).mp hc).1] at hget
      obtain rfl := Option.some.inj hget
      exact absurd hlt (Nat.lt_asymm holder)

def ArraysFirst (report : CycleReport σ) : Prop :=
  ∀ a ∈ report.unloaded, ∀ c ∈ report.unloaded, a.component? = some c.id →
    [a, c].Sublist report.unloaded

theorem evict_arraysFirst (engine : Engine σ) (h : engine.registry.Coherent) (cycle scanned : Nat)
    (classes : List ClassId) (loaders : List LoaderId) :
    ArraysFirst (evict engine cycle scanned classes loaders).1 := by
  intro a ha c hc hcomponent
  have hevicted := (evict_spec engine h.toIndexed cycle scanned classes loaders).1
  have horderly := evict_orderly engine h.toLayered cycle scanned classes loaders
  refine (horderly.arraysFirst a ha c hc hcomponent).mpr ?_
  obtain ⟨k, harray, hid⟩ := Option.map_eq_some_iff.mp hcomponent
  have hrecorded := (h.recorded a.id a k c ((hevicted.unloaded a).mp ha).1 harray
    (hid ▸ ((hevicted.unloaded c).mp hc).1)).2
  have hdimensions : a.dimensions = k.dimensions := by
    simp [ClassDescriptor.dimensions, harray]
  omega

theorem develops_evict (rule : Registry σ → ClassDefinition → Prop) (engine : Engine σ)
    (cycle scanned : Nat) (classes : List ClassId) (loaders : List LoaderId) :
    Registry.Develops rule engine.registry
      (evict engine cycle scanned classes loaders).2.registry :=
  ((Registry.Develops.refl _).removeBatch classes).unloadLoaders loaders

end Cycle
end Metaspace
