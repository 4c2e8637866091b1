import Metaspace.Proofs.Registry.Growth
import Metaspace.Proofs.Saturation
import Metaspace.Registry.Removal

set_option autoImplicit false

namespace Metaspace.Registry

variable {σ : Type} {registry : Registry σ}

/-- The classes that go when the given ones go: these, as far as they are registered, and every
registered array class over one that goes. -/
inductive Falls (registry : Registry σ) (given : ClassId → Prop) : ClassId → Prop where
  | given {id : ClassId} : given id → registry.contains id = true → Falls registry given id
  | array {id component : ClassId} {c : ClassDescriptor} : registry.get? id = some c →
      c.component? = some component → Falls registry given component → Falls registry given id

theorem dependsOn_iff {doomed : Std.TreeSet ClassId} {c : ClassDescriptor} :
    dependsOn doomed c = true ↔ ∃ component ∈ doomed, c.component? = some component := by
  simp only [dependsOn, Option.any_eq_true, ← Std.TreeSet.mem_iff_contains]
  exact exists_congr fun _ => and_comm

theorem mem_ofList_filter {ids : List ClassId} {id : ClassId} :
    id ∈ Std.TreeSet.ofList (ids.filter registry.contains) ↔
      id ∈ ids ∧ registry.contains id = true := by
  rw [Std.TreeSet.mem_ofList, List.contains_iff_mem, List.mem_filter]

theorem Indexed.falls_of_mem_doomed (h : registry.Indexed) (ids : List ClassId) :
    ∀ {id}, id ∈ registry.doomed ids → registry.Falls (· ∈ ids) id := by
  refine saturate_keeps (P := fun s : Std.TreeSet ClassId =>
    ∀ {id}, id ∈ s → registry.Falls (· ∈ ids) id) ?_ ?_
  · intro s c hc hready hs j hj
    obtain ⟨component, hmem, hcomponent⟩ := dependsOn_iff.mp hready
    rw [Std.TreeSet.mem_insert, Std.LawfulEqOrd.compare_eq_iff_eq] at hj
    rcases hj with rfl | hj
    · exact .array (h.mem_registered.mp hc) hcomponent (hs hmem)
    · exact hs hj
  · intro j hj
    obtain ⟨hgiven, hcontains⟩ := mem_ofList_filter.mp hj
    exact .given hgiven hcontains

theorem mem_doomed_of_given {ids : List ClassId} {id : ClassId} (hgiven : id ∈ ids)
    (hcontains : registry.contains id = true) : id ∈ registry.doomed ids := by
  refine saturate_keeps (P := fun s : Std.TreeSet ClassId => id ∈ s) ?_
    (mem_ofList_filter.mpr ⟨hgiven, hcontains⟩)
  intro s c _ _ hid
  exact Std.TreeSet.mem_insert.mpr (Or.inr hid)

theorem mem_doomed_of_dependsOn {ids : List ClassId} {c : ClassDescriptor}
    (hc : c ∈ registry.registered) (hready : dependsOn (registry.doomed ids) c = true) :
    c.id ∈ registry.doomed ids := by
  have hsettled : c.id ∈ registry.doomed ids ∨ dependsOn (registry.doomed ids) c = false :=
    saturate_settles (fun s c => c.id ∈ s) (fun s c => Std.TreeSet.mem_insert_self)
      (fun s c d hd => Std.TreeSet.mem_insert.mpr (Or.inr hd))
      (Std.TreeSet.ofList (ids.filter registry.contains)) registry.classes.values c hc
  refine hsettled.resolve_right fun hnot => ?_
  rw [hnot] at hready
  contradiction

theorem mem_doomed (h : registry.Indexed) (ids : List ClassId) {id : ClassId} :
    id ∈ registry.doomed ids ↔ registry.Falls (· ∈ ids) id := by
  refine ⟨h.falls_of_mem_doomed ids, fun hfalls => ?_⟩
  induction hfalls with
  | given hgiven hcontains => exact mem_doomed_of_given hgiven hcontains
  | array hget hcomponent _ ih =>
    rw [← h.id_of_get? hget]
    exact mem_doomed_of_dependsOn (h.mem_registered_of_get? hget)
      (dependsOn_iff.mpr ⟨_, ih, hcomponent⟩)

def removing (registry : Registry σ) (c : ClassDescriptor) : Registry σ :=
  let rest : Registry σ :=
    { registry with classes := registry.classes.without ⟨c.loader, c.name⟩ c.id }
  let rest := (rest.modifyNamed c.name (·.filter (· ≠ c.id))).modifyClassesOf c.loader
    (·.filter (· ≠ c.id))
  { rest with counts := rest.counts.remove c }

@[simp] theorem removing_classes (registry : Registry σ) (c : ClassDescriptor) :
    (registry.removing c).classes = registry.classes.without ⟨c.loader, c.name⟩ c.id := rfl

@[simp] theorem removing_loaders (registry : Registry σ) (c : ClassDescriptor) :
    (registry.removing c).loaders = registry.loaders.map fun entry =>
      if entry.loader.id = c.loader then
        { entry with classes := entry.classes.filter (· ≠ c.id) }
      else entry := rfl

@[simp] theorem removing_graph (registry : Registry σ) (c : ClassDescriptor) :
    (registry.removing c).graph = registry.graph := by
  rw [graph, removing_loaders, List.map_map]
  apply List.map_congr_left
  intro e _
  simp only [Function.comp_apply]
  split <;> rfl

theorem erase_cases (h : registry.Indexed) (id : ClassId) :
    (registry.get? id = none ∧ registry.erase id = (none, registry)) ∨
    (∃ c, registry.get? id = some c ∧ c.id = id ∧
      registry.erase id = (some c, registry.removing c)) := by
  unfold erase
  rcases registry.classes.erase_cases id with ⟨hentry, heq⟩ | ⟨key, c, hentry, heq⟩
  · left
    rw [heq]
    exact ⟨by simp [get?, IdTable.get?, hentry], rfl⟩
  · right
    have hget : registry.get? id = some c := IdTable.get?_eq_some.mpr ⟨key, hentry⟩
    obtain rfl := h.id_of_get? hget
    obtain rfl := h.keyed _ key c hentry
    rw [heq]
    exact ⟨c, hget, rfl, rfl⟩

section Removing

variable {c : ClassDescriptor}

theorem get?_removing (hget : registry.get? c.id = some c) (id : ClassId) :
    (registry.removing c).get? id = if id = c.id then none else registry.get? id :=
  IdTable.get?_without (IdTable.issued_of_get? hget).1 _ id

theorem Indexed.removing_registered (h : registry.Indexed) (hget : registry.get? c.id = some c) :
    (registry.removing c).registered = registry.registered.filter (·.id ≠ c.id) :=
  h.stamped.values_without h.table.size_le (IdTable.issued_of_get? hget).1 _

theorem Indexed.listed_removing (h : registry.Indexed) (hget : registry.get? c.id = some c)
    (p : ClassDescriptor → Bool) :
    ((registry.removing c).registered.filter p).map (·.id) =
      if p c then ((registry.registered.filter p).map (·.id)).filter (· ≠ c.id)
      else (registry.registered.filter p).map (·.id) := by
  have hcomm : ((registry.removing c).registered.filter p).map (·.id) =
      ((registry.registered.filter p).map (·.id)).filter (· ≠ c.id) := by
    rw [h.removing_registered hget, List.filter_map, List.filter_filter, List.filter_filter]
    congr 1
    apply List.filter_congr
    intro d _
    exact Bool.and_comm _ _
  rw [hcomm]
  split
  · rfl
  · rename_i hc
    rw [List.filter_eq_self]
    intro id hid
    obtain ⟨d, hd, rfl⟩ := List.mem_map.mp hid
    obtain ⟨hmem, hpd⟩ := List.mem_filter.mp hd
    have hne : d.id ≠ c.id := by
      intro heq
      have hdget := h.mem_registered.mp hmem
      rw [heq, hget, Option.some.injEq] at hdget
      exact hc (hdget ▸ hpd)
    simpa using hne

theorem Indexed.removing (h : registry.Indexed) (hget : registry.get? c.id = some c) :
    (registry.removing c).Indexed where
  table := by
    obtain ⟨key, hentry⟩ := IdTable.get?_eq_some.mp hget
    obtain rfl := h.keyed _ key c hentry
    exact h.table.without hentry
  stamped := h.stamped.without (IdTable.issued_of_get? hget).1 _
  keyed id key d hentry := by
    rw [removing_classes, IdTable.entry?_without (IdTable.issued_of_get? hget).1] at hentry
    split at hentry
    · contradiction
    · exact h.keyed id key d hentry
  owned e he := by
    rw [removing_loaders, List.mem_map] at he
    obtain ⟨e', he', rfl⟩ := he
    have howned := h.owned e' he'
    by_cases hloader : e'.loader.id = c.loader
    · rw [hloader] at howned
      simp [hloader, h.listed_removing hget, howned]
    · simp [hloader, Ne.symm hloader, h.listed_removing hget, howned]
  housed d hd := by
    rw [h.removing_registered hget] at hd
    rw [removing_graph]
    exact h.housed d (List.mem_filter.mp hd).1
  roster := by
    rw [removing_graph]
    exact h.roster

theorem outgrows_removing (hget : registry.get? c.id = some c) :
    Outgrows registry (registry.removing c) where
  issued_le := by
    simp [IdTable.without]
  classes id _ := by
    rw [get?_removing hget]
    split
    · exact Or.inr rfl
    · exact Or.inl rfl
  loaderIssued_le := Nat.le_refl _
  loaders l hl _ := by
    rw [removing_graph] at hl
    exact hl

end Removing

theorem ordered_doomed (registry : Registry σ) (ids : List ClassId) :
    (registry.doomed ids).toList.Pairwise fun a b => a < b :=
  (registry.doomed ids).ordered_toList.imp fun hlt => Nat.compare_eq_lt.mp hlt

theorem nodup_doomed (registry : Registry σ) (ids : List ClassId) :
    (registry.doomed ids).toList.Nodup :=
  (registry.ordered_doomed ids).imp fun {a b} hlt (heq : a = b) =>
    Nat.lt_irrefl b.number (heq ▸ hlt)

theorem eraseAll_spec (h : registry.Indexed) {ids : List ClassId} (hnodup : ids.Nodup) :
    (registry.eraseAll ids).2.Indexed ∧ Outgrows registry (registry.eraseAll ids).2 ∧
      (registry.eraseAll ids).2.graph = registry.graph ∧
      (∀ id, (registry.eraseAll ids).2.get? id = if id ∈ ids then none else registry.get? id) ∧
      (registry.eraseAll ids).1 = ids.filterMap registry.get? := by
  induction ids generalizing registry with
  | nil => exact ⟨h, Outgrows.refl _, rfl, by simp [eraseAll], rfl⟩
  | cons id ids ih =>
    obtain ⟨hnotin, htail⟩ := List.nodup_cons.mp hnodup
    unfold eraseAll
    rcases erase_cases h id with ⟨hget, heq⟩ | ⟨c, hget, rfl, heq⟩
    · rw [heq]
      obtain ⟨hindexed, hgrows, hgraph, hget', hremoved⟩ := ih h htail
      refine ⟨hindexed, hgrows, hgraph, ?_, ?_⟩
      · intro j
        rw [hget']
        by_cases hj : j = id
        · subst hj
          simp [hget]
        · simp [hj]
      · rw [List.filterMap_cons_none hget]
        exact hremoved
    · rw [heq]
      obtain ⟨hindexed, hgrows, hgraph, hget', hremoved⟩ := ih (h.removing hget) htail
      refine ⟨hindexed, (outgrows_removing hget).trans hgrows, ?_, ?_, ?_⟩
      · rw [← removing_graph registry c]
        exact hgraph
      · intro j
        show ((registry.removing c).eraseAll ids).2.get? j = _
        rw [hget', get?_removing hget]
        by_cases hj : j = c.id <;> simp [hj]
      · show c :: ((registry.removing c).eraseAll ids).1 = _
        rw [List.filterMap_cons_some hget, hremoved]
        congr 1
        apply List.filterMap_congr
        intro j hj
        have hne : j ≠ c.id := by
          rintro rfl
          exact hnotin hj
        rw [get?_removing hget, if_neg hne]

theorem removeBatch_eq (registry : Registry σ) (ids : List ClassId) :
    ∃ generation, registry.removeBatch ids =
      ((registry.eraseAll (registry.doomed ids).toList).1,
        { (registry.eraseAll (registry.doomed ids).toList).2 with generation }) := by
  unfold Registry.removeBatch
  dsimp only
  split <;> exact ⟨_, rfl⟩

theorem Indexed.get?_removeBatch (h : registry.Indexed) (ids : List ClassId) (id : ClassId)
    (c : ClassDescriptor) :
    (registry.removeBatch ids).2.get? id = some c ↔
      registry.get? id = some c ∧ ¬ registry.Falls (· ∈ ids) id := by
  obtain ⟨generation, heq⟩ := registry.removeBatch_eq ids
  obtain ⟨-, -, -, hget, -⟩ := eraseAll_spec h (registry.nodup_doomed ids)
  rw [heq]
  change (registry.eraseAll _).2.get? id = some c ↔ _
  rw [hget]
  have hdoomed : id ∈ (registry.doomed ids).toList ↔ registry.Falls (· ∈ ids) id :=
    Std.TreeSet.mem_toList.trans (mem_doomed h ids)
  by_cases hfalls : registry.Falls (· ∈ ids) id
  · simp [hdoomed.mpr hfalls, hfalls]
  · simp [mt hdoomed.mp hfalls, hfalls]

theorem Indexed.mem_removeBatch (h : registry.Indexed) (ids : List ClassId) (c : ClassDescriptor) :
    c ∈ (registry.removeBatch ids).1 ↔
      registry.get? c.id = some c ∧ registry.Falls (· ∈ ids) c.id := by
  obtain ⟨generation, heq⟩ := registry.removeBatch_eq ids
  obtain ⟨-, -, -, -, hremoved⟩ := eraseAll_spec h (registry.nodup_doomed ids)
  rw [heq, hremoved, List.mem_filterMap]
  constructor
  · rintro ⟨id, hid, hget⟩
    obtain rfl := h.id_of_get? hget
    exact ⟨hget, (mem_doomed h ids).mp (Std.TreeSet.mem_toList.mp hid)⟩
  · rintro ⟨hget, hfalls⟩
    exact ⟨c.id, Std.TreeSet.mem_toList.mpr ((mem_doomed h ids).mpr hfalls), hget⟩

theorem Indexed.removeBatch_ascending (h : registry.Indexed) (ids : List ClassId) :
    (registry.removeBatch ids).1.Pairwise fun a b => a.id < b.id := by
  obtain ⟨generation, heq⟩ := registry.removeBatch_eq ids
  obtain ⟨-, -, -, -, hremoved⟩ := eraseAll_spec h (registry.nodup_doomed ids)
  rw [heq, hremoved, List.pairwise_filterMap]
  refine (registry.ordered_doomed ids).imp ?_
  intro a b hab c hc d hd
  rw [h.id_of_get? hc, h.id_of_get? hd]
  exact hab

theorem Indexed.removeBatch_parts (h : registry.Indexed) (ids : List ClassId) {c : ClassDescriptor}
    (hget : registry.get? c.id = some c) :
    (registry.removeBatch ids).2.get? c.id = some c ∨ c ∈ (registry.removeBatch ids).1 := by
  rw [h.get?_removeBatch, h.mem_removeBatch]
  tauto

/-- The registry after and the classes that went, when those that fall with the given ones are taken
out. -/
structure Evicts (before : Registry σ) (given : ClassId → Prop) (removed : List ClassDescriptor)
    (after : Registry σ) : Prop where
  indexed : after.Indexed
  outgrows : Outgrows before after
  graph_eq : after.graph = before.graph
  get?_eq_some : ∀ id c, after.get? id = some c ↔
    before.get? id = some c ∧ ¬ before.Falls given id
  mem_removed : ∀ c, c ∈ removed ↔ before.get? c.id = some c ∧ before.Falls given c.id
  ascending : removed.Pairwise fun a b => a.id < b.id

theorem Indexed.removeBatch (h : registry.Indexed) (ids : List ClassId) :
    Evicts registry (· ∈ ids) (registry.removeBatch ids).1 (registry.removeBatch ids).2 := by
  obtain ⟨generation, heq⟩ := registry.removeBatch_eq ids
  obtain ⟨hindexed, hgrows, hgraph, -⟩ := eraseAll_spec h (registry.nodup_doomed ids)
  refine
    { indexed := ?_
      outgrows := ?_
      graph_eq := ?_
      get?_eq_some := h.get?_removeBatch ids
      mem_removed := h.mem_removeBatch ids
      ascending := h.removeBatch_ascending ids }
  · rw [heq]
    exact { hindexed with }
  · rw [heq]
    exact { hgrows with }
  · rw [heq]
    exact hgraph

section Falls

variable {given : ClassId → Prop} {removed : List ClassDescriptor} {after : Registry σ}

theorem Layered.without_falls (h : registry.Layered) (hafter : after.Indexed)
    (hget : ∀ id c, after.get? id = some c ↔
      registry.get? id = some c ∧ ¬ registry.Falls given id) : after.Layered where
  toIndexed := hafter
  layers id c a hid harray := by
    obtain ⟨hbefore, hstays⟩ := (hget id c).mp hid
    obtain ⟨component, hcomponent, holder⟩ := h.layers id c a hbefore harray
    refine ⟨component, (hget _ _).mpr ⟨hcomponent, fun hfalls => ?_⟩, holder⟩
    refine hstays (.array hbefore ?_ hfalls)
    rw [ClassDescriptor.component?, harray, Option.map_some]

theorem Coherent.without_falls (h : registry.Coherent) (hafter : after.Indexed)
    (hget : ∀ id c, after.get? id = some c ↔
      registry.get? id = some c ∧ ¬ registry.Falls given id) : after.Coherent where
  toLayered := h.toLayered.without_falls hafter hget
  recorded id c a component hid harray hcomponent :=
    h.recorded id c a component ((hget _ _).mp hid).1 harray ((hget _ _).mp hcomponent).1

theorem Evicts.layered (hevicts : Evicts registry given removed after) (h : registry.Layered) :
    after.Layered :=
  h.without_falls hevicts.indexed hevicts.get?_eq_some

theorem Evicts.coherent (hevicts : Evicts registry given removed after) (h : registry.Coherent) :
    after.Coherent :=
  h.without_falls hevicts.indexed hevicts.get?_eq_some

theorem Evicts.registered_subset (hevicts : Evicts registry given removed after)
    (h : registry.Indexed) : after.registered ⊆ registry.registered := fun _ hc =>
  h.mem_registered.mpr ((hevicts.get?_eq_some _ _).mp (hevicts.indexed.mem_registered.mp hc)).1

end Falls

/-- Whether a loader can be dropped: it is not permanent and defines no class. -/
def Droppable (registry : Registry σ) (l : Loader σ) : Prop :=
  l.permanent = false ∧ ∀ c ∈ registry.registered, c.loader ≠ l.id

def dropping (registry : Registry σ) (id : LoaderId) : Registry σ :=
  { registry with
    loaders := registry.loaders.filter (·.loader.id ≠ id)
    retired := id :: registry.retired }

theorem graph_dropping (registry : Registry σ) (id : LoaderId) :
    (registry.dropping id).graph = registry.graph.filter (·.id ≠ id) := by
  rw [graph, graph, List.filter_map]
  rfl

theorem dropLoader?_cases (h : registry.Indexed) (id : LoaderId) :
    (registry.dropLoader? id = none ∧
      ∀ l ∈ registry.graph, l.id = id → ¬ registry.Droppable l) ∨
    (∃ l ∈ registry.graph, l.id = id ∧ registry.Droppable l ∧
      registry.dropLoader? id = some (l, registry.dropping id)) := by
  unfold dropLoader?
  cases hentry : registry.entry? id with
  | none =>
    left
    refine ⟨rfl, ?_⟩
    rintro l hl rfl
    obtain ⟨e, he, -⟩ := h.entry?_of_mem_graph hl
    rw [hentry] at he
    contradiction
  | some e =>
    obtain ⟨he, rfl⟩ := h.entry?_eq_some.mp hentry
    have hgraph : e.loader ∈ registry.graph := Indexed.mem_graph.mpr ⟨e, he, rfl⟩
    have hempty : e.classes = [] ↔ ∀ c ∈ registry.registered, c.loader ≠ e.loader.id := by
      rw [h.owned e he, List.map_eq_nil_iff, List.filter_eq_nil_iff]
      simp
    by_cases hstay : e.loader.permanent = true ∨ e.classes ≠ []
    · left
      refine ⟨by simp [hstay], ?_⟩
      intro l hl hid hdrop
      obtain ⟨e', he', rfl⟩ := h.entry?_of_mem_graph hl
      rw [hid, hentry, Option.some.injEq] at he'
      subst he'
      rcases hstay with hperm | hclasses
      · rw [hdrop.1] at hperm
        contradiction
      · exact hclasses (hempty.mpr hdrop.2)
    · right
      obtain ⟨hperm, hclasses⟩ := not_or.mp hstay
      have hdrop : registry.Droppable e.loader :=
        ⟨by simpa using hperm, hempty.mp (by simpa using hclasses)⟩
      refine ⟨e.loader, hgraph, rfl, hdrop, ?_⟩
      simp only [hstay, if_false]
      rfl

theorem Indexed.dropping (h : registry.Indexed) {l : Loader σ} (hl : l ∈ registry.graph)
    (hdrop : registry.Droppable l) : (registry.dropping l.id).Indexed := by
  have hroster := h.roster
  refine { h with
    owned := ?_
    housed := ?_
    roster := ?_ }
  · intro e he
    exact h.owned e (List.mem_filter.mp he).1
  · intro c hc
    obtain ⟨l', hl', hid⟩ := h.housed c hc
    refine ⟨l', ?_, hid⟩
    rw [graph_dropping, List.mem_filter]
    refine ⟨hl', ?_⟩
    rw [hid]
    simpa using hdrop.2 c hc
  · rw [graph_dropping]
    exact
      { ordered := hroster.ordered.filter _
        numbered := fun l' hl' => hroster.numbered l' (List.mem_filter.mp hl').1
        retired := by
          intro id hid
          rcases List.mem_cons.mp hid with rfl | hid
          · exact ⟨hroster.numbered l hl, fun l' hl' => by simpa using (List.mem_filter.mp hl').2⟩
          · obtain ⟨hle, hne⟩ := hroster.retired id hid
            exact ⟨hle, fun l' hl' => hne l' (List.mem_filter.mp hl').1⟩
        boot := by
          obtain ⟨b, hb, hid⟩ := hroster.boot
          refine ⟨b, List.mem_filter.mpr ⟨hb, ?_⟩, hid⟩
          have hne : b.id ≠ l.id := by
            intro heq
            have hperm := (hroster.permanent l hl).mpr (heq ▸ hid)
            rw [hdrop.1] at hperm
            contradiction
          simpa using hne
        permanent := fun l' hl' => hroster.permanent l' (List.mem_filter.mp hl').1 }

theorem outgrows_dropping (id : LoaderId) : Outgrows registry (registry.dropping id) where
  issued_le := Nat.le_refl _
  classes _ _ := Or.inl rfl
  loaderIssued_le := Nat.le_refl _
  loaders l hl _ := by
    rw [graph_dropping] at hl
    exact (List.mem_filter.mp hl).1

/-- The loaders that went and the registry after, when of the candidates exactly those are dropped
that can be: the class table stays, and those that went are retired in their order. -/
structure Drops (before : Registry σ) (candidates : List LoaderId) (dropped : List (Loader σ))
    (after : Registry σ) : Prop where
  indexed : after.Indexed
  outgrows : Outgrows before after
  classes_eq : after.classes = before.classes
  mem_graph : ∀ l, l ∈ after.graph ↔
    l ∈ before.graph ∧ ¬ (l.id ∈ candidates ∧ before.Droppable l)
  mem_dropped : ∀ l, l ∈ dropped ↔ l ∈ before.graph ∧ l.id ∈ candidates ∧ before.Droppable l
  sublist : (dropped.map (·.id)).Sublist candidates
  nodup : (dropped.map (·.id)).Nodup
  retired_eq : after.retired = (dropped.map (·.id)).reverse ++ before.retired
  issued_eq : after.issued = before.issued

theorem Indexed.drops_nil (h : registry.Indexed) : Drops registry [] [] registry where
  indexed := h
  outgrows := .refl registry
  classes_eq := rfl
  mem_graph := by simp
  mem_dropped := by simp
  sublist := .slnil
  nodup := List.nodup_nil
  retired_eq := rfl
  issued_eq := rfl

theorem Drops.skip {id : LoaderId} {ids : List LoaderId} {dropped : List (Loader σ)}
    {after : Registry σ} (h : Drops registry ids dropped after)
    (hstay : ∀ l ∈ registry.graph, l.id = id → ¬ registry.Droppable l) :
    Drops registry (id :: ids) dropped after :=
  { h with
    mem_graph := by
      intro l
      rw [h.mem_graph, List.mem_cons]
      grind
    mem_dropped := by
      intro l
      rw [h.mem_dropped, List.mem_cons]
      grind
    sublist := h.sublist.cons _ }

theorem Drops.drop {ids : List LoaderId} {dropped : List (Loader σ)} {after : Registry σ}
    {l : Loader σ} (hindexed : registry.Indexed) (hl : l ∈ registry.graph)
    (hdrop : registry.Droppable l) (h : Drops (registry.dropping l.id) ids dropped after) :
    Drops registry (l.id :: ids) (l :: dropped) after := by
  have hsame : ∀ l', (registry.dropping l.id).Droppable l' ↔ registry.Droppable l' :=
    fun _ => Iff.rfl
  have hunique : ∀ l' ∈ registry.graph, l'.id = l.id → l' = l := by
    intro l' hl' hid
    have hfound := hindexed.loader?_eq_some.mpr ⟨hl', hid⟩
    rw [hindexed.loader?_eq_some.mpr ⟨hl, rfl⟩, Option.some.injEq] at hfound
    exact hfound.symm
  have hmem : ∀ l', l' ∈ (registry.dropping l.id).graph ↔
      l' ∈ registry.graph ∧ l'.id ≠ l.id := by
    intro l'
    rw [graph_dropping, List.mem_filter, decide_eq_true_eq]
  exact
    { indexed := h.indexed
      outgrows := (outgrows_dropping l.id).trans h.outgrows
      classes_eq := h.classes_eq
      mem_graph := by
        intro l'
        rw [h.mem_graph, hmem, hsame, List.mem_cons]
        grind
      mem_dropped := by
        intro l'
        rw [List.mem_cons, h.mem_dropped, hmem, hsame, List.mem_cons]
        grind
      sublist := h.sublist.cons_cons _
      nodup := by
        -- those that went later were still in the graph without `l`
        rw [List.map_cons, List.nodup_cons]
        refine ⟨fun hagain => ?_, h.nodup⟩
        obtain ⟨l', hl', hid⟩ := List.mem_map.mp hagain
        exact ((hmem l').mp ((h.mem_dropped l').mp hl').1).2 hid
      retired_eq := by
        rw [h.retired_eq, List.map_cons, List.reverse_cons, List.append_assoc]
        rfl
      issued_eq := h.issued_eq }

theorem Indexed.unloadLoaders (h : registry.Indexed) (ids : List LoaderId) :
    Drops registry ids (registry.unloadLoaders ids).1 (registry.unloadLoaders ids).2 := by
  induction ids generalizing registry with
  | nil => exact h.drops_nil
  | cons id ids ih =>
    unfold Registry.unloadLoaders
    rcases dropLoader?_cases h id with ⟨heq, hstay⟩ | ⟨l, hl, rfl, hdrop, heq⟩
    · rw [heq]
      exact (ih h).skip hstay
    · rw [heq]
      exact (ih (h.dropping hl hdrop)).drop h hl hdrop

theorem unloadLoaders_of_nil (ids : List LoaderId) (hnone : (registry.unloadLoaders ids).1 = []) :
    (registry.unloadLoaders ids).2 = registry := by
  induction ids with
  | nil => rfl
  | cons id ids ih =>
    unfold Registry.unloadLoaders at hnone ⊢
    cases hdrop : registry.dropLoader? id with
    | none =>
      rw [hdrop] at hnone
      exact ih hnone
    | some dropped =>
      rw [hdrop] at hnone
      contradiction

section Drops

variable {candidates : List LoaderId} {dropped : List (Loader σ)} {after : Registry σ}

theorem Drops.get?_eq (h : Drops registry candidates dropped after) :
    after.get? = registry.get? := by
  funext id
  rw [get?, h.classes_eq, get?]

theorem Drops.layered (hdrops : Drops registry candidates dropped after) (h : registry.Layered) :
    after.Layered where
  toIndexed := hdrops.indexed
  layers := by
    rw [hdrops.get?_eq]
    exact h.layers

theorem Drops.coherent (hdrops : Drops registry candidates dropped after) (h : registry.Coherent) :
    after.Coherent where
  toLayered := hdrops.layered h.toLayered
  recorded := by
    rw [hdrops.get?_eq]
    exact h.recorded

theorem Drops.registered_subset (h : Drops registry candidates dropped after) :
    after.registered ⊆ registry.registered := by
  rw [registered, h.classes_eq]
  exact List.Subset.refl _

end Drops

end Metaspace.Registry
