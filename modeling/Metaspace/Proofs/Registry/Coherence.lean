import Metaspace.Proofs.Id.Table
import Metaspace.Registry.Snapshot

set_option autoImplicit false

namespace Metaspace

namespace ClassKey

instance : Std.LawfulEqOrd ClassKey where
  eq_of_compare {a b} h := by
    obtain ⟨loader, name⟩ := a
    obtain ⟨loader', name'⟩ := b
    change compareLex (compareOn ClassKey.loader) (compareOn ClassKey.name) _ _ = .eq at h
    simp only [compareLex, compareOn, Ordering.then_eq_eq] at h
    rw [Std.LawfulEqOrd.eq_of_compare h.1, Std.LawfulEqOrd.eq_of_compare h.2]

end ClassKey

namespace Registry

variable {σ : Type}

def registered (registry : Registry σ) : List ClassDescriptor := registry.classes.values

def graph (registry : Registry σ) : List (Loader σ) := registry.loaders.map (·.loader)

/-- Loaders bear distinct ids that have been issued and not retired, and the boot loader is there
and the only permanent one. -/
structure Rostered (graph : List (Loader σ)) (retired : List LoaderId) (issued : Nat) : Prop where
  ordered : graph.Pairwise fun a b => a.id < b.id
  numbered : ∀ l ∈ graph, l.id.number ≤ issued
  retired : ∀ id ∈ retired, id.number ≤ issued ∧ ∀ l ∈ graph, l.id ≠ id
  boot : ∃ l ∈ graph, l.id = bootLoader
  permanent : ∀ l ∈ graph, l.permanent = true ↔ l.id = bootLoader

/-- The class table and the loaders agree on what is registered. -/
structure Indexed (registry : Registry σ) : Prop where
  table : registry.classes.WellFormed
  stamped : registry.classes.Stamped ClassDescriptor.id
  keyed : ∀ id key c, registry.classes.entry? id = some (key, c) → key = ⟨c.loader, c.name⟩
  owned : ∀ e ∈ registry.loaders,
    e.classes = (registry.registered.filter (·.loader = e.loader.id)).map (·.id)
  housed : ∀ c ∈ registry.registered, ∃ l ∈ registry.graph, l.id = c.loader
  roster : Rostered registry.graph registry.retired registry.issued

/-- What an array class says of its component: an older class of that name with one dimension
less. -/
structure StandsOver (c : ClassDescriptor) (a : ArrayClass) (component : ClassDescriptor) :
    Prop where
  older : component.id < c.id
  name_eq : a.component.name = component.name
  dimensions_eq : a.dimensions = component.dimensions + 1

/-- Every array class has its component registered, under a smaller id. -/
structure Layered (registry : Registry σ) : Prop extends Indexed registry where
  layers : ∀ id c a, registry.get? id = some c → c.array? = some a →
    ∃ component, registry.get? a.component.id = some component ∧ component.id < c.id

structure Coherent (registry : Registry σ) : Prop extends Layered registry where
  recorded : ∀ id c a component, registry.get? id = some c → c.array? = some a →
    registry.get? a.component.id = some component →
      a.component.name = component.name ∧ a.dimensions = component.dimensions + 1

theorem Coherent.components {registry : Registry σ} (h : registry.Coherent) (id : ClassId)
    (c : ClassDescriptor) (a : ArrayClass) (hget : registry.get? id = some c)
    (harray : c.array? = some a) :
    ∃ component, registry.get? a.component.id = some component ∧ StandsOver c a component := by
  obtain ⟨component, hcomponent, holder⟩ := h.layers id c a hget harray
  obtain ⟨hname, hdimensions⟩ := h.recorded id c a component hget harray hcomponent
  exact ⟨component, hcomponent, holder, hname, hdimensions⟩

namespace Indexed

variable {registry : Registry σ}

theorem id_of_get? (h : registry.Indexed) {id : ClassId} {c : ClassDescriptor}
    (hget : registry.get? id = some c) : c.id = id :=
  h.stamped.get? hget

theorem get?_self (h : registry.Indexed) {id : ClassId} {c : ClassDescriptor}
    (hget : registry.get? id = some c) : registry.get? c.id = some c := by
  rw [h.id_of_get? hget]
  exact hget

theorem mem_registered (h : registry.Indexed) {c : ClassDescriptor} :
    c ∈ registry.registered ↔ registry.get? c.id = some c :=
  h.stamped.mem_values h.table.size_le

theorem mem_registered_of_get? (h : registry.Indexed) {id : ClassId} {c : ClassDescriptor}
    (hget : registry.get? id = some c) : c ∈ registry.registered :=
  h.mem_registered.mpr (h.get?_self hget)

theorem ascending (h : registry.Indexed) : registry.registered.Pairwise fun a b => a.id < b.id :=
  h.stamped.ascending h.table.size_le

theorem mem_graph {l : Loader σ} : l ∈ registry.graph ↔ ∃ e ∈ registry.loaders, e.loader = l :=
  List.mem_map

theorem entry?_eq_some (h : registry.Indexed) {l : LoaderId} {e : LoaderEntry σ} :
    registry.entry? l = some e ↔ e ∈ registry.loaders ∧ e.loader.id = l := by
  constructor
  · intro hfind
    exact ⟨List.mem_of_find?_eq_some hfind, by simpa using List.find?_some hfind⟩
  · rintro ⟨hmem, rfl⟩
    obtain ⟨front, back, hsplit⟩ := List.append_of_mem hmem
    have hord := h.roster.ordered
    rw [graph, List.pairwise_map, hsplit, List.pairwise_append] at hord
    unfold entry?
    rw [hsplit, List.find?_append, List.find?_eq_none.mpr, Option.none_or]
    · simp
    · intro d hd hid
      have hlt := hord.2.2 d hd e List.mem_cons_self
      rw [of_decide_eq_true hid] at hlt
      exact Nat.lt_irrefl _ hlt

theorem entry?_of_mem_graph (h : registry.Indexed) {l : Loader σ} (hl : l ∈ registry.graph) :
    ∃ e, registry.entry? l.id = some e ∧ e.loader = l := by
  obtain ⟨e, he, rfl⟩ := mem_graph.mp hl
  exact ⟨e, h.entry?_eq_some.mpr ⟨he, rfl⟩, rfl⟩

theorem loader?_eq_some (h : registry.Indexed) {id : LoaderId} {l : Loader σ} :
    registry.loader? id = some l ↔ l ∈ registry.graph ∧ l.id = id := by
  unfold loader?
  rw [Option.map_eq_some_iff]
  constructor
  · rintro ⟨e, he, rfl⟩
    obtain ⟨hmem, hid⟩ := h.entry?_eq_some.mp he
    exact ⟨mem_graph.mpr ⟨e, hmem, rfl⟩, hid⟩
  · rintro ⟨hl, rfl⟩
    exact h.entry?_of_mem_graph hl

theorem loader_of_get? (h : registry.Indexed) {id : ClassId} {c : ClassDescriptor}
    (hget : registry.get? id = some c) : ∃ l ∈ registry.graph, l.id = c.loader :=
  h.housed c (h.mem_registered_of_get? hget)

theorem isUnloading_eq_false (h : registry.Indexed) {l : Loader σ} (hl : l ∈ registry.graph) :
    registry.isUnloading l.id = false := by
  unfold isUnloading
  rw [Bool.eq_false_iff]
  intro hcontains
  exact (h.roster.retired l.id (List.contains_iff_mem.mp hcontains)).2 l hl rfl

theorem classesOf_eq (h : registry.Indexed) (l : LoaderId) :
    registry.classesOf l = registry.registered.filter (·.loader = l) := by
  unfold classesOf
  cases hentry : registry.entry? l with
  | none =>
    symm
    rw [List.filter_eq_nil_iff]
    intro c hc hloader
    obtain ⟨loader, hmem, heq⟩ := h.housed c hc
    obtain ⟨e, he, -⟩ := h.entry?_of_mem_graph hmem
    rw [heq, of_decide_eq_true hloader, hentry] at he
    contradiction
  | some e =>
    obtain ⟨hmem, rfl⟩ := h.entry?_eq_some.mp hentry
    simp only [h.owned e hmem, List.filterMap_map]
    have hfound : ∀ c ∈ registry.registered.filter (·.loader = e.loader.id),
        (registry.get? ∘ fun c : ClassDescriptor => c.id) c = some c := by
      intro c hc
      exact h.mem_registered.mp (List.mem_filter.mp hc).1
    rw [List.filterMap_congr hfound, List.filterMap_some]

theorem mem_classesOf (h : registry.Indexed) {l : LoaderId} {c : ClassDescriptor} :
    c ∈ registry.classesOf l ↔ registry.get? c.id = some c ∧ c.loader = l := by
  rw [h.classesOf_eq, List.mem_filter, h.mem_registered, decide_eq_true_eq]

end Indexed

theorem registered_new (bootSources : List σ) : (new bootSources).registered = [] := by
  simp [registered, new, IdTable.values, IdTable.empty]

theorem new_coherent (bootSources : List σ) : (new bootSources).Coherent where
  table := IdTable.empty_wellFormed
  stamped _ _ h := absurd (IdTable.entry?_issued h) IdTable.empty_not_issued
  keyed _ _ _ h := absurd (IdTable.entry?_issued h) IdTable.empty_not_issued
  owned e he := by
    obtain rfl : e = ⟨⟨bootLoader, "bootstrap", true, bootSources⟩, []⟩ := by simpa [new] using he
    rfl
  housed c hc := by
    simp [registered_new] at hc
  roster :=
    { ordered := List.pairwise_singleton _ _
      numbered := by simp [graph, new, bootLoader]
      retired := by simp [new]
      boot := ⟨_, List.mem_singleton_self _, rfl⟩
      permanent := by simp [graph, new] }
  layers _ _ _ h := absurd (IdTable.issued_of_get? h) IdTable.empty_not_issued
  recorded _ _ _ _ h := absurd (IdTable.issued_of_get? h) IdTable.empty_not_issued

end Registry
end Metaspace
