import Metaspace.Proofs.Registry.Stocked

set_option autoImplicit false

namespace Metaspace

namespace ClassCounts

def tally (cs : List ClassDescriptor) : ClassCounts :=
  ⟨cs.countP (!·.isArray), cs.countP (·.isArray)⟩

theorem tally_append (cs : List ClassDescriptor) (c : ClassDescriptor) :
    tally (cs ++ [c]) = (tally cs).add c := by
  cases h : c.isArray <;> simp [tally, add, h]

theorem tally_middle (front back : List ClassDescriptor) (c : ClassDescriptor) :
    (tally (front ++ c :: back)).remove c = tally (front ++ back) := by
  cases h : c.isArray <;> simp [tally, remove, h, ← Nat.add_assoc]

theorem total_tally (cs : List ClassDescriptor) :
    (tally cs).ordinary + (tally cs).arrays = cs.length := by
  rw [List.length_eq_countP_add_countP (·.isArray), Nat.add_comm]
  simp [tally]

end ClassCounts

namespace Registry

variable {σ : Type} {registry : Registry σ}

theorem named_modifyNamed (registry : Registry σ) (name : String)
    (f : List ClassId → List ClassId) (n : String) :
    (registry.modifyNamed name f).named n =
      if n = name then f (registry.named name) else registry.named n := by
  unfold modifyNamed
  by_cases hn : n = name
  · subst hn
    cases hids : f (registry.named n) <;> simp [named]
  · cases hids : f (registry.named name) <;>
      simp [named, Std.TreeMap.getD_erase, Std.TreeMap.getD_insert, hn, Ne.symm hn]

theorem named_adding (registry : Registry σ) (c : ClassDescriptor) (n : String) :
    (registry.adding c).named n =
      if n = c.name then registry.named c.name ++ [c.id] else registry.named n :=
  named_modifyNamed { registry with classes := registry.classes.push ⟨c.loader, c.name⟩ c.id c }
    c.name (· ++ [c.id]) n

theorem named_removing (registry : Registry σ) (c : ClassDescriptor) (n : String) :
    (registry.removing c).named n =
      if n = c.name then (registry.named c.name).filter (· ≠ c.id) else registry.named n :=
  named_modifyNamed { registry with classes := registry.classes.without ⟨c.loader, c.name⟩ c.id }
    c.name (·.filter (· ≠ c.id)) n

/-- All views of the registry say the same as the class table. -/
structure Viewed (registry : Registry σ) : Prop extends Indexed registry where
  named : ∀ name, registry.named name =
    (registry.registered.filter (·.name = name)).map (·.id)
  counts : registry.counts = .tally registry.registered
  size : registry.size = registry.registered.length

theorem new_viewed (bootSources : List σ) : (new bootSources).Viewed where
  toIndexed := (new_coherent bootSources).toIndexed
  named name := by
    simp [Registry.named, new, registered, IdTable.values, IdTable.empty]
  counts := rfl
  size := rfl

section

variable {c : ClassDescriptor}

theorem Viewed.adding (h : registry.Viewed) (hc : registry.Fresh c) :
    (registry.adding c).Viewed where
  toIndexed := h.toIndexed.adding hc
  named n := by
    have hnamed := h.named n
    rw [named_adding, adding_registered]
    by_cases hn : n = c.name
    · subst hn
      simp [hnamed]
    · simp [hn, Ne.symm hn, hnamed]
  counts := by
    rw [adding_registered, ClassCounts.tally_append, ← h.counts]
    rfl
  size := by
    have hsize : (registry.adding c).size = registry.size + 1 := rfl
    simp [hsize, h.size]

theorem Indexed.registered_split (h : registry.Indexed) (hget : registry.get? c.id = some c) :
    ∃ front back, registry.registered = front ++ c :: back ∧
      (registry.removing c).registered = front ++ back := by
  obtain ⟨front, back, hsplit⟩ := List.append_of_mem (h.mem_registered.mpr hget)
  refine ⟨front, back, hsplit, ?_⟩
  have hascending := h.ascending
  rw [hsplit, List.pairwise_append, List.pairwise_cons] at hascending
  obtain ⟨-, ⟨hback, -⟩, hfront⟩ := hascending
  -- ids ascend, so that no other class has the id of `c`
  have hkeep : ∀ d ∈ front ++ back, d.id ≠ c.id := by
    intro d hd heq
    rcases List.mem_append.mp hd with hd | hd
    · exact Nat.lt_irrefl _ (heq ▸ hfront d hd c List.mem_cons_self)
    · exact Nat.lt_irrefl _ (heq ▸ hback d hd)
  have hall := List.filter_eq_self.mpr fun d hd => decide_eq_true (hkeep d hd)
  rw [List.filter_append] at hall
  rw [h.removing_registered hget, hsplit, List.filter_append, List.filter_cons_of_neg (by simp)]
  exact hall

theorem Viewed.removing (h : registry.Viewed) (hget : registry.get? c.id = some c) :
    (registry.removing c).Viewed where
  toIndexed := h.toIndexed.removing hget
  named n := by
    have hnamed := h.named n
    rw [named_removing, h.listed_removing hget]
    by_cases hn : n = c.name
    · subst hn
      simp [hnamed]
    · simp [hn, Ne.symm hn, hnamed]
  counts := by
    obtain ⟨front, back, hsplit, hrest⟩ := h.registered_split hget
    rw [hrest, ← ClassCounts.tally_middle, ← hsplit, ← h.counts]
    rfl
  size := by
    obtain ⟨front, back, hsplit, hrest⟩ := h.registered_split hget
    have hsize : (registry.removing c).size = registry.size - 1 := rfl
    simp [hsize, h.size, hsplit, hrest, ← Nat.add_assoc]

end

theorem Viewed.newLoader? {next : Registry σ} (h : registry.Viewed) {name : String}
    {sources : List σ} {id : LoaderId}
    (hnew : registry.newLoader? name sources = some (id, next)) : next.Viewed := by
  have hindexed := h.toIndexed.newLoader? hnew
  obtain ⟨-, rfl⟩ := newLoader?_eq_some hnew
  exact { h with toIndexed := hindexed }

theorem Viewed.dropping (h : registry.Viewed) {l : Loader σ} (hl : l ∈ registry.graph)
    (hdrop : registry.Droppable l) : (registry.dropping l.id).Viewed :=
  { h with toIndexed := h.toIndexed.dropping hl hdrop }

/-- Time passes: the generation does not go back, and while it stands still the class table stays as
it is. -/
structure Ages (before after : Registry σ) : Prop where
  generation_le : before.generation ≤ after.generation
  classes_eq : after.generation = before.generation → after.classes = before.classes

namespace Ages

theorem refl (registry : Registry σ) : Ages registry registry := ⟨Nat.le_refl _, fun _ => rfl⟩

theorem trans {a b c : Registry σ} (hab : Ages a b) (hbc : Ages b c) : Ages a c where
  generation_le := Nat.le_trans hab.generation_le hbc.generation_le
  classes_eq h := by
    have hle := hab.generation_le
    have hle' := hbc.generation_le
    rw [hbc.classes_eq (by omega), hab.classes_eq (by omega)]

theorem of_lt {before after : Registry σ} (h : before.generation < after.generation) :
    Ages before after :=
  ⟨Nat.le_of_lt h, fun heq => by omega⟩

end Ages

theorem generation_adding (registry : Registry σ) (c : ClassDescriptor) :
    (registry.adding c).generation = registry.generation + 1 := rfl

theorem ages_adding (registry : Registry σ) (c : ClassDescriptor) :
    Ages registry (registry.adding c) :=
  .of_lt (by rw [generation_adding]; omega)

/-- Classes were added and nothing else was done to the class table, and the generation moved on by
one for each of them. -/
def Adds (before after : Registry σ) : Prop :=
  ∃ added, after.registered = before.registered ++ added ∧
    after.generation = before.generation + added.length

theorem Adds.refl (registry : Registry σ) : Adds registry registry := ⟨[], by simp, rfl⟩

theorem Adds.adding {before after : Registry σ} (h : Adds before after) (c : ClassDescriptor) :
    Adds before (after.adding c) := by
  obtain ⟨added, hregistered, hgeneration⟩ := h
  refine ⟨added ++ [c], by simp [hregistered], ?_⟩
  rw [generation_adding, hgeneration, List.length_append, List.length_singleton, Nat.add_assoc]

theorem eraseAll_keeps {P : Registry σ → Prop} (hindexed : ∀ r, P r → r.Indexed)
    (hremove : ∀ (r : Registry σ) (c : ClassDescriptor), P r → r.get? c.id = some c →
      P (r.removing c))
    (hP : P registry) (ids : List ClassId) : P (registry.eraseAll ids).2 := by
  induction ids generalizing registry with
  | nil => exact hP
  | cons id ids ih =>
    unfold eraseAll
    rcases erase_cases (hindexed _ hP) id with ⟨-, heq⟩ | ⟨c, hget, rfl, heq⟩
    · rw [heq]
      exact ih hP
    · rw [heq]
      exact ih (hremove registry c hP hget)

theorem eraseAll_of_nil (h : registry.Indexed) (ids : List ClassId)
    (hnone : (registry.eraseAll ids).1 = []) : (registry.eraseAll ids).2 = registry := by
  induction ids with
  | nil => rfl
  | cons id ids ih =>
    unfold eraseAll at hnone ⊢
    rcases erase_cases h id with ⟨-, heq⟩ | ⟨c, -, -, heq⟩
    · rw [heq] at hnone ⊢
      exact ih hnone
    · rw [heq] at hnone
      contradiction

theorem generation_eraseAll (h : registry.Indexed) (ids : List ClassId) :
    (registry.eraseAll ids).2.generation = registry.generation :=
  (eraseAll_keeps (P := fun r => r.Indexed ∧ r.generation = registry.generation)
    (fun _ hr => hr.1) (fun _ _ hr hget => ⟨hr.1.removing hget, hr.2⟩) ⟨h, rfl⟩ ids).2

theorem removeBatch_cases (h : registry.Indexed) (ids : List ClassId) :
    ((registry.removeBatch ids).1 = [] ∧ (registry.removeBatch ids).2 = registry) ∨
    ((registry.removeBatch ids).1 ≠ [] ∧
      (registry.removeBatch ids).2.generation = registry.generation + 1) := by
  have hstill := generation_eraseAll h (registry.doomed ids).toList
  have hnil := eraseAll_of_nil h (registry.doomed ids).toList
  unfold Registry.removeBatch
  generalize registry.eraseAll (registry.doomed ids).toList = outcome at hstill hnil ⊢
  obtain ⟨removed, rest⟩ := outcome
  cases removed with
  | nil => exact Or.inl ⟨rfl, hnil rfl⟩
  | cons c cs => exact Or.inr ⟨by simp, by simp [← hstill]⟩

theorem removeBatch_keeps {P : Registry σ → Prop} (hindexed : ∀ r, P r → r.Indexed)
    (hremove : ∀ (r : Registry σ) (c : ClassDescriptor), P r → r.get? c.id = some c →
      P (r.removing c))
    (hturn : ∀ r, P r → P { r with generation := r.generation + 1 })
    (hP : P registry) (ids : List ClassId) : P (registry.removeBatch ids).2 := by
  have herased := eraseAll_keeps hindexed hremove hP (registry.doomed ids).toList
  unfold Registry.removeBatch
  generalize registry.eraseAll (registry.doomed ids).toList = outcome at herased ⊢
  obtain ⟨removed, rest⟩ := outcome
  dsimp only at herased ⊢
  split
  · exact herased
  · exact hturn rest herased

theorem Viewed.removeBatch (h : registry.Viewed) (ids : List ClassId) :
    (registry.removeBatch ids).2.Viewed :=
  removeBatch_keeps (fun _ hr => hr.toIndexed) (fun _ _ hr hget => hr.removing hget)
    (fun _ hr => { hr with toIndexed := { hr.toIndexed with } }) h ids

theorem ages_removeBatch (h : registry.Indexed) (ids : List ClassId) :
    Ages registry (registry.removeBatch ids).2 := by
  rcases removeBatch_cases h ids with ⟨-, heq⟩ | ⟨-, heq⟩
  · rw [heq]
    exact .refl registry
  · exact .of_lt (by omega)

theorem unloadLoaders_keeps {P : Registry σ → Prop} (hindexed : ∀ r, P r → r.Indexed)
    (hdropping : ∀ (r : Registry σ) (l : Loader σ), P r → l ∈ r.graph → r.Droppable l →
      P (r.dropping l.id))
    (hP : P registry) (ids : List LoaderId) : P (registry.unloadLoaders ids).2 := by
  induction ids generalizing registry with
  | nil => exact hP
  | cons id ids ih =>
    unfold Registry.unloadLoaders
    rcases dropLoader?_cases (hindexed _ hP) id with ⟨heq, -⟩ | ⟨l, hl, rfl, hdrop, heq⟩
    · rw [heq]
      exact ih hP
    · rw [heq]
      exact ih (hdropping registry l hP hl hdrop)

theorem Viewed.unloadLoaders (h : registry.Viewed) (ids : List LoaderId) :
    (registry.unloadLoaders ids).2.Viewed :=
  unloadLoaders_keeps (fun _ hr => hr.toIndexed) (fun _ _ hr hl hdrop => hr.dropping hl hdrop) h ids

theorem unloadLoaders_table (h : registry.Viewed) (ids : List LoaderId) :
    (registry.unloadLoaders ids).2.generation = registry.generation ∧
      (registry.unloadLoaders ids).2.classes = registry.classes :=
  (unloadLoaders_keeps
    (P := fun r => r.Indexed ∧ r.generation = registry.generation ∧ r.classes = registry.classes)
    (fun _ hr => hr.1) (fun _ _ hr hl hdrop => ⟨hr.1.dropping hl hdrop, hr.2⟩)
    ⟨h.toIndexed, rfl, rfl⟩ ids).2

theorem viewed_invariant (rule : Registry σ → ClassDefinition → Prop) (before : Registry σ) :
    Invariant rule fun r => r.Viewed ∧ Ages before r where
  indexed h := h.1.toIndexed
  newLoader h hnew := by
    refine ⟨h.1.newLoader? hnew, h.2.trans ?_⟩
    obtain ⟨-, rfl⟩ := newLoader?_eq_some hnew
    exact ⟨Nat.le_refl _, fun _ => rfl⟩
  insert {r d c} h _ hc := ⟨h.1.adding hc.toFresh, h.2.trans (ages_adding r c)⟩
  derive {r component c hdimensions} h _ hc :=
    ⟨h.1.adding hc.toFresh, h.2.trans (ages_adding r c)⟩
  load {r name loader size c} h _ hc := ⟨h.1.adding hc.toFresh, h.2.trans (ages_adding r c)⟩
  removeBatch ids h := ⟨h.1.removeBatch ids, h.2.trans (ages_removeBatch h.1.toIndexed ids)⟩
  unloadLoaders ids h := by
    obtain ⟨hgeneration, hclasses⟩ := unloadLoaders_table h.1 ids
    exact ⟨h.1.unloadLoaders ids, h.2.trans ⟨Nat.le_of_eq hgeneration.symm, fun _ => hclasses⟩⟩

theorem Develops.viewed {rule : Registry σ → ClassDefinition → Prop} {before after : Registry σ}
    (h : Develops rule before after) (hbefore : before.Viewed) : after.Viewed ∧ Ages before after :=
  (viewed_invariant rule before).develops h ⟨hbefore, .refl before⟩

/-- Whichever way one looks at the registry, the same classes are registered. -/
structure Agreeing (registry : Registry σ) : Prop where
  get : ∀ id c, registry.get? id = some c ↔ c ∈ registry.registered ∧ c.id = id
  lookup : ∀ name c, registry.lookup? name = some c ↔
    c ∈ registry.registered ∧ c.name = name ∧
      ∀ d ∈ registry.registered, d.name = name → d.id.number ≤ c.id.number
  containsName : ∀ name, registry.containsName name = true ↔
    ∃ c ∈ registry.registered, c.name = name
  lookupIn : ∀ loader name c, registry.lookupIn? loader name = some c ↔
    c ∈ registry.registered ∧ c.loader = loader ∧ c.name = name
  classesOf : ∀ loader, registry.classesOf loader =
    registry.registered.filter (·.loader = loader)
  ascending : registry.registered.Pairwise fun a b => a.id < b.id
  ordinary : registry.counts.ordinary = registry.registered.countP (!·.isArray)
  arrays : registry.counts.arrays = registry.registered.countP (·.isArray)
  size : registry.counts.ordinary + registry.counts.arrays = registry.size
  loaders : ∀ c ∈ registry.registered, ∃ l, registry.loader? c.loader = some l

theorem Viewed.lookup?_eq (h : registry.Viewed) (name : String) :
    registry.lookup? name = (registry.registered.filter (·.name = name)).getLast? := by
  unfold lookup?
  rw [h.named, List.getLast?_map]
  cases hlast : (registry.registered.filter (·.name = name)).getLast? with
  | none => rfl
  | some c =>
    have hmem := List.mem_of_getLast? hlast
    exact h.mem_registered.mp (List.mem_filter.mp hmem).1

theorem Viewed.lookup?_eq_some (h : registry.Viewed) {name : String} {c : ClassDescriptor} :
    registry.lookup? name = some c ↔
      c ∈ registry.registered ∧ c.name = name ∧
        ∀ d ∈ registry.registered, d.name = name → d.id.number ≤ c.id.number := by
  rw [h.lookup?_eq]
  have hordered := h.ascending.filter (·.name = name)
  have hmem : ∀ d, d ∈ registry.registered.filter (·.name = name) ↔
      d ∈ registry.registered ∧ d.name = name := by simp
  constructor
  · intro hlast
    obtain ⟨front, hsplit⟩ := List.getLast?_eq_some_iff.mp hlast
    obtain ⟨hc, hname⟩ := (hmem c).mp (List.mem_of_getLast? hlast)
    refine ⟨hc, hname, fun d hd hdname => ?_⟩
    have hd' := (hmem d).mpr ⟨hd, hdname⟩
    rw [hsplit, List.mem_append, List.mem_singleton] at hd'
    rw [hsplit, List.pairwise_append] at hordered
    rcases hd' with hd' | rfl
    · exact Nat.le_of_lt (hordered.2.2 d hd' c (List.mem_singleton_self c))
    · exact Nat.le_refl _
  · rintro ⟨hc, hname, hgreatest⟩
    cases hlast : (registry.registered.filter (·.name = name)).getLast? with
    | none =>
      rw [List.getLast?_eq_none_iff] at hlast
      have hc' := (hmem c).mpr ⟨hc, hname⟩
      rw [hlast] at hc'
      contradiction
    | some d =>
      -- the last one is at least as great as `c` and at most, so it is `c`
      obtain ⟨front, hsplit⟩ := List.getLast?_eq_some_iff.mp hlast
      obtain ⟨hd, hdname⟩ := (hmem d).mp (List.mem_of_getLast? hlast)
      have hle := hgreatest d hd hdname
      have hc' := (hmem c).mpr ⟨hc, hname⟩
      rw [hsplit, List.mem_append, List.mem_singleton] at hc'
      rw [hsplit, List.pairwise_append] at hordered
      rcases hc' with hc' | rfl
      · exact absurd (hordered.2.2 c hc' d (List.mem_singleton_self d)) (Nat.not_lt.mpr hle)
      · rfl

theorem Viewed.agreeing (h : registry.Viewed) : registry.Agreeing where
  get id c := by
    constructor
    · intro hget
      exact ⟨h.mem_registered_of_get? hget, h.id_of_get? hget⟩
    · rintro ⟨hc, rfl⟩
      exact h.mem_registered.mp hc
  lookup _ _ := h.lookup?_eq_some
  containsName name := by
    simp [Registry.containsName, h.named]
  lookupIn loader name c := by
    rw [h.lookupIn?_eq_some, h.mem_registered]
  classesOf := h.classesOf_eq
  ascending := h.ascending
  ordinary := by
    rw [h.counts]
    rfl
  arrays := by
    rw [h.counts]
    rfl
  size := by
    rw [h.counts, ClassCounts.total_tally, h.size]
  loaders c hc := by
    obtain ⟨l, hl, hid⟩ := h.housed c hc
    exact ⟨l, h.loader?_eq_some.mpr ⟨hl, hid⟩⟩

structure Paced (registry : Registry σ) : Prop where
  newLoader : ∀ {name : String} {sources : List σ} {id : LoaderId} {next : Registry σ},
    registry.newLoader? name sources = some (id, next) →
      next.generation = registry.generation ∧ next.classes = registry.classes
  insert : ∀ {d : ClassDefinition} {definition : Definition} {next : Registry σ},
    registry.insert d = .ok (definition, next) →
      (∃ c, definition = .defined c ∧ next.registered = registry.registered ++ [c] ∧
        next.generation = registry.generation + 1) ∨
      (∃ c, definition = .existing c ∧ next = registry)
  derive : ∀ component dimensions, Adds registry (registry.deriveArray component dimensions).2
  /-- Once the sources were asked, loading adds the class it found and no other. -/
  load : ∀ {ω : Type} (ask : Asking σ ω) (outside : ω) (loader : LoaderId) (name : String),
    (∀ source name state, Undergoes state.1 (ask source name state).2.1) →
      Undergoes registry (asked ask loader name (registry, outside)).1 ∧
        ((Registry.load ask loader name (registry, outside)).2.1 =
            (asked ask loader name (registry, outside)).1 ∨
          ∃ c, (Registry.load ask loader name (registry, outside)).1 = .ok c ∧
            (Registry.load ask loader name (registry, outside)).2.1.registered =
              (asked ask loader name (registry, outside)).1.registered ++ [c] ∧
            (Registry.load ask loader name (registry, outside)).2.1.generation =
              (asked ask loader name (registry, outside)).1.generation + 1)
  removeBatch : ∀ ids,
    ((registry.removeBatch ids).1 = [] ∧ (registry.removeBatch ids).2 = registry) ∨
    ((registry.removeBatch ids).1 ≠ [] ∧
      (registry.removeBatch ids).2.generation = registry.generation + 1)
  unloadLoaders : ∀ ids, (registry.unloadLoaders ids).2.generation = registry.generation ∧
    (registry.unloadLoaders ids).2.classes = registry.classes

theorem Viewed.paced (h : registry.Viewed) : registry.Paced where
  newLoader hnew := by
    obtain ⟨-, rfl⟩ := newLoader?_eq_some hnew
    exact ⟨rfl, rfl⟩
  insert {d definition next} hinsert := by
    rcases insert_cases h.toIndexed d with ⟨e, heq⟩ | ⟨c, heq, -⟩ | ⟨c, heq, -⟩
    · rw [heq] at hinsert
      contradiction
    · rw [heq] at hinsert
      obtain ⟨rfl, rfl⟩ := Prod.mk.inj (Except.ok.inj hinsert)
      exact Or.inr ⟨c, rfl, rfl⟩
    · rw [heq] at hinsert
      obtain ⟨rfl, rfl⟩ := Prod.mk.inj (Except.ok.inj hinsert)
      exact Or.inl ⟨c, rfl, adding_registered registry c, generation_adding registry c⟩
  derive component dimensions :=
    (deriveArray_keeps (P := fun r => r.Indexed ∧ Adds registry r) (fun _ hr => hr.1)
      (fun {_ _ c _} hr _ hc => ⟨hr.1.adding hc.toFresh, hr.2.adding c⟩)
      ⟨h.toIndexed, .refl registry⟩ component dimensions).1.2
  load ask outside loader name hask := by
    have hasked : Undergoes registry (asked ask loader name (registry, outside)).1 :=
      asked_keeps (P := Undergoes registry)
        (fun source name state hstate => hstate.trans (hask source name state)) loader name
        (.refl registry)
    refine ⟨hasked, ?_⟩
    rcases load_cases ask loader name (registry, outside) (hasked.viewed h).1.toIndexed with
      ⟨failure, -, heq⟩ | ⟨c, -, heq, -⟩ | ⟨c, size, hok, heq, -⟩
    · exact Or.inl heq
    · exact Or.inl heq
    · exact Or.inr ⟨c, hok, by rw [heq, adding_registered], by rw [heq, generation_adding]⟩
  removeBatch := removeBatch_cases h.toIndexed
  unloadLoaders := unloadLoaders_table h

/-- In whatever registry a run leads to, all views agree on what is registered, the generation
counts the changes of the class table, and it stands still only while the class table does. -/
theorem Undergoes.views_agree {bootSources : List σ}
    (h : Undergoes (new bootSources) registry) :
    registry.Agreeing ∧ registry.Paced ∧
      ∀ later, Undergoes registry later → later.generation = registry.generation →
        later.classes = registry.classes := by
  have hviewed := (h.viewed (new_viewed bootSources)).1
  refine ⟨hviewed.agreeing, hviewed.paced, fun later hlater heq => ?_⟩
  exact (hlater.viewed hviewed).2.classes_eq heq

theorem reloaded_views_agree :
    reloaded.registered.map (fun c => (c.id.number, c.name)) = [(4, "A"), (5, "[LA;")] ∧
    reloaded.generation = 6 ∧ reloaded.Agreeing ∧ reloaded.Paced :=
  have h := Undergoes.views_agree (develops_reloaded _)
  ⟨by decide +kernel, by decide +kernel, h.1, h.2.1⟩

end Registry
end Metaspace
