import Metaspace.Proofs.Registry.Coherence

set_option autoImplicit false

namespace Metaspace.Registry

variable {σ : Type}

/-- The kind of a class that is or was registered: its component's id has been issued, and what it
says of the component is true for as long as the component is registered. -/
def Genuine (registry : Registry σ) : ClassKind → Prop
  | .ordinary => True
  | .array a => registry.classes.Issued a.component.id ∧
      ∀ component, registry.get? a.component.id = some component →
        a.component.name = component.name ∧ a.dimensions = component.dimensions + 1

/-- A class that is or was registered: its id has been issued, and nothing else is registered under
it. -/
def Knows (registry : Registry σ) (c : ClassDescriptor) : Prop :=
  registry.classes.Issued c.id ∧ ∀ d, registry.get? c.id = some d → d = c

theorem knows_of_get? {registry : Registry σ} {c : ClassDescriptor}
    (hget : registry.get? c.id = some c) : registry.Knows c := by
  refine ⟨IdTable.issued_of_get? hget, ?_⟩
  intro d hd
  rw [hget, Option.some.injEq] at hd
  exact hd.symm

/-- A registry that another one can have become: ids are issued once, so a class or loader keeps its
identity for as long as it is there. -/
structure Outgrows (before after : Registry σ) : Prop where
  issued_le : before.classes.entries.size ≤ after.classes.entries.size
  classes : ∀ id, before.classes.Issued id →
    after.get? id = before.get? id ∨ after.get? id = none
  loaderIssued_le : before.issued ≤ after.issued
  loaders : ∀ l ∈ after.graph, l.id.number ≤ before.issued → l ∈ before.graph

namespace Outgrows

theorem refl (registry : Registry σ) : Outgrows registry registry where
  issued_le := Nat.le_refl _
  classes _ _ := Or.inl rfl
  loaderIssued_le := Nat.le_refl _
  loaders _ hl _ := hl

theorem issued {before after : Registry σ} (h : Outgrows before after) {id : ClassId}
    (hid : before.classes.Issued id) : after.classes.Issued id :=
  ⟨hid.1, Nat.le_trans hid.2 h.issued_le⟩

theorem get?_before {before after : Registry σ} (h : Outgrows before after) {id : ClassId}
    (hid : before.classes.Issued id) {c : ClassDescriptor} (hget : after.get? id = some c) :
    before.get? id = some c := by
  rcases h.classes id hid with heq | hnone
  · rw [← heq]
    exact hget
  · rw [hnone] at hget
    contradiction

theorem trans {a b c : Registry σ} (hab : Outgrows a b) (hbc : Outgrows b c) : Outgrows a c where
  issued_le := Nat.le_trans hab.issued_le hbc.issued_le
  classes id hid := by
    rcases hbc.classes id (hab.issued hid) with heq | hnone
    · rw [heq]
      exact hab.classes id hid
    · exact Or.inr hnone
  loaderIssued_le := Nat.le_trans hab.loaderIssued_le hbc.loaderIssued_le
  loaders l hl hle :=
    hab.loaders l (hbc.loaders l hl (Nat.le_trans hle hab.loaderIssued_le)) hle

theorem genuine {before after : Registry σ} (h : Outgrows before after) {kind : ClassKind}
    (hkind : before.Genuine kind) : after.Genuine kind := by
  cases kind with
  | ordinary => trivial
  | array a =>
    refine ⟨h.issued hkind.1, ?_⟩
    intro component hget
    exact hkind.2 component (h.get?_before hkind.1 hget)

theorem knows {before after : Registry σ} (h : Outgrows before after) {c : ClassDescriptor}
    (hc : before.Knows c) : after.Knows c :=
  ⟨h.issued hc.1, fun d hd => hc.2 d (h.get?_before hc.1 hd)⟩

end Outgrows

def Retains (before after : Registry σ) : Prop :=
  ∀ id c, before.get? id = some c → after.get? id = some c

theorem Retains.refl (registry : Registry σ) : Retains registry registry := fun _ _ hget => hget

theorem Retains.trans {a b c : Registry σ} (hab : Retains a b) (hbc : Retains b c) : Retains a c :=
  fun id d hget => hbc id d (hab id d hget)

theorem Coherent.genuine {registry : Registry σ} (h : registry.Coherent) {id : ClassId}
    {c : ClassDescriptor} (hget : registry.get? id = some c) : registry.Genuine c.kind := by
  cases hkind : c.kind with
  | ordinary => trivial
  | array a =>
    have harray : c.array? = some a := by
      simp [ClassDescriptor.array?, hkind]
    obtain ⟨component, hcomponent, hover⟩ := h.components id c a hget harray
    refine ⟨IdTable.issued_of_get? hcomponent, ?_⟩
    intro other hother
    rw [hcomponent, Option.some.injEq] at hother
    subst hother
    exact ⟨hover.name_eq, hover.dimensions_eq⟩

theorem newLoader?_eq_some {registry next : Registry σ} {name : String} {sources : List σ}
    {id : LoaderId} (h : registry.newLoader? name sources = some (id, next)) :
    id.number = registry.issued + 1 ∧
      next = { registry with
        loaders := registry.loaders ++ [⟨⟨id, name, false, sources⟩, []⟩]
        issued := registry.issued + 1 } := by
  unfold newLoader? at h
  rw [Option.map_eq_some_iff] at h
  obtain ⟨id', hid, heq⟩ := h
  obtain ⟨rfl, rfl⟩ := Prod.mk.inj heq
  exact ⟨Id.ofNumber?_eq_some.mp hid, rfl⟩

theorem newLoader?_graph {registry next : Registry σ} {name : String} {sources : List σ}
    {id : LoaderId} (h : registry.newLoader? name sources = some (id, next)) :
    next.graph = registry.graph ++ [⟨id, name, false, sources⟩] := by
  obtain ⟨-, rfl⟩ := newLoader?_eq_some h
  exact List.map_append

theorem newLoader?_registered {registry next : Registry σ} {name : String} {sources : List σ}
    {id : LoaderId} (h : registry.newLoader? name sources = some (id, next)) :
    next.registered = registry.registered := by
  obtain ⟨-, rfl⟩ := newLoader?_eq_some h
  rfl

theorem Rostered.append {graph : List (Loader σ)} {retired : List LoaderId} {issued : Nat}
    (h : Rostered graph retired issued) {id : LoaderId} (hid : id.number = issued + 1)
    (hboot : id ≠ bootLoader) (name : String) (sources : List σ) :
    Rostered (graph ++ [⟨id, name, false, sources⟩]) retired (issued + 1) where
  ordered := by
    rw [List.pairwise_append]
    refine ⟨h.ordered, List.pairwise_singleton _ _, ?_⟩
    intro l hl l' hl'
    obtain rfl := List.mem_singleton.mp hl'
    have hle := h.numbered l hl
    rw [Id.lt_def]
    show l.id.number < id.number
    omega
  numbered l hl := by
    rcases List.mem_append.mp hl with hl | hl
    · exact Nat.le_succ_of_le (h.numbered l hl)
    · obtain rfl := List.mem_singleton.mp hl
      exact Nat.le_of_eq hid
  retired j hj := by
    obtain ⟨hle, hne⟩ := h.retired j hj
    refine ⟨Nat.le_succ_of_le hle, ?_⟩
    intro l hl
    rcases List.mem_append.mp hl with hl | hl
    · exact hne l hl
    · obtain rfl := List.mem_singleton.mp hl
      rintro rfl
      have : id.number ≤ issued := hle
      omega
  boot := by
    obtain ⟨l, hl, hb⟩ := h.boot
    exact ⟨l, List.mem_append_left _ hl, hb⟩
  permanent l hl := by
    rcases List.mem_append.mp hl with hl | hl
    · exact h.permanent l hl
    · obtain rfl := List.mem_singleton.mp hl
      simpa using hboot

theorem Indexed.newLoader? {registry next : Registry σ} (h : registry.Indexed) {name : String}
    {sources : List σ} {id : LoaderId}
    (hnew : registry.newLoader? name sources = some (id, next)) : next.Indexed := by
  obtain ⟨hid, rfl⟩ := newLoader?_eq_some hnew
  have hfresh : ∀ l ∈ registry.graph, l.id.number < id.number := by
    intro l hl
    have hle := h.roster.numbered l hl
    omega
  have hboot : id ≠ bootLoader := by
    rintro rfl
    obtain ⟨l, hl, hb⟩ := h.roster.boot
    have hlt := hfresh l hl
    rw [hb] at hlt
    exact Nat.lt_irrefl _ hlt
  refine { h with
    owned := ?_
    housed := ?_
    roster := ?_ }
  · intro e he
    rcases List.mem_append.mp he with he | he
    · exact h.owned e he
    · obtain rfl := List.mem_singleton.mp he
      have hnone : registry.registered.filter (·.loader = id) = [] := by
        rw [List.filter_eq_nil_iff]
        intro c hc hloader
        obtain ⟨l, hl, heq⟩ := h.housed c hc
        have hlt := hfresh l hl
        rw [heq, of_decide_eq_true hloader] at hlt
        exact Nat.lt_irrefl _ hlt
      show [] = (registry.registered.filter (·.loader = id)).map (·.id)
      rw [hnone]
      rfl
  · intro c hc
    obtain ⟨l, hl, heq⟩ := h.housed c hc
    exact ⟨l, by simpa [graph] using Or.inl (by simpa [graph] using hl), heq⟩
  · rw [graph, List.map_append]
    exact h.roster.append hid hboot name sources

theorem Layered.newLoader? {registry next : Registry σ} (h : registry.Layered) {name : String}
    {sources : List σ} {id : LoaderId}
    (hnew : registry.newLoader? name sources = some (id, next)) : next.Layered where
  toIndexed := h.toIndexed.newLoader? hnew
  layers := by
    obtain ⟨-, rfl⟩ := newLoader?_eq_some hnew
    exact h.layers

theorem Coherent.newLoader? {registry next : Registry σ} (h : registry.Coherent) {name : String}
    {sources : List σ} {id : LoaderId}
    (hnew : registry.newLoader? name sources = some (id, next)) : next.Coherent where
  toLayered := h.toLayered.newLoader? hnew
  recorded := by
    obtain ⟨-, rfl⟩ := newLoader?_eq_some hnew
    exact h.recorded

theorem outgrows_newLoader? {registry next : Registry σ} {name : String} {sources : List σ}
    {id : LoaderId} (hnew : registry.newLoader? name sources = some (id, next)) :
    Outgrows registry next := by
  obtain ⟨hid, rfl⟩ := newLoader?_eq_some hnew
  refine ⟨Nat.le_refl _, fun _ _ => Or.inl rfl, Nat.le_succ _, ?_⟩
  intro l hl hle
  rw [graph, List.map_append, List.mem_append] at hl
  rcases hl with hl | hl
  · exact hl
  · obtain rfl := List.mem_singleton.mp hl
    have : id.number ≤ registry.issued := hle
    omega

def adding (registry : Registry σ) (c : ClassDescriptor) : Registry σ :=
  { registry with classes := registry.classes.push ⟨c.loader, c.name⟩ c.id c }.record c

@[simp] theorem adding_classes (registry : Registry σ) (c : ClassDescriptor) :
    (registry.adding c).classes = registry.classes.push ⟨c.loader, c.name⟩ c.id c := rfl

@[simp] theorem adding_loaders (registry : Registry σ) (c : ClassDescriptor) :
    (registry.adding c).loaders = registry.loaders.map fun entry =>
      if entry.loader.id = c.loader then { entry with classes := entry.classes ++ [c.id] }
      else entry := rfl

@[simp] theorem adding_graph (registry : Registry σ) (c : ClassDescriptor) :
    (registry.adding c).graph = registry.graph := by
  rw [graph, adding_loaders, List.map_map]
  apply List.map_congr_left
  intro e _
  simp only [Function.comp_apply]
  split <;> rfl

@[simp] theorem adding_registered (registry : Registry σ) (c : ClassDescriptor) :
    (registry.adding c).registered = registry.registered ++ [c] :=
  IdTable.values_push _ _ _ _

/-- The class bears the next id, and its loader defines no class of its name. -/
structure Fresh (registry : Registry σ) (c : ClassDescriptor) : Prop where
  id_eq : c.id.number = registry.classes.entries.size + 1
  unnamed : registry.classes.idOf? ⟨c.loader, c.name⟩ = none
  housed : ∃ l ∈ registry.graph, l.id = c.loader

theorem Fresh.not_issued {registry : Registry σ} {c : ClassDescriptor} (h : registry.Fresh c) :
    ¬ registry.classes.Issued c.id := by
  intro hissued
  have hid := h.id_eq
  have hle := hissued.2
  omega

theorem Fresh.get?_eq_none {registry : Registry σ} {c : ClassDescriptor} (h : registry.Fresh c) :
    registry.get? c.id = none := by
  cases hget : registry.get? c.id with
  | none => rfl
  | some d => exact absurd (IdTable.issued_of_get? hget) h.not_issued

theorem Fresh.get?_adding {registry : Registry σ} {c : ClassDescriptor} (h : registry.Fresh c)
    (id : ClassId) : (registry.adding c).get? id = if id = c.id then some c else registry.get? id :=
  IdTable.get?_push h.id_eq _ _ id

theorem Fresh.get?_adding_of_get? {registry : Registry σ} {c : ClassDescriptor}
    (h : registry.Fresh c) {id : ClassId} {d : ClassDescriptor}
    (hget : registry.get? id = some d) : (registry.adding c).get? id = some d := by
  have hne : id ≠ c.id := by
    rintro rfl
    rw [h.get?_eq_none] at hget
    contradiction
  rw [h.get?_adding, if_neg hne]
  exact hget

theorem Fresh.retains {registry : Registry σ} {c : ClassDescriptor} (h : registry.Fresh c) :
    Retains registry (registry.adding c) :=
  fun _ _ hget => h.get?_adding_of_get? hget

theorem Fresh.outgrows {registry : Registry σ} {c : ClassDescriptor} (h : registry.Fresh c) :
    Outgrows registry (registry.adding c) where
  issued_le := by
    simp [IdTable.push]
  classes id hid := by
    have hne : id ≠ c.id := by
      rintro rfl
      exact h.not_issued hid
    left
    rw [h.get?_adding, if_neg hne]
  loaderIssued_le := Nat.le_refl _
  loaders l hl _ := by
    rw [adding_graph] at hl
    exact hl

theorem Indexed.adding {registry : Registry σ} (h : registry.Indexed) {c : ClassDescriptor}
    (hc : registry.Fresh c) : (registry.adding c).Indexed where
  table := h.table.push hc.unnamed hc.id_eq c
  stamped := h.stamped.push hc.id_eq _ rfl
  keyed id key d hentry := by
    rw [adding_classes, IdTable.entry?_push hc.id_eq] at hentry
    split at hentry
    · obtain ⟨rfl, rfl⟩ := Prod.mk.inj (Option.some.inj hentry)
      rfl
    · exact h.keyed id key d hentry
  owned e he := by
    rw [adding_loaders, List.mem_map] at he
    obtain ⟨e', he', rfl⟩ := he
    rw [adding_registered, List.filter_append, List.map_append]
    have howned := h.owned e' he'
    by_cases hloader : e'.loader.id = c.loader
    · simpa [hloader] using howned
    · simpa [hloader, Ne.symm hloader] using howned
  housed d hd := by
    rw [adding_graph]
    rw [adding_registered, List.mem_append, List.mem_singleton] at hd
    rcases hd with hd | rfl
    · exact h.housed d hd
    · exact hc.housed
  roster := by
    rw [adding_graph]
    exact h.roster

theorem Layered.adding {registry : Registry σ} (h : registry.Layered) {c : ClassDescriptor}
    (hc : registry.Fresh c)
    (hcomponent : ∀ a, c.array? = some a →
      ∃ component, registry.get? a.component.id = some component) :
    (registry.adding c).Layered where
  toIndexed := h.toIndexed.adding hc
  layers id d a hget harray := by
    rw [hc.get?_adding] at hget
    split at hget
    · obtain rfl := Option.some.inj hget
      obtain ⟨component, hget'⟩ := hcomponent a harray
      refine ⟨component, hc.get?_adding_of_get? hget', ?_⟩
      have hle := (IdTable.issued_of_get? hget').2
      have hid := hc.id_eq
      rw [h.id_of_get? hget', Id.lt_def]
      omega
    · obtain ⟨component, hget', holder⟩ := h.layers id d a hget harray
      exact ⟨component, hc.get?_adding_of_get? hget', holder⟩

theorem Coherent.adding {registry : Registry σ} (h : registry.Coherent) {c : ClassDescriptor}
    (hc : registry.Fresh c)
    (hcomponent : ∀ a, c.array? = some a →
      ∃ component, registry.get? a.component.id = some component ∧
        a.component.name = component.name ∧ a.dimensions = component.dimensions + 1) :
    (registry.adding c).Coherent where
  toLayered := h.toLayered.adding hc fun a harray =>
    (hcomponent a harray).imp fun _ hgiven => hgiven.1
  recorded id d a component hget harray hover := by
    rw [hc.get?_adding] at hget
    split at hget
    · obtain rfl := Option.some.inj hget
      obtain ⟨component', hget', htrue⟩ := hcomponent a harray
      rw [hc.get?_adding_of_get? hget', Option.some.injEq] at hover
      exact hover ▸ htrue
    · obtain ⟨component', hget', -⟩ := h.layers id d a hget harray
      have hsame := hc.get?_adding_of_get? hget'
      rw [hover, Option.some.injEq] at hsame
      exact h.recorded id d a component hget harray (hsame ▸ hget')

end Metaspace.Registry
