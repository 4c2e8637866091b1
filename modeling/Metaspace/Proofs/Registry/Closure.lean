import Mathlib.Order.Bounds.Defs
import Metaspace.Proofs.Registry.Views

/-!
Batches as closures. A batch takes out the least set of classes that holds the given ones and every
array class over a member, so that it makes no difference how given classes are spread over batches.
Scanning the class table for array classes over what was found so far finds this set after no more
rounds than there are classes.
-/

set_option autoImplicit false

namespace Metaspace.Registry

variable {σ : Type} {registry : Registry σ} {given given' : ClassId → Prop} {id : ClassId}

theorem contains_iff : registry.contains id = true ↔ ∃ c, registry.get? id = some c :=
  Option.isSome_iff_exists

theorem Falls.registered (h : registry.Falls given id) : ∃ c, registry.get? id = some c := by
  cases h with
  | given _ hcontains => exact contains_iff.mp hcontains
  | array hget _ _ => exact ⟨_, hget⟩

theorem Falls.mono (hsub : ∀ id, given id → given' id) (h : registry.Falls given id) :
    registry.Falls given' id := by
  induction h with
  | given hgiven hcontains => exact .given (hsub _ hgiven) hcontains
  | array hget hcomponent _ ih => exact .array hget hcomponent ih

theorem falls_append {a b : List ClassId} :
    registry.Falls (· ∈ a ++ b) id ↔ registry.Falls (· ∈ a) id ∨ registry.Falls (· ∈ b) id := by
  constructor
  · intro h
    induction h with
    | given hgiven hcontains =>
      rcases List.mem_append.mp hgiven with ha | hb
      · exact .inl (.given ha hcontains)
      · exact .inr (.given hb hcontains)
    | array hget hcomponent _ ih =>
      rcases ih with ha | hb
      · exact .inl (.array hget hcomponent ha)
      · exact .inr (.array hget hcomponent hb)
  · rintro (h | h)
    · exact h.mono fun _ => List.mem_append_left b
    · exact h.mono fun _ => List.mem_append_right a

theorem Indexed.falls_removeBatch (h : registry.Indexed) (a : List ClassId) :
    (registry.removeBatch a).2.Falls given id ↔
      registry.Falls given id ∧ ¬ registry.Falls (· ∈ a) id := by
  have hget := h.get?_removeBatch a
  constructor
  · intro hfalls
    induction hfalls with
    | given hgiven hcontains =>
      obtain ⟨c, hc⟩ := contains_iff.mp hcontains
      obtain ⟨hc', hstays⟩ := (hget _ c).mp hc
      exact ⟨.given hgiven (contains_iff.mpr ⟨c, hc'⟩), hstays⟩
    | array hc hcomponent _ ih =>
      obtain ⟨hc', hstays⟩ := (hget _ _).mp hc
      exact ⟨.array hc' hcomponent ih.1, hstays⟩
  · rintro ⟨hfalls, hstays⟩
    induction hfalls with
    | given hgiven hcontains =>
      obtain ⟨c, hc⟩ := contains_iff.mp hcontains
      exact .given hgiven (contains_iff.mpr ⟨c, (hget _ c).mpr ⟨hc, hstays⟩⟩)
    | array hc hcomponent _ ih =>
      -- a component that fell would have taken the array class with it
      exact .array ((hget _ _).mpr ⟨hc, hstays⟩) hcomponent
        (ih fun hfell => hstays (.array hc hcomponent hfell))

/-- Sets of registered classes that hold the given ones and every array class over a member. -/
def ClosedOver (registry : Registry σ) (ids : List ClassId) (s : Set ClassDescriptor) : Prop :=
  (∀ c ∈ s, c ∈ registry.registered) ∧
    (∀ c ∈ registry.registered, c.id ∈ ids → c ∈ s) ∧
    ∀ c ∈ registry.registered, ∀ d ∈ s, c.component? = some d.id → c ∈ s

theorem Indexed.removeBatch_isLeast (h : registry.Indexed) (ids : List ClassId) :
    IsLeast {s | registry.ClosedOver ids s} {c | c ∈ (registry.removeBatch ids).1} := by
  have hmem := h.mem_removeBatch ids
  refine ⟨⟨fun c hc => ?_, fun c hc hid => ?_, fun c hc d hd hcomponent => ?_⟩, ?_⟩
  · exact h.mem_registered.mpr ((hmem c).mp hc).1
  · have hget := h.mem_registered.mp hc
    exact (hmem c).mpr ⟨hget, .given hid (contains_iff.mpr ⟨c, hget⟩)⟩
  · have hget := h.mem_registered.mp hc
    exact (hmem c).mpr ⟨hget, .array hget hcomponent ((hmem d).mp hd).2⟩
  · rintro s ⟨-, hgiven, hclosed⟩ c hc
    -- what falls is in every such set, along the components it falls over
    have hin : ∀ id, registry.Falls (· ∈ ids) id → ∀ c, registry.get? id = some c → c ∈ s := by
      intro id hfalls
      induction hfalls with
      | given hid _ =>
        intro c hget
        exact hgiven c (h.mem_registered_of_get? hget) ((h.id_of_get? hget).symm ▸ hid)
      | array hget hcomponent hfalls ih =>
        intro c hget'
        obtain rfl := Option.some.inj (hget.symm.trans hget')
        obtain ⟨d, hd⟩ := hfalls.registered
        exact hclosed _ (h.mem_registered_of_get? hget) d (ih d hd)
          ((h.id_of_get? hd).symm ▸ hcomponent)
    obtain ⟨hget, hfalls⟩ := (hmem c).mp hc
    exact hin c.id hfalls c hget

theorem Indexed.registered_eq {other : Registry σ} (h : registry.Indexed) (h' : other.Indexed)
    (hget : ∀ id c, registry.get? id = some c ↔ other.get? id = some c) :
    registry.registered = other.registered := by
  refine IdTable.eq_of_ascending h.ascending h'.ascending fun c => ?_
  rw [h.mem_registered, h'.mem_registered, hget]

theorem Viewed.registered_removeBatch (h : registry.Viewed) (ids : List ClassId) :
    (registry.removeBatch ids).2.registered =
      registry.registered.filter (· ∉ (registry.removeBatch ids).1) := by
  refine IdTable.eq_of_ascending (h.removeBatch ids).ascending (h.ascending.filter _)
    fun c => ?_
  rw [(h.removeBatch ids).mem_registered, h.get?_removeBatch, List.mem_filter, h.mem_registered,
    decide_eq_true_eq, h.mem_removeBatch]
  tauto

theorem Indexed.get?_removeBatch_eq (h : registry.Indexed) (ids : List ClassId) (id : ClassId) :
    (registry.removeBatch ids).2.get? id =
      (registry.get? id).filter (· ∉ (registry.removeBatch ids).1) := by
  ext c
  rw [h.get?_removeBatch, Option.filter_eq_some_iff, decide_eq_true_eq, h.mem_removeBatch]
  constructor
  · rintro ⟨hget, hstays⟩
    rw [h.id_of_get? hget]
    tauto
  · rintro ⟨hget, hstays⟩
    rw [h.id_of_get? hget] at hstays
    tauto

theorem Indexed.loaders_removeBatch (h : registry.Indexed) (ids : List ClassId) :
    (registry.removeBatch ids).2.graph = registry.graph ∧
      (registry.removeBatch ids).2.retired = registry.retired ∧
      (registry.removeBatch ids).2.issued = registry.issued :=
  (removeBatch_keeps
    (P := fun r => r.Indexed ∧ r.graph = registry.graph ∧ r.retired = registry.retired ∧
      r.issued = registry.issued)
    (fun _ hr => hr.1)
    (fun r c hr hget => ⟨hr.1.removing hget, (removing_graph r c).trans hr.2.1, hr.2.2⟩)
    (fun _ hr => ⟨{ hr.1 with }, hr.2⟩) ⟨h, rfl, rfl, rfl⟩ ids).2

theorem Viewed.removeBatch_twice (h : registry.Viewed) (ids : List ClassId) :
    (registry.removeBatch ids).2.removeBatch ids = ([], (registry.removeBatch ids).2) := by
  have hafter := (h.removeBatch ids).toIndexed
  have hnone : ((registry.removeBatch ids).2.removeBatch ids).1 = [] := by
    refine List.eq_nil_iff_forall_not_mem.mpr fun c hc => ?_
    obtain ⟨hfalls, hstays⟩ :=
      (h.falls_removeBatch ids).mp ((hafter.mem_removeBatch ids c).mp hc).2
    exact hstays hfalls
  rcases removeBatch_cases hafter ids with ⟨hempty, hsame⟩ | ⟨hsome, -⟩
  · exact Prod.ext hempty hsame
  · exact absurd hnone hsome

theorem Viewed.removeBatch_append (h : registry.Viewed) (a b : List ClassId) :
    ((registry.removeBatch a).2.removeBatch b).2.registered =
      (registry.removeBatch (a ++ b)).2.registered := by
  refine ((h.removeBatch a).removeBatch b).registered_eq (h.removeBatch _).toIndexed ?_
  intro id c
  rw [(h.removeBatch a).get?_removeBatch, h.get?_removeBatch, h.falls_removeBatch,
    h.get?_removeBatch, falls_append]
  tauto

theorem Viewed.removeBatch_comm (h : registry.Viewed) (a b : List ClassId) :
    ((registry.removeBatch a).2.removeBatch b).2.registered =
      ((registry.removeBatch b).2.removeBatch a).2.registered := by
  rw [h.removeBatch_append, h.removeBatch_append]
  refine (h.removeBatch _).registered_eq (h.removeBatch _).toIndexed fun id c => ?_
  rw [h.get?_removeBatch, h.get?_removeBatch, falls_append, falls_append]
  tauto

/-- The array classes over what is doomed that are not doomed themselves. -/
def dependents (registry : Registry σ) (doomed : Std.TreeSet ClassId) : List ClassId :=
  (registry.registered.filter fun c => !doomed.contains c.id && dependsOn doomed c).map (·.id)

/-- What is doomed after some rounds, each of which scans all registered classes. -/
def scanned (registry : Registry σ) (ids : List ClassId) : Nat → Std.TreeSet ClassId
  | 0 => .ofList (ids.filter registry.contains)
  | n + 1 => (registry.scanned ids n).insertMany (registry.dependents (registry.scanned ids n))

theorem mem_scanned_zero {ids : List ClassId} :
    id ∈ registry.scanned ids 0 ↔ id ∈ ids ∧ registry.contains id = true :=
  mem_ofList_filter

theorem mem_scanned_succ {ids : List ClassId} {n : Nat} :
    id ∈ registry.scanned ids (n + 1) ↔
      id ∈ registry.scanned ids n ∨ id ∈ registry.dependents (registry.scanned ids n) := by
  rw [scanned, Std.TreeSet.mem_insertMany_list, List.contains_iff_mem]

theorem Indexed.mem_dependents (h : registry.Indexed) {doomed : Std.TreeSet ClassId} :
    id ∈ registry.dependents doomed ↔
      ∃ c, registry.get? id = some c ∧ id ∉ doomed ∧
        ∃ component ∈ doomed, c.component? = some component := by
  simp only [dependents, List.mem_map, List.mem_filter, Bool.and_eq_true, Bool.not_eq_true',
    dependsOn_iff, ← Bool.not_eq_true, ← Std.TreeSet.mem_iff_contains]
  constructor
  · rintro ⟨c, ⟨hc, hout, hover⟩, rfl⟩
    exact ⟨c, h.mem_registered.mp hc, hout, hover⟩
  · rintro ⟨c, hget, hout, hover⟩
    obtain rfl := h.id_of_get? hget
    exact ⟨c, ⟨h.mem_registered.mpr hget, hout, hover⟩, rfl⟩

theorem Indexed.falls_of_scanned (h : registry.Indexed) {ids : List ClassId} {n : Nat}
    (hin : id ∈ registry.scanned ids n) : registry.Falls (· ∈ ids) id := by
  induction n generalizing id with
  | zero =>
    obtain ⟨hgiven, hcontains⟩ := mem_scanned_zero.mp hin
    exact .given hgiven hcontains
  | succ n ih =>
    rcases mem_scanned_succ.mp hin with hbefore | hnew
    · exact ih hbefore
    · obtain ⟨c, hget, -, component, hcomponent, hover⟩ := h.mem_dependents.mp hnew
      exact .array hget hover (ih hcomponent)

theorem scanned_mono {ids : List ClassId} (n : Nat) (hin : id ∈ registry.scanned ids 0) :
    id ∈ registry.scanned ids n := by
  induction n with
  | zero => exact hin
  | succ n ih => exact mem_scanned_succ.mpr (.inl ih)

theorem Indexed.mem_scanned (h : registry.Indexed) {ids : List ClassId} {n : Nat}
    (hdone : registry.dependents (registry.scanned ids n) = []) :
    id ∈ registry.scanned ids n ↔ registry.Falls (· ∈ ids) id := by
  refine ⟨h.falls_of_scanned, fun hfalls => ?_⟩
  induction hfalls with
  | given hgiven hcontains => exact scanned_mono n (mem_scanned_zero.mpr ⟨hgiven, hcontains⟩)
  | @array id component c hget hcomponent _ ih =>
    by_contra hout
    have hnew := h.mem_dependents.mpr ⟨c, hget, hout, component, ih, hcomponent⟩
    rw [hdone] at hnew
    exact List.not_mem_nil hnew

def toll (registry : Registry σ) (doomed : Std.TreeSet ClassId) : Nat :=
  registry.registered.countP fun c => doomed.contains c.id

theorem Indexed.toll_lt (h : registry.Indexed) {ids : List ClassId} {n : Nat}
    (hgoing : registry.dependents (registry.scanned ids n) ≠ []) :
    registry.toll (registry.scanned ids n) < registry.toll (registry.scanned ids (n + 1)) := by
  obtain ⟨id, hnew⟩ := List.exists_mem_of_ne_nil _ hgoing
  obtain ⟨c, hget, hout, -⟩ := h.mem_dependents.mp hnew
  obtain rfl := h.id_of_get? hget
  have hin : c.id ∈ registry.scanned ids (n + 1) := mem_scanned_succ.mpr (.inr hnew)
  have hgrow : ∀ cs : List ClassDescriptor,
      cs.countP (fun d => (registry.scanned ids n).contains d.id) ≤
        cs.countP fun d => (registry.scanned ids (n + 1)).contains d.id := by
    intro cs
    refine List.countP_mono_left fun d _ hd => ?_
    exact Std.TreeSet.mem_iff_contains.mp
      (mem_scanned_succ.mpr (.inl (Std.TreeSet.mem_iff_contains.mpr hd)))
  obtain ⟨front, back, hsplit⟩ := List.append_of_mem (h.mem_registered.mpr hget)
  have hfront := hgrow front
  have hback := hgrow back
  rw [Std.TreeSet.mem_iff_contains] at hin hout
  simp only [toll, hsplit, List.countP_append, List.countP_cons, hin, hout]
  simp only [Bool.false_eq_true, if_false, if_true]
  omega

theorem Viewed.scanned_ends (h : registry.Viewed) (ids : List ClassId) :
    ∃ n ≤ registry.size, registry.dependents (registry.scanned ids n) = [] := by
  by_contra hendless
  have hgoing : ∀ n ≤ registry.size, registry.dependents (registry.scanned ids n) ≠ [] := by
    intro n hn hdone
    exact hendless ⟨n, hn, hdone⟩
  have htoll : ∀ n ≤ registry.size + 1, n ≤ registry.toll (registry.scanned ids n) := by
    intro n hn
    induction n with
    | zero => exact Nat.zero_le _
    | succ n ih =>
      have hlt := h.toll_lt (hgoing n (by omega))
      have hle := ih (by omega)
      omega
  have hmost : registry.toll (registry.scanned ids (registry.size + 1)) ≤ registry.size := by
    rw [h.size]
    exact List.countP_le_length
  have hleast := htoll (registry.size + 1) (Nat.le_refl _)
  omega

theorem Indexed.scanned_eq_removed (h : registry.Indexed) {ids : List ClassId} {n : Nat}
    (hdone : registry.dependents (registry.scanned ids n) = []) :
    (registry.scanned ids n).toList = (registry.removeBatch ids).1.map (·.id) := by
  refine @IdTable.eq_of_ascending classIds ClassId (fun j => j) _ _ ?_
    (List.pairwise_map.mpr (h.removeBatch_ascending ids)) fun j => ?_
  · exact (registry.scanned ids n).ordered_toList.imp fun hlt => Nat.compare_eq_lt.mp hlt
  · rw [Std.TreeSet.mem_toList, h.mem_scanned hdone, List.mem_map]
    constructor
    · intro hfalls
      obtain ⟨c, hget⟩ := hfalls.registered
      obtain rfl := h.id_of_get? hget
      exact ⟨c, (h.mem_removeBatch ids c).mpr ⟨hget, hfalls⟩, rfl⟩
    · rintro ⟨c, hc, rfl⟩
      exact ((h.mem_removeBatch ids c).mp hc).2

structure Clears (before : Registry σ) (ids : List ClassId) (removed : List ClassDescriptor)
    (after : Registry σ) : Prop where
  isLeast : IsLeast {s | before.ClosedOver ids s} {c | c ∈ removed}
  ascending : removed.Pairwise fun a b => a.id < b.id
  registered : after.registered = before.registered.filter (· ∉ removed)
  get?_eq : ∀ id, after.get? id = (before.get? id).filter (· ∉ removed)
  loaders : after.graph = before.graph ∧ after.retired = before.retired ∧
    after.issued = before.issued
  agreeing : after.Agreeing
  /-- Scanning in rounds ends, and whenever it does it has found what the batch removes. -/
  ends : ∃ n ≤ before.size, before.dependents (before.scanned ids n) = []
  found : ∀ n, before.dependents (before.scanned ids n) = [] →
    (before.scanned ids n).toList = removed.map (·.id)

theorem Viewed.clears (h : registry.Viewed) (ids : List ClassId) :
    registry.Clears ids (registry.removeBatch ids).1 (registry.removeBatch ids).2 where
  isLeast := h.removeBatch_isLeast ids
  ascending := h.removeBatch_ascending ids
  registered := h.registered_removeBatch ids
  get?_eq := h.get?_removeBatch_eq ids
  loaders := h.loaders_removeBatch ids
  agreeing := (h.removeBatch ids).agreeing
  ends := h.scanned_ends ids
  found _ := h.scanned_eq_removed

/-- Whatever a run has led to, a batch removes the closure of the given classes and nothing else.
The same batch finds nothing to remove again, and batches after one another come to the same as one
batch, in whatever order. -/
theorem Undergoes.batches_close {bootSources : List σ} (h : Undergoes (new bootSources) registry) :
    (∀ ids, registry.Clears ids (registry.removeBatch ids).1 (registry.removeBatch ids).2) ∧
      (∀ ids, (registry.removeBatch ids).2.removeBatch ids = ([], (registry.removeBatch ids).2)) ∧
      ∀ a b, ((registry.removeBatch a).2.removeBatch b).2.registered =
          ((registry.removeBatch b).2.removeBatch a).2.registered ∧
        ((registry.removeBatch a).2.removeBatch b).2.registered =
          (registry.removeBatch (a ++ b)).2.registered := by
  have hviewed := (h.viewed (new_viewed bootSources)).1
  exact ⟨hviewed.clears, hviewed.removeBatch_twice,
    fun a b => ⟨hviewed.removeBatch_comm a b, hviewed.removeBatch_append a b⟩⟩

/-- A batch that names a class twice, together with one that is long gone. -/
def repetitive : List ClassId := [classId 4, classId 1, classId 4]

theorem reloaded_batch_closes :
    (reloaded.removeBatch repetitive).1.map (·.id.number) = [4, 5] ∧
      reloaded.Clears repetitive (reloaded.removeBatch repetitive).1
        (reloaded.removeBatch repetitive).2 ∧
      (reloaded.removeBatch repetitive).2.removeBatch repetitive =
        ([], (reloaded.removeBatch repetitive).2) :=
  have h := Undergoes.batches_close (develops_reloaded _)
  ⟨by decide +kernel, h.1 repetitive, h.2.1 repetitive⟩

end Metaspace.Registry
