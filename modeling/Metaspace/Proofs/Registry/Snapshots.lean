import Metaspace.Proofs.Bisection
import Metaspace.Proofs.Registry.Views

/-!
Snapshots and the registry that they are taken of. Ids ascend in a registry whatever was done to it,
so that a snapshot, which looks ids up by bisection, answers as the registry did. What the registry
becomes later tells no other story of the ids that the snapshot knows: their classes and loaders are
the same or gone.
-/

set_option autoImplicit false

namespace Metaspace

variable {σ : Type}

namespace Snapshot

variable {snapshot : Snapshot σ}

structure Ordered (snapshot : Snapshot σ) : Prop where
  classes : snapshot.classes.Pairwise fun c d => c.id < d.id
  loaders : snapshot.loaders.Pairwise fun l k => l.id < k.id

theorem Ordered.get?_iff (h : snapshot.Ordered) {id : ClassId} {c : ClassDescriptor} :
    snapshot.get? id = some c ↔ c ∈ snapshot.classes ∧ c.id = id :=
  Ascends.bisect?_eq_some (h.classes.imp Nat.compare_eq_lt.mpr)

theorem Ordered.loader?_iff (h : snapshot.Ordered) {id : LoaderId} {l : Loader σ} :
    snapshot.loader? id = some l ↔ l ∈ snapshot.loaders ∧ l.id = id :=
  Ascends.bisect?_eq_some (h.loaders.imp Nat.compare_eq_lt.mpr)

structure Depicts (snapshot : Snapshot σ) (registry : Registry σ) : Prop extends
    Ordered snapshot where
  get : ∀ id, snapshot.get? id = registry.get? id
  loader : ∀ id, snapshot.loader? id = registry.loader? id
  mem_classes : ∀ c, c ∈ snapshot.classes ↔ registry.get? c.id = some c
  mem_loaders : ∀ l, l ∈ snapshot.loaders ↔ registry.loader? l.id = some l
  counts : snapshot.counts = registry.counts
  tally : snapshot.counts = .tally snapshot.classes
  size : snapshot.size = registry.size
  generation : snapshot.generation = registry.generation
  housed : ∀ c ∈ snapshot.classes, ∃ l, snapshot.loader? c.loader = some l

/-- What the snapshot knows of a registry that has changed since: what it finds was not replaced by
anything else, and what it misses there is newer than all it has. -/
structure Recalls (snapshot : Snapshot σ) (later : Registry σ) : Prop where
  get : ∀ id c, snapshot.get? id = some c → later.get? id = some c ∨ later.get? id = none
  newer : ∀ id c, snapshot.get? id = none → later.get? id = some c →
    ∀ d ∈ snapshot.classes, d.id < id
  loader : ∀ id l, snapshot.loader? id = some l →
    (later.loader? id = some l ∧ later.isUnloading id = false) ∨
      (later.loader? id = none ∧ later.isUnloading id = true)
  newerLoader : ∀ id l, snapshot.loader? id = none → later.loader? id = some l →
    ∀ k ∈ snapshot.loaders, k.id < id
  /-- While the generation stands still, the classes are those of the snapshot. -/
  current : later.generation = snapshot.generation → ∀ id, later.get? id = snapshot.get? id

end Snapshot

namespace Registry

variable {registry : Registry σ}

theorem Indexed.ordered_snapshot (h : registry.Indexed) : registry.snapshot.Ordered :=
  ⟨h.ascending, h.roster.ordered⟩

theorem Indexed.get?_snapshot (h : registry.Indexed) (id : ClassId) :
    registry.snapshot.get? id = registry.get? id := by
  refine Option.ext fun c => ?_
  rw [h.ordered_snapshot.get?_iff]
  constructor
  · rintro ⟨hc, rfl⟩
    exact h.mem_registered.mp hc
  · intro hget
    exact ⟨h.mem_registered_of_get? hget, h.id_of_get? hget⟩

theorem Indexed.loader?_snapshot (h : registry.Indexed) (id : LoaderId) :
    registry.snapshot.loader? id = registry.loader? id := by
  refine Option.ext fun l => ?_
  rw [h.ordered_snapshot.loader?_iff, h.loader?_eq_some]
  rfl

theorem Viewed.depicted (h : registry.Viewed) : registry.snapshot.Depicts registry where
  toOrdered := h.ordered_snapshot
  get := h.get?_snapshot
  loader := h.loader?_snapshot
  mem_classes _ := h.mem_registered
  mem_loaders l := by
    rw [h.loader?_eq_some]
    exact (and_iff_left rfl).symm
  counts := rfl
  tally := h.counts
  size := h.size.symm
  generation := rfl
  housed c hc := by
    obtain ⟨l, hl, hid⟩ := h.housed c hc
    exact ⟨l, h.ordered_snapshot.loader?_iff.mpr ⟨hl, hid⟩⟩

structure Stable (P : Registry σ → Prop) : Prop where
  indexed : ∀ r, P r → r.Indexed
  newLoader : ∀ {r s : Registry σ} {name : String} {sources : List σ} {id : LoaderId}, P r →
    r.newLoader? name sources = some (id, s) → P s
  adding : ∀ {r : Registry σ} {c : ClassDescriptor}, P r → r.Fresh c → P (r.adding c)
  removing : ∀ {r : Registry σ} {c : ClassDescriptor}, P r → r.get? c.id = some c →
    P (r.removing c)
  turning : ∀ r, P r → P { r with generation := r.generation + 1 }
  dropping : ∀ {r : Registry σ} {l : Loader σ}, P r → l ∈ r.graph → r.Droppable l →
    P (r.dropping l.id)

theorem Stable.invariant {P : Registry σ → Prop} (h : Stable P)
    (rule : Registry σ → ClassDefinition → Prop) : Invariant rule P where
  indexed := h.indexed _
  newLoader := h.newLoader
  insert hr _ hc := h.adding hr hc.toFresh
  derive hr _ hc := h.adding hr hc.toFresh
  load hr _ hc := h.adding hr hc.toFresh
  removeBatch ids hr := removeBatch_keeps h.indexed (fun _ _ => h.removing) h.turning hr ids
  unloadLoaders ids hr := unloadLoaders_keeps h.indexed (fun _ _ => h.dropping) hr ids

/-- A registry that another one has become: ids are issued once, and of the loaders those that went
are retired. -/
structure Follows (before after : Registry σ) : Prop extends Outgrows before after where
  indexed : after.Indexed
  retires : ∀ l ∈ before.graph, l ∈ after.graph ∨ l.id ∈ after.retired

theorem follows_stable (before : Registry σ) : Stable (Follows before) where
  indexed _ h := h.indexed
  newLoader {r s name sources id} h hnew := by
    refine ⟨h.toOutgrows.trans (outgrows_newLoader? hnew), h.indexed.newLoader? hnew, ?_⟩
    intro l hl
    have hretires := h.retires l hl
    rw [newLoader?_graph hnew, List.mem_append]
    obtain ⟨-, rfl⟩ := newLoader?_eq_some hnew
    exact hretires.imp_left .inl
  adding {r c} h hc := by
    refine ⟨h.toOutgrows.trans hc.outgrows, h.indexed.adding hc, ?_⟩
    rw [adding_graph]
    exact h.retires
  removing {r c} h hget := by
    refine ⟨h.toOutgrows.trans (outgrows_removing hget), h.indexed.removing hget, ?_⟩
    rw [removing_graph]
    exact h.retires
  turning _ h := { h with indexed := { h.indexed with } }
  dropping {r l} h hl hdrop := by
    refine ⟨h.toOutgrows.trans (outgrows_dropping l.id), h.indexed.dropping hl hdrop, ?_⟩
    intro k hk
    have hretired : (r.dropping l.id).retired = l.id :: r.retired := rfl
    rw [graph_dropping, List.mem_filter, hretired, List.mem_cons]
    by_cases hid : k.id = l.id
    · exact Or.inr (Or.inl hid)
    · rcases h.retires k hk with hthere | hgone
      · exact Or.inl ⟨hthere, by simpa using hid⟩
      · exact Or.inr (Or.inr hgone)

theorem Develops.follows {rule : Registry σ → ClassDefinition → Prop} {before after : Registry σ}
    (h : Develops rule before after) (hbefore : before.Indexed) : Follows before after :=
  ((follows_stable before).invariant rule).develops h
    ⟨.refl before, hbefore, fun _ => .inl⟩

theorem Indexed.number_le (h : registry.Indexed) {c : ClassDescriptor}
    (hc : c ∈ registry.registered) : c.id.number ≤ registry.classes.entries.size :=
  (IdTable.issued_of_get? (h.mem_registered.mp hc)).2

theorem Viewed.recalls (h : registry.Viewed) {later : Registry σ}
    (hlater : Undergoes registry later) : registry.snapshot.Recalls later := by
  have hfollows := hlater.follows h.toIndexed
  have hages := (hlater.viewed h).2
  refine ⟨?_, ?_, ?_, ?_, ?_⟩
  · intro id c hget
    rw [h.get?_snapshot] at hget
    rw [← hget]
    exact hfollows.classes id (IdTable.issued_of_get? hget)
  · intro id c hnone hget d hd
    rw [h.get?_snapshot] at hnone
    -- the id is not one of those issued before, as its class would have been there before
    have hunissued : ¬ registry.classes.Issued id := by
      intro hissued
      rw [hfollows.get?_before hissued hget] at hnone
      contradiction
    have hissued := IdTable.issued_of_get? hget
    have hle := h.number_le hd
    rw [IdTable.Issued] at hunissued hissued
    rw [Id.lt_def]
    omega
  · intro id l hl
    rw [h.loader?_snapshot] at hl
    obtain ⟨hmem, rfl⟩ := h.loader?_eq_some.mp hl
    rcases hfollows.retires l hmem with hthere | hgone
    · exact Or.inl ⟨hfollows.indexed.loader?_eq_some.mpr ⟨hthere, rfl⟩,
        hfollows.indexed.isUnloading_eq_false hthere⟩
    · refine Or.inr ⟨Option.eq_none_iff_forall_ne_some.mpr fun k hk => ?_,
        List.contains_iff_mem.mpr hgone⟩
      obtain ⟨hk, hid⟩ := hfollows.indexed.loader?_eq_some.mp hk
      exact (hfollows.indexed.roster.retired l.id hgone).2 k hk hid
  · intro id l hnone hl k hk
    rw [h.loader?_snapshot] at hnone
    obtain ⟨hmem, rfl⟩ := hfollows.indexed.loader?_eq_some.mp hl
    have hunissued : ¬ l.id.number ≤ registry.issued := by
      intro hle
      rw [h.loader?_eq_some.mpr ⟨hfollows.loaders l hmem hle, rfl⟩] at hnone
      contradiction
    have hle := h.roster.numbered k hk
    rw [Id.lt_def]
    omega
  · intro hgeneration id
    rw [h.get?_snapshot, Registry.get?, hages.classes_eq hgeneration]
    rfl

/-- A snapshot answers as the registry did that it was taken of, and goes on to, while what it says
of a later registry is out of date only where a class or loader went or is newer. -/
theorem Undergoes.snapshot_answers {bootSources : List σ}
    (h : Undergoes (new bootSources) registry) :
    registry.snapshot.Depicts registry ∧
      ∀ later, Undergoes registry later → registry.snapshot.Recalls later := by
  have hviewed := (h.viewed (new_viewed bootSources)).1
  exact ⟨hviewed.depicted, fun later hlater => hviewed.recalls hlater⟩

/-- The snapshot has the two classes that are registered, also after their removal, but not the one
that was removed before. -/
theorem reloaded_snapshot_answers :
    reloaded.snapshot.classes.map (·.id.number) = [4, 5] ∧
    reloaded.snapshot.Depicts reloaded ∧
    reloaded.snapshot.Recalls (reloaded.removeBatch [classId 4]).2 ∧
    (reloaded.removeBatch [classId 4]).2.registered = [] :=
  have h := Undergoes.snapshot_answers (develops_reloaded _)
  ⟨by decide +kernel, h.1, h.2 _ (.removeBatch _ (.refl reloaded)), by decide +kernel⟩

end Registry
end Metaspace
