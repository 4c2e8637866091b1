import Metaspace.Proofs.Machine.Departure
import Metaspace.Proofs.Machine.Remnants

/-!
Making a loader. The loader is in the graph before it has its holder, and stays there through the
collection that may have to make room for the holder. In the end either the holder is recorded and
rooted or nothing is left of the loader; other loaders go only with their holders.
-/

set_option autoImplicit false

namespace Metaspace

variable {σ : Type}

namespace Machine

open ObjectHeap

variable {handles : List Root} {m : Machine σ}

def Forsakes (m : Machine σ) (l : LoaderId) : Prop :=
  ∃ r, m.objects.holder? l = some r ∧ ¬ m.Reached r

theorem not_forsakes_iff {l : LoaderId} : ¬ m.Forsakes l ↔ m.objects.Keeps m.Reached l := by
  simp only [Forsakes, ObjectHeap.Keeps, not_exists, not_and, not_not]

/-- The machine on which a new loader gets its holder or is refused it, and the loaders that are
lost by then: none, or, if the heap was full, those that a collection found to be forsaken. -/
inductive Readied (m : Machine σ) (id : LoaderId) (entered : Registry σ) :
    Machine σ → (LoaderId → Prop) → Prop where
  | atOnce : (m.objects.heap.alloc (.holderOf id #[]) = .error .outOfHeap →
        m.config.retryAllocation = false) →
      Readied m id entered (m.withRegistry entered) fun _ => False
  | collected {report : CycleReport σ} {mid : Machine σ} :
      m.objects.heap.alloc (.holderOf id #[]) = .error .outOfHeap →
      m.config.retryAllocation = true →
      (m.withRegistry entered).collect = (.ok report, mid) →
      Readied m id entered mid m.Forsakes

/-- The loader is registered, and the holder recorded for it is rooted along with what was held
before. -/
structure Houses (handles : List Root) (m : Machine σ) (l : Loader σ) (holder : Root) : Prop where
  registered : m.registry.loader? l.id = some l
  recorded : m.objects.holder? l.id = some holder.ref
  resolves : m.objects.get? holder.ref = some (.holderOf l.id #[])
  rooted : m.objects.roots.Holds (holder :: handles)

structure Forgoes (before : Machine σ) (id : LoaderId) (after : Machine σ) : Prop where
  absent : ∀ l ∈ after.registry.graph, l.id ≠ id
  unheld : after.objects.holder? id = none
  roots : after.objects.roots = before.objects.roots

structure Admits (handles : List Root) (m : Machine σ) (l : Loader σ) (entered : Registry σ)
    (ready : Machine σ) (lost : LoaderId → Prop) (outcome : Except Failure HeldLoader × Machine σ) :
    Prop where
  fresh : ∀ k ∈ m.registry.graph, k.id ≠ l.id
  readied : m.Readied l.id entered ready lost
  waiting : l ∈ ready.registry.graph ∧ ready.objects.holder? l.id = none
  loaders : ∀ k, k.id ≠ l.id →
    (k ∈ outcome.2.registry.graph ↔ k ∈ m.registry.graph ∧ ¬ lost k.id)
  classes : ∀ id c, outcome.2.registry.get? id = some c ↔
    m.registry.get? id = some c ∧ ¬ lost c.loader
  outcome :
    (∃ heap holder, ready.objects.heap.alloc (.holderOf l.id #[]) = .ok (holder.ref, heap) ∧
      outcome.1 = .ok ⟨l.id, holder⟩ ∧ outcome.2.Houses handles l holder) ∨
    (∃ e, ready.objects.heap.alloc (.holderOf l.id #[]) = .error e ∧
      outcome.1 = .error ((Failure.of (.allocation e)).within (.allocatingHolder l.name)) ∧
      m.Forgoes l.id outcome.2)

theorem attempt_makeHolder_of_error {id : LoaderId} {e : AllocationError}
    (h : m.objects.heap.alloc (.holderOf id #[]) = .error e) :
    m.attempt (fun _ objects => objects.makeHolder id) = (.error (.allocation e), m) := by
  simp [Machine.attempt, makeHolder, ObjectHeap.alloc, h]

theorem attempt_makeHolder_of_ok {id : LoaderId} {r : Ref} {heap : Heap Object}
    (h : m.objects.heap.alloc (.holderOf id #[]) = .ok (r, heap)) :
    ∃ holder next, m.attempt (fun _ objects => objects.makeHolder id) = (.ok holder, next) ∧
      holder.ref = r ∧ next.registry = m.registry := by
  let objects := { m.objects with heap, holders := m.objects.holders.insert id r }
  refine ⟨(objects.root r).1, { m with objects := (objects.root r).2 }, ?_, rfl, rfl⟩
  simp [Machine.attempt, makeHolder, ObjectHeap.alloc, h, objects]

/-- What the new loader waits on: a machine in order on which it has no holder, with the other
loaders and the classes that are not lost. -/
structure Awaits (handles : List Root) (m : Machine σ) (l : Loader σ) (lost : LoaderId → Prop)
    (ready : Machine σ) : Prop where
  sound : ready.Sound (some l.id) handles
  roots : ready.objects.roots = m.objects.roots
  mem_graph : ∀ k, k ∈ ready.registry.graph ↔ k ∈ m.registry.graph ∧ ¬ lost k.id ∨ k = l
  get?_eq_some : ∀ id c, ready.registry.get? id = some c ↔
    m.registry.get? id = some c ∧ ¬ lost c.loader

theorem Readied.awaits (h : m.Sound none handles) {name : String} {sources : List σ}
    {id : LoaderId} {entered : Registry σ}
    (hnew : m.registry.newLoader? name sources = some (id, entered)) {ready : Machine σ}
    {lost : LoaderId → Prop} (hready : m.Readied id entered ready lost) :
    m.Awaits handles ⟨id, name, false, sources⟩ lost ready := by
  have hentered := h.entering hnew
  have hgraph : ∀ k, k ∈ entered.graph ↔ k ∈ m.registry.graph ∨ k = ⟨id, name, false, sources⟩ := by
    intro k
    rw [Registry.newLoader?_graph hnew, List.mem_append, List.mem_singleton]
  have hget : ∀ k, entered.get? k = m.registry.get? k := by
    intro k
    obtain ⟨-, rfl⟩ := Registry.newLoader?_eq_some hnew
    rfl
  cases hready with
  | atOnce _ =>
    refine ⟨hentered, rfl, fun k => ?_, fun k c => ?_⟩
    · rw [not_false_eq_true, and_true]
      exact hgraph k
    · rw [not_false_eq_true, and_true, ← hget]
      rfl
  | collected _ _ hcollect =>
    obtain ⟨hsound, -, hculled, hswept⟩ := hentered.collected hcollect
    have hkeeps : ∀ l, (m.withRegistry entered).objects.Keeps (m.withRegistry entered).Reached l ↔
        ¬ m.Forsakes l := fun l => not_forsakes_iff.symm
    refine ⟨hsound, hswept.roots, fun k => ?_, fun k c => ?_⟩
    · rw [hculled.mem_graph, hkeeps, show (m.withRegistry entered).registry = entered from rfl,
        hgraph, or_and_right]
      refine or_congr_right (and_iff_left_of_imp ?_)
      -- the collection does not miss the holder that the new loader has not got
      rintro rfl ⟨r, hholder, -⟩
      have hunheld : m.objects.holder? id = none := (hentered.linked.pending id rfl).unheld
      rw [hunheld] at hholder
      contradiction
    · rw [hculled.get?_eq_some, hkeeps, show (m.withRegistry entered).registry = entered from rfl,
        hget]

theorem Sound.readied (h : m.Sound none handles) {name : String} {sources : List σ}
    {id : LoaderId} {entered : Registry σ}
    (hnew : m.registry.newLoader? name sources = some (id, entered)) :
    ∃ ready lost, m.Readied id entered ready lost ∧
      (m.withRegistry entered).allocateRooted (fun _ objects => objects.makeHolder id) =
        ((ready.attempt fun _ objects => objects.makeHolder id).1.mapError .of,
          (ready.attempt fun _ objects => objects.makeHolder id).2) := by
  have hentered := h.entering hnew
  by_cases hfull : m.objects.heap.alloc (.holderOf id #[]) = .error .outOfHeap ∧
      m.config.retryAllocation = true
  · obtain ⟨report, mid, hcollect, -⟩ := hentered.collect
    exact ⟨mid, m.Forsakes, .collected hfull.1 hfull.2 hcollect,
      allocateRooted_of_retry (attempt_makeHolder_of_error hfull.1) hfull.2 hcollect⟩
  · have honce : m.objects.heap.alloc (.holderOf id #[]) = .error .outOfHeap →
        m.config.retryAllocation = false := by
      intro halloc
      rw [Bool.eq_false_iff]
      exact fun hretry => hfull ⟨halloc, hretry⟩
    refine ⟨_, _, .atOnce honce, allocateRooted_once fun failed hattempt => ?_⟩
    cases halloc : m.objects.heap.alloc (.holderOf id #[]) with
    | ok made =>
      obtain ⟨holder, next, hmade, -⟩ :=
        attempt_makeHolder_of_ok (m := m.withRegistry entered) halloc
      rw [hmade] at hattempt
      obtain ⟨hfailed, -⟩ := Prod.mk.inj hattempt
      contradiction
    | error e =>
      rw [attempt_makeHolder_of_error (m := m.withRegistry entered) halloc] at hattempt
      obtain ⟨hfailed, rfl⟩ := Prod.mk.inj hattempt
      obtain rfl := Cause.allocation.inj (Except.error.inj hfailed)
      exact honce halloc

theorem Sound.newLoader_admits (h : m.Sound none handles) {name : String} {sources : List σ}
    {id : LoaderId} {entered : Registry σ}
    (hnew : m.registry.newLoader? name sources = some (id, entered)) :
    ∃ ready lost, m.Admits handles ⟨id, name, false, sources⟩ entered ready lost
      (m.newLoader name sources) := by
  obtain ⟨ready, lost, hready, hallocated⟩ := h.readied hnew
  have hawaits := hready.awaits h hnew
  have hfresh := h.linked.coherent.ne_of_newLoader? hnew
  have hpending := hawaits.sound.linked.pending id rfl
  have hserves := h.toUpheld.newLoader name sources
  have hothers : ∀ k : Loader σ, k.id ≠ id →
      (k ∈ ready.registry.graph ↔ k ∈ m.registry.graph ∧ ¬ lost k.id) := by
    intro k hne
    rw [hawaits.mem_graph]
    refine or_iff_left ?_
    rintro rfl
    exact hne rfl
  have hwaiting := (hawaits.mem_graph _).mpr (.inr rfl)
  cases halloc : ready.objects.heap.alloc (.holderOf id #[]) with
  | ok made =>
    obtain ⟨r, heap⟩ := made
    obtain ⟨holder, next, hattempt, rfl, hregistry⟩ := attempt_makeHolder_of_ok halloc
    rw [hattempt] at hallocated
    have houtcome := newLoader_of_ok hnew hallocated
    rw [houtcome] at hserves ⊢
    obtain ⟨hupheld, _, hget, rfl⟩ := hserves.ok _ rfl
    refine ⟨ready, lost, hfresh, hready, ⟨hwaiting, hpending.unheld⟩, ?_, ?_, .inl ?_⟩
    · rw [hregistry]
      exact hothers
    · rw [hregistry]
      exact hawaits.get?_eq_some
    · refine ⟨heap, holder, halloc, rfl, ?_, ?_, hget, hupheld.holds⟩
      · refine hupheld.linked.coherent.loader?_eq_some.mpr ⟨?_, rfl⟩
        rw [hregistry]
        exact hwaiting
      · exact (hupheld.linked.fits holder.ref _ hget).1
  | error e =>
    rw [attempt_makeHolder_of_error halloc] at hallocated
    have houtcome := newLoader_of_error hnew hallocated
    have hleft := hawaits.sound.linked.mem_graph_leaving
    have hdrops := hawaits.sound.linked.coherent.toIndexed.unloadLoaders [id]
    rw [houtcome]
    refine ⟨ready, lost, hfresh, hready, ⟨hwaiting, hpending.unheld⟩, ?_, ?_, .inr ?_⟩
    · intro k hne
      rw [← hothers k hne]
      exact (hleft k).trans (and_iff_left hne)
    · intro k c
      rw [← hawaits.get?_eq_some, ← hdrops.get?_eq]
      rfl
    · exact ⟨e, halloc, rfl, fun k hk => ((hleft k).mp hk).2, hpending.unheld, hawaits.roots⟩

end Machine

namespace Session

/-- A loader is all there or not there. It is made with its holder, also after a collection, unless
the heap refuses the holder, and then nothing is left of it. Other loaders and the classes stay,
except for those whose holders the collection finds out of reach. -/
theorem Reached.newLoader_whole_or_absent {config : Config} {bootSources : List σ} {s : Session σ}
    (h : Reached config bootSources s) (name : String) (sources : List σ) :
    (s.machine.registry.newLoader? name sources = none ∧
      s.machine.newLoader name sources = (.error (.of (.classError .idsExhausted)), s.machine)) ∨
    ∃ id entered ready lost, s.machine.registry.newLoader? name sources = some (id, entered) ∧
      s.machine.Admits s.handles ⟨id, name, false, sources⟩ entered ready lost
        (s.machine.newLoader name sources) := by
  cases hnew : s.machine.registry.newLoader? name sources with
  | none => exact .inl ⟨rfl, Machine.newLoader_of_none hnew⟩
  | some made =>
    obtain ⟨id, entered⟩ := made
    obtain ⟨ready, lost, hadmits⟩ := h.sound.1.machine.newLoader_admits hnew
    exact .inr ⟨id, entered, ready, lost, rfl, hadmits⟩

def vacated : Session Unit := without ⟨0, ⟨0, 0⟩⟩ cramped

theorem vacated_reached : Reached { heapSize := 64 } [] vacated :=
  cramped_reached.without (by decide +kernel)

theorem vacated_numbers :
    (vacated.machine.registry.newLoader? "late" [()]).map (·.1) = some (Registry.loaderId 3) ∧
      (cramped.machine.registry.newLoader? "late" [()]).map (·.1) = some (Registry.loaderId 3) := by
  decide +kernel

/-- Another loader needs a collection. It gets its holder if the one that was there may go, and is
refused one if that is still held. -/
theorem vacated_admits_loader :
    (∃ holder, (vacated.machine.newLoader "late" [()]).1 = .ok ⟨Registry.loaderId 3, holder⟩ ∧
      (vacated.machine.newLoader "late" [()]).2.engine.coordinator.completed = 1 ∧
      (vacated.machine.newLoader "late" [()]).2.Houses vacated.handles
        ⟨Registry.loaderId 3, "late", false, [()]⟩ holder) ∧
    (cramped.machine.newLoader "late" [()]).1 =
      .error ⟨[.allocatingHolder "late"], .allocation .outOfHeap⟩ ∧
    (cramped.machine.newLoader "late" [()]).2.engine.coordinator.completed = 1 ∧
    cramped.machine.Forgoes (Registry.loaderId 3) (cramped.machine.newLoader "late" [()]).2 := by
  obtain ⟨hvacated, hcramped⟩ := vacated_numbers
  constructor
  · obtain ⟨hnone, -⟩ | ⟨id, entered, ready, lost, hnew, hadmits⟩ :=
      vacated_reached.newLoader_whole_or_absent "late" [()]
    · rw [hnone] at hvacated
      contradiction
    · rw [hnew] at hvacated
      obtain rfl := Option.some.inj hvacated
      have hmade : (vacated.machine.newLoader "late" [()]).1.toOption.isSome = true := by
        decide +kernel
      obtain ⟨heap, holder, -, hok, hhouses⟩ | ⟨e, -, hfailed, -⟩ := hadmits.outcome
      · exact ⟨holder, hok, by decide +kernel, hhouses⟩
      · rw [hfailed] at hmade
        contradiction
  · obtain ⟨hnone, -⟩ | ⟨id, entered, ready, lost, hnew, hadmits⟩ :=
      cramped_reached.newLoader_whole_or_absent "late" [()]
    · rw [hnone] at hcramped
      contradiction
    · rw [hnew] at hcramped
      obtain rfl := Option.some.inj hcramped
      have hrefused : (cramped.machine.newLoader "late" [()]).1 =
          .error ⟨[.allocatingHolder "late"], .allocation .outOfHeap⟩ := by
        decide +kernel
      obtain ⟨heap, holder, -, hok, -⟩ | ⟨e, -, -, hforgoes⟩ := hadmits.outcome
      · rw [hrefused] at hok
        contradiction
      · exact ⟨hrefused, by decide +kernel, hforgoes⟩

end Session
end Metaspace
