import Metaspace.Proofs.Machine.Budget
import Metaspace.Proofs.Machine.Operations

/-!
What operations do to a machine, step by step and whatever state it is in. They put objects on the
heap, change them without changing their bytes, and keep their records; all else is full
collections, and an operation runs one only as the second half of a retry.
-/

set_option autoImplicit false

namespace Metaspace

variable {σ ω : Type}

namespace ObjectHeap

/-- One object heap became another without a collection. -/
inductive Deals : ObjectHeap → ObjectHeap → Prop where
  | refl (objects : ObjectHeap) : Deals objects objects
  | alloc {before objects : ObjectHeap} {object : Object} {r : Ref} {heap : Heap Object} :
      Deals before objects → object.bytes < 2 ^ 64 → objects.heap.alloc object = .ok (r, heap) →
      Deals before { objects with heap }
  | modify {before objects : ObjectHeap} (r : Ref) {f : Object → Object} : Deals before objects →
      (∀ object, (f object).bytes = object.bytes) →
      Deals before { objects with heap := objects.heap.modify r f }
  | record {before objects after : ObjectHeap} (frozen : List Ref) : Deals before objects →
      after.heap = { objects.heap with frozen } → Deals before after

namespace Deals

theorem trans {a b c : ObjectHeap} (hab : Deals a b) (hbc : Deals b c) : Deals a c := by
  induction hbc with
  | refl => exact hab
  | alloc _ hfits halloc ih => exact ih.alloc hfits halloc
  | modify r _ hf ih => exact ih.modify r hf
  | record frozen _ heq ih => exact ih.record frozen heq

theorem of_heap {before after : ObjectHeap} (h : after.heap = before.heap) : Deals before after :=
  .record before.heap.frozen (.refl before) h

theorem paid {before after : ObjectHeap} {capacity : UInt64} (h : Deals before after)
    (hpaid : before.heap.Paid capacity) : after.heap.Paid capacity := by
  induction h with
  | refl => exact hpaid
  | alloc _ hfits halloc ih => exact ih.alloc hfits halloc
  | modify r _ hf ih => exact ih.modify r hf
  | record frozen _ heq ih =>
    rw [heq]
    exact ih.withFrozen frozen

end Deals

theorem deals_alloc (objects : ObjectHeap) (object : Object) (hfits : object.bytes < 2 ^ 64) :
    Deals objects (objects.alloc object).2 := by
  unfold ObjectHeap.alloc
  split
  · rename_i halloc
    exact .alloc (.refl objects) hfits halloc
  · exact .refl objects

theorem deals_makeHolder (objects : ObjectHeap) (id : LoaderId) :
    Deals objects (objects.makeHolder id).2 := by
  have halloc := objects.deals_alloc (.holderOf id #[]) (by simp [Object.bytes])
  unfold makeHolder
  generalize objects.alloc (.holderOf id #[]) = outcome at halloc ⊢
  obtain ⟨_ | r, next⟩ := outcome
  · exact halloc
  · exact halloc.trans (.of_heap rfl)

theorem deals_pin (objects : ObjectHeap) (r : Ref) : Deals objects (objects.pin r) := by
  unfold pin Heap.freeze
  by_cases hfrozen : objects.heap.frozen.contains r = true
  · simp only [hfrozen, if_true]
    exact .refl objects
  · simp only [hfrozen]
    exact .record (r :: objects.heap.frozen) (.refl objects) rfl

theorem deals_hold (objects : ObjectHeap) (holder mirror : Ref) :
    Deals objects (objects.hold holder mirror) := by
  refine .modify holder (.refl objects) fun object => ?_
  cases object <;> rfl

theorem deals_makeMirror (objects : ObjectHeap) (c : ClassDescriptor) (component : Option Ref) :
    Deals objects (objects.makeMirror c component).2 := by
  have halloc := objects.deals_alloc (.mirrorOf c.id (objects.holder? c.loader) component)
    (by simp [Object.bytes])
  unfold makeMirror
  dsimp only
  generalize objects.alloc (.mirrorOf c.id (objects.holder? c.loader) component) = outcome
    at halloc ⊢
  obtain ⟨_ | r, next⟩ := outcome
  · exact halloc
  · have hrecorded : Deals objects { next with mirrors := next.mirrors.insert c.id r } :=
      halloc.trans (.of_heap rfl)
    dsimp only
    split
    · exact hrecorded.trans (deals_hold _ _ _)
    · split
      · exact hrecorded.trans (deals_pin _ _)
      · exact hrecorded

theorem deals_ensureMirror (registry : Registry σ) (c : ClassDescriptor)
    (components : List ClassDescriptor) (objects : ObjectHeap) :
    Deals objects (ensureMirror registry c components objects).2 := by
  induction components generalizing c with
  | nil =>
    unfold ensureMirror
    split
    · exact .refl objects
    · exact .refl objects
    · exact objects.deals_makeMirror c none
  | cons d ds ih =>
    have hinner := ih d
    unfold ensureMirror
    split
    · exact .refl objects
    · exact .refl objects
    · dsimp only
      generalize ensureMirror registry d ds objects = outcome at hinner ⊢
      obtain ⟨_ | r, next⟩ := outcome
      · exact hinner
      · exact hinner.trans (next.deals_makeMirror c (some r))

theorem deals_makeInstance (id : ClassId) (mirror : Ref) (registry : Registry σ)
    (objects : ObjectHeap) :
    Deals objects (Machine.makeInstance id mirror registry objects).2 := by
  have halloc := objects.deals_alloc (.instanceOf id mirror #[none])
    (by simp [Object.bytes, Object.referenceSize])
  unfold Machine.makeInstance
  generalize objects.alloc (.instanceOf id mirror #[none]) = outcome at halloc ⊢
  obtain ⟨_ | r, next⟩ := outcome <;> exact halloc

theorem deals_allocArray (objects : ObjectHeap) (level : ArrayLevel)
    {elements : Array (Option Ref)}
    (hfits : (elements.size + 1) * Object.referenceSize + 8 + 16 < 2 ^ 64) :
    Deals objects (objects.allocArray level elements).2 := by
  have halloc := objects.deals_alloc (.arrayOf level.classId level.mirror elements) hfits
  unfold allocArray
  generalize objects.alloc (.arrayOf level.classId level.mirror elements) = outcome at halloc ⊢
  obtain ⟨_ | r, next⟩ := outcome <;> exact halloc

theorem size_of_allocMany {make : ObjectHeap → Except Cause Ref × ObjectHeap} {n : Nat}
    {made elements : Array (Option Ref)} {objects next : ObjectHeap}
    (h : allocMany make n made objects = (.ok elements, next)) :
    elements.size = made.size + n := by
  induction n generalizing made objects with
  | zero =>
    obtain ⟨hmade, -⟩ := Prod.mk.inj h
    rw [← Except.ok.inj hmade, Nat.add_zero]
  | succ n ih =>
    unfold allocMany at h
    split at h
    · rw [ih h, Array.size_push]
      omega
    · obtain ⟨hfailed, -⟩ := Prod.mk.inj h
      contradiction

theorem deals_allocMany {make : ObjectHeap → Except Cause Ref × ObjectHeap}
    (hmake : ∀ objects, Deals objects (make objects).2) (n : Nat) (made : Array (Option Ref))
    (objects : ObjectHeap) : Deals objects (allocMany make n made objects).2 := by
  induction n generalizing made objects with
  | zero => exact .refl objects
  | succ n ih =>
    have hfirst := hmake objects
    unfold allocMany
    generalize make objects = outcome at hfirst ⊢
    obtain ⟨_ | r, next⟩ := outcome
    · exact hfirst
    · exact hfirst.trans (ih (made.push (some r)) next)

theorem deals_allocNested (level : ArrayLevel) (inner : List ArrayLevel) (objects : ObjectHeap) :
    Deals objects (allocNested level inner objects).2 := by
  induction inner generalizing level objects with
  | nil =>
    unfold allocNested
    rw [Object.ensureFits_arraySize]
    split
    · exact .refl objects
    · rename_i hfits
      have hcapacity := objects.heap.capacity.toNat_lt
      refine objects.deals_allocArray level ?_
      rw [Array.size_replicate]
      split at hfits
      · omega
      · contradiction
  | cons next inner ih =>
    unfold allocNested
    rw [Object.ensureFits_arraySize]
    split
    · exact .refl objects
    · rename_i hfits
      have hcapacity := objects.heap.capacity.toNat_lt
      have hmany := deals_allocMany (fun objects => ih next objects) level.length #[] objects
      have hsize : ∀ elements last,
          allocMany (allocNested next inner) level.length #[] objects = (.ok elements, last) →
          elements.size = level.length := by
        intro elements last hmade
        rw [size_of_allocMany hmade, Array.size_empty, Nat.zero_add]
      dsimp only
      generalize allocMany (allocNested next inner) level.length #[] objects = outcome at *
      obtain ⟨_ | elements, last⟩ := outcome
      · exact hmany
      · refine hmany.trans (last.deals_allocArray level ?_)
        rw [hsize elements last rfl]
        split at hfits
        · omega
        · contradiction

end ObjectHeap

/-- A cycle over the object heap comes to its end and marks and sweeps the heap, whatever is on
it. -/
theorem run_heapOracle_objects (classUnloading : Bool) (cycle : Nat) (engine : Engine σ)
    (objects : ObjectHeap) (found : Reachability) :
    ∃ report next found', Cycle.run (heapOracle classUnloading) cycle (engine, objects, found) =
      (.ok report, next, (objects.mark (!classUnloading)).sweep (report.unloaded.map (·.id))
        (report.unloadedLoaders.map (·.id)), found') ∧
      next.coordinator = engine.coordinator.setPhase .evicting := by
  let begun : Engine σ × HeapView := (engine, objects.mark (!classUnloading),
    .ofMarked (objects.mark (!classUnloading)) engine.registry engine.registry.snapshot)
  have hbegin : (heapOracle classUnloading).beginCycle engine.registry.snapshot
      (engine, objects, found) = (.ok (), begun) := rfl
  have hdecide : ∃ verdict, Cycle.decide (heapOracle classUnloading) engine.registry.snapshot
      (Cycle.setPhase .deciding begun) = (.ok verdict, Cycle.setPhase .deciding begun) := by
    cases hunloading : (Cycle.setPhase .deciding begun).1.classUnloading with
    | true => exact ⟨_, Cycle.decide_of_answers hunloading (.of_still (fun _ => rfl) _)
        (.of_still (fun _ => rfl) _)⟩
    | false =>
      unfold Cycle.decide
      rw [hunloading]
      exact ⟨([], []), rfl⟩
  obtain ⟨⟨classes, loaders⟩, hdecide⟩ := hdecide
  unfold Cycle.run
  simp only [hbegin, hdecide]
  exact ⟨_, _, _, rfl, rfl⟩

namespace Machine

variable {m n : Machine σ}

theorem collect_of_idle (hidle : m.engine.coordinator.phase = .idle) :
    ∃ report after classes loaders, m.collect = (.ok report, after) ∧ after.config = m.config ∧
      after.objects = (m.objects.mark (!m.config.classUnloading)).sweep classes loaders ∧
      after.engine.coordinator.phase = .idle ∧
      after.engine.coordinator.started = m.engine.coordinator.started + 1 ∧
      after.engine.coordinator.completed = m.engine.coordinator.started + 1 := by
  obtain ⟨report, next, found, hrun, hcoordinator⟩ := run_heapOracle_objects
    m.config.classUnloading (m.engine.coordinator.started + 1) m.entered m.objects m.found
  refine ⟨report, _, _, _, collect_of_run hidle hrun, rfl, rfl, rfl, ?_, rfl⟩
  exact congrArg Coordinator.started hcoordinator

theorem collect_of_running (hrunning : m.engine.coordinator.phase ≠ .idle) :
    m.collect.2.config = m.config ∧ m.collect.2.objects = m.objects ∧
      m.collect.2.engine.coordinator.phase = m.engine.coordinator.phase := by
  unfold Machine.collect trigger Coordinator.enter
  simp only [hrunning, if_false, and_self]

/-- One machine became another by the steps that operations take. -/
inductive Moves : Machine σ → Machine σ → Prop where
  | refl (m : Machine σ) : Moves m m
  | objects {m n : Machine σ} {objects : ObjectHeap} : Moves m n →
      ObjectHeap.Deals n.objects objects → Moves m { n with objects }
  | registry {m n : Machine σ} (registry : Registry σ) : Moves m n →
      Moves m (n.withRegistry registry)
  | collect {m n : Machine σ} : Moves m n → n.config.retryAllocation = true → Moves m n.collect.2

theorem Moves.trans {a b c : Machine σ} (hab : Moves a b) (hbc : Moves b c) : Moves a c := by
  induction hbc with
  | refl => exact hab
  | objects _ hdeals ih => exact ih.objects hdeals
  | registry registry _ ih => exact ih.registry registry
  | collect _ hretry ih => exact ih.collect hretry

theorem Moves.roots (h : Moves m n) (roots : RootTable) :
    Moves m { n with objects := { n.objects with roots } } :=
  h.objects (.of_heap rfl)

theorem Moves.drop (h : Moves m n) (root : Root) : Moves m (n.drop root) :=
  h.roots _

theorem Moves.dropAll (h : Moves m n) (roots : List Root) : Moves m (n.dropAll roots) := by
  induction roots generalizing n with
  | nil => exact h
  | cons root roots ih => exact ih (h.drop root)

theorem moves_attempt (m : Machine σ) (make : Attempt σ)
    (hmake : ∀ registry objects, ObjectHeap.Deals objects (make registry objects).2) :
    Moves m (m.attempt make).2 := by
  have hfirst := (Moves.refl m).objects (hmake m.registry m.objects)
  unfold Machine.attempt
  generalize make m.registry m.objects = outcome at hfirst ⊢
  obtain ⟨_ | r, objects⟩ := outcome
  · exact hfirst
  · exact hfirst.roots _

theorem moves_allocateRooted (m : Machine σ) (make : Attempt σ)
    (hmake : ∀ registry objects, ObjectHeap.Deals objects (make registry objects).2) :
    Moves m (m.allocateRooted make).2 := by
  have hfirst := m.moves_attempt make hmake
  unfold Machine.allocateRooted
  generalize m.attempt make = outcome at hfirst ⊢
  obtain ⟨cause | root, failed⟩ := outcome
  · dsimp only
    split
    · rename_i hretry
      have hcollected := hfirst.collect hretry.2
      generalize failed.collect = outcome at hcollected ⊢
      obtain ⟨failure | report, next⟩ := outcome
      · exact hcollected
      · have hagain := hcollected.trans (next.moves_attempt make hmake)
        dsimp only
        generalize next.attempt make = outcome at hagain ⊢
        obtain ⟨_ | _, last⟩ := outcome <;> exact hagain
    · exact hfirst
  · exact hfirst

theorem moves_newLoader (m : Machine σ) (name : String) (sources : List σ) :
    Moves m (m.newLoader name sources).2 := by
  cases hnew : m.registry.newLoader? name sources with
  | none =>
    rw [newLoader_of_none hnew]
    exact .refl m
  | some made =>
    obtain ⟨id, registry⟩ := made
    have hmade := ((Moves.refl m).registry registry).trans
      ((m.withRegistry registry).moves_allocateRooted _
        fun _ objects => objects.deals_makeHolder id)
    cases hallocated : (m.withRegistry registry).allocateRooted _ with
    | mk result next =>
    rw [hallocated] at hmade
    cases result with
    | ok holder =>
      rw [newLoader_of_ok hnew hallocated]
      exact hmade
    | error failure =>
      rw [newLoader_of_error hnew hallocated]
      exact hmade.registry _

theorem moves_mirrorOf (m : Machine σ) (c : ClassDescriptor) : Moves m (m.mirrorOf c).2 := by
  have hmade := m.moves_allocateRooted
    (fun registry objects => objects.ensureMirror registry c (registry.components c))
    fun registry objects => ObjectHeap.deals_ensureMirror registry c _ objects
  unfold Machine.mirrorOf
  dsimp only
  generalize m.allocateRooted _ = outcome at hmade ⊢
  obtain ⟨_ | root, next⟩ := outcome
  · exact hmade
  · dsimp only
    split
    · exact hmade
    · exact hmade.drop root

theorem moves_holdClass (m : Machine σ) (c : ClassDescriptor) : Moves m (m.holdClass c).2 := by
  have hmirror := m.moves_mirrorOf c
  unfold Machine.holdClass
  generalize m.mirrorOf c = outcome at hmirror ⊢
  obtain ⟨_ | root, next⟩ := outcome <;> exact hmirror

theorem moves_load (m : Machine σ) (ask : Asking σ ω) (loader : LoaderId) (name : String)
    (outside : ω) : Moves m (Machine.load ask loader name (m, outside)).2.1 := by
  unfold Machine.load
  dsimp only
  generalize Registry.load ask loader name (m.registry, outside) = outcome
  obtain ⟨_ | c, registry, outside'⟩ := outcome
  · exact (Moves.refl m).registry registry
  · exact ((Moves.refl m).registry registry).trans (moves_holdClass _ c)

theorem moves_deriveArray (m : Machine σ) (component : ClassDescriptor) (dimensions : Nat) :
    Moves m (m.deriveArray component dimensions).2 := by
  unfold Machine.deriveArray
  dsimp only
  split
  · exact .refl m
  · generalize m.registry.deriveArray component dimensions = outcome
    obtain ⟨_ | c, registry⟩ := outcome
    · exact (Moves.refl m).registry registry
    · exact ((Moves.refl m).registry registry).trans (moves_holdClass _ c)

theorem moves_allocateWith (m : Machine σ) (needed : List Root) (context : Context)
    {make : Attempt σ}
    (hmake : ∀ registry objects, ObjectHeap.Deals objects (make registry objects).2) :
    Moves m (m.allocateWith needed context make).2 := by
  have hallocated := m.moves_allocateRooted make hmake
  unfold Machine.allocateWith
  generalize m.allocateRooted make = outcome at hallocated ⊢
  obtain ⟨_ | root, next⟩ := outcome <;> exact hallocated.dropAll needed

theorem moves_newInstance (m : Machine σ) (c : ClassDescriptor) :
    Moves m (m.newInstance c).2 := by
  have hmirror := m.moves_mirrorOf c
  unfold Machine.newInstance
  split
  · exact .refl m
  · generalize m.mirrorOf c = outcome at hmirror ⊢
    obtain ⟨_ | mirror, next⟩ := outcome
    · exact hmirror
    · exact hmirror.trans (next.moves_allocateWith [mirror] _
        (ObjectHeap.deals_makeInstance c.id mirror.ref))

theorem moves_newArray (m : Machine σ) (component : ClassDescriptor) (length : Nat) :
    Moves m (m.newArray component length).2 := by
  have hderived := m.moves_deriveArray component 1
  unfold Machine.newArray
  generalize m.deriveArray component 1 = outcome at hderived ⊢
  obtain ⟨_ | held, next⟩ := outcome
  · exact hderived
  · exact hderived.trans (next.moves_allocateWith _ _
      fun _ objects => ObjectHeap.deals_allocNested _ [] objects)

theorem moves_deriveNested (m : Machine σ) (component : ClassDescriptor) (n : Nat) :
    Moves m (m.deriveNested component n).2 := by
  induction n generalizing m with
  | zero => exact .refl m
  | succ n ih =>
    have hderived := m.moves_deriveArray component (n + 1)
    unfold Machine.deriveNested
    generalize m.deriveArray component (n + 1) = outcome at hderived ⊢
    obtain ⟨_ | held, next⟩ := outcome
    · exact hderived
    · have hboth := hderived.trans (ih next)
      dsimp only
      generalize next.deriveNested component n = outcome at hboth ⊢
      obtain ⟨_ | inner, last⟩ := outcome
      · exact hboth.drop held.mirror
      · exact hboth

theorem moves_newArrays (m : Machine σ) (component : ClassDescriptor) (lengths : List Nat) :
    Moves m (m.newArrays component lengths).2 := by
  have hderived := m.moves_deriveNested component lengths.length
  unfold Machine.newArrays
  generalize m.deriveNested component lengths.length = outcome at hderived ⊢
  obtain ⟨_ | classes, next⟩ := outcome
  · exact hderived
  · dsimp only
    split
    · exact hderived.trans (next.moves_allocateWith _ _
        fun _ objects => ObjectHeap.deals_allocNested _ _ objects)
    · exact hderived

theorem moves_store (m : Machine σ) (target : Root) (index : Nat) (value : Option Ref) :
    Moves m (m.store target index value).2 := by
  unfold Machine.store
  split
  · refine (Moves.refl m).objects (.modify target.ref (.refl m.objects) fun object => ?_)
    cases object <;> simp [Object.store, Object.bytes]
  · exact .refl m

theorem moves_fetch (m : Machine σ) (target : Root) (index : Nat) :
    Moves m (m.fetch target index).2 := by
  unfold Machine.fetch
  split
  · exact .refl m
  · exact (Moves.refl m).roots _

/-- The bytes on the heap are accounted for, and the cycles that started were completed. -/
structure Solvent (m : Machine σ) : Prop where
  paid : m.objects.heap.Paid m.config.heapSize
  counted : m.engine.coordinator.phase = .idle →
    m.engine.coordinator.completed = m.engine.coordinator.started

theorem new_solvent (config : Config) (bootSources : List σ) :
    (new config bootSources).Solvent where
  paid := Heap.paid_empty config.heapSize
  counted _ := rfl

theorem Solvent.collect (h : m.Solvent) : m.collect.2.Solvent ∧ m.collect.2.config = m.config := by
  by_cases hidle : m.engine.coordinator.phase = .idle
  · obtain ⟨_, _, _, _, hcollect, hconfig, hobjects, -, hstarted, hcompleted⟩ :=
      collect_of_idle hidle
    rw [hcollect]
    refine ⟨⟨?_, fun _ => hcompleted.trans hstarted.symm⟩, hconfig⟩
    rw [hconfig, hobjects]
    exact (h.paid.mark _).sweep
  · obtain ⟨hconfig, hobjects, hphase⟩ := collect_of_running hidle
    refine ⟨⟨?_, fun hidle' => absurd (hphase.symm.trans hidle') hidle⟩, hconfig⟩
    rw [hconfig, hobjects]
    exact h.paid

theorem Moves.solvent (hmoves : Moves m n) (h : m.Solvent) : n.Solvent ∧ n.config = m.config := by
  induction hmoves with
  | refl => exact ⟨h, rfl⟩
  | objects _ hdeals ih => exact ⟨⟨hdeals.paid ih.1.paid, ih.1.counted⟩, ih.2⟩
  | registry _ _ ih => exact ⟨⟨ih.1.paid, ih.1.counted⟩, ih.2⟩
  | collect _ _ ih =>
    obtain ⟨hsolvent, hconfig⟩ := ih.1.collect
    exact ⟨hsolvent, hconfig.trans ih.2⟩

theorem Moves.coordinator_eq (hmoves : Moves m n) (hretry : m.config.retryAllocation = false) :
    n.engine.coordinator = m.engine.coordinator ∧ n.config = m.config := by
  induction hmoves with
  | refl => exact ⟨rfl, rfl⟩
  | objects _ _ ih => exact ih
  | registry _ _ ih => exact ih
  | collect _ hretries ih =>
    rw [ih.2, hretry] at hretries
    contradiction

end Machine
end Metaspace
