import Metaspace.Proofs.Machine.Dealings
import Metaspace.Proofs.Machine.Departure
import Metaspace.Proofs.Machine.Unloading

set_option autoImplicit false

namespace Metaspace

variable {σ : Type}

namespace Machine

open ObjectHeap

/-- The attempts at one object of a class whose mirror is rooted: an instance or an array of
nulls. -/
inductive Makes (id : ClassId) (mirror : Root) : Attempt σ → Object → Prop where
  | ofInstance : Makes id mirror (makeInstance id mirror.ref) (.instanceOf id mirror.ref #[none])
  | ofArray (length : Nat) :
      Makes id mirror (fun _ objects => objects.allocNested ⟨id, mirror.ref, length⟩ [])
        (.arrayOf id mirror.ref (Array.replicate length none))

section Makes

variable {id : ClassId} {mirror : Root} {make : Attempt σ} {object : Object} {capacity : UInt64}

theorem Makes.of_big (hmakes : Makes id mirror make object) (registry : Registry σ)
    {objects : ObjectHeap} (hpaid : objects.heap.Paid capacity)
    (hcapacity : capacity.toNat < 2 ^ 32) (hbig : capacity.toNat < object.bytes) :
    make registry objects = (.error (.allocation .objectTooBig), objects) := by
  cases hmakes with
  | ofInstance =>
    have hfits : (Object.instanceOf id mirror.ref #[none]).bytes < 2 ^ 64 := by
      simp [Object.bytes, Object.referenceSize]
    have hrefused := (hpaid.alloc_error_iff hcapacity hfits _).mpr (.inl ⟨rfl, hbig⟩)
    unfold makeInstance ObjectHeap.alloc
    rw [hrefused]
    rfl
  | ofArray length =>
    simp only [Object.bytes, Array.size_replicate] at hbig
    show objects.allocNested _ [] = _
    unfold allocNested
    rw [Object.ensureFits_arraySize, hpaid.capacity_eq, if_neg (Nat.not_le.mpr hbig)]
    rfl

theorem Makes.of_small (hmakes : Makes id mirror make object) (registry : Registry σ)
    {objects : ObjectHeap} (hpaid : objects.heap.Paid capacity)
    (hsmall : object.bytes ≤ capacity.toNat) :
    make registry objects = match objects.alloc object with
      | (.ok r, objects) => (.ok r, objects)
      | (.error e, objects) => objects.fail e := by
  cases hmakes with
  | ofInstance => rfl
  | ofArray length =>
    simp only [Object.bytes, Array.size_replicate] at hsmall
    show objects.allocNested _ [] = _
    unfold allocNested
    rw [Object.ensureFits_arraySize, hpaid.capacity_eq, if_pos hsmall]
    rfl

/-- One attempt succeeds just when the object fits into the bytes that are free, and otherwise
changes nothing. -/
theorem Makes.attempt_cases (hmakes : Makes id mirror make object) {m : Machine σ}
    (hpaid : m.objects.heap.Paid capacity) (hcapacity : capacity.toNat < 2 ^ 32) :
    (capacity.toNat < object.bytes ∧
      m.attempt make = (.error (.allocation .objectTooBig), m)) ∨
    (object.bytes ≤ capacity.toNat ∧ capacity.toNat < m.objects.heap.used.toNat + object.bytes ∧
      m.attempt make = (.error (.allocation .outOfHeap), m)) ∨
    (m.objects.heap.used.toNat + object.bytes ≤ capacity.toNat ∧
      ∃ root next, m.attempt make = (.ok root, next) ∧ next.engine = m.engine ∧
        next.objects.get? root.ref = some object) := by
  unfold Machine.attempt
  by_cases hbig : capacity.toNat < object.bytes
  · rw [hmakes.of_big m.registry hpaid hcapacity hbig]
    exact .inl ⟨hbig, rfl⟩
  · have hsmall := Nat.not_lt.mp hbig
    have hsize : object.bytes < 2 ^ 64 := by omega
    have hfails := hpaid.alloc_error_iff hcapacity hsize
    rw [hmakes.of_small m.registry hpaid hsmall]
    unfold ObjectHeap.alloc
    cases halloc : m.objects.heap.alloc object with
    | error e =>
      obtain ⟨-, habs⟩ | ⟨rfl, -, hfull⟩ := (hfails e).mp halloc
      · exact absurd habs hbig
      · exact .inr (.inl ⟨hsmall, hfull, rfl⟩)
    | ok made =>
      obtain ⟨r, heap⟩ := made
      refine .inr (.inr ⟨Nat.not_lt.mp fun hfull => ?_, _, _, rfl, rfl, ?_⟩)
      · have hfailed := (hfails .outOfHeap).mpr (.inr ⟨rfl, hsmall, hfull⟩)
        rw [halloc] at hfailed
        contradiction
      · exact ((hpaid.sound.alloc halloc).get?_eq r).trans (if_pos rfl)

end Makes

/-- How the allocation of one object comes out on a heap of so many bytes, and when it costs a
collection. -/
structure AllocatesOne (capacity : Nat) (handles : List Root) (id : ClassId) (mirror : Root)
    (m : Machine σ) (make : Attempt σ) (object : Object) : Prop where
  used : m.objects.heap.used.toNat =
    (m.objects.heap.live.map m.objects.heap.bytesAt).sum
  tooBig : capacity < object.bytes →
    m.allocateRooted make = (.error (.of (.allocation .objectTooBig)), m)
  fits : m.objects.heap.used.toNat + object.bytes ≤ capacity →
    ∃ root next, m.allocateRooted make = (.ok root, next) ∧ next.engine = m.engine ∧
      next.objects.get? root.ref = some object
  /-- Otherwise there is one collection, which leaves the class where it is. What counts after it
  are the objects that could be reached. -/
  full : object.bytes ≤ capacity → capacity < m.objects.heap.used.toNat + object.bytes →
    ∃ (report : CycleReport σ) (mid : Machine σ) (reached : List Ref),
      m.collect = (.ok report, mid) ∧
      mid.engine.coordinator.completed = m.engine.coordinator.completed + 1 ∧
      (∃ c, m.registry.get? id = some c ∧ mid.registry.get? id = some c) ∧
      mid.objects.mirror? id = some mirror.ref ∧
      reached.Nodup ∧ (∀ r, r ∈ reached ↔ m.Reachable handles r) ∧
      (capacity < (reached.map m.objects.heap.bytesAt).sum + object.bytes →
        m.allocateRooted make = (.error (.of (.allocation .outOfHeap)), mid)) ∧
      ((reached.map m.objects.heap.bytesAt).sum + object.bytes ≤ capacity →
        ∃ root next, m.allocateRooted make = (.ok root, next) ∧ next.engine = mid.engine ∧
          next.objects.get? root.ref = some object)

section AllocatesOne

variable {handles : List Root} {m mid : Machine σ} {id : ClassId} {mirror : Root}
  {make : Attempt σ} {object : Object}

theorem Unloads.live {report : CycleReport σ} (h : m.Unloads handles report mid) :
    (∀ r, r ∈ mid.objects.heap.live ↔ m.Reachable handles r) ∧
      mid.objects.heap.live.map mid.objects.heap.bytesAt =
        mid.objects.heap.live.map m.objects.heap.bytesAt := by
  constructor
  · intro r
    rw [Heap.mem_live, Heap.contains_iff]
    constructor
    · rintro ⟨object, hget⟩
      exact ((h.heap r object).mp hget).1
    · intro hr
      obtain ⟨object, hget⟩ := Heap.contains_iff.mp hr.contains
      exact ⟨object, (h.heap r object).mpr ⟨hr, hget⟩⟩
  · apply List.map_congr_left
    intro r hr
    obtain ⟨object, hget⟩ := Heap.contains_iff.mp (Heap.mem_live.mp hr)
    have hbefore := ((h.heap r object).mp hget).2
    unfold Heap.bytesAt
    rw [show mid.objects.heap.get? r = some object from hget,
      show m.objects.heap.get? r = some object from hbefore]

theorem Sound.class_stays (h : m.Sound none handles) (hmirror : mirror ∈ handles)
    (hnames : Names (IsMirror id) m mirror) {report : CycleReport σ}
    (hcollect : m.collect = (.ok report, mid)) :
    (∃ c, m.registry.get? id = some c ∧ mid.registry.get? id = some c) ∧
      mid.objects.mirror? id = some mirror.ref := by
  obtain ⟨hmid, hcontinues, hculled, -⟩ := h.collected hcollect
  obtain ⟨_, hget, loader, component, rfl⟩ := hcontinues.names_mirror hmirror hnames
  obtain ⟨hcontains, hrecorded⟩ := hmid.linked.fits_of_mirror hget
  obtain ⟨c, hc⟩ := Option.isSome_iff_exists.mp hcontains
  exact ⟨⟨c, ((hculled.get?_eq_some id c).mp hc).1, hc⟩, hrecorded⟩

theorem Sound.allocates_one (h : m.Sound none handles) (hsolvent : m.Solvent)
    (hunloading : m.config.classUnloading = true) (hretry : m.config.retryAllocation = true)
    (hcapacity : m.config.heapSize.toNat < 2 ^ 32) (hmirror : mirror ∈ handles)
    (hnames : Names (IsMirror id) m mirror) (hmakes : Makes id mirror make object) :
    m.AllocatesOne m.config.heapSize.toNat handles id mirror make object := by
  have hused := hsolvent.paid.used.1
  obtain ⟨hbig, hattempt⟩ | ⟨hsmall, hfull, hattempt⟩ | ⟨hfits, root, next, hattempt, hnext⟩ :=
    hmakes.attempt_cases hsolvent.paid hcapacity
  · have hrefused : m.allocateRooted make = (.error (.of (.allocation .objectTooBig)), m) := by
      unfold Machine.allocateRooted
      rw [hattempt]
      rfl
    exact ⟨hused, fun _ => hrefused, fun _ => by omega, fun _ _ => by omega⟩
  · obtain ⟨report, mid, hcollect, hmid, -, hculled, hswept⟩ := h.collect
    have hunloads := h.unloads hunloading hculled hswept
    obtain ⟨hreached, hbytes⟩ := hunloads.live
    obtain ⟨hpaying, hconfig⟩ := hsolvent.collect
    rw [hcollect] at hpaying hconfig
    have hpaid : mid.objects.heap.Paid m.config.heapSize := hconfig ▸ hpaying.paid
    have husedmid := hpaid.used.1
    rw [hbytes] at husedmid
    have hcompleted : mid.engine.coordinator.completed =
        m.engine.coordinator.completed + 1 := by
      obtain ⟨report', after, _, _, hcollect', -, -, -, -, hcompleted⟩ := collect_of_idle h.idle
      rw [hcollect, Prod.mk.injEq] at hcollect'
      rw [hcollect'.2, hcompleted, hsolvent.counted h.idle]
    obtain ⟨hclass, hrecorded⟩ := h.class_stays hmirror hnames hcollect
    have hretried := allocateRooted_of_retry hattempt hretry hcollect
    refine ⟨hused, fun _ => by omega, fun _ => by omega, fun _ _ => ?_⟩
    -- the accounts are right after the collection too, so that the same cases decide the retry
    refine ⟨report, mid, mid.objects.heap.live, hcollect, hcompleted, hclass, hrecorded,
      Heap.live_nodup _, hreached, ?_, ?_⟩
    · intro hout
      obtain ⟨hbig, -⟩ | ⟨-, -, hagain⟩ | ⟨hfits, -⟩ := hmakes.attempt_cases hpaid hcapacity
      · omega
      · rw [hretried, hagain]
        rfl
      · omega
    · intro hroom
      obtain ⟨hbig, -⟩ | ⟨-, hout, -⟩ | ⟨-, root, next, hagain, hnext⟩ :=
        hmakes.attempt_cases hpaid hcapacity
      · omega
      · omega
      · rw [hretried, hagain]
        exact ⟨root, next, rfl, hnext⟩
  · have hallocated : m.allocateRooted make = (.ok root, next) := by
      unfold Machine.allocateRooted
      rw [hattempt]
    exact ⟨hused, fun _ => by omega, fun _ => ⟨root, next, hallocated, hnext⟩,
      fun _ _ => by omega⟩

end AllocatesOne

theorem engine_allocateRooted (m : Machine σ) (hretry : m.config.retryAllocation = false)
    (make : Attempt σ) : (m.allocateRooted make).2.engine = m.engine := by
  unfold Machine.allocateRooted Machine.attempt
  generalize make m.registry m.objects = outcome
  obtain ⟨_ | r, objects⟩ := outcome
  · simp [hretry]
  · rfl

end Machine

namespace Session

variable {s t : Session σ}

theorem Step.moves (hstep : Step s t) :
    Machine.Moves s.machine t.machine ∨ t = s.after (fun _ => []) s.machine.collect ∨
      ∃ publisher, t.machine =
        { s.machine with engine := { s.machine.engine with publisher } } := by
  cases hstep with
  | newLoader name sources => exact .inl (s.machine.moves_newLoader name sources)
  | load ask outside loader name _ => exact .inl (s.machine.moves_load ask loader name outside)
  | deriveArray component dimensions =>
    exact .inl (s.machine.moves_deriveArray component dimensions)
  | newInstance c _ => exact .inl (s.machine.moves_newInstance c)
  | newArray component length => exact .inl (s.machine.moves_newArray component length)
  | newArrays component lengths => exact .inl (s.machine.moves_newArrays component lengths)
  | store target index value _ _ =>
    exact .inl (s.machine.moves_store target index _)
  | fetch target index _ => exact .inl (s.machine.moves_fetch target index)
  | clone root _ => exact .inl ((Machine.Moves.refl s.machine).roots _)
  | drop root _ => exact .inl ((Machine.Moves.refl s.machine).drop root)
  | collect => exact .inr (.inl rfl)
  | listen publisher => exact .inr (.inr ⟨publisher, rfl⟩)

theorem Reached.solvent {config : Config} {bootSources : List σ}
    (h : Reached config bootSources s) : s.machine.Solvent := by
  induction h with
  | start => exact Machine.new_solvent config bootSources
  | step _ hstep ih =>
    obtain hmoves | rfl | ⟨publisher, heq⟩ := hstep.moves
    · exact (hmoves.solvent ih).1
    · exact ih.collect.1
    · rw [heq]
      exact ⟨ih.paid, ih.counted⟩

/-- Where an object of a class is allocated: the mirror of the class is rooted. The caller holds it,
or the operation has rooted it first. -/
inductive Roots (s : Session σ) : Machine σ → List Root → ClassId → Root → Prop where
  | held {id : ClassId} {mirror : Root} : mirror ∈ s.handles →
      Machine.Names (ObjectHeap.IsMirror id) s.machine mirror →
        Roots s s.machine s.handles id mirror
  | mirrored {c : ClassDescriptor} {mirror : Root} {m : Machine σ} : c ∈ s.known →
      s.machine.mirrorOf c = (.ok mirror, m) → Roots s m (mirror :: s.handles) c.id mirror
  | derived {component : ClassDescriptor} {held : HeldClass} {m : Machine σ} :
      s.machine.deriveArray component 1 = (.ok held, m) →
      Roots s m (held.mirror :: s.handles) held.descriptor.id held.mirror

theorem Roots.sound {m : Machine σ} {handles : List Root} {id : ClassId} {mirror : Root}
    (hroots : s.Roots m handles id mirror) (h : s.Sound) (hsolvent : s.machine.Solvent) :
    m.Sound none handles ∧ m.Solvent ∧ m.config = s.machine.config ∧ mirror ∈ handles ∧
      Machine.Names (ObjectHeap.IsMirror id) m mirror := by
  cases hroots with
  | held hmirror hnames => exact ⟨h.machine, hsolvent, rfl, hmirror, hnames⟩
  | @mirrored c _ _ hknown hrooted =>
    have hserves := h.machine.toUpheld.mirrorOf (h.known c hknown)
    have hsound := hserves.sound h.machine (congrArg Prod.fst hrooted)
    have hnames := (hserves.ok mirror (congrArg Prod.fst hrooted)).2
    obtain ⟨hpaying, hconfig⟩ := (s.machine.moves_mirrorOf c).solvent hsolvent
    rw [hrooted] at hsound hnames hpaying hconfig
    exact ⟨hsound, hpaying, hconfig, List.mem_cons_self, hnames⟩
  | @derived component held _ hderived =>
    have hserves := h.machine.toUpheld.deriveArray component 1
    have hsound := hserves.sound h.machine (congrArg Prod.fst hderived)
    have hnames := (hserves.ok held (congrArg Prod.fst hderived)).2
    obtain ⟨hpaying, hconfig⟩ := (s.machine.moves_deriveArray component 1).solvent hsolvent
    rw [hderived] at hsound hnames hpaying hconfig
    exact ⟨hsound, hpaying, hconfig, List.mem_cons_self, hnames⟩

/-- A machine that retries is out of heap only when the reachable objects leave no room, and finds
out by one collection. One that does not retry never runs a collection for an allocation. -/
theorem Reached.out_of_heap_exactly {config : Config} {bootSources : List σ}
    (h : Reached config bootSources s) :
    (config.classUnloading = true → config.retryAllocation = true →
      config.heapSize.toNat < 2 ^ 32 →
      ∀ (m : Machine σ) handles id mirror make object, s.Roots m handles id mirror →
        Machine.Makes id mirror make object →
        m.AllocatesOne config.heapSize.toNat handles id mirror make object) ∧
    (config.retryAllocation = false →
      (∀ make, (s.machine.allocateRooted make).2.engine = s.machine.engine) ∧
      ∀ t, Step s t → t.machine.engine.coordinator = s.machine.engine.coordinator ∨
        t = s.after (fun _ => []) s.machine.collect) := by
  obtain ⟨hsound, hconfig⟩ := h.sound
  constructor
  · intro hunloading hretry hcapacity m handles id mirror make object hroots hmakes
    obtain ⟨hm, hsolvent, hsame, hmirror, hnames⟩ := hroots.sound hsound h.solvent
    rw [← hconfig, ← hsame] at hunloading hretry hcapacity ⊢
    exact hm.allocates_one hsolvent hunloading hretry hcapacity hmirror hnames hmakes
  · intro hretry
    rw [← hconfig] at hretry
    refine ⟨s.machine.engine_allocateRooted hretry, fun t hstep => ?_⟩
    obtain hmoves | hcollect | ⟨publisher, heq⟩ := hstep.moves
    · exact .inl (hmoves.coordinator_eq hretry).1
    · exact .inr hcollect
    · rw [heq]
      exact .inl rfl

def withInstance (s : Session Unit) : Session Unit :=
  s.after (fun root => [root]) (s.machine.newInstance (Registry.classA (Registry.loaderId 2) 1))

/-- Two instances are on the heap, of which one is held, and there is no room for another one. -/
def littered (retryAllocation : Bool) : Session Unit :=
  without ⟨3, ⟨2, 0⟩⟩ (withInstance (withInstance
    (withA 2 (withLoader (new { heapSize := 160, retryAllocation } [])))))

theorem littered_reached (retryAllocation : Bool) :
    Reached { heapSize := 160, retryAllocation } [] (littered retryAllocation) := by
  have hloaded : Reached { heapSize := 160, retryAllocation } []
      (withA 2 (withLoader (new { heapSize := 160, retryAllocation } []))) :=
    Reached.start.withLoader.withA 2
  have hfirst := hloaded.step (.newInstance _ (Registry.classA (Registry.loaderId 2) 1)
    (by cases retryAllocation <;> decide +kernel))
  have hsecond := hfirst.step (.newInstance _ (Registry.classA (Registry.loaderId 2) 1)
    (by cases retryAllocation <;> decide +kernel))
  exact hsecond.without (by cases retryAllocation <;> decide +kernel)

theorem littered_reachable (r : Ref) :
    (littered true).machine.Reachable (littered true).handles r ↔
      r ∈ [⟨0, 0⟩, ⟨1, 0⟩, (⟨3, 0⟩ : Ref)] := by
  have hrefs : ∀ r ∈ [⟨0, 0⟩, ⟨1, 0⟩, (⟨3, 0⟩ : Ref)], ∀ object,
      (littered true).machine.objects.get? r = some object →
        object.refs ⊆ [⟨0, 0⟩, ⟨1, 0⟩, (⟨3, 0⟩ : Ref)] := by
    intro r hr object hget
    have hall : ∀ r ∈ [⟨0, 0⟩, ⟨1, 0⟩, (⟨3, 0⟩ : Ref)],
        (((littered true).machine.objects.get? r).elim true fun object =>
          object.refs.all ([⟨0, 0⟩, ⟨1, 0⟩, (⟨3, 0⟩ : Ref)].contains ·)) = true := by
      decide +kernel
    have hall := hall r hr
    rw [hget] at hall
    simpa [List.subset_def] using hall
  constructor
  · intro hreached
    induction hreached with
    | start hmem _ =>
      have hstarts : (littered true).handles.map (·.ref) ++
          (littered true).machine.objects.heap.frozen ⊆ [⟨0, 0⟩, ⟨1, 0⟩, (⟨3, 0⟩ : Ref)] := by
        decide +kernel
      exact hstarts hmem
    | step _ hget hmem _ ih => exact hrefs _ ih _ hget hmem
  · intro hr
    have hheld : [⟨0, 0⟩, ⟨1, 0⟩, (⟨3, 0⟩ : Ref)] ⊆ (littered true).handles.map (·.ref) ++
        (littered true).machine.objects.heap.frozen := by
      decide +kernel
    have hlive : ∀ r ∈ [⟨0, 0⟩, ⟨1, 0⟩, (⟨3, 0⟩ : Ref)],
        (littered true).machine.objects.heap.contains r = true := by
      decide +kernel
    exact .start (hheld hr) (hlive r hr)

/-- One collection makes room for an instance and not for an array of two elements. Without retries
there is no collection, and no room for the instance either. -/
theorem littered_exhausts :
    (∃ report mid, (littered true).machine.collect = (.ok report, mid) ∧
      mid.engine.coordinator.completed = 1 ∧
      ∃ root next, (littered true).machine.allocateRooted
        (Machine.makeInstance ⟨1, by decide⟩ ⟨1, 0⟩) = (.ok root, next) ∧
          next.engine = mid.engine) ∧
    (∃ report mid, (littered true).machine.collect = (.ok report, mid) ∧
      (littered true).machine.allocateRooted
        (fun _ objects => objects.allocNested ⟨⟨1, by decide⟩, ⟨1, 0⟩, 2⟩ []) =
          (.error (.of (.allocation .outOfHeap)), mid)) ∧
    ((littered false).machine.allocateRooted
        (Machine.makeInstance ⟨1, by decide⟩ ⟨1, 0⟩)).1 = .error (.of (.allocation .outOfHeap)) ∧
    ((littered false).machine.allocateRooted
        (Machine.makeInstance ⟨1, by decide⟩ ⟨1, 0⟩)).2.engine =
      (littered false).machine.engine := by
  have hmirror : ∀ retry, (littered retry).machine.objects.get? ⟨1, 0⟩ =
      some (.mirrorOf ⟨1, by decide⟩ (some ⟨0, 0⟩) none) := by
    decide +kernel
  have hroots : (littered true).Roots (littered true).machine (littered true).handles
      ⟨1, by decide⟩ ⟨1, ⟨1, 0⟩⟩ :=
    .held (by decide +kernel) ⟨_, hmirror true, _, _, rfl⟩
  have hbytes : ∀ reached : List Ref, reached.Nodup →
      (∀ r, r ∈ reached ↔ (littered true).machine.Reachable (littered true).handles r) →
        (reached.map (littered true).machine.objects.heap.bytesAt).sum = 120 := by
    intro reached hnodup hreached
    have hperm : reached.Perm [⟨0, 0⟩, ⟨1, 0⟩, (⟨3, 0⟩ : Ref)] :=
      (List.perm_ext_iff_of_nodup hnodup (by decide)).mpr
        fun r => (hreached r).trans (littered_reachable r)
    rw [(hperm.map _).sum_eq]
    decide +kernel
  obtain ⟨hretries, -⟩ := (littered_reached true).out_of_heap_exactly
  have hinstance := hretries rfl rfl (by decide) _ _ _ _ _ _ hroots .ofInstance
  have harray := hretries rfl rfl (by decide) _ _ _ _ _ _ hroots (.ofArray 2)
  obtain ⟨-, hfails⟩ := (littered_reached false).out_of_heap_exactly
  refine ⟨?_, ?_, by decide +kernel, (hfails rfl).1 _⟩
  · obtain ⟨report, mid, reached, hcollect, hcompleted, -, -, hnodup, hreached, -, hroom⟩ :=
      hinstance.full (by decide) (by decide +kernel)
    obtain ⟨root, next, hallocated, hengine, -⟩ := hroom (by
      rw [hbytes reached hnodup hreached]
      decide)
    exact ⟨report, mid, hcollect, hcompleted, root, next, hallocated, hengine⟩
  · obtain ⟨report, mid, reached, hcollect, -, -, -, hnodup, hreached, hout, -⟩ :=
      harray.full (by decide) (by decide +kernel)
    refine ⟨report, mid, hcollect, hout ?_⟩
    rw [hbytes reached hnodup hreached]
    decide

end Session
end Metaspace
