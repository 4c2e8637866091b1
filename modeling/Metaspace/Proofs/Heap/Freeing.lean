import Metaspace.Proofs.Heap.Accounts

/-!
What sweeps free over a whole run. A flag means a different thing after every mark, and marks may
follow one another without a sweep, but at any moment the marked objects are those that the last
mark reached and those allocated after it.
-/

set_option autoImplicit false

namespace Metaspace

/-- A heap in the course of a run, with what the run remembers of it. -/
structure Chronicle (α : Type) where
  heap : Heap α
  lastMark : Option (Heap α × List Ref)
  young : List Ref
  pending : Bool
  /-- The bytes that each object was charged for when it was allocated. -/
  charged : Ref → UInt64

namespace Chronicle

variable {α : Type} [HeapObject α] {s : Chronicle α}

def start (capacity : UInt64) : Chronicle α :=
  ⟨.empty capacity, none, [], false, fun _ => 0⟩

def allocated (s : Chronicle α) (object : α) (r : Ref) (next : Heap α) : Chronicle α :=
  { s with
    heap := next
    young := r :: s.young
    charged := Function.update s.charged r (HeapObject.size object + Heap.header) }

def mark (s : Chronicle α) (roots : List Ref) : Chronicle α :=
  { s with
    heap := (s.heap.mark roots).2
    lastMark := some (s.heap, roots)
    young := []
    pending := true }

def sweep (s : Chronicle α) : Chronicle α :=
  { s with heap := s.heap.sweep.2, pending := false }

def collect (s : Chronicle α) (roots : List Ref) : Chronicle α :=
  { s with
    heap := (s.heap.collect roots).2
    lastMark := some (s.heap, roots)
    young := []
    pending := false }

/-- What can happen to a heap. What fails changes nothing. -/
inductive Step : Chronicle α → Chronicle α → Prop where
  | alloc {s : Chronicle α} {object : α} {r : Ref} {next : Heap α} :
      s.heap.alloc object = .ok (r, next) → Step s (s.allocated object r next)
  | modify (s : Chronicle α) (r : Ref) (f : α → α) :
      Step s { s with heap := s.heap.modify r f }
  | freeze {s : Chronicle α} {r : Ref} {next : Heap α} :
      s.heap.freeze r = .ok next → Step s { s with heap := next }
  | unfreeze {s : Chronicle α} {r : Ref} {next : Heap α} :
      s.heap.unfreeze r = .ok next → Step s { s with heap := next }
  | mark (s : Chronicle α) (roots : List Ref) : Step s (s.mark roots)
  | sweep (s : Chronicle α) : Step s s.sweep
  | collect (s : Chronicle α) (roots : List Ref) : Step s (s.collect roots)

inductive Reached : Chronicle α → Prop where
  | start (capacity : UInt64) : Reached (start capacity)
  | step {s t : Chronicle α} : Reached s → Step s t → Reached t

/-- The last mark reached the object, or there was none, or the object was allocated after it. -/
def Spared (s : Chronicle α) (r : Ref) : Prop :=
  match s.lastMark with
  | none => True
  | some (heap, roots) => heap.Reaches (roots ++ heap.frozen) r ∨ r ∈ s.young

structure Faithful (s : Chronicle α) : Prop where
  sound : s.heap.Sound
  unswept : s.heap.unswept = s.pending
  marked : ∀ r, s.heap.isMarked r = true ↔ s.heap.contains r = true ∧ s.Spared r
  accounted : s.heap.Accounted s.charged

theorem faithful_start (capacity : UInt64) : (start capacity : Chronicle α).Faithful where
  sound := Heap.empty_sound capacity
  unswept := rfl
  marked r := by simp [start, Heap.empty, Heap.isMarked, Heap.contains, Heap.cell?]
  accounted := Heap.accounted_empty capacity _

theorem spared_allocated {object : α} {r : Ref} {next : Heap α} (r' : Ref) :
    (s.allocated object r next).Spared r' ↔ r' = r ∨ s.Spared r' := by
  unfold Spared allocated
  cases s.lastMark with
  | none => simp
  | some last =>
    dsimp only
    rw [List.mem_cons]
    exact or_left_comm

theorem Faithful.alloc (h : s.Faithful) {object : α} {r : Ref} {next : Heap α}
    (halloc : s.heap.alloc object = .ok (r, next)) : (s.allocated object r next).Faithful := by
  have hnew := h.sound.alloc halloc
  refine ⟨hnew.sound h.sound, hnew.unswept.trans h.unswept, ?_,
    h.accounted.alloc hnew⟩
  intro r'
  rw [spared_allocated]
  refine (hnew.isMarked r').trans ?_
  rw [h.marked, or_and_left]
  exact and_congr_left' (hnew.contains r').symm

theorem Faithful.modify (h : s.Faithful) (r : Ref) (f : α → α) :
    ({ s with heap := s.heap.modify r f } : Chronicle α).Faithful where
  sound := h.sound.modify r f
  unswept := h.unswept
  marked r' := by
    have hcontains := (Heap.sameAccounts_modify s.heap r f).contains r'
    dsimp only
    rw [Heap.isMarked_modify, hcontains]
    exact h.marked r'
  accounted := h.accounted.same (Heap.sameAccounts_modify s.heap r f)

theorem Faithful.withFrozen (h : s.Faithful) (frozen : List Ref) :
    ({ s with heap := { s.heap with frozen } } : Chronicle α).Faithful where
  sound := ⟨h.sound.nodup, h.sound.free_iff, h.sound.settled⟩
  unswept := h.unswept
  marked := h.marked
  accounted := h.accounted.same ⟨fun _ => rfl, fun _ => rfl, rfl, rfl, rfl⟩

theorem Faithful.freeze (h : s.Faithful) {r : Ref} {next : Heap α}
    (hfreeze : s.heap.freeze r = .ok next) : ({ s with heap := next } : Chronicle α).Faithful := by
  unfold Heap.freeze at hfreeze
  split at hfreeze
  · contradiction
  · obtain rfl := Except.ok.inj hfreeze
    exact h.withFrozen _

theorem Faithful.unfreeze (h : s.Faithful) {r : Ref} {next : Heap α}
    (hunfreeze : s.heap.unfreeze r = .ok next) :
    ({ s with heap := next } : Chronicle α).Faithful := by
  unfold Heap.unfreeze at hunfreeze
  split at hunfreeze
  · obtain rfl := Except.ok.inj hunfreeze
    exact h.withFrozen _
  · contradiction

theorem Faithful.mark (h : s.Faithful) (roots : List Ref) : (s.mark roots).Faithful where
  sound := h.sound.mark roots
  unswept := rfl
  marked r := by
    -- no object is younger than the mark that just ran
    change (s.heap.mark roots).2.isMarked r = true ↔ (s.heap.mark roots).2.contains r = true ∧
      (s.heap.Reaches (roots ++ s.heap.frozen) r ∨ r ∈ [])
    rw [h.sound.isMarked_mark, Heap.contains_mark, or_iff_left List.not_mem_nil]
    exact ⟨fun hreaches => ⟨hreaches.contains, hreaches⟩, And.right⟩
  accounted := h.accounted.same (Heap.sameAccounts_mark s.heap roots)

theorem sweep_of_not_pending (h : s.Faithful) (hpending : s.pending = false) : s.sweep = s := by
  unfold sweep
  rw [Heap.sweep_of_swept (h.unswept.trans hpending), ← hpending]

theorem Faithful.sweep (h : s.Faithful) : s.sweep.Faithful := by
  cases hpending : s.pending with
  | false =>
    rw [sweep_of_not_pending h hpending]
    exact h
  | true =>
    have hunswept := h.unswept.trans hpending
    refine ⟨h.sound.sweep, ?_, ?_, h.accounted.sweep hunswept⟩
    · simp [Chronicle.sweep, Heap.sweep, hunswept]
    · -- what is left is marked, and what is marked was spared
      intro r
      change s.heap.sweep.2.isMarked r = true ↔ s.heap.sweep.2.contains r = true ∧ s.Spared r
      rw [Heap.isMarked_sweep hunswept, Heap.contains_sweep hunswept]
      exact ⟨fun hmarked => ⟨hmarked, ((h.marked r).mp hmarked).2⟩, And.left⟩

theorem Step.faithful {t : Chronicle α} (h : Step s t) (hs : s.Faithful) : t.Faithful := by
  cases h with
  | alloc halloc => exact hs.alloc halloc
  | modify r f => exact hs.modify r f
  | freeze hfreeze => exact hs.freeze hfreeze
  | unfreeze hunfreeze => exact hs.unfreeze hunfreeze
  | mark roots => exact hs.mark roots
  | sweep => exact hs.sweep
  | collect roots => exact (hs.mark roots).sweep

theorem Reached.faithful (h : Reached s) : s.Faithful := by
  induction h with
  | start capacity => exact faithful_start capacity
  | step _ hstep ih => exact hstep.faithful ih

/-- What a sweep leaves of the heap and what it reports: the objects that are gone, each counted
once, with their bytes, and the objects that are left. -/
structure SweptTo (s : Chronicle α) (report : SweepStatistics) (after : Heap α) : Prop where
  kept : ∀ r object, after.get? r = some object ↔
    s.heap.get? r = some object ∧ (s.pending = true → s.Spared r)
  freed : ∃ freed : List Ref, freed.Nodup ∧
    (∀ r, r ∈ freed ↔ s.heap.contains r = true ∧ s.pending = true ∧ ¬ s.Spared r) ∧
    report.cleared = freed.length ∧
    report.freed.toNat = Heap.bytes s.charged freed
  remaining : ∃ left : List Ref, left.Nodup ∧ (∀ r, r ∈ left ↔ after.contains r = true) ∧
    report.remaining = left.length

theorem Faithful.sweptTo (h : s.Faithful) : s.SweptTo s.heap.sweep.1 s.heap.sweep.2 := by
  have hremaining : s.heap.sweep.1.remaining = s.heap.sweep.2.objects := by
    unfold Heap.sweep
    split <;> rfl
  refine ⟨?_, ?_, s.heap.sweep.2.live, Heap.live_nodup _, fun r => Heap.mem_live,
    hremaining.trans h.sweep.accounted.objects⟩
  · intro r object
    cases hpending : s.pending with
    | false => simp [Heap.sweep_of_swept (h.unswept.trans hpending)]
    | true =>
      rw [Heap.get?_sweep (h.unswept.trans hpending), h.marked]
      constructor
      · rintro ⟨⟨-, hspared⟩, hget⟩
        exact ⟨hget, fun _ => hspared⟩
      · rintro ⟨hget, hspared⟩
        exact ⟨⟨Heap.contains_of_get? hget, hspared rfl⟩, hget⟩
  · cases hpending : s.pending with
    | false =>
      refine ⟨[], List.nodup_nil, by simp, ?_⟩
      rw [Heap.sweep_of_swept (h.unswept.trans hpending)]
      exact ⟨rfl, rfl⟩
    | true =>
      have hunswept := h.unswept.trans hpending
      refine ⟨s.heap.doomed, s.heap.live_nodup.filter _, ?_, ?_⟩
      · intro r
        rw [Heap.mem_doomed, h.marked]
        tauto
      · simp only [Heap.sweep, hunswept, if_true]
        refine ⟨?_, h.accounted.condemnedBytes⟩
        rw [Heap.condemned_eq, List.length_map]

/-- At any moment the marked objects are those that the last mark reached or that were allocated
after it, and a sweep frees exactly the others, if a mark is waiting for it. -/
theorem Reached.sweep_frees_condemned (h : Reached s) :
    (∀ r, s.heap.isMarked r = true ↔ s.heap.contains r = true ∧ s.Spared r) ∧
      (∀ r object, (r, object) ∈ s.heap.marked ↔ s.heap.get? r = some object ∧ s.Spared r) ∧
      s.heap.marked.Pairwise (fun a b => a.1.index < b.1.index) ∧
      s.SweptTo s.heap.sweep.1 s.heap.sweep.2 ∧
      ∀ roots, (s.mark roots).SweptTo (s.heap.collect roots).1 (s.heap.collect roots).2 := by
  have hs := h.faithful
  refine ⟨hs.marked, ?_, s.heap.marked_ascending, hs.sweptTo, fun roots => (hs.mark roots).sweptTo⟩
  intro r object
  rw [Heap.mem_marked, hs.marked]
  constructor
  · rintro ⟨⟨-, hspared⟩, hget⟩
    exact ⟨hget, hspared⟩
  · rintro ⟨hget, hspared⟩
    exact ⟨⟨Heap.contains_of_get? hget, hspared⟩, hget⟩

structure Node where
  refs : List Ref

instance : HeapObject Node where
  refs := Node.refs
  size _ := 8

def single : Heap Node :=
  ⟨64, #[⟨0, some ⟨⟨[]⟩, 24, false⟩⟩], [], [], false, false, 24, 1⟩

def remarked : Chronicle Node :=
  (((start 64).allocated ⟨[]⟩ ⟨0, 0⟩ single).mark [⟨0, 0⟩]).mark []

def renewed : Chronicle Node :=
  remarked.allocated ⟨[⟨0, 0⟩]⟩ ⟨1, 0⟩
    { remarked.heap with
      slots := remarked.heap.slots.push ⟨0, some ⟨⟨[⟨0, 0⟩]⟩, 24, false⟩⟩
      used := 48
      objects := 2 }

theorem alloc_single :
    (start 64 : Chronicle Node).heap.alloc ⟨[]⟩ = .ok (⟨0, 0⟩, single) := rfl

theorem reached_remarked : Reached remarked :=
  (((Reached.start 64).step (.alloc alloc_single)).step (.mark _ _)).step (.mark _ _)

theorem alloc_remarked : remarked.heap.alloc ⟨[⟨0, 0⟩]⟩ = .ok (⟨1, 0⟩, renewed.heap) := by
  have hsize : remarked.heap.slots.size = 1 := by
    have hsecond := congrArg Array.size (Heap.content_mark (single.mark [⟨0, 0⟩]).2 [])
    have hfirst := congrArg Array.size (Heap.content_mark single [⟨0, 0⟩])
    rw [Array.size_map, Array.size_map] at hfirst hsecond
    exact hsecond.trans hfirst
  have hfree : remarked.heap.free = [] := rfl
  have hused : remarked.heap.used = 24 := rfl
  have hcapacity : remarked.heap.capacity = 64 := rfl
  have hpolarity : remarked.heap.polarity = false := rfl
  have hobjects : remarked.heap.objects = 1 := rfl
  have hheader : ¬ Heap.Overflow 8 16 := by decide
  have htotal : ¬ Heap.Overflow 24 24 := by decide
  simp [Heap.alloc, hfree, hused, hcapacity, hpolarity, hobjects, hsize, HeapObject.size,
    Heap.header, Heap.slotLimit, hheader, htotal, renewed, allocated]

theorem reached_renewed : Reached renewed :=
  reached_remarked.step (.alloc alloc_remarked)

theorem contains_renewed (r : Ref) :
    renewed.heap.contains r = true ↔ r = ⟨1, 0⟩ ∨ r = ⟨0, 0⟩ := by
  have hsingle := (Heap.empty_sound 64).alloc alloc_single
  have hnew := reached_remarked.faithful.sound.alloc alloc_remarked
  have hremarked : remarked.heap.contains r = single.contains r :=
    (Heap.contains_mark _ [] r).trans (Heap.contains_mark single [⟨0, 0⟩] r)
  rw [hnew.contains, hremarked, hsingle.contains]
  simp [Heap.contains, Heap.empty, Heap.cell?]

theorem spared_renewed (r : Ref) : renewed.Spared r ↔ r = ⟨1, 0⟩ := by
  have hremarked : ¬ remarked.Spared r := by
    rintro (hreaches | hyoung)
    · exact Heap.not_reaches_nil r hreaches
    · exact List.not_mem_nil hyoung
  rw [renewed, spared_allocated, or_iff_left hremarked]

theorem get?_renewed : renewed.heap.get? ⟨1, 0⟩ = some ⟨[⟨0, 0⟩]⟩ := by
  rw [(reached_remarked.faithful.sound.alloc alloc_remarked).get?_eq, if_pos rfl]

theorem renewed_frees_first :
    Reached renewed ∧ renewed.heap.isMarked ⟨0, 0⟩ = false ∧
      renewed.heap.isMarked ⟨1, 0⟩ = true ∧ renewed.heap.sweep.1 = ⟨1, 1, 24⟩ ∧
      renewed.heap.sweep.2.get? ⟨0, 0⟩ = none ∧
      renewed.heap.sweep.2.get? ⟨1, 0⟩ = some ⟨[⟨0, 0⟩]⟩ := by
  obtain ⟨hmarked, -, -, ⟨hkept, ⟨freed, hnodup, hmem, hcleared, hbytes⟩, left, hnodup', hmem',
    hremaining⟩, -⟩ := reached_renewed.sweep_frees_condemned
  have hpending : renewed.pending = true := rfl
  simp only [contains_renewed, spared_renewed, hpending, true_and] at hmarked hmem
  simp only [spared_renewed, hpending, true_imp_iff] at hkept
  have hsecond := (hkept _ _).mpr ⟨get?_renewed, rfl⟩
  have hgone : ∀ r object, renewed.heap.sweep.2.get? r = some object → r = ⟨1, 0⟩ :=
    fun r object hget => ((hkept r object).mp hget).2
  have hfirst : freed.Perm [⟨0, 0⟩] := by
    rw [List.perm_ext_iff_of_nodup hnodup (List.nodup_singleton _)]
    intro r
    rw [hmem, List.mem_singleton]
    constructor
    · rintro ⟨rfl | rfl, hne⟩
      · exact absurd rfl hne
      · rfl
    · rintro rfl
      exact ⟨Or.inr rfl, by decide⟩
  have hleft : left.Perm [⟨1, 0⟩] := by
    rw [List.perm_ext_iff_of_nodup hnodup' (List.nodup_singleton _)]
    intro r
    rw [hmem', List.mem_singleton, Heap.contains_iff]
    constructor
    · rintro ⟨object, hget⟩
      exact hgone r object hget
    · rintro rfl
      exact ⟨_, hsecond⟩
  refine ⟨reached_renewed, ?_, (hmarked _).mpr ⟨Or.inl rfl, rfl⟩, ?_, ?_, hsecond⟩
  · rw [Bool.eq_false_iff]
    intro h
    exact absurd ((hmarked _).mp h).2 (by decide)
  · rw [hfirst.length_eq] at hcleared
    rw [hleft.length_eq] at hremaining
    have hfreed : renewed.heap.sweep.1.freed = 24 := by
      rw [← UInt64.toNat_inj, hbytes, Heap.bytes_perm hfirst]
      rfl
    rw [SweepStatistics.mk.injEq]
    exact ⟨hcleared, hremaining, hfreed⟩
  · rw [Option.eq_none_iff_forall_ne_some]
    intro object hget
    exact absurd (hgone _ object hget) (by decide)

end Chronicle
end Metaspace
