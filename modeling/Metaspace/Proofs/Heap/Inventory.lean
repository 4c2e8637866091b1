import Mathlib.Data.List.Permutation
import Metaspace.Proofs.Heap.Overflow
import Metaspace.Proofs.Heap.Tracing

/-!
The accounts of a heap over a whole run, in plain numbers. On a heap whose capacity takes no more
than half of a word's range, no sum of an operation wraps around and no difference falls below zero,
so that an allocation is refused only where bytes or slots are really missing.
-/

set_option autoImplicit false

namespace Metaspace

namespace Heap

variable {α : Type} {heap next : Heap α} {charged : Ref → UInt64}

theorem live_le_size (heap : Heap α) : heap.live.length ≤ heap.slots.size := by
  have hle := List.length_filterMap_le
    (fun p : Slot α × Nat => p.1.cell.map fun _ => (⟨p.2, p.1.generation⟩ : Ref))
    heap.slots.toList.zipIdx
  rwa [List.length_zipIdx, Array.length_toList] at hle

theorem size_mark [HeapObject α] (heap : Heap α) (roots : List Ref) :
    (heap.mark roots).2.slots.size = heap.slots.size := by
  simpa using congrArg Array.size (content_mark heap roots)

theorem size_sweep (heap : Heap α) : heap.sweep.2.slots.size = heap.slots.size := by
  unfold sweep
  split <;> simp

theorem size_alloc_le [HeapObject α] {object : α} {r : Ref}
    (halloc : heap.alloc object = .ok (r, next)) (h : heap.slots.size ≤ slotLimit) :
    next.slots.size ≤ slotLimit := by
  obtain ⟨-, ⟨free, -, -, rfl⟩ | ⟨-, hslots, -, rfl⟩⟩ := alloc_eq_ok halloc
  · simpa using h
  · rw [Array.size_push]
    exact hslots

theorem toNat_add_header {size : UInt64} (h : size.toNat < 2 ^ 64 - 16) :
    (size + header).toNat = size.toNat + 16 := by
  have hroom : ¬ UInt64.size ≤ size.toNat + 16 := by
    simp only [UInt64.size]
    omega
  exact toNat_charge hroom

theorem Accounted.toNat_used_add (h : heap.Accounted charged)
    (hcapacity : heap.capacity.toNat < 2 ^ 63) {charge : UInt64}
    (hcharge : charge ≤ heap.capacity) :
    (heap.used + charge).toNat = heap.used.toNat + charge.toNat := by
  have hused := UInt64.le_iff_toNat_le.mp h.used_le
  rw [UInt64.le_iff_toNat_le] at hcharge
  rw [UInt64.toNat_add]
  omega

theorem Accounted.toNat_foldl_condemned (h : heap.Accounted charged) (n : Nat) :
    ((heap.condemnedCharges.take n).foldl (· + ·) 0).toNat =
      ((heap.condemnedCharges.take n).map (·.toNat)).sum := by
  have hwhole : (heap.condemnedCharges.map (·.toNat)).sum = bytes charged heap.doomed := by
    rw [condemnedCharges_eq, List.map_map]
    unfold bytes
    congr 1
    apply List.map_congr_left
    intro r hr
    rw [Function.comp_apply, h.charge r (mem_doomed.mp hr).1]
  have hsplit : ((heap.condemnedCharges.take n).map (·.toNat)).sum +
      ((heap.condemnedCharges.drop n).map (·.toNat)).sum = bytes charged heap.doomed := by
    rw [← List.sum_append, ← List.map_append, List.take_append_drop, hwhole]
  have hused := h.bytes_split
  have hword := heap.used.toNat_lt
  rw [toNat_foldl_add, UInt64.toNat_zero, Nat.zero_add]
  exact Nat.mod_eq_of_lt (by omega)

section

variable [HeapObject α] {object : α}

theorem Accounted.alloc_error_iff (h : heap.Accounted charged)
    (hcapacity : heap.capacity.toNat < 2 ^ 63)
    (hsize : (HeapObject.size object).toNat < 2 ^ 64 - 16) (e : AllocationError) :
    heap.alloc object = .error e ↔ heap.refusal? object = some e := by
  have hused := UInt64.le_iff_toNat_le.mp h.used_le
  have hword : UInt64.size = 2 ^ 64 := rfl
  refine alloc_error_iff_refusal? ?_ e
  rintro (hcharge | ⟨hcharge, htotal⟩) <;> omega

/-- What the operations of a heap add up and take off is what it would be in plain numbers. -/
structure Exact (heap : Heap α) : Prop where
  charge : ∀ object : α, (HeapObject.size object).toNat < 2 ^ 64 - 16 →
    (HeapObject.size object + header).toNat = (HeapObject.size object).toNat + 16
  used : ∀ charge : UInt64, charge ≤ heap.capacity →
    (heap.used + charge).toNat = heap.used.toNat + charge.toNat
  refused : ∀ object : α, (HeapObject.size object).toNat < 2 ^ 64 - 16 → ∀ e,
    heap.alloc object = .error e ↔ heap.refusal? object = some e
  slots : heap.slots.size ≤ slotLimit
  objects : heap.objects ≤ heap.slots.size
  visits : ∀ roots, (heap.mark roots).1 ≤ heap.objects
  freed : ∀ n, ((heap.condemnedCharges.take n).foldl (· + ·) 0).toNat =
    ((heap.condemnedCharges.take n).map (·.toNat)).sum
  freed_le : heap.condemnedBytes ≤ heap.used
  cleared_le : heap.condemned.length ≤ heap.objects

theorem Accounted.exact (h : heap.Accounted charged) (hsound : heap.Sound)
    (hcapacity : heap.capacity.toNat < 2 ^ 63) (hslots : heap.slots.size ≤ slotLimit) :
    heap.Exact where
  charge _ := toNat_add_header
  used _ := h.toNat_used_add hcapacity
  refused _ hsize := h.alloc_error_iff hcapacity hsize
  slots := hslots
  objects := h.objects.trans_le heap.live_le_size
  visits roots := h.objects ▸ hsound.mark_le_live roots
  freed := h.toNat_foldl_condemned
  freed_le := h.condemnedBytes_le
  cleared_le := by
    rw [condemned_eq, List.length_map, h.objects]
    exact List.length_filter_le _ _

end

end Heap

/-- A heap in the course of a run, with the sizes that its objects had when they were allocated. -/
structure Inventory (α : Type) where
  heap : Heap α
  sizes : Ref → UInt64

namespace Inventory

variable {α : Type} {capacity : UInt64} {s : Inventory α}

def start (capacity : UInt64) : Inventory α :=
  ⟨.empty capacity, fun _ => 0⟩

/-- The heap's own accounts agree with the sizes that objects had when they were allocated. -/
structure Balanced (capacity : UInt64) (s : Inventory α) : Prop where
  capacity : s.heap.capacity = capacity
  sound : s.heap.Sound
  accounted : s.heap.Accounted fun r => s.sizes r + Heap.header
  slots : s.heap.slots.size ≤ Heap.slotLimit
  sizes : ∀ r, (s.sizes r).toNat < 2 ^ 64 - 16

theorem balanced_start (capacity : UInt64) : (start capacity : Inventory α).Balanced capacity where
  capacity := rfl
  sound := Heap.empty_sound capacity
  accounted := Heap.accounted_empty capacity _
  slots := Nat.zero_le _
  sizes _ := by simp [start]

theorem Balanced.same (h : s.Balanced capacity) {next : Heap α} (hsound : next.Sound)
    (hsame : Heap.SameAccounts s.heap next) (hsize : next.slots.size = s.heap.slots.size) :
    ({ s with heap := next } : Inventory α).Balanced capacity where
  capacity := hsame.capacity.trans h.capacity
  sound := hsound
  accounted := h.accounted.same hsame
  slots := hsize.trans_le h.slots
  sizes := h.sizes

theorem Balanced.withFrozen (h : s.Balanced capacity) (frozen : List Ref) :
    ({ s with heap := { s.heap with frozen } } : Inventory α).Balanced capacity :=
  h.same ⟨h.sound.nodup, h.sound.free_iff, h.sound.settled⟩
    ⟨fun _ => rfl, fun _ => rfl, rfl, rfl, rfl⟩ rfl

theorem Balanced.sweep (h : s.Balanced capacity) :
    ({ s with heap := s.heap.sweep.2 } : Inventory α).Balanced capacity := by
  cases hunswept : s.heap.unswept with
  | false => simpa [Heap.sweep_of_swept hunswept] using h
  | true =>
    refine ⟨?_, h.sound.sweep, h.accounted.sweep hunswept, s.heap.size_sweep.trans_le h.slots,
      h.sizes⟩
    simpa [Heap.sweep, hunswept] using h.capacity

theorem Balanced.used (h : s.Balanced capacity) :
    s.heap.used.toNat = (s.heap.live.map fun r => (s.sizes r).toNat + 16).sum := by
  refine h.accounted.used.trans ?_
  unfold Heap.bytes
  congr 1
  exact List.map_congr_left fun r _ => Heap.toNat_add_header (h.sizes r)

variable [HeapObject α]

theorem Balanced.alloc (h : s.Balanced capacity) {object : α} {r : Ref} {next : Heap α}
    (halloc : s.heap.alloc object = .ok (r, next))
    (hsize : (HeapObject.size object).toNat < 2 ^ 64 - 16) :
    Balanced capacity ⟨next, Function.update s.sizes r (HeapObject.size object)⟩ := by
  have hnew := h.sound.alloc halloc
  refine ⟨hnew.capacity.trans h.capacity, hnew.sound h.sound, ?_,
    Heap.size_alloc_le halloc h.slots, fun r' => ?_⟩
  · have hcharged :
        (fun r' => Function.update s.sizes r (HeapObject.size object) r' + Heap.header) =
          Function.update (fun r' => s.sizes r' + Heap.header) r
            (HeapObject.size object + Heap.header) :=
      Function.comp_update (· + Heap.header) s.sizes r _
    exact hcharged ▸ h.accounted.alloc hnew
  · by_cases heq : r' = r
    · simpa [heq] using hsize
    · simpa [heq] using h.sizes r'

theorem Balanced.mark (h : s.Balanced capacity) (roots : List Ref) :
    ({ s with heap := (s.heap.mark roots).2 } : Inventory α).Balanced capacity :=
  h.same (h.sound.mark roots) (Heap.sameAccounts_mark s.heap roots) (s.heap.size_mark roots)

inductive Call (α : Type) where
  | alloc (object : α)
  | modify (r : Ref) (f : α → α)
  | freeze (r : Ref)
  | unfreeze (r : Ref)
  | mark (roots : List Ref)
  | sweep
  | collect (roots : List Ref)

/-- An allocation asks for less than the whole range of a word, header included. -/
def Call.Sized (c : Call α) : Prop :=
  ∀ object, c = .alloc object → (HeapObject.size object).toNat < 2 ^ 64 - 16

def call (s : Inventory α) : Call α → Inventory α
  | .alloc object =>
    match s.heap.alloc object with
    | .ok (r, next) => ⟨next, Function.update s.sizes r (HeapObject.size object)⟩
    | .error _ => s
  | .modify r f => { s with heap := s.heap.modify r f }
  | .freeze r =>
    match s.heap.freeze r with
    | .ok next => { s with heap := next }
    | .error _ => s
  | .unfreeze r =>
    match s.heap.unfreeze r with
    | .ok next => { s with heap := next }
    | .error _ => s
  | .mark roots => { s with heap := (s.heap.mark roots).2 }
  | .sweep => { s with heap := s.heap.sweep.2 }
  | .collect roots => { s with heap := (s.heap.collect roots).2 }

theorem Balanced.call (h : s.Balanced capacity) {c : Call α} (hsized : c.Sized) :
    (s.call c).Balanced capacity := by
  cases c with
  | alloc object =>
    simp only [Inventory.call]
    split
    · rename_i r next halloc
      exact h.alloc halloc (hsized object rfl)
    · exact h
  | modify r f =>
    exact h.same (h.sound.modify r f) (Heap.sameAccounts_modify s.heap r f) (Array.size_modify ..)
  | freeze r =>
    simp only [Inventory.call, Heap.freeze]
    split
    · rename_i next hnext
      split at hnext
      · contradiction
      · exact Except.ok.inj hnext ▸ h.withFrozen _
    · exact h
  | unfreeze r =>
    simp only [Inventory.call, Heap.unfreeze]
    split
    · rename_i next hnext
      split at hnext
      · exact Except.ok.inj hnext ▸ h.withFrozen _
      · contradiction
    · exact h
  | mark roots => exact h.mark roots
  | sweep => exact h.sweep
  | collect roots => exact (h.mark roots).sweep

theorem Balanced.calls (h : s.Balanced capacity) (calls : List (Call α))
    (hsized : ∀ c ∈ calls, c.Sized) : (calls.foldl Inventory.call s).Balanced capacity := by
  induction calls generalizing s with
  | nil => exact h
  | cons c calls ih =>
    obtain ⟨hfirst, hrest⟩ := List.forall_mem_cons.mp hsized
    exact ih (h.call hfirst) hrest

def after (capacity : UInt64) (calls : List (Call α)) : Inventory α :=
  calls.foldl call (start capacity)

structure Audited (capacity : UInt64) (s : Inventory α) : Prop where
  capacity : s.heap.capacity = capacity
  used : s.heap.used.toNat = (s.heap.live.map fun r => (s.sizes r).toNat + 16).sum
  used_le : s.heap.used ≤ s.heap.capacity
  objects : s.heap.objects = s.heap.live.length
  live_nodup : s.heap.live.Nodup
  mem_live : ∀ r, r ∈ s.heap.live ↔ s.heap.contains r = true
  free_nodup : s.heap.free.Nodup
  mem_free : ∀ i, i ∈ s.heap.free ↔ ∃ g, s.heap.slots[i]? = some ⟨g, none⟩
  refusal : ∀ object e, s.heap.alloc object = .error e → s.call (.alloc object) = s
  exact : s.heap.Exact

/-- On a heap of less than half of a word's range the accounts are right after any run, whatever
failed on the way and whatever became of the objects, and so is the arithmetic of what comes
next. -/
theorem after_audited (capacity : UInt64) (hcapacity : capacity.toNat < 2 ^ 63)
    (calls : List (Call α)) (hsized : ∀ c ∈ calls, c.Sized) :
    (after capacity calls).Audited capacity := by
  have h : (after capacity calls).Balanced capacity := (balanced_start capacity).calls calls hsized
  exact
    { capacity := h.capacity
      used := h.used
      used_le := h.accounted.used_le
      objects := h.accounted.objects
      live_nodup := Heap.live_nodup _
      mem_live := fun r => Heap.mem_live
      free_nodup := h.sound.nodup
      mem_free := h.sound.free_iff
      refusal := by
        intro object e halloc
        rw [call, halloc]
      exact := h.accounted.exact h.sound (by rwa [h.capacity]) h.slots }

/-- There is room for two objects, so that a third is refused. The first outlives a collection and a
fourth takes the place of the second. -/
def crowded : List (Call Chronicle.Node) :=
  [.alloc ⟨[]⟩, .alloc ⟨[⟨0, 0⟩]⟩, .alloc ⟨[]⟩, .modify ⟨1, 0⟩ fun _ => ⟨[]⟩, .collect [⟨0, 0⟩],
    .alloc ⟨[]⟩]

theorem crowded_audited :
    (after 64 crowded).Audited 64 ∧ (after 64 crowded).heap.used = 48 ∧
      (after 64 crowded).heap.objects = 2 ∧ (after 64 crowded).heap.contains ⟨1, 1⟩ = true := by
  refine ⟨after_audited 64 (by decide) crowded ?_, ?_, ?_, ?_⟩
  · intro c hc object hobject
    simp [HeapObject.size]
  · cbv
  · cbv
  · cbv

end Inventory
end Metaspace
