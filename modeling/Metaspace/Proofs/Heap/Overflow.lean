import Metaspace.Proofs.Heap.Cells

set_option autoImplicit false

namespace Metaspace.Heap

variable {α : Type}

theorem ensureFits_error_iff (heap : Heap α) (size : UInt64) (e : AllocationError) :
    heap.ensureFits size = .error e ↔
      e = .objectTooBig ∧ heap.capacity.toNat < size.toNat + 16 := by
  have hheader : header.toNat = 16 := rfl
  unfold ensureFits
  rw [hheader]
  split
  · rename_i hfits
    simp [Nat.not_lt.mpr hfits]
  · rename_i hbig
    simp [Nat.not_le.mp hbig, eq_comm]

variable [HeapObject α]

def refusal? (heap : Heap α) (object : α) : Option AllocationError :=
  let charge := (HeapObject.size object).toNat + 16
  if heap.capacity.toNat < charge then some .objectTooBig
  else if heap.capacity.toNat < heap.used.toNat + charge then some .outOfHeap
  else if heap.free.isEmpty ∧ slotLimit ≤ heap.slots.size then some .outOfHeap
  else none

/-- The size with its header is no word any more, or both fit on an empty heap and are no word
together with the bytes in use. -/
def Overflows (heap : Heap α) (object : α) : Prop :=
  let charge := (HeapObject.size object).toNat + 16
  UInt64.size ≤ charge ∨
    (charge ≤ heap.capacity.toNat ∧ UInt64.size ≤ heap.used.toNat + charge)

section

variable {heap : Heap α} {object : α}

theorem toNat_charge {size : UInt64} (h : ¬ Overflow size header) :
    (size + header).toNat = size.toNat + 16 :=
  toNat_add_of_not_overflow h

theorem overflows_iff :
    heap.Overflows object ↔ Overflow (HeapObject.size object) header ∨
      (HeapObject.size object + header ≤ heap.capacity ∧
        Overflow heap.used (HeapObject.size object + header)) := by
  by_cases hheader : Overflow (HeapObject.size object) header
  · exact iff_of_true (Or.inl hheader) (Or.inl hheader)
  · have hsmall : ¬ UInt64.size ≤ (HeapObject.size object).toNat + 16 := hheader
    simp only [Overflows, hheader, hsmall, false_or, UInt64.le_iff_toNat_le, toNat_charge hheader]
    change _ ↔ _ ∧ UInt64.size ≤ heap.used.toNat + (HeapObject.size object + header).toNat
    rw [toNat_charge hheader]

theorem alloc_of_overflows (h : heap.Overflows object) : heap.alloc object = .error .overflow := by
  simp only [Heap.alloc]
  rcases overflows_iff.mp h with hheader | ⟨hfits, hused⟩
  · rw [if_pos hheader]
  · rw [if_neg (UInt64.not_lt.mpr hfits), if_pos hused, ite_self]

theorem alloc_error_iff_refusal? (h : ¬ heap.Overflows object) (e : AllocationError) :
    heap.alloc object = .error e ↔ heap.refusal? object = some e := by
  rw [overflows_iff, not_or, not_and] at h
  obtain ⟨hheader, hused⟩ := h
  simp only [Heap.alloc, if_neg hheader, refusal?, ← toNat_charge hheader, gt_iff_lt,
    UInt64.lt_iff_toNat_lt]
  split
  · simp
  rename_i hfits
  have htotal := hused (UInt64.le_iff_toNat_le.mpr (Nat.not_lt.mp hfits))
  rw [if_neg htotal, toNat_add_of_not_overflow htotal]
  split
  · simp
  · cases hfree : heap.free with
    | cons index free => simp
    | nil =>
      by_cases hslots : heap.slots.size < slotLimit
      · simp [hslots, Nat.not_le.mpr hslots]
      · simp [hslots, Nat.not_lt.mp hslots]

theorem refusal?_ne_overflow : heap.refusal? object ≠ some .overflow := by
  simp only [refusal?]
  split
  · simp
  split
  · simp
  split <;> simp

end

/-- The check ahead of an allocation is right for every size. The allocation itself is refused as it
should be if and only if none of its sums overflows; where one does, the heap is never asked. -/
theorem alloc_exact_iff (heap : Heap α) (object : α) :
    (∀ e, heap.ensureFits (HeapObject.size object) = .error e ↔
      e = .objectTooBig ∧ heap.refusal? object = some .objectTooBig) ∧
    (heap.alloc object = .error .overflow ↔ heap.Overflows object) ∧
    ((∀ e, heap.alloc object = .error e ↔ heap.refusal? object = some e) ↔
      ¬ heap.Overflows object) := by
  refine ⟨fun e => ?_, ⟨fun halloc => ?_, alloc_of_overflows⟩, fun h hover => ?_,
    alloc_error_iff_refusal?⟩
  · rw [ensureFits_error_iff]
    by_cases hbig : heap.capacity.toNat < (HeapObject.size object).toNat + 16
    · simp [refusal?, hbig]
    · simp only [refusal?, hbig, if_false]
      split
      · simp
      · split <;> simp
  · by_contra hexact
    exact refusal?_ne_overflow ((alloc_error_iff_refusal? hexact _).mp halloc)
  · exact refusal?_ne_overflow ((h _).mp (alloc_of_overflows hover))

structure Blob where
  bytes : UInt64

instance : HeapObject Blob := ⟨fun _ => [], Blob.bytes⟩

/-- The greatest heap there is, with an object on it that takes half of the range. -/
def halfFilled : Heap Blob :=
  ((empty 0xffffffffffffffff).alloc (Blob.mk 0x8000000000000000)).toOption.elim (empty 0) (·.2)

/-- An object that takes all of a word's range is not found too big, as the check ahead finds it, and
a second object of half the range is not found to lack room: both sums overflow. -/
theorem blob_overflows :
    ((empty 64 : Heap Blob).ensureFits 0xfffffffffffffff0 = .error .objectTooBig ∧
      (empty 64).refusal? (Blob.mk 0xfffffffffffffff0) = some .objectTooBig ∧
      (empty 64).alloc (Blob.mk 0xfffffffffffffff0) = .error .overflow) ∧
    (halfFilled.used = 0x8000000000000010 ∧
      halfFilled.refusal? (Blob.mk 0x8000000000000000) = some .outOfHeap ∧
      halfFilled.alloc (Blob.mk 0x8000000000000000) = .error .overflow) := by
  refine ⟨⟨rfl, ?_, rfl⟩, ?_, ?_, rfl⟩ <;> decide +kernel

end Metaspace.Heap
