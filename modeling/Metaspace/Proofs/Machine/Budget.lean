import Mathlib.Algebra.Order.BigOperators.Group.List
import Mathlib.Algebra.Order.Ring.Nat
import Metaspace.Machine.Object
import Metaspace.Proofs.Heap.Inventory

/-!
The bytes of a machine's objects. What an object was charged for is what its kind and its length
come to for as long as it lives, so the bytes in use are those of the objects on the heap. On a heap
of less than `2 ^ 32` bytes there is always a slot left.
-/

set_option autoImplicit false

namespace Metaspace

namespace Object

def bytes : Object → Nat
  | .instanceOf _ _ fields => referenceSize * (fields.size + 1) + 16
  | .arrayOf _ _ elements => (elements.size + 1) * referenceSize + 8 + 16
  | .mirrorOf _ _ _ => 40
  | .holderOf _ _ => 48

theorem header_le_bytes (object : Object) : 16 ≤ object.bytes := by
  cases object <;> simp only [bytes] <;> omega

theorem toNat_arraySize {length : Nat} (h : (length + 1) * referenceSize + 8 + 16 < 2 ^ 64) :
    (arraySize length).toNat = (length + 1) * referenceSize + 8 := by
  have hword : UInt64.size = 2 ^ 64 := rfl
  rw [arraySize, saturating, UInt64.toNat_ofNat_of_lt' (by omega)]
  omega

theorem toNat_size {object : Object} (h : object.bytes < 2 ^ 64) :
    (HeapObject.size object).toNat + 16 = object.bytes := by
  cases object with
  | instanceOf _ _ fields =>
    show (UInt64.ofNat (referenceSize * (fields.size + 1))).toNat + 16 = _
    have hword : UInt64.size = 2 ^ 64 := rfl
    simp only [bytes] at h ⊢
    rw [UInt64.toNat_ofNat_of_lt' (by omega)]
  | arrayOf _ _ elements => exact congrArg (· + 16) (toNat_arraySize h)
  | mirrorOf _ _ _ => rfl
  | holderOf _ _ => rfl

theorem ensureFits_arraySize (heap : Heap Object) (length : Nat) :
    heap.ensureFits (arraySize length) =
      if (length + 1) * referenceSize + 8 + 16 ≤ heap.capacity.toNat then .ok ()
      else .error .objectTooBig := by
  have hcapacity := heap.capacity.toNat_lt
  have hheader : Heap.header.toNat = 16 := rfl
  unfold Heap.ensureFits
  by_cases hfits : (length + 1) * referenceSize + 8 + 16 < 2 ^ 64
  · rw [toNat_arraySize hfits, hheader]
  · have hword : UInt64.size = 2 ^ 64 := rfl
    have hsize : 2 ^ 64 - 16 ≤ (arraySize length).toNat := by
      rw [arraySize, saturating, UInt64.toNat_ofNat_of_lt' (by omega)]
      omega
    rw [hheader, if_neg (by omega), if_neg (by omega)]

end Object

namespace Heap

variable {capacity : UInt64} {heap next : Heap Object}

def bytesAt (heap : Heap Object) (r : Ref) : Nat :=
  (heap.get? r).elim 0 Object.bytes

/-- Every object is charged with its own bytes, and only a full table of slots is extended. -/
structure Paid (capacity : UInt64) (heap : Heap Object) : Prop where
  capacity_eq : heap.capacity = capacity
  sound : heap.Sound
  charged : ∃ charged, heap.Accounted charged ∧
    ∀ r object, heap.get? r = some object → (charged r).toNat = object.bytes
  slots : 16 * heap.slots.size ≤ capacity.toNat

theorem Paid.used (h : heap.Paid capacity) :
    heap.used.toNat = (heap.live.map heap.bytesAt).sum ∧ heap.used.toNat ≤ capacity.toNat := by
  obtain ⟨charged, haccounted, hcharged⟩ := h.charged
  refine ⟨haccounted.used.trans ?_,
    h.capacity_eq ▸ UInt64.le_iff_toNat_le.mp haccounted.used_le⟩
  unfold bytes
  congr 1
  apply List.map_congr_left
  intro r hr
  obtain ⟨object, hget⟩ := contains_iff.mp (mem_live.mp hr)
  rw [hcharged r _ hget, bytesAt, hget]
  rfl

theorem paid_empty (capacity : UInt64) : (empty capacity : Heap Object).Paid capacity where
  capacity_eq := rfl
  sound := empty_sound capacity
  charged := ⟨fun _ => 0, accounted_empty capacity _, fun r object hget => by
    simp [empty, get?, cell?] at hget⟩
  slots := Nat.zero_le _

theorem Sound.live_of_full (h : heap.Sound) (hfree : heap.free = []) :
    heap.live.length = heap.slots.size := by
  unfold live
  rw [List.filterMap_length_eq_length.mpr, List.length_zipIdx, Array.length_toList]
  rintro ⟨slot, i⟩ hmem
  rw [List.mem_zipIdx_iff_getElem?, Array.getElem?_toList] at hmem
  cases slot with
  | mk g cell? =>
    cases cell? with
    | some cell => rfl
    | none =>
      have hempty := (h.free_iff i).mpr ⟨g, hmem⟩
      rw [hfree] at hempty
      contradiction

theorem Paid.header_le_used (h : heap.Paid capacity) :
    16 * heap.live.length ≤ heap.used.toNat := by
  have hleast : ∀ n ∈ heap.live.map heap.bytesAt, 16 ≤ n := by
    intro n hn
    obtain ⟨r, hr, rfl⟩ := List.mem_map.mp hn
    obtain ⟨object, hget⟩ := contains_iff.mp (mem_live.mp hr)
    rw [bytesAt, hget]
    exact object.header_le_bytes
  have hsum := List.card_nsmul_le_sum _ 16 hleast
  rw [List.length_map, nsmul_eq_mul, Nat.mul_comm] at hsum
  rw [h.used.1]
  exact hsum

theorem size_alloc {object : Object} {r : Ref} (halloc : heap.alloc object = .ok (r, next)) :
    next.slots.size = heap.slots.size ∨
      heap.free = [] ∧ next.slots.size = heap.slots.size + 1 := by
  obtain ⟨-, ⟨free, -, -, rfl⟩ | ⟨hfree, -, -, rfl⟩⟩ := alloc_eq_ok halloc
  · exact Or.inl (by simp)
  · exact Or.inr ⟨hfree, Array.size_push _⟩

theorem Paid.alloc (h : heap.Paid capacity) {object : Object} (hfits : object.bytes < 2 ^ 64)
    {r : Ref} (halloc : heap.alloc object = .ok (r, next)) : next.Paid capacity := by
  have hnew := h.sound.alloc halloc
  have hsize := Object.toNat_size hfits
  have hcharge : (HeapObject.size object + header).toNat = object.bytes := by
    rw [toNat_add_header (by omega), hsize]
  obtain ⟨charged, haccounted, hcharged⟩ := h.charged
  refine ⟨hnew.capacity.trans h.capacity_eq, hnew.sound h.sound, ⟨_, haccounted.alloc hnew, ?_⟩, ?_⟩
  · intro r' other hget
    rcases hnew.get?_cases hget with hold | ⟨rfl, rfl⟩
    · have hne : r' ≠ r := by
        rintro rfl
        rw [hnew.get?_fresh] at hold
        contradiction
      rw [Function.update_of_ne hne]
      exact hcharged r' other hold
    · rw [Function.update_self]
      exact hcharge
  · rcases size_alloc halloc with hsame | ⟨hfree, hpush⟩
    · rw [hsame]
      exact h.slots
    · -- every slot is taken, so the bytes in use make up for all of them and the new one
      have hheaders := h.header_le_used
      rw [h.sound.live_of_full hfree] at hheaders
      have hle := hnew.toFits.used_le
      rw [UInt64.le_iff_toNat_le, h.capacity_eq, hnew.used_eq, hcharge] at hle
      have hheader := object.header_le_bytes
      omega

theorem Paid.same (h : heap.Paid capacity) (hsound : next.Sound) (hsame : SameAccounts heap next)
    (hsize : next.slots.size = heap.slots.size)
    (hbytes : ∀ r, next.bytesAt r = heap.bytesAt r) : next.Paid capacity := by
  obtain ⟨charged, haccounted, hcharged⟩ := h.charged
  refine ⟨hsame.capacity.trans h.capacity_eq, hsound, ⟨charged, haccounted.same hsame, ?_⟩, ?_⟩
  · intro r object hget
    obtain ⟨old, hold⟩ : ∃ old, heap.get? r = some old :=
      contains_iff.mp (hsame.contains r ▸ contains_of_get? hget)
    have heq := hbytes r
    rw [bytesAt, hget, bytesAt, hold] at heq
    exact (hcharged r old hold).trans heq.symm
  · rw [hsize]
    exact h.slots

theorem Paid.modify (h : heap.Paid capacity) (r : Ref) {f : Object → Object}
    (hf : ∀ object, (f object).bytes = object.bytes) : (heap.modify r f).Paid capacity := by
  refine h.same (h.sound.modify r f) (sameAccounts_modify heap r f) (Array.size_modify ..) ?_
  intro r'
  rw [bytesAt, get?_modify, bytesAt]
  split
  · rename_i heq
    subst heq
    cases heap.get? r' with
    | none => rfl
    | some object => exact hf object
  · rfl

theorem Paid.withFrozen (h : heap.Paid capacity) (frozen : List Ref) :
    ({ heap with frozen } : Heap Object).Paid capacity :=
  h.same ⟨h.sound.nodup, h.sound.free_iff, h.sound.settled⟩
    ⟨fun _ => rfl, fun _ => rfl, rfl, rfl, rfl⟩ rfl fun _ => rfl

theorem Paid.mark (h : heap.Paid capacity) (roots : List Ref) :
    (heap.mark roots).2.Paid capacity := by
  refine h.same (h.sound.mark roots) (sameAccounts_mark heap roots) (size_mark heap roots) ?_
  intro r
  rw [bytesAt, get?_mark, bytesAt]

theorem Paid.sweep (h : heap.Paid capacity) : heap.sweep.2.Paid capacity := by
  cases hunswept : heap.unswept with
  | false => simpa [sweep_of_swept hunswept] using h
  | true =>
    obtain ⟨charged, haccounted, hcharged⟩ := h.charged
    refine ⟨?_, h.sound.sweep, ⟨charged, haccounted.sweep hunswept, ?_⟩, ?_⟩
    · simpa [Heap.sweep, hunswept] using h.capacity_eq
    · intro r object hget
      exact hcharged r object ((get?_sweep hunswept).mp hget).2
    · rw [size_sweep]
      exact h.slots

theorem Paid.alloc_error_iff (h : heap.Paid capacity) (hcapacity : capacity.toNat < 2 ^ 32)
    {object : Object} (hfits : object.bytes < 2 ^ 64) (e : AllocationError) :
    heap.alloc object = .error e ↔
      (e = .objectTooBig ∧ capacity.toNat < object.bytes) ∨
      (e = .outOfHeap ∧ object.bytes ≤ capacity.toNat ∧
        capacity.toNat < heap.used.toNat + object.bytes) := by
  have hsize := Object.toNat_size hfits
  have hslots := h.slots
  have hslot : ¬ slotLimit ≤ heap.slots.size := by
    unfold slotLimit
    omega
  obtain ⟨charged, haccounted, -⟩ := h.charged
  rw [haccounted.alloc_error_iff (by rw [h.capacity_eq]; omega) (by omega)]
  unfold refusal?
  rw [h.capacity_eq, hsize]
  by_cases hbig : capacity.toNat < object.bytes
  · simp [hbig, Nat.not_le.mpr hbig, eq_comm]
  · by_cases hfull : capacity.toNat < heap.used.toNat + object.bytes
    · simp [hbig, hfull, Nat.not_lt.mp hbig, eq_comm]
    · simp [hbig, hfull, hslot]

end Heap
end Metaspace
