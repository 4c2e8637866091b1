import Mathlib.Data.List.Nodup
import Metaspace.Heap.Basic

set_option autoImplicit false

namespace Metaspace

theorem Ref.eq_of_index {r r' : Ref} (hindex : r.index = r'.index)
    (hgen : r.generation = r'.generation) : r = r' := by
  obtain ⟨index, generation⟩ := r
  obtain ⟨index', generation'⟩ := r'
  rw [Ref.mk.injEq]
  exact ⟨hindex, hgen⟩

namespace Heap

variable {α : Type}

def cellIn (slots : Array (Slot α)) (r : Ref) : Option (Cell α) :=
  (slots[r.index]?).bind fun slot => Slot.at? slot r.generation

theorem cell?_eq (heap : Heap α) (r : Ref) : heap.cell? r = cellIn heap.slots r := rfl

theorem cellIn_eq_some {slots : Array (Slot α)} {r : Ref} {cell : Cell α} :
    cellIn slots r = some cell ↔ slots[r.index]? = some ⟨r.generation, some cell⟩ := by
  unfold cellIn
  rw [Option.bind_eq_some_iff]
  constructor
  · rintro ⟨slot, hslot, hat⟩
    unfold Slot.at? at hat
    split at hat
    · rename_i hgen
      rw [hslot, ← hgen, ← hat]
    · contradiction
  · intro hslot
    exact ⟨_, hslot, by simp [Slot.at?]⟩

theorem get?_eq_some {heap : Heap α} {r : Ref} {object : α} :
    heap.get? r = some object ↔ ∃ cell, heap.cell? r = some cell ∧ cell.object = object :=
  Option.map_eq_some_iff

theorem contains_iff {heap : Heap α} {r : Ref} :
    heap.contains r = true ↔ ∃ object, heap.get? r = some object := by
  unfold contains get?
  rw [Option.isSome_iff_exists]
  constructor
  · rintro ⟨cell, hcell⟩
    exact ⟨cell.object, by rw [hcell]; rfl⟩
  · rintro ⟨object, hget⟩
    obtain ⟨cell, hcell, -⟩ := Option.map_eq_some_iff.mp hget
    exact ⟨cell, hcell⟩

theorem contains_of_get? {heap : Heap α} {r : Ref} {object : α} (h : heap.get? r = some object) :
    heap.contains r = true :=
  contains_iff.mpr ⟨object, h⟩

theorem isMarked_iff {heap : Heap α} {r : Ref} :
    heap.isMarked r = true ↔ ∃ cell, heap.cell? r = some cell ∧ cell.flag = heap.polarity := by
  simp [isMarked, Option.any_eq_true]

theorem contains_of_isMarked {heap : Heap α} {r : Ref} (h : heap.isMarked r = true) :
    heap.contains r = true := by
  obtain ⟨cell, hcell, -⟩ := isMarked_iff.mp h
  exact Option.isSome_iff_exists.mpr ⟨cell, hcell⟩

def AllMarked (heap : Heap α) : Prop :=
  ∀ r cell, heap.cell? r = some cell → cell.flag = heap.polarity

theorem AllMarked.isMarked {heap : Heap α} (h : heap.AllMarked) {r : Ref}
    (hlive : heap.contains r = true) : heap.isMarked r = true := by
  obtain ⟨cell, hcell⟩ := Option.isSome_iff_exists.mp hlive
  exact isMarked_iff.mpr ⟨cell, hcell, h r cell hcell⟩

/-- The free list holds the empty slots, each once. Without a mark that waits for its sweep no
object is unmarked. -/
structure Sound (heap : Heap α) : Prop where
  nodup : heap.free.Nodup
  free_iff : ∀ i, i ∈ heap.free ↔ ∃ g, heap.slots[i]? = some ⟨g, none⟩
  settled : heap.unswept = false → heap.AllMarked

theorem empty_allMarked (capacity : UInt64) : (empty capacity : Heap α).AllMarked := by
  intro r cell hcell
  simp [empty, cell?] at hcell

theorem empty_sound (capacity : UInt64) : (empty capacity : Heap α).Sound where
  nodup := List.nodup_nil
  free_iff i := by
    simp [empty]
  settled _ := empty_allMarked capacity

/-- A heap between two cycles, on which no object is left unmarked. -/
structure Tidy (heap : Heap α) : Prop extends Sound heap where
  marked : heap.AllMarked

theorem cell?_modify (heap : Heap α) (r : Ref) (f : α → α) (r' : Ref) :
    (heap.modify r f).cell? r' =
      if r' = r then (heap.cell? r).map fun cell => { cell with object := f cell.object }
      else heap.cell? r' := by
  simp only [cell?, modify, Array.getElem?_modify]
  by_cases hindex : r.index = r'.index
  · rw [if_pos hindex, ← hindex]
    cases heap.slots[r.index]? with
    | none => simp
    | some slot =>
      by_cases hgen : slot.generation = r.generation
      · by_cases hr : r' = r
        · subst hr
          simp [Slot.at?, hgen]
        · have hgen' : r.generation ≠ r'.generation :=
            fun heq => hr (Ref.eq_of_index hindex heq).symm
          simp [Slot.at?, hgen, hr, hgen']
      · by_cases hr : r' = r
        · subst hr
          simp [Slot.at?, hgen]
        · simp [hgen, hr]
  · rw [if_neg hindex]
    have hr : r' ≠ r := by
      rintro rfl
      exact hindex rfl
    simp [hr]

theorem get?_modify (heap : Heap α) (r : Ref) (f : α → α) (r' : Ref) :
    (heap.modify r f).get? r' = if r' = r then (heap.get? r).map f else heap.get? r' := by
  unfold get?
  rw [cell?_modify]
  split
  · rw [Option.map_map, Option.map_map]
    rfl
  · rfl

theorem isMarked_modify (heap : Heap α) (r : Ref) (f : α → α) (r' : Ref) :
    (heap.modify r f).isMarked r' = heap.isMarked r' := by
  rw [isMarked, cell?_modify, isMarked]
  split
  · rename_i heq
    rw [heq, Option.any_map]
    rfl
  · rfl

theorem AllMarked.modify {heap : Heap α} (h : heap.AllMarked) (r : Ref) (f : α → α) :
    (heap.modify r f).AllMarked := by
  intro r' cell hcell
  rw [cell?_modify] at hcell
  split at hcell
  · obtain ⟨cell', hcell', rfl⟩ := Option.map_eq_some_iff.mp hcell
    exact h r cell' hcell'
  · exact h r' cell hcell

theorem Sound.modify {heap : Heap α} (h : heap.Sound) (r : Ref) (f : α → α) :
    (heap.modify r f).Sound where
  nodup := h.nodup
  free_iff i := by
    rw [show (heap.modify r f).free = heap.free from rfl, h.free_iff]
    simp only [Heap.modify, Array.getElem?_modify]
    by_cases hindex : r.index = i
    · rw [if_pos hindex]
      cases heap.slots[i]? with
      | none => simp
      | some slot =>
        obtain ⟨g, cell⟩ := slot
        by_cases hgen : g = r.generation <;> cases cell <;> simp [hgen]
    · rw [if_neg hindex]
  settled hswept := (h.settled hswept).modify r f

variable [HeapObject α]

/-- An object for which there are bytes left, whichever slot it goes to. -/
structure Fits (heap : Heap α) (object : α) : Prop where
  charge_eq : (HeapObject.size object + header).toNat = (HeapObject.size object).toNat + 16
  charge_le : HeapObject.size object + header ≤ heap.capacity
  used_eq : (heap.used + (HeapObject.size object + header)).toNat =
    heap.used.toNat + (HeapObject.size object + header).toNat
  used_le : heap.used + (HeapObject.size object + header) ≤ heap.capacity

theorem toNat_add_of_not_overflow {a b : UInt64} (h : ¬ Overflow a b) :
    (a + b).toNat = a.toNat + b.toNat := by
  rw [UInt64.toNat_add]
  exact Nat.mod_eq_of_lt (Nat.not_le.mp h)

theorem alloc_eq_ok {heap next : Heap α} {object : α} {r : Ref}
    (h : heap.alloc object = .ok (r, next)) :
    Fits heap object ∧
    ((∃ free, heap.free = r.index :: free ∧
        r.generation = (heap.slots[r.index]?).elim 0 (·.generation) ∧
        next = { heap with
          slots := heap.slots.setIfInBounds r.index
            ⟨r.generation, some ⟨object, HeapObject.size object + header, heap.polarity⟩⟩
          free := free
          used := heap.used + (HeapObject.size object + header)
          objects := heap.objects + 1 }) ∨
      (heap.free = [] ∧ heap.slots.size < slotLimit ∧ r = ⟨heap.slots.size, 0⟩ ∧
        next = { heap with
          slots := heap.slots.push
            ⟨0, some ⟨object, HeapObject.size object + header, heap.polarity⟩⟩
          used := heap.used + (HeapObject.size object + header)
          objects := heap.objects + 1 })) := by
  simp only [Heap.alloc] at h
  split at h
  · contradiction
  rename_i hcharge
  split at h
  · contradiction
  rename_i hbig
  split at h
  · contradiction
  rename_i hused
  split at h
  · contradiction
  rename_i hfull
  have hfits : Fits heap object := ⟨toNat_add_of_not_overflow hcharge, UInt64.not_lt.mp hbig,
    toNat_add_of_not_overflow hused, UInt64.not_lt.mp hfull⟩
  refine ⟨hfits, ?_⟩
  split at h
  · rename_i index free hfree
    obtain ⟨rfl, rfl⟩ := Prod.mk.inj (Except.ok.inj h)
    exact .inl ⟨free, hfree, rfl, rfl⟩
  · rename_i hfree
    split at h
    · rename_i hslots
      obtain ⟨rfl, rfl⟩ := Prod.mk.inj (Except.ok.inj h)
      exact .inr ⟨hfree, hslots, rfl, rfl⟩
    · contradiction

/-- A heap before and after an object was put on it, for which there was room. -/
structure Allocated (before : Heap α) (object : α) (r : Ref) (after : Heap α) : Prop extends
    Fits before object where
  nodup : after.free.Nodup
  free_iff : ∀ i, i ∈ after.free ↔ ∃ g, after.slots[i]? = some ⟨g, none⟩
  fresh : before.cell? r = none
  cell?_eq : ∀ r', after.cell? r' =
    if r' = r then some ⟨object, HeapObject.size object + header, before.polarity⟩
    else before.cell? r'
  frozen : after.frozen = before.frozen
  polarity : after.polarity = before.polarity
  unswept : after.unswept = before.unswept
  capacity : after.capacity = before.capacity
  objects : after.objects = before.objects + 1
  used : after.used = before.used + (HeapObject.size object + header)

section Filling

variable {heap : Heap α} {object : α}

theorem Sound.refill (h : heap.Sound) {index : Nat} {free : List Nat}
    (hfree : heap.free = index :: free) {g : UInt32}
    (hslot : heap.slots[index]? = some ⟨g, none⟩) (hfits : Fits heap object) :
    Allocated heap object ⟨index, g⟩
      { heap with
        slots := heap.slots.setIfInBounds index
          ⟨g, some ⟨object, HeapObject.size object + header, heap.polarity⟩⟩
        free := free
        used := heap.used + (HeapObject.size object + header)
        objects := heap.objects + 1 } := by
  have hnodup := h.nodup
  rw [hfree, List.nodup_cons] at hnodup
  have hbound : index < heap.slots.size := by
    by_contra hge
    rw [Array.getElem?_eq_none (Nat.not_lt.mp hge)] at hslot
    contradiction
  refine ⟨hfits, hnodup.2, ?_, ?_, ?_, rfl, rfl, rfl, rfl, rfl, rfl⟩
  · intro i
    dsimp only
    rw [Array.getElem?_setIfInBounds]
    by_cases hi : index = i
    · subst hi
      simp [hbound, hnodup.1]
    · rw [if_neg hi, ← h.free_iff, hfree, List.mem_cons]
      simp [Ne.symm hi]
  · simp [cell?, hslot, Slot.at?]
  · intro r'
    simp only [cell?, Array.getElem?_setIfInBounds]
    by_cases hi : index = r'.index
    · rw [if_pos hi, if_pos hbound, ← hi, hslot]
      by_cases hg : g = r'.generation
      · have hr : r' = ⟨index, g⟩ := Ref.eq_of_index hi.symm hg.symm
        simp [hr, Slot.at?]
      · have hr : r' ≠ ⟨index, g⟩ := by
          rintro rfl
          exact hg rfl
        simp [hr, Slot.at?, hg]
    · have hr : r' ≠ ⟨index, g⟩ := by
        rintro rfl
        exact hi rfl
      rw [if_neg hi, if_neg hr]

theorem Sound.extend (h : heap.Sound) (hfree : heap.free = []) (hfits : Fits heap object) :
    Allocated heap object ⟨heap.slots.size, 0⟩
      { heap with
        slots := heap.slots.push
          ⟨0, some ⟨object, HeapObject.size object + header, heap.polarity⟩⟩
        used := heap.used + (HeapObject.size object + header)
        objects := heap.objects + 1 } := by
  refine ⟨hfits, h.nodup, ?_, ?_, ?_, rfl, rfl, rfl, rfl, rfl, rfl⟩
  · intro i
    dsimp only
    rw [Array.getElem?_push]
    split
    · rename_i hi
      subst hi
      rw [hfree]
      simp
    · exact h.free_iff i
  · simp [cell?]
  · intro r'
    simp only [cell?, Array.getElem?_push]
    by_cases hi : r'.index = heap.slots.size
    · rw [if_pos hi]
      by_cases hg : r'.generation = 0
      · have hr : r' = ⟨heap.slots.size, 0⟩ := Ref.eq_of_index hi hg
        simp [hr, Slot.at?]
      · have hr : r' ≠ ⟨heap.slots.size, 0⟩ := by
          rintro rfl
          exact hg rfl
        simp [hr, Slot.at?, Ne.symm hg, hi]
    · have hr : r' ≠ ⟨heap.slots.size, 0⟩ := by
        rintro rfl
        exact hi rfl
      rw [if_neg hi, if_neg hr]

theorem Sound.alloc {next : Heap α} (h : heap.Sound) {r : Ref}
    (halloc : heap.alloc object = .ok (r, next)) : Allocated heap object r next := by
  obtain ⟨hfits, ⟨free, hfree, hgeneration, rfl⟩ | ⟨hfree, -, rfl, rfl⟩⟩ := alloc_eq_ok halloc
  · obtain ⟨g, hslot⟩ := (h.free_iff r.index).mp (hfree ▸ List.mem_cons_self)
    rw [hslot, Option.elim_some] at hgeneration
    exact h.refill hfree (hgeneration ▸ hslot) hfits
  · exact h.extend hfree hfits

end Filling

section Allocated

variable {before after : Heap α} {object : α} {r : Ref}

theorem Allocated.get?_eq (h : Allocated before object r after) (r' : Ref) :
    after.get? r' = if r' = r then some object else before.get? r' := by
  unfold get?
  rw [h.cell?_eq]
  split <;> rfl

theorem Allocated.get?_of_get? (h : Allocated before object r after) {r' : Ref} {other : α}
    (hget : before.get? r' = some other) : after.get? r' = some other := by
  have hne : r' ≠ r := by
    rintro rfl
    obtain ⟨cell, hcell, -⟩ := get?_eq_some.mp hget
    rw [h.fresh] at hcell
    contradiction
  rw [h.get?_eq, if_neg hne]
  exact hget

theorem Allocated.get?_cases (h : Allocated before object r after) {r' : Ref} {other : α}
    (hget : after.get? r' = some other) :
    before.get? r' = some other ∨ r' = r ∧ other = object := by
  rw [h.get?_eq] at hget
  split at hget
  · rename_i heq
    exact Or.inr ⟨heq, (Option.some.inj hget).symm⟩
  · exact Or.inl hget

theorem Allocated.isMarked (h : Allocated before object r after) (r' : Ref) :
    after.isMarked r' = true ↔ r' = r ∨ before.isMarked r' = true := by
  rw [Heap.isMarked, h.cell?_eq, h.polarity, Heap.isMarked]
  split
  · rename_i heq
    simp [heq]
  · rename_i hne
    simp [hne]

theorem Allocated.allMarked (h : Allocated before object r after) (hbefore : before.AllMarked) :
    after.AllMarked := by
  intro r' cell hcell
  rw [h.cell?_eq] at hcell
  rw [h.polarity]
  split at hcell
  · rw [← Option.some.inj hcell]
  · exact hbefore r' cell hcell

theorem Allocated.sound (h : Allocated before object r after) (hbefore : before.Sound) :
    after.Sound where
  nodup := h.nodup
  free_iff := h.free_iff
  settled hswept := h.allMarked (hbefore.settled (h.unswept ▸ hswept))

theorem Allocated.get?_fresh (h : Allocated before object r after) : before.get? r = none := by
  unfold get?
  rw [h.fresh]
  rfl

end Allocated

end Heap
end Metaspace
