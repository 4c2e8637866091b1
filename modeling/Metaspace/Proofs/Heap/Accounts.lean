import Mathlib.Algebra.BigOperators.Group.List.Basic
import Mathlib.Algebra.GroupWithZero.Nat
import Mathlib.Logic.Function.Basic
import Metaspace.Proofs.Heap.Sweeping

set_option autoImplicit false

namespace Metaspace.Heap

variable {α : Type} {heap next : Heap α}

def live (heap : Heap α) : List Ref :=
  heap.slots.toList.zipIdx.filterMap fun (slot, index) =>
    slot.cell.map fun _ => ⟨index, slot.generation⟩

theorem mem_live {r : Ref} : r ∈ heap.live ↔ heap.contains r = true := by
  unfold live contains
  rw [mem_filterMap_zipIdx, Option.isSome_iff_exists]
  constructor
  · rintro ⟨i, ⟨g, cell?⟩, hslot, hsome⟩
    obtain ⟨cell, rfl, rfl⟩ := Option.map_eq_some_iff.mp hsome
    exact ⟨cell, cell?_eq_some.mpr hslot⟩
  · rintro ⟨cell, hcell⟩
    exact ⟨r.index, _, cell?_eq_some.mp hcell, rfl⟩

theorem live_nodup (heap : Heap α) : heap.live.Nodup := by
  unfold live
  refine (filterMap_zipIdx_ascending Ref.index ?_ heap.slots.toList).imp ?_
  · intro slot i r hsome
    obtain ⟨cell, -, rfl⟩ := Option.map_eq_some_iff.mp hsome
    rfl
  · rintro a b hlt rfl
    exact Nat.lt_irrefl _ hlt

theorem live_perm (h : ∀ r, next.contains r = heap.contains r) : next.live.Perm heap.live := by
  rw [List.perm_ext_iff_of_nodup next.live_nodup heap.live_nodup]
  intro r
  rw [mem_live, mem_live, h]

def doomed (heap : Heap α) : List Ref :=
  heap.live.filter (!heap.isMarked ·)

theorem mem_doomed {r : Ref} :
    r ∈ heap.doomed ↔ heap.contains r = true ∧ ¬ heap.isMarked r = true := by
  unfold doomed
  rw [List.mem_filter, mem_live]
  simp

theorem live_split (heap : Heap α) :
    (heap.live.filter (heap.isMarked ·) ++ heap.doomed).Perm heap.live :=
  List.filter_append_perm _ _

def charge (heap : Heap α) (r : Ref) : UInt64 :=
  ((heap.cell? r).map (·.charge)).getD 0

def bytes (charged : Ref → UInt64) (rs : List Ref) : Nat :=
  (rs.map fun r => (charged r).toNat).sum

section

variable {charged : Ref → UInt64} {rs : List Ref}

theorem bytes_perm {rs' : List Ref} (h : rs.Perm rs') : bytes charged rs = bytes charged rs' :=
  (h.map fun r => (charged r).toNat).sum_eq

theorem bytes_append (rs' : List Ref) :
    bytes charged (rs ++ rs') = bytes charged rs + bytes charged rs' := by
  unfold bytes
  rw [List.map_append, List.sum_append]

theorem bytes_update {r : Ref} (h : r ∉ rs) (charge : UInt64) :
    bytes (Function.update charged r charge) (r :: rs) = charge.toNat + bytes charged rs := by
  unfold bytes
  rw [List.map_cons, List.sum_cons, Function.update_self]
  congr 2
  apply List.map_congr_left
  intro r' hr'
  rw [Function.update_of_ne (ne_of_mem_of_not_mem hr' h)]

end

/-- The accounts of a heap agree with what its objects were charged for. -/
structure Accounted (heap : Heap α) (charged : Ref → UInt64) : Prop where
  charge : ∀ r, heap.contains r = true → heap.charge r = charged r
  objects : heap.objects = heap.live.length
  used : heap.used.toNat = bytes charged heap.live
  used_le : heap.used ≤ heap.capacity

structure SameAccounts (heap next : Heap α) : Prop where
  contains : ∀ r, next.contains r = heap.contains r
  charge : ∀ r, next.charge r = heap.charge r
  objects : next.objects = heap.objects
  used : next.used = heap.used
  capacity : next.capacity = heap.capacity

variable {charged : Ref → UInt64}

theorem Accounted.same (h : heap.Accounted charged) (hsame : SameAccounts heap next) :
    next.Accounted charged where
  charge r hlive := by
    rw [hsame.charge]
    exact h.charge r (hsame.contains r ▸ hlive)
  objects := by
    rw [hsame.objects, h.objects]
    exact (live_perm hsame.contains).length_eq.symm
  used := by
    rw [hsame.used, bytes_perm (live_perm hsame.contains)]
    exact h.used
  used_le := by
    rw [hsame.used, hsame.capacity]
    exact h.used_le

theorem accounted_empty (capacity : UInt64) (charged : Ref → UInt64) :
    (empty capacity : Heap α).Accounted charged where
  charge r hlive := by simp [empty, contains, cell?] at hlive
  objects := rfl
  used := rfl
  used_le := UInt64.zero_le

theorem sameAccounts_modify (heap : Heap α) (r : Ref) (f : α → α) :
    SameAccounts heap (heap.modify r f) where
  contains r' := by
    rw [contains, cell?_modify, contains]
    split
    · rename_i heq
      rw [heq, Option.isSome_map]
    · rfl
  charge r' := by
    rw [charge, cell?_modify, charge]
    split
    · rename_i heq
      rw [heq, Option.map_map]
      rfl
    · rfl
  objects := rfl
  used := rfl
  capacity := rfl

section Allocated

variable [HeapObject α] {object : α} {r : Ref}

theorem Allocated.contains (h : Allocated heap object r next) (r' : Ref) :
    next.contains r' = true ↔ r' = r ∨ heap.contains r' = true := by
  rw [Heap.contains, h.cell?_eq, Heap.contains]
  split
  · rename_i heq
    simp [heq]
  · rename_i hne
    simp [hne]

theorem Allocated.charge (h : Allocated heap object r next) (r' : Ref) :
    next.charge r' = Function.update heap.charge r (HeapObject.size object + header) r' := by
  rw [Heap.charge, h.cell?_eq, Function.update_apply]
  split <;> rfl

theorem Allocated.not_mem_live (h : Allocated heap object r next) : r ∉ heap.live := by
  rw [mem_live, Heap.contains, h.fresh]
  exact Bool.false_ne_true

theorem Allocated.live (h : Allocated heap object r next) : next.live.Perm (r :: heap.live) := by
  have hnodup := List.nodup_cons.mpr ⟨h.not_mem_live, heap.live_nodup⟩
  rw [List.perm_ext_iff_of_nodup next.live_nodup hnodup]
  intro r'
  rw [mem_live, h.contains, List.mem_cons, mem_live]

theorem Accounted.alloc (h : heap.Accounted charged) (hnew : Allocated heap object r next) :
    next.Accounted (Function.update charged r (HeapObject.size object + header)) where
  charge r' hlive := by
    rw [hnew.charge, Function.update_apply, Function.update_apply]
    split
    · rfl
    · rename_i hne
      exact h.charge r' (((hnew.contains r').mp hlive).resolve_left hne)
  objects := by
    rw [hnew.objects, h.objects, hnew.live.length_eq, List.length_cons]
  used := by
    rw [bytes_perm hnew.live, bytes_update hnew.not_mem_live, hnew.used, hnew.used_eq, h.used,
      Nat.add_comm]
  used_le := by
    rw [hnew.used, hnew.capacity]
    exact hnew.toFits.used_le

end Allocated

theorem sameAccounts_mark [HeapObject α] (heap : Heap α) (roots : List Ref) :
    SameAccounts heap (heap.mark roots).2 where
  contains := contains_mark heap roots
  charge r := congrArg (·.getD 0) (charge_mark heap roots r)
  objects := rfl
  used := rfl
  capacity := rfl

section

variable {i : Nat} {g : UInt32} {cell : Cell α}

theorem isMarked_of_slot (h : heap.slots[i]? = some ⟨g, some cell⟩) :
    heap.isMarked ⟨i, g⟩ = decide (cell.flag = heap.polarity) := by
  have hcell : heap.cell? ⟨i, g⟩ = some cell := cell?_eq_some.mpr h
  rw [isMarked, hcell, Option.any_some]

theorem charge_of_slot (h : heap.slots[i]? = some ⟨g, some cell⟩) :
    heap.charge ⟨i, g⟩ = cell.charge := by
  have hcell : heap.cell? ⟨i, g⟩ = some cell := cell?_eq_some.mpr h
  rw [charge, hcell, Option.map_some, Option.getD_some]

end

theorem condemned_eq (heap : Heap α) : heap.condemned = heap.doomed.map (·.index) := by
  unfold condemned doomed live
  rw [List.filter_filterMap, List.map_filterMap]
  apply List.filterMap_congr
  rintro ⟨⟨g, cell?⟩, i⟩ hmem
  rw [List.mem_zipIdx_iff_getElem?, Array.getElem?_toList] at hmem
  cases cell? with
  | none => rfl
  | some cell =>
    by_cases hflag : cell.flag = heap.polarity <;>
      simp [Slot.isCondemned, Option.filter_some, isMarked_of_slot hmem, hflag]

def condemnedCharges (heap : Heap α) : List UInt64 :=
  (heap.slots.toList.filter (Slot.isCondemned heap.polarity)).map Slot.charge

theorem condemnedCharges_eq (heap : Heap α) :
    heap.condemnedCharges = heap.doomed.map heap.charge := by
  unfold condemnedCharges
  -- as a `filterMap` over the numbered slots both lists differ in their functions only
  rw [← List.zipIdx_map_fst 0 heap.slots.toList]
  unfold doomed live
  rw [List.filter_filterMap, List.map_filterMap, List.filter_map, List.map_map,
    ← List.filterMap_eq_map, ← List.filterMap_eq_filter, List.filterMap_filterMap]
  apply List.filterMap_congr
  rintro ⟨⟨g, cell?⟩, i⟩ hmem
  rw [List.mem_zipIdx_iff_getElem?, Array.getElem?_toList] at hmem
  cases cell? with
  | none => rfl
  | some cell =>
    by_cases hflag : cell.flag = heap.polarity <;>
      simp [Slot.isCondemned, Slot.charge, Option.filter_some, Option.guard, isMarked_of_slot hmem,
        charge_of_slot hmem, hflag]

theorem condemnedBytes_eq (heap : Heap α) :
    heap.condemnedBytes = (heap.doomed.map heap.charge).foldl (· + ·) 0 :=
  congrArg (·.foldl (· + ·) 0) heap.condemnedCharges_eq

theorem toNat_foldl_add (charges : List UInt64) (start : UInt64) :
    (charges.foldl (· + ·) start).toNat =
      (start.toNat + (charges.map (·.toNat)).sum) % 2 ^ 64 := by
  induction charges generalizing start with
  | nil => simp [Nat.mod_eq_of_lt start.toNat_lt]
  | cons charge charges ih =>
    rw [List.foldl_cons, ih, UInt64.toNat_add, List.map_cons, List.sum_cons]
    omega

theorem Accounted.bytes_split (h : heap.Accounted charged) :
    heap.used.toNat =
      bytes charged (heap.live.filter (heap.isMarked ·)) + bytes charged heap.doomed := by
  rw [h.used, ← bytes_append, bytes_perm heap.live_split]

theorem Accounted.condemnedBytes (h : heap.Accounted charged) :
    heap.condemnedBytes.toNat = bytes charged heap.doomed := by
  have hsame : heap.doomed.map (heap.charge ·) = heap.doomed.map charged := by
    apply List.map_congr_left
    intro r hr
    exact h.charge r (mem_doomed.mp hr).1
  have hsum : heap.condemnedBytes.toNat = bytes charged heap.doomed % 2 ^ 64 := by
    rw [condemnedBytes_eq, hsame, toNat_foldl_add, List.map_map, UInt64.toNat_zero, Nat.zero_add]
    rfl
  have hused := heap.used.toNat_lt
  rw [h.bytes_split] at hused
  rw [hsum]
  exact Nat.mod_eq_of_lt (by omega)

theorem Accounted.condemnedBytes_le (h : heap.Accounted charged) :
    heap.condemnedBytes ≤ heap.used := by
  rw [UInt64.le_iff_toNat_le, h.condemnedBytes, h.bytes_split]
  exact Nat.le_add_left _ _

theorem sweep_of_swept (h : heap.unswept = false) :
    heap.sweep = (⟨0, heap.objects, 0⟩, heap) := by
  simp [sweep, h]

theorem contains_sweep (h : heap.unswept = true) (r : Ref) :
    heap.sweep.2.contains r = heap.isMarked r := by
  rw [contains, cell?_sweep h, isMarked]
  cases heap.cell? r with
  | none => rfl
  | some cell => by_cases hflag : cell.flag = heap.polarity <;> simp [Option.filter_some, hflag]

theorem isMarked_sweep (h : heap.unswept = true) (r : Ref) :
    heap.sweep.2.isMarked r = heap.isMarked r := by
  rw [isMarked, cell?_sweep h, polarity_sweep, isMarked]
  cases heap.cell? r with
  | none => rfl
  | some cell => by_cases hflag : cell.flag = heap.polarity <;> simp [Option.filter_some, hflag]

theorem charge_sweep (h : heap.unswept = true) {r : Ref} (hmarked : heap.isMarked r = true) :
    heap.sweep.2.charge r = heap.charge r := by
  obtain ⟨cell, hcell, hflag⟩ := isMarked_iff.mp hmarked
  simp [charge, cell?_sweep h, hcell, Option.filter_some, hflag]

theorem live_sweep (h : heap.unswept = true) :
    heap.sweep.2.live.Perm (heap.live.filter (heap.isMarked ·)) := by
  rw [List.perm_ext_iff_of_nodup (live_nodup _) (heap.live_nodup.filter _)]
  intro r
  rw [mem_live, contains_sweep h, List.mem_filter, mem_live]
  exact ⟨fun hmarked => ⟨contains_of_isMarked hmarked, hmarked⟩, And.right⟩

theorem Accounted.used_sweep (h : heap.Accounted charged) (hunswept : heap.unswept = true) :
    heap.sweep.2.used.toNat = bytes charged (heap.live.filter (heap.isMarked ·)) := by
  have hused : heap.sweep.2.used = heap.used - heap.condemnedBytes := by
    simp [Heap.sweep, hunswept]
  have hfreed := h.condemnedBytes
  have hsplit := h.bytes_split
  rw [hused, UInt64.toNat_sub_of_le _ _ h.condemnedBytes_le]
  omega

theorem Accounted.sweep (h : heap.Accounted charged) (hunswept : heap.unswept = true) :
    heap.sweep.2.Accounted charged where
  charge r hlive := by
    rw [contains_sweep hunswept] at hlive
    rw [charge_sweep hunswept hlive]
    exact h.charge r (contains_of_isMarked hlive)
  objects := by
    have hsplit := heap.live_split.length_eq
    rw [List.length_append] at hsplit
    have hobjects : heap.sweep.2.objects = heap.objects - heap.doomed.length := by
      simp [Heap.sweep, hunswept, condemned_eq]
    rw [hobjects, h.objects, (live_sweep hunswept).length_eq]
    omega
  used := (h.used_sweep hunswept).trans (bytes_perm (live_sweep hunswept)).symm
  used_le := by
    have hsame : heap.sweep.2.capacity = heap.capacity := by simp [Heap.sweep, hunswept]
    have hroom := UInt64.le_iff_toNat_le.mp h.used_le
    have hsplit := h.bytes_split
    rw [hsame, UInt64.le_iff_toNat_le, h.used_sweep hunswept]
    omega

end Metaspace.Heap
