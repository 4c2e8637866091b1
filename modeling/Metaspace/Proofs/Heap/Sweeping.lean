import Metaspace.Heap.Sweep
import Metaspace.Proofs.Heap.Marking
import Metaspace.Proofs.Places

set_option autoImplicit false

namespace Metaspace.Heap

variable {α : Type} {heap : Heap α}

theorem mem_condemned {i : Nat} :
    i ∈ heap.condemned ↔
      ∃ slot, heap.slots[i]? = some slot ∧ slot.isCondemned heap.polarity = true := by
  unfold condemned
  rw [mem_filterMap_zipIdx]
  constructor
  · rintro ⟨j, slot, hslot, hcondemned⟩
    obtain ⟨hdead, heq⟩ := Option.ite_none_right_eq_some.mp hcondemned
    exact ⟨slot, Option.some.inj heq ▸ hslot, hdead⟩
  · rintro ⟨slot, hslot, hdead⟩
    exact ⟨i, slot, hslot, if_pos hdead⟩

theorem condemned_nodup (heap : Heap α) : heap.condemned.Nodup := by
  unfold condemned
  refine (filterMap_zipIdx_ascending id ?_ heap.slots.toList).imp Nat.ne_of_lt
  intro slot i j hcondemned
  exact (Option.some.inj (Option.ite_none_right_eq_some.mp hcondemned).2).symm

theorem cell?_sweep (h : heap.unswept = true) (r : Ref) :
    heap.sweep.2.cell? r = (heap.cell? r).filter (·.flag = heap.polarity) := by
  simp only [sweep, h, if_true, cell?, Array.getElem?_map]
  cases heap.slots[r.index]? with
  | none => rfl
  | some slot =>
    obtain ⟨g, cell⟩ := slot
    cases cell with
    | none => simp [Slot.swept, Slot.isCondemned, Slot.at?]
    | some cell =>
      by_cases hmarked : cell.flag = heap.polarity
      · by_cases hg : g = r.generation <;>
          simp [Slot.swept, Slot.isCondemned, Slot.at?, Option.filter_some, hmarked, hg]
      · by_cases hg : g = r.generation <;>
          simp [Slot.swept, Slot.isCondemned, Slot.at?, Option.filter_some, hmarked, hg]

theorem get?_sweep (h : heap.unswept = true) {r : Ref} {object : α} :
    heap.sweep.2.get? r = some object ↔ heap.isMarked r = true ∧ heap.get? r = some object := by
  rw [get?_eq_some, get?_eq_some, cell?_sweep h, isMarked_iff]
  constructor
  · rintro ⟨cell, hcell, rfl⟩
    obtain ⟨hcell, hmarked⟩ := Option.filter_eq_some_iff.mp hcell
    exact ⟨⟨cell, hcell, of_decide_eq_true hmarked⟩, cell, hcell, rfl⟩
  · rintro ⟨⟨cell, hcell, hmarked⟩, cell', hcell', rfl⟩
    obtain rfl := Option.some.inj (hcell.symm.trans hcell')
    exact ⟨cell, Option.filter_eq_some_iff.mpr ⟨hcell, decide_eq_true hmarked⟩, rfl⟩

theorem polarity_sweep (heap : Heap α) : heap.sweep.2.polarity = heap.polarity := by
  unfold sweep
  split <;> rfl

theorem allMarked_sweep (h : heap.unswept = true) : heap.sweep.2.AllMarked := by
  intro r cell hcell
  rw [cell?_sweep h] at hcell
  rw [polarity_sweep]
  simpa using (Option.filter_eq_some_iff.mp hcell).2

theorem frozen_sweep (heap : Heap α) : heap.sweep.2.frozen = heap.frozen := by
  unfold sweep
  split <;> rfl

theorem Sound.sweep (h : heap.Sound) : heap.sweep.2.Sound := by
  by_cases hunswept : heap.unswept = true
  · have hsettled := allMarked_sweep hunswept
    simp only [Heap.sweep, hunswept, if_true] at hsettled ⊢
    refine ⟨?_, ?_, fun _ => hsettled⟩
    · refine List.Nodup.append (List.nodup_reverse.mpr heap.condemned_nodup) h.nodup ?_
      intro i hcondemned hfree
      obtain ⟨slot, hslot, hdead⟩ := mem_condemned.mp (List.mem_reverse.mp hcondemned)
      obtain ⟨g, hempty⟩ := (h.free_iff i).mp hfree
      rw [hslot, Option.some.injEq] at hempty
      subst hempty
      contradiction
    · intro i
      rw [List.mem_append, List.mem_reverse, mem_condemned, h.free_iff]
      dsimp only
      rw [Array.getElem?_map]
      cases heap.slots[i]? with
      | none => simp
      | some slot =>
        obtain ⟨g, cell⟩ := slot
        cases cell with
        | none => simp [Slot.swept, Slot.isCondemned]
        | some cell =>
          by_cases hmarked : cell.flag = heap.polarity <;>
            simp [Slot.swept, Slot.isCondemned, hmarked]
  · simpa [Heap.sweep, hunswept] using h

theorem cell?_eq_some {r : Ref} {cell : Cell α} :
    heap.cell? r = some cell ↔ heap.slots[r.index]? = some ⟨r.generation, some cell⟩ :=
  cellIn_eq_some

theorem mem_marked {r : Ref} {object : α} :
    (r, object) ∈ heap.marked ↔ heap.isMarked r = true ∧ heap.get? r = some object := by
  unfold marked
  rw [mem_filterMap_zipIdx, isMarked_iff, get?_eq_some]
  constructor
  · rintro ⟨i, ⟨g, cell?⟩, hslot, hsome⟩
    obtain ⟨cell, rfl, hread⟩ := Option.bind_eq_some_iff.mp hsome
    obtain ⟨hmarked, heq⟩ := Option.ite_none_right_eq_some.mp hread
    obtain ⟨rfl, rfl⟩ := Prod.mk.inj (Option.some.inj heq)
    exact ⟨⟨cell, cell?_eq_some.mpr hslot, hmarked⟩, cell, cell?_eq_some.mpr hslot, rfl⟩
  · rintro ⟨⟨cell, hcell, hmarked⟩, cell', hcell', rfl⟩
    obtain rfl := Option.some.inj (hcell.symm.trans hcell')
    exact ⟨r.index, _, cell?_eq_some.mp hcell, by simp [hmarked]⟩

theorem marked_ascending (heap : Heap α) :
    heap.marked.Pairwise fun a b => a.1.index < b.1.index := by
  unfold marked
  refine filterMap_zipIdx_ascending (fun b : Ref × α => b.1.index) ?_ heap.slots.toList
  intro slot i b hsome
  obtain ⟨cell, -, hread⟩ := Option.bind_eq_some_iff.mp hsome
  obtain ⟨-, heq⟩ := Option.ite_none_right_eq_some.mp hread
  rw [← Option.some.inj heq]

end Metaspace.Heap
