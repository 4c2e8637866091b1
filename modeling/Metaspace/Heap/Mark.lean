import Metaspace.Heap.Basic

/-!
Marking. A mark turns the polarity round, so that no object is marked, and then visits what is
reachable from the roots and the frozen references, each object once. Every visit uses up the slot
and the references of one unmarked object, which bounds the number of steps.
-/

set_option autoImplicit false

namespace Metaspace

namespace Slot

variable {α : Type}

def flagged (flag : Bool) (slot : Slot α) : Slot α :=
  { slot with cell := slot.cell.map fun cell => { cell with flag } }

/-- The references still to be followed if the slot's object is visited, and the visit itself. -/
def work [HeapObject α] (polarity : Bool) (slot : Slot α) : Nat :=
  match slot.cell with
  | some cell => if cell.flag = polarity then 0 else (HeapObject.refs cell.object).length + 1
  | none => 0

end Slot

namespace Heap

variable {α : Type} [HeapObject α]

/-- Marks the object a reference names, unless it is gone or marked already. -/
def visit? (polarity : Bool) (slots : Array (Slot α)) (r : Ref) : Option (α × Array (Slot α)) :=
  match slots[r.index]? with
  | none => none
  | some slot =>
    match Slot.at? slot r.generation with
    | none => none
    | some cell =>
      if cell.flag = polarity then none
      else some (cell.object,
        slots.setIfInBounds r.index { slot with cell := some { cell with flag := polarity } })

def remainingWork (polarity : Bool) (slots : Array (Slot α)) (pending : List Ref) : Nat :=
  (slots.toList.map (Slot.work polarity)).foldr (· + ·) 0 + pending.length

private theorem sum_set (l : List Nat) (i a b : Nat) (h : l[i]? = some a) :
    (l.set i b).foldr (· + ·) 0 + a = l.foldr (· + ·) 0 + b := by
  induction l generalizing i with
  | nil => simp at h
  | cons x l ih =>
    cases i with
    | zero =>
      simp only [List.getElem?_cons_zero, Option.some.injEq] at h
      subst h
      simp
      omega
    | succ i =>
      simp only [List.getElem?_cons_succ] at h
      have := ih i h
      simp only [List.set_cons_succ, List.foldr_cons]
      omega

omit [HeapObject α] in
theorem of_visit?_eq_some {polarity : Bool} {slots next : Array (Slot α)} {r : Ref} {object : α}
    (h : visit? polarity slots r = some (object, next)) :
    ∃ cell, slots[r.index]? = some ⟨r.generation, some cell⟩ ∧ cell.flag ≠ polarity ∧
      cell.object = object ∧
      slots.setIfInBounds r.index ⟨r.generation, some { cell with flag := polarity }⟩ = next := by
  unfold visit? at h
  split at h
  · simp at h
  · next slot hslot =>
    split at h
    · simp at h
    · next cell hcell =>
      split at h
      · simp at h
      · next hmark =>
        simp only [Option.some.injEq, Prod.mk.injEq] at h
        unfold Slot.at? at hcell
        split at hcell
        · next hgen =>
          obtain ⟨g, holds⟩ := slot
          obtain rfl : g = r.generation := hgen
          obtain rfl : holds = some cell := hcell
          exact ⟨cell, hslot, hmark, h⟩
        · contradiction

theorem visit?_work {polarity : Bool} {slots next : Array (Slot α)} {r : Ref} {object : α}
    (h : visit? polarity slots r = some (object, next)) :
    (next.toList.map (Slot.work polarity)).foldr (· + ·) 0 + (HeapObject.refs object).length + 1
      = (slots.toList.map (Slot.work polarity)).foldr (· + ·) 0 := by
  obtain ⟨cell, hslot, hmark, rfl, rfl⟩ := of_visit?_eq_some h
  have hwork : (slots.toList.map (Slot.work polarity))[r.index]? =
      some ((HeapObject.refs cell.object).length + 1) := by
    simp [hslot, Slot.work, hmark]
  have hsum := sum_set _ _ _ (Slot.work polarity
    ⟨r.generation, some { cell with flag := polarity }⟩) hwork
  rw [Array.toList_setIfInBounds, List.map_set]
  simp only [Slot.work, if_true] at hsum ⊢
  omega

/-- Visits what is pending and all it leads to. `reached` counts the visits made before. -/
def trace (polarity : Bool) (slots : Array (Slot α)) (pending : List Ref) (reached : Nat) :
    Nat × Array (Slot α) :=
  match pending with
  | [] => (reached, slots)
  | r :: rest =>
    match h : visit? polarity slots r with
    | none => trace polarity slots rest reached
    | some (object, next) => trace polarity next (HeapObject.refs object ++ rest) (reached + 1)
termination_by remainingWork polarity slots pending
decreasing_by
  · simp [remainingWork]
  · have := visit?_work h
    simp only [remainingWork, List.length_append, List.length_cons]
    omega

/-- The slots that a mark starts with. After a sweep no object is unmarked, so it takes no more than
the other polarity. Marks that were never swept leave flags of both kinds behind. -/
def unmarked (heap : Heap α) : Array (Slot α) :=
  if heap.unswept then heap.slots.map (Slot.flagged heap.polarity) else heap.slots

/-- Marks what is reachable from the roots and the frozen references, and counts it. -/
def mark (heap : Heap α) (roots : List Ref) : Nat × Heap α :=
  let polarity := !heap.polarity
  let (reached, slots) := trace polarity heap.unmarked (roots ++ heap.frozen) 0
  (reached, { heap with slots, polarity, unswept := true })

end Heap
end Metaspace
