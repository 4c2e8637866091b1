import Mathlib.Data.List.Nodup
import Metaspace.Machine.ObjectHeap

set_option autoImplicit false

namespace Metaspace.RootTable

variable {table : RootTable}

/-- The free list holds the indices without an entry, each once. -/
structure Sound (table : RootTable) : Prop where
  nodup : table.free.Nodup
  free_iff : ∀ i, i ∈ table.free ↔ table.entries[i]? = some none

theorem empty_sound : empty.Sound where
  nodup := List.nodup_nil
  free_iff i := by
    simp [empty]

theorem get?_eq_some {i : Nat} {r : Ref} :
    table.get? i = some r ↔ table.entries[i]? = some (some r) := by
  unfold get?
  rw [Option.join_eq_some_iff]

theorem mem_refs {r : Ref} : r ∈ table.refs ↔ ∃ i, table.get? i = some r := by
  unfold refs
  rw [List.mem_filterMap]
  constructor
  · rintro ⟨entry, hmem, hentry⟩
    obtain rfl : entry = some r := hentry
    obtain ⟨i, hi⟩ := List.mem_iff_getElem?.mp hmem
    rw [Array.getElem?_toList] at hi
    exact ⟨i, get?_eq_some.mpr hi⟩
  · rintro ⟨i, hget⟩
    refine ⟨some r, List.mem_iff_getElem?.mpr ⟨i, ?_⟩, rfl⟩
    rw [Array.getElem?_toList]
    exact get?_eq_some.mp hget

theorem Sound.add (h : table.Sound) (r : Ref) :
    (table.add r).2.Sound ∧ table.get? (table.add r).1 = none ∧
      ∀ i, (table.add r).2.get? i = if i = (table.add r).1 then some r else table.get? i := by
  unfold RootTable.add
  split
  · rename_i index free hfree
    have hnodup := h.nodup
    rw [hfree, List.nodup_cons] at hnodup
    have hentry := (h.free_iff index).mp (by rw [hfree]; exact List.mem_cons_self)
    have hbound : index < table.entries.size := by
      by_contra hge
      rw [Array.getElem?_eq_none (Nat.not_lt.mp hge)] at hentry
      contradiction
    refine ⟨⟨hnodup.2, ?_⟩, by simp [get?, hentry], ?_⟩
    · intro i
      dsimp only
      rw [Array.getElem?_setIfInBounds]
      by_cases hi : index = i
      · subst hi
        simp [hbound, hnodup.1]
      · rw [if_neg hi, ← h.free_iff, hfree, List.mem_cons]
        simp [Ne.symm hi]
    · intro i
      simp only [get?, Array.getElem?_setIfInBounds]
      by_cases hi : index = i
      · subst hi
        simp [hbound]
      · simp [hi, Ne.symm hi]
  · rename_i hfree
    refine ⟨⟨h.nodup, ?_⟩, by simp [get?], ?_⟩
    · intro i
      dsimp only
      rw [Array.getElem?_push]
      split
      · rename_i hi
        subst hi
        rw [hfree]
        simp
      · exact h.free_iff i
    · intro i
      simp only [get?, Array.getElem?_push]
      split <;> simp

theorem Sound.remove (h : table.Sound) {i : Nat} {r : Ref} (hget : table.get? i = some r) :
    (table.remove i).2.Sound ∧
      ∀ j, (table.remove i).2.get? j = if j = i then none else table.get? j := by
  have hentry := get?_eq_some.mp hget
  have hbound : i < table.entries.size := by
    by_contra hge
    rw [Array.getElem?_eq_none (Nat.not_lt.mp hge)] at hentry
    contradiction
  unfold RootTable.remove
  rw [hget]
  refine ⟨⟨?_, ?_⟩, ?_⟩
  · refine List.nodup_cons.mpr ⟨?_, h.nodup⟩
    rw [h.free_iff, hentry]
    simp
  · intro j
    dsimp only
    rw [Array.getElem?_setIfInBounds, List.mem_cons, h.free_iff]
    by_cases hj : i = j
    · subst hj
      simp [hbound]
    · simp [hj, Ne.symm hj]
  · intro j
    simp only [get?, Array.getElem?_setIfInBounds]
    by_cases hj : i = j
    · subst hj
      simp [hbound]
    · simp [hj, Ne.symm hj]

structure Holds (table : RootTable) (handles : List Root) : Prop where
  sound : table.Sound
  nodup : handles.Nodup
  mem_iff : ∀ i r, table.get? i = some r ↔ ⟨i, r⟩ ∈ handles

theorem empty_holds : empty.Holds [] where
  sound := empty_sound
  nodup := List.nodup_nil
  mem_iff i r := by
    simp [empty, get?]

section Holds

variable {handles : List Root}

theorem Holds.mem_refs (h : table.Holds handles) {r : Ref} :
    r ∈ table.refs ↔ r ∈ handles.map (·.ref) := by
  rw [RootTable.mem_refs, List.mem_map]
  constructor
  · rintro ⟨i, hget⟩
    exact ⟨⟨i, r⟩, (h.mem_iff i r).mp hget, rfl⟩
  · rintro ⟨⟨i, r⟩, hmem, rfl⟩
    exact ⟨i, (h.mem_iff i r).mpr hmem⟩

theorem Holds.add (h : table.Holds handles) (r : Ref) :
    (table.add r).2.Holds (⟨(table.add r).1, r⟩ :: handles) := by
  obtain ⟨hsound, hnone, hget⟩ := h.sound.add r
  refine ⟨hsound, List.nodup_cons.mpr ⟨?_, h.nodup⟩, ?_⟩
  · intro hmem
    rw [(h.mem_iff _ _).mpr hmem] at hnone
    contradiction
  · intro i r'
    rw [hget, List.mem_cons, Root.mk.injEq, ← h.mem_iff]
    by_cases hi : i = (table.add r).1
    · subst hi
      simp [hnone, eq_comm]
    · simp [hi]

theorem Holds.remove (h : table.Holds handles) {root : Root} (hroot : root ∈ handles) :
    (table.remove root.index).2.Holds (handles.erase root) := by
  have hfound := (h.mem_iff root.index root.ref).mpr hroot
  obtain ⟨hsound, hget⟩ := h.sound.remove hfound
  refine ⟨hsound, h.nodup.erase root, ?_⟩
  intro i r
  rw [hget, h.nodup.mem_erase_iff, ← h.mem_iff]
  by_cases hi : i = root.index
  · subst hi
    rw [if_pos rfl, hfound, Option.some.injEq]
    constructor
    · intro hnone
      contradiction
    · rintro ⟨hne, rfl⟩
      exact absurd rfl hne
  · rw [if_neg hi]
    constructor
    · intro hmem
      refine ⟨?_, hmem⟩
      rintro rfl
      exact hi rfl
    · exact And.right

theorem Holds.perm (h : table.Holds handles) {other : List Root} (hperm : handles.Perm other) :
    table.Holds other where
  sound := h.sound
  nodup := hperm.nodup_iff.mp h.nodup
  mem_iff i r := by
    rw [h.mem_iff, hperm.mem_iff]

end Holds

end Metaspace.RootTable
