import Metaspace.Proofs.Heap.Roots
import Metaspace.Proofs.Places

/-!
Handles and the root table over whole runs. Handles are made from references and from each other and
dropped in any order, and the table has one entry for each that is live. It gives an index to one
entry at a time, whatever indices it is asked to free.
-/

set_option autoImplicit false

namespace Metaspace

namespace RootTable

variable {table : RootTable}

def occupied (table : RootTable) : List Root :=
  table.entries.toList.zipIdx.filterMap fun (entry, i) => entry.map (⟨i, ·⟩)

theorem mem_occupied {root : Root} :
    root ∈ table.occupied ↔ table.get? root.index = some root.ref := by
  obtain ⟨index, ref⟩ := root
  rw [occupied, mem_filterMap_zipIdx, get?_eq_some]
  constructor
  · rintro ⟨i, entry, hentry, hroot⟩
    obtain ⟨r, rfl, heq⟩ := Option.map_eq_some_iff.mp hroot
    obtain ⟨rfl, rfl⟩ := Root.mk.inj heq
    exact hentry
  · intro hentry
    exact ⟨index, some ref, hentry, rfl⟩

theorem occupied_ascending (table : RootTable) :
    table.occupied.Pairwise fun a b => a.index < b.index := by
  refine filterMap_zipIdx_ascending Root.index ?_ table.entries.toList
  intro entry i root hroot
  obtain ⟨r, -, rfl⟩ := Option.map_eq_some_iff.mp hroot
  rfl

theorem map_ref_occupied (table : RootTable) : table.occupied.map (·.ref) = table.refs := by
  have hentries : table.entries.toList = table.entries.toList.zipIdx.map (·.1) :=
    (List.zipIdx_map_fst 0 _).symm
  rw [refs, hentries, List.filterMap_map, occupied, List.map_filterMap]
  refine List.filterMap_congr fun ⟨entry, i⟩ _ => ?_
  cases entry <;> rfl

section Holds

variable {handles : List Root}

theorem Holds.perm_occupied (h : table.Holds handles) : table.occupied.Perm handles := by
  have hnodup : table.occupied.Nodup := (occupied_ascending table).imp fun hlt heq =>
    Nat.ne_of_lt hlt (congrArg Root.index heq)
  refine (List.perm_ext_iff_of_nodup hnodup h.nodup).mpr fun root => ?_
  rw [mem_occupied, h.mem_iff]

theorem Holds.indices_nodup (h : table.Holds handles) : (handles.map (·.index)).Nodup := by
  refine (h.perm_occupied.map _).nodup_iff.mp (List.pairwise_map.mpr ?_)
  exact (occupied_ascending table).imp Nat.ne_of_lt

theorem Holds.size_eq (h : table.Holds handles) : table.size = handles.length := by
  rw [size, ← map_ref_occupied, List.length_map, h.perm_occupied.length_eq]

end Holds

/-- A call of the table, which may be asked to free any index. -/
inductive Call where
  | add (r : Ref)
  | remove (index : Nat)

def call (table : RootTable) : Call → RootTable
  | .add r => (table.add r).2
  | .remove index => (table.remove index).2

def after (calls : List Call) : RootTable := calls.foldl call empty

theorem Sound.call (h : table.Sound) (c : Call) : (table.call c).Sound := by
  cases c with
  | add r => exact (h.add r).1
  | remove index =>
    rw [RootTable.call]
    cases hget : table.get? index with
    | some r => exact (h.remove hget).1
    | none =>
      rw [RootTable.remove, hget]
      exact h

theorem after_sound (calls : List Call) : (after calls).Sound :=
  List.foldlRecOn calls RootTable.call empty_sound fun _ h c _ => h.call c

structure Recycles (table : RootTable) : Prop where
  free_nodup : table.free.Nodup
  mem_free : ∀ i, i ∈ table.free ↔ i < table.entries.size ∧ table.get? i = none
  /-- An entry is added where there was none, in the table or at its end. -/
  add : ∀ r, (table.add r).1 ≤ table.entries.size ∧ table.get? (table.add r).1 = none ∧
    ∀ i, (table.add r).2.get? i = if i = (table.add r).1 then some r else table.get? i
  remove : ∀ i, (table.remove i).1 = table.get? i ∧
    ∀ j, (table.remove i).2.get? j = if j = i then none else table.get? j
  /-- Freeing an index again, or one that never was, changes nothing. -/
  idle : ∀ i, table.get? i = none → (table.remove i).2 = table

theorem Sound.mem_free (h : table.Sound) {i : Nat} :
    i ∈ table.free ↔ i < table.entries.size ∧ table.get? i = none := by
  rw [h.free_iff, get?]
  by_cases hi : i < table.entries.size
  · cases hentry : table.entries[i] <;> simp [hi, hentry]
  · simp [hi]

theorem Sound.index_add_le (h : table.Sound) (r : Ref) : (table.add r).1 ≤ table.entries.size := by
  unfold RootTable.add
  split
  · rename_i index free hfree
    have hmem : index ∈ table.free := hfree ▸ List.mem_cons_self
    exact Nat.le_of_lt (h.mem_free.mp hmem).1
  · exact Nat.le_refl _

theorem remove_of_none {i : Nat} (h : table.get? i = none) : table.remove i = (none, table) := by
  rw [RootTable.remove, h]

theorem Sound.recycles (h : table.Sound) : table.Recycles where
  free_nodup := h.nodup
  mem_free _ := h.mem_free
  add r := ⟨h.index_add_le r, (h.add r).2⟩
  remove i := by
    cases hget : table.get? i with
    | some r =>
      refine ⟨?_, (h.remove hget).2⟩
      rw [RootTable.remove, hget]
    | none =>
      rw [remove_of_none hget]
      refine ⟨rfl, fun j => ?_⟩
      by_cases hj : j = i
      · rw [if_pos hj, hj, hget]
      · rw [if_neg hj]
  idle i hget := by rw [remove_of_none hget]

example (r : Ref) :
    let table := after [.add r, .remove 0, .remove 0, .remove 7]
    (table.add r).1 = 0 ∧ ((table.add r).2.add r).1 = 1 := by
  cbv

end RootTable

structure Keyring where
  objects : ObjectHeap
  handles : List Root

namespace Keyring

/-- What is done with handles. Only one that is live can be cloned or dropped. -/
inductive Deed where
  | root (r : Ref)
  | clone (handle : Root)
  | drop (handle : Root)

def rooted (ring : Keyring) (r : Ref) : Keyring :=
  let (handle, objects) := ring.objects.root r
  ⟨objects, handle :: ring.handles⟩

def perform (ring : Keyring) : Deed → Keyring
  | .root r => ring.rooted r
  | .clone handle => if handle ∈ ring.handles then ring.rooted handle.ref else ring
  | .drop handle =>
    if handle ∈ ring.handles then ⟨ring.objects.drop handle, ring.handles.erase handle⟩ else ring

def after (capacity : UInt64) (deeds : List Deed) : Keyring :=
  deeds.foldl perform ⟨.new capacity, []⟩

def Fits (ring : Keyring) : Prop := ring.objects.roots.Holds ring.handles

theorem Fits.rooted {ring : Keyring} (h : ring.Fits) (r : Ref) : (ring.rooted r).Fits :=
  RootTable.Holds.add h r

theorem Fits.perform {ring : Keyring} (h : ring.Fits) (deed : Deed) : (ring.perform deed).Fits := by
  cases deed with
  | root r => exact h.rooted r
  | clone handle =>
    rw [Keyring.perform]
    split
    · exact h.rooted handle.ref
    · exact h
  | drop handle =>
    rw [Keyring.perform]
    split
    · rename_i hlive
      exact RootTable.Holds.remove h hlive
    · exact h

theorem after_fits (capacity : UInt64) (deeds : List Deed) : (after capacity deeds).Fits :=
  List.foldlRecOn deeds Keyring.perform RootTable.empty_holds fun _ h deed _ => h.perform deed

/-- Every live handle has an entry of its own in the root table. -/
structure OneEach (ring : Keyring) : Prop where
  entry : ∀ i r, ring.objects.roots.get? i = some r ↔ ⟨i, r⟩ ∈ ring.handles
  indices : (ring.handles.map (·.index)).Nodup
  size : ring.objects.roots.size = ring.handles.length
  /-- What is marked first are the objects of the handles, each as often as it has handles. -/
  refs : ring.objects.roots.refs.Perm (ring.handles.map (·.ref))
  fresh : ∀ r, ∀ handle ∈ ring.handles, handle.index ≠ (ring.objects.root r).1.index
  /-- The objects of the other handles stay rooted, also an object that lost this handle. -/
  others : ∀ handle ∈ ring.handles, ∀ other ∈ ring.handles, other ≠ handle →
    (ring.objects.drop handle).roots.get? other.index = some other.ref ∧
      ∀ strong, other.ref ∈ (ring.objects.drop handle).markRoots strong

theorem Fits.oneEach {ring : Keyring} (h : ring.Fits) : ring.OneEach where
  entry := h.mem_iff
  indices := h.indices_nodup
  size := h.size_eq
  refs := by
    rw [← RootTable.map_ref_occupied]
    exact h.perm_occupied.map _
  fresh r handle hhandle heq := by
    have hnone : ring.objects.roots.get? (ring.objects.root r).1.index = none :=
      (h.sound.add r).2.1
    rw [← heq, (h.mem_iff handle.index handle.ref).mpr hhandle] at hnone
    contradiction
  others handle hhandle other hother hne := by
    have hdropped := RootTable.Holds.remove h hhandle
    have hleft : other ∈ ring.handles.erase handle :=
      h.nodup.mem_erase_iff.mpr ⟨hne, hother⟩
    refine ⟨(hdropped.mem_iff other.index other.ref).mpr hleft, fun strong => ?_⟩
    exact List.mem_append_left _ (hdropped.mem_refs.mpr (List.mem_map_of_mem hleft))

/-- However handles come and go, the root table has one entry for each that is live, and dropping
one leaves what the others root alone. However the table itself is called, it gives a position to no
entry that has an entry already. -/
theorem after_one_root (capacity : UInt64) (deeds : List Deed) (calls : List RootTable.Call) :
    (after capacity deeds).OneEach ∧ (RootTable.after calls).Recycles :=
  ⟨(after_fits capacity deeds).oneEach, (RootTable.after_sound calls).recycles⟩

end Keyring
end Metaspace
