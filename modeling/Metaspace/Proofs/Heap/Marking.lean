import Mathlib.Logic.Relation
import Metaspace.Heap.Mark
import Metaspace.Proofs.Heap.Cells

set_option autoImplicit false

namespace Metaspace

variable {α : Type}

def Slot.content (slot : Slot α) : UInt32 × Option (α × UInt64) :=
  (slot.generation, slot.cell.map fun cell => (cell.object, cell.charge))

theorem Slot.content_flagged (flag : Bool) (slot : Slot α) :
    (slot.flagged flag).content = slot.content := by
  unfold content flagged
  rw [Option.map_map]
  rfl

namespace Heap

theorem map_content_cellIn {slots next : Array (Slot α)}
    (h : next.map Slot.content = slots.map Slot.content) (r : Ref) :
    (cellIn next r).map (fun c => (c.object, c.charge)) =
      (cellIn slots r).map fun c => (c.object, c.charge) := by
  have hread : ∀ slots : Array (Slot α),
      (cellIn slots r).map (fun c => (c.object, c.charge)) =
        ((slots.map Slot.content)[r.index]?).bind fun content =>
          if content.1 = r.generation then content.2 else none := by
    intro slots
    rw [cellIn, Array.getElem?_map]
    cases slots[r.index]? with
    | none => rfl
    | some slot =>
      simp only [Option.bind_some, Option.map_some, Slot.at?, Slot.content]
      split <;> rfl
  rw [hread, hread, h]

theorem map_object_cellIn {slots next : Array (Slot α)}
    (h : next.map Slot.content = slots.map Slot.content) (r : Ref) :
    (cellIn next r).map (·.object) = (cellIn slots r).map (·.object) := by
  simpa [Function.comp_def] using congrArg (Option.map Prod.fst) (map_content_cellIn h r)

theorem empty_slot_iff {slots next : Array (Slot α)}
    (h : next.map Slot.content = slots.map Slot.content) (i : Nat) :
    (∃ g, next[i]? = some ⟨g, none⟩) ↔ ∃ g, slots[i]? = some ⟨g, none⟩ := by
  have hread : ∀ slots : Array (Slot α), (∃ g, slots[i]? = some ⟨g, none⟩) ↔
      ∃ g, (slots.map Slot.content)[i]? = some (g, none) := by
    intro slots
    rw [Array.getElem?_map]
    cases slots[i]? with
    | none => simp
    | some slot =>
      obtain ⟨g, cell⟩ := slot
      cases cell <;> simp [Slot.content]
  rw [hread, hread, h]

def MarkedIn (polarity : Bool) (slots : Array (Slot α)) (r : Ref) : Prop :=
  ∃ cell, cellIn slots r = some cell ∧ cell.flag = polarity

theorem cellIn_flagged (flag : Bool) (slots : Array (Slot α)) (r : Ref) :
    cellIn (slots.map (Slot.flagged flag)) r = (cellIn slots r).map fun c => { c with flag } := by
  rw [cellIn, Array.getElem?_map, cellIn]
  cases slots[r.index]? with
  | none => rfl
  | some slot =>
    simp only [Option.map_some, Option.bind_some, Slot.at?, Slot.flagged]
    split <;> rfl

theorem content_unmarked (heap : Heap α) :
    heap.unmarked.map Slot.content = heap.slots.map Slot.content := by
  unfold unmarked
  split
  · rw [Array.map_map]
    exact congrArg (heap.slots.map ·) (funext (Slot.content_flagged heap.polarity))
  · rfl

theorem Sound.not_markedIn_unmarked {heap : Heap α} (h : heap.Sound) (r : Ref) :
    ¬ MarkedIn (!heap.polarity) heap.unmarked r := by
  rintro ⟨cell, hcell, hmarked⟩
  unfold unmarked at hcell
  split at hcell
  · rw [cellIn_flagged] at hcell
    obtain ⟨cell', -, rfl⟩ := Option.map_eq_some_iff.mp hcell
    simp at hmarked
  · rename_i hswept
    rw [h.settled (by simpa using hswept) r cell hcell] at hmarked
    simp at hmarked

variable {polarity : Bool}

theorem visit?_eq_none {slots : Array (Slot α)} {r : Ref} (h : visit? polarity slots r = none)
    {cell : Cell α} (hcell : cellIn slots r = some cell) : cell.flag = polarity := by
  have hslot := cellIn_eq_some.mp hcell
  simp only [visit?, hslot, Slot.at?, if_true] at h
  by_contra hunmarked
  simp [hunmarked] at h

/-- Slots before and after the object of a reference was visited. -/
structure Visited (polarity : Bool) (before : Array (Slot α)) (r : Ref) (object : α)
    (after : Array (Slot α)) : Prop where
  object : (cellIn before r).map (·.object) = some object
  content : after.map Slot.content = before.map Slot.content
  marks : ∀ r', MarkedIn polarity after r' ↔ r' = r ∨ MarkedIn polarity before r'

theorem cellIn_setIfInBounds {slots : Array (Slot α)} {r : Ref} {cell : Cell α}
    (hslot : slots[r.index]? = some ⟨r.generation, some cell⟩) (next : Cell α) (r' : Ref) :
    cellIn (slots.setIfInBounds r.index ⟨r.generation, some next⟩) r' =
      if r' = r then some next else cellIn slots r' := by
  obtain ⟨hbound, -⟩ := Array.getElem?_eq_some_iff.mp hslot
  rw [cellIn, Array.getElem?_setIfInBounds]
  by_cases hr : r' = r
  · subst hr
    simp [hbound, Slot.at?]
  · rw [if_neg hr, cellIn]
    by_cases hi : r.index = r'.index
    · have hgen : r.generation ≠ r'.generation := fun hgen => hr (Ref.eq_of_index hi hgen).symm
      rw [if_pos hi, if_pos hbound, ← hi, hslot]
      simp [Slot.at?, hgen]
    · rw [if_neg hi]

theorem content_setIfInBounds {slots : Array (Slot α)} {i : Nat} {slot next : Slot α}
    (hslot : slots[i]? = some slot) (hsame : next.content = slot.content) :
    (slots.setIfInBounds i next).map Slot.content = slots.map Slot.content := by
  obtain ⟨hbound, -⟩ := Array.getElem?_eq_some_iff.mp hslot
  apply Array.ext_getElem?
  intro j
  rw [Array.getElem?_map, Array.getElem?_map, Array.getElem?_setIfInBounds]
  by_cases hj : i = j
  · subst hj
    rw [if_pos rfl, if_pos hbound, hslot, Option.map_some, Option.map_some, hsame]
  · rw [if_neg hj]

theorem visited_of_visit? {slots next : Array (Slot α)} {r : Ref} {object : α}
    (h : visit? polarity slots r = some (object, next)) :
    Visited polarity slots r object next := by
  obtain ⟨cell, hslot, -, rfl, rfl⟩ := of_visit?_eq_some h
  refine ⟨?_, content_setIfInBounds hslot rfl, fun r' => ?_⟩
  · rw [cellIn_eq_some.mpr hslot]
    rfl
  · rw [MarkedIn, cellIn_setIfInBounds hslot]
    by_cases hr : r' = r
    · simp [hr]
    · rw [if_neg hr, or_iff_right hr]
      rfl

theorem not_markedIn_of_visit? {slots next : Array (Slot α)} {r : Ref} {object : α}
    (h : visit? polarity slots r = some (object, next)) : ¬ MarkedIn polarity slots r := by
  obtain ⟨cell, hslot, hunmarked, -⟩ := of_visit?_eq_some h
  rintro ⟨cell', hcell, hmarked⟩
  rw [cellIn_eq_some.mpr hslot, Option.some.injEq] at hcell
  exact hunmarked (hcell ▸ hmarked)

variable [HeapObject α]

/-- What can be reached from some references by following those that objects hold. References that
name nothing lead nowhere. -/
inductive Reaches (heap : Heap α) (starts : List Ref) : Ref → Prop where
  | start {r : Ref} : r ∈ starts → heap.contains r = true → Reaches heap starts r
  | step {r r' : Ref} {object : α} : Reaches heap starts r → heap.get? r = some object →
      r' ∈ HeapObject.refs object → heap.contains r' = true → Reaches heap starts r'

theorem Reaches.contains {heap : Heap α} {starts : List Ref} {r : Ref}
    (h : heap.Reaches starts r) : heap.contains r = true := by
  cases h with
  | start _ hlive => exact hlive
  | step _ _ _ hlive => exact hlive

theorem Reaches.mono {heap : Heap α} {starts more : List Ref} (hsub : starts ⊆ more) {r : Ref}
    (h : heap.Reaches starts r) : heap.Reaches more r := by
  induction h with
  | start hr hlive => exact .start (hsub hr) hlive
  | step _ hget hr' hlive ih => exact .step ih hget hr' hlive

theorem not_reaches_nil {heap : Heap α} (r : Ref) : ¬ heap.Reaches [] r := by
  intro h
  induction h with
  | start hr _ => exact List.not_mem_nil hr
  | step _ _ _ _ ih => exact ih

/-- A mark under way: the references that are still to be followed and those that were visited, the
last one first. -/
structure Search (α : Type) where
  slots : Array (Slot α)
  pending : List Ref
  visited : List Ref

namespace Search

/-- A turn of a search takes up a pending reference, whichever it is. Its object is visited, unless
it is gone or marked already. -/
inductive Step (polarity : Bool) : Search α → Search α → Prop where
  | skip {s : Search α} {r : Ref} {rest : List Ref} : s.pending.Perm (r :: rest) →
      visit? polarity s.slots r = none → Step polarity s { s with pending := rest }
  | visit {s : Search α} {r : Ref} {rest : List Ref} {object : α} {slots : Array (Slot α)} :
      s.pending.Perm (r :: rest) → visit? polarity s.slots r = some (object, slots) →
      Step polarity s ⟨slots, HeapObject.refs object ++ rest, r :: s.visited⟩

abbrev Leads (polarity : Bool) : Search α → Search α → Prop :=
  Relation.ReflTransGen (Step polarity)

/-- A search through a heap has visited and marked the same references, all of which can be reached.
Whatever else can be reached is behind a pending reference. -/
structure Tracks (heap : Heap α) (starts : List Ref) (polarity : Bool) (s : Search α) : Prop where
  content : s.slots.map Slot.content = heap.slots.map Slot.content
  marked : ∀ r, MarkedIn polarity s.slots r ↔ r ∈ s.visited
  nodup : s.visited.Nodup
  visited : ∀ r ∈ s.visited, heap.Reaches starts r
  pending : ∀ r ∈ s.pending, heap.contains r = true → heap.Reaches starts r
  starts : ∀ r ∈ starts, heap.contains r = true → r ∈ s.visited ∨ r ∈ s.pending
  closed : ∀ r ∈ s.visited, ∀ object, heap.get? r = some object →
    ∀ r' ∈ HeapObject.refs object, heap.contains r' = true → r' ∈ s.visited ∨ r' ∈ s.pending

variable {heap : Heap α} {starts : List Ref} {s t : Search α}

theorem Tracks.get?_eq (h : s.Tracks heap starts polarity) (r : Ref) :
    (cellIn s.slots r).map (·.object) = heap.get? r :=
  map_object_cellIn h.content r

theorem Tracks.skip (h : s.Tracks heap starts polarity) {r : Ref} {rest : List Ref}
    (hpending : s.pending.Perm (r :: rest)) (hnone : visit? polarity s.slots r = none) :
    ({ s with pending := rest } : Search α).Tracks heap starts polarity := by
  have hleft : ∀ r', heap.contains r' = true → r' ∈ s.visited ∨ r' ∈ s.pending →
      r' ∈ s.visited ∨ r' ∈ rest := by
    rintro r' hlive (hvisited | hr')
    · exact Or.inl hvisited
    · rcases List.mem_cons.mp (hpending.mem_iff.mp hr') with rfl | hrest
      · obtain ⟨object, hget⟩ := contains_iff.mp hlive
        rw [← h.get?_eq, Option.map_eq_some_iff] at hget
        obtain ⟨cell, hcell, -⟩ := hget
        exact Or.inl ((h.marked r').mp ⟨cell, hcell, visit?_eq_none hnone hcell⟩)
      · exact Or.inr hrest
  exact
    { h with
      pending := fun r' hr' =>
        h.pending r' (hpending.mem_iff.mpr (List.mem_cons_of_mem r hr'))
      starts := fun r' hr' hlive => hleft r' hlive (h.starts r' hr' hlive)
      closed := fun r' hr' object hget r'' hr'' hlive =>
        hleft r'' hlive (h.closed r' hr' object hget r'' hr'' hlive) }

theorem Tracks.visit (h : s.Tracks heap starts polarity) {r : Ref} {rest : List Ref} {object : α}
    {slots : Array (Slot α)} (hpending : s.pending.Perm (r :: rest))
    (hsome : visit? polarity s.slots r = some (object, slots)) :
    Search.Tracks heap starts polarity
      ⟨slots, HeapObject.refs object ++ rest, r :: s.visited⟩ := by
  have hvisit := visited_of_visit? hsome
  have hget : heap.get? r = some object := (h.get?_eq r).symm.trans hvisit.object
  have hreaches := h.pending r (hpending.mem_iff.mpr List.mem_cons_self) (contains_of_get? hget)
  have hleft : ∀ r', r' ∈ s.visited ∨ r' ∈ s.pending →
      r' ∈ r :: s.visited ∨ r' ∈ HeapObject.refs object ++ rest := by
    rintro r' (hvisited | hr')
    · exact Or.inl (List.mem_cons_of_mem r hvisited)
    · rcases List.mem_cons.mp (hpending.mem_iff.mp hr') with rfl | hrest
      · exact Or.inl List.mem_cons_self
      · exact Or.inr (List.mem_append_right _ hrest)
  exact
    { content := hvisit.content.trans h.content
      marked := by
        intro r'
        rw [hvisit.marks, h.marked, List.mem_cons]
      nodup := by
        refine List.nodup_cons.mpr ⟨fun hagain => ?_, h.nodup⟩
        exact not_markedIn_of_visit? hsome ((h.marked r).mpr hagain)
      visited := List.forall_mem_cons.mpr ⟨hreaches, h.visited⟩
      pending := by
        intro r' hr' hlive
        rcases List.mem_append.mp hr' with hrefs | hrest
        · exact .step hreaches hget hrefs hlive
        · exact h.pending r' (hpending.mem_iff.mpr (List.mem_cons_of_mem r hrest)) hlive
      starts := fun r' hr' hlive => hleft r' (h.starts r' hr' hlive)
      closed := by
        intro r' hr' other hother r'' hr'' hlive
        rcases List.mem_cons.mp hr' with rfl | hr'
        · rw [hget, Option.some.injEq] at hother
          exact Or.inr (List.mem_append_left _ (hother ▸ hr''))
        · exact hleft r'' (h.closed r' hr' other hother r'' hr'' hlive) }

theorem Step.tracks (hstep : Step polarity s t) (h : s.Tracks heap starts polarity) :
    t.Tracks heap starts polarity := by
  cases hstep with
  | skip hpending hnone => exact h.skip hpending hnone
  | visit hpending hsome => exact h.visit hpending hsome

theorem Leads.tracks (hleads : Leads polarity s t) (h : s.Tracks heap starts polarity) :
    t.Tracks heap starts polarity := by
  induction hleads with
  | refl => exact h
  | tail _ hstep ih => exact hstep.tracks ih

theorem Tracks.mem_visited (h : s.Tracks heap starts polarity) (hdone : s.pending = []) {r : Ref} :
    r ∈ s.visited ↔ heap.Reaches starts r := by
  refine ⟨h.visited r, fun hreaches => ?_⟩
  induction hreaches with
  | start hr hlive => simpa [hdone] using h.starts _ hr hlive
  | step _ hget hr' hlive ih => simpa [hdone] using h.closed _ ih _ hget _ hr' hlive

theorem leads_trace (s : Search α) :
    ∃ visited, Leads polarity s
        ⟨(trace polarity s.slots s.pending s.visited.length).2, [], visited⟩ ∧
      (trace polarity s.slots s.pending s.visited.length).1 = visited.length := by
  obtain ⟨slots, pending, visited⟩ := s
  dsimp only
  generalize hn : visited.length = n
  fun_induction trace polarity slots pending n generalizing visited with
  | case1 slots n => exact ⟨visited, .refl, hn.symm⟩
  | case2 slots n r rest hnone ih =>
    obtain ⟨final, hleads, hcount⟩ := ih visited hn
    exact ⟨final, .head (.skip (s := ⟨slots, r :: rest, visited⟩) (.refl _) hnone) hleads, hcount⟩
  | case3 slots n r rest object next hsome ih =>
    obtain ⟨final, hleads, hcount⟩ := ih (r :: visited) (by rw [List.length_cons, hn])
    exact ⟨final, .head (.visit (s := ⟨slots, r :: rest, visited⟩) (.refl _) hsome) hleads, hcount⟩

end Search

theorem content_trace (slots : Array (Slot α)) (pending : List Ref) (n : Nat) :
    (trace polarity slots pending n).2.map Slot.content = slots.map Slot.content := by
  fun_induction trace polarity slots pending n with
  | case1 => rfl
  | case2 slots n r rest h ih => exact ih
  | case3 slots n r rest object next h ih => exact ih.trans (visited_of_visit? h).content

theorem unswept_mark (heap : Heap α) (roots : List Ref) :
    (heap.mark roots).2.unswept = true := rfl

theorem content_mark (heap : Heap α) (roots : List Ref) :
    (heap.mark roots).2.slots.map Slot.content = heap.slots.map Slot.content :=
  (content_trace _ _ _).trans (content_unmarked heap)

theorem get?_mark (heap : Heap α) (roots : List Ref) (r : Ref) :
    (heap.mark roots).2.get? r = heap.get? r :=
  map_object_cellIn (content_mark heap roots) r

theorem contains_mark (heap : Heap α) (roots : List Ref) (r : Ref) :
    (heap.mark roots).2.contains r = heap.contains r := by
  rw [Bool.eq_iff_iff, contains_iff, contains_iff]
  simp only [get?_mark]

theorem charge_mark (heap : Heap α) (roots : List Ref) (r : Ref) :
    ((heap.mark roots).2.cell? r).map (·.charge) = (heap.cell? r).map (·.charge) := by
  rw [cell?_eq, cell?_eq]
  simpa [Function.comp_def] using
    congrArg (Option.map Prod.snd) (map_content_cellIn (content_mark heap roots) r)

theorem Sound.mark {heap : Heap α} (h : heap.Sound) (roots : List Ref) :
    (heap.mark roots).2.Sound where
  nodup := h.nodup
  free_iff i := by
    rw [show (heap.mark roots).2.free = heap.free from rfl, h.free_iff]
    exact (empty_slot_iff (content_mark heap roots) i).symm
  settled := nofun

def search (heap : Heap α) (roots : List Ref) : Search α :=
  ⟨heap.unmarked, roots ++ heap.frozen, []⟩

theorem Sound.tracks_unmarked {heap : Heap α} (h : heap.Sound) (starts : List Ref) :
    Search.Tracks heap starts (!heap.polarity) ⟨heap.unmarked, starts, []⟩ where
  content := content_unmarked heap
  marked r := iff_of_false (h.not_markedIn_unmarked r) List.not_mem_nil
  nodup := List.nodup_nil
  visited := nofun
  pending _ hr hlive := .start hr hlive
  starts _ hr _ := Or.inr hr
  closed := nofun

theorem mark_leads (heap : Heap α) (roots : List Ref) :
    ∃ visited, (heap.search roots).Leads (!heap.polarity)
        ⟨(heap.mark roots).2.slots, [], visited⟩ ∧
      (heap.mark roots).1 = visited.length :=
  (heap.search roots).leads_trace

theorem Sound.isMarked_mark {heap : Heap α} (h : heap.Sound) (roots : List Ref) (r : Ref) :
    (heap.mark roots).2.isMarked r = true ↔ heap.Reaches (roots ++ heap.frozen) r := by
  obtain ⟨visited, hleads, -⟩ := heap.mark_leads roots
  have htracks := hleads.tracks (h.tracks_unmarked _)
  have hmarked : (heap.mark roots).2.isMarked r = true ↔
      MarkedIn (!heap.polarity) (heap.mark roots).2.slots r := isMarked_iff
  rw [hmarked, htracks.marked, htracks.mem_visited rfl]

end Heap
end Metaspace
