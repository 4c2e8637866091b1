import Metaspace.Proofs.Heap.Freeing

/-!
Marks as searches. Whichever of its pending references a search takes up first, it ends, and it ends
with the same objects marked, each of which was visited once. So the order in which roots and frozen
references are listed makes no difference to a mark.
-/

set_option autoImplicit false

namespace Metaspace

variable {α : Type}

theorem Slot.eq_of_content {a b : Slot α} (hcontent : a.content = b.content)
    (hflag : ∀ c d, a.cell = some c → b.cell = some d → c.flag = d.flag) : a = b := by
  obtain ⟨g, cell⟩ := a
  obtain ⟨g', cell'⟩ := b
  obtain ⟨hg, hcell⟩ : g = g' ∧ cell.map (fun c => (c.object, c.charge)) =
      cell'.map fun c => (c.object, c.charge) := Prod.mk.inj hcontent
  subst hg
  cases cell with
  | none => rw [Option.map_eq_none_iff.mp hcell.symm]
  | some c =>
    obtain ⟨d, rfl, hshape⟩ := Option.map_eq_some_iff.mp hcell.symm
    obtain ⟨hobject, hcharge⟩ := Prod.mk.inj hshape
    have hmark := hflag c d rfl rfl
    obtain ⟨object, charge, flag⟩ := c
    obtain ⟨object', charge', flag'⟩ := d
    obtain rfl : object' = object := hobject
    obtain rfl : charge' = charge := hcharge
    obtain rfl : flag = flag' := hmark
    rfl

namespace Heap

variable {polarity : Bool}

theorem markedIn_iff {slots : Array (Slot α)} {i : Nat} {g : UInt32} {cell : Cell α}
    (hslot : slots[i]? = some ⟨g, some cell⟩) :
    MarkedIn polarity slots ⟨i, g⟩ ↔ cell.flag = polarity := by
  rw [MarkedIn, cellIn_eq_some.mpr hslot]
  simp

theorem slots_eq {a b : Array (Slot α)} (hcontent : a.map Slot.content = b.map Slot.content)
    (hmarked : ∀ r, MarkedIn polarity a r ↔ MarkedIn polarity b r) : a = b := by
  apply Array.ext_getElem?
  intro i
  have hsame : (a[i]?).map Slot.content = (b[i]?).map Slot.content := by
    rw [← Array.getElem?_map, hcontent, Array.getElem?_map]
  cases ha : a[i]? with
  | none =>
    rw [ha] at hsame
    exact (Option.map_eq_none_iff.mp hsame.symm).symm
  | some slot =>
    rw [ha] at hsame
    obtain ⟨slot', hb, hslot⟩ := Option.map_eq_some_iff.mp hsame.symm
    rw [hb]
    refine congrArg some (Slot.eq_of_content hslot.symm fun c d hc hd => ?_)
    obtain ⟨g, _⟩ := slot
    obtain ⟨g', _⟩ := slot'
    obtain rfl : g' = g := congrArg Prod.fst hslot
    obtain rfl := hc
    obtain rfl := hd
    have hsides := hmarked ⟨i, g'⟩
    rw [markedIn_iff ha, markedIn_iff hb] at hsides
    exact Bool.eq_iff_iff.mpr (by cases polarity <;> simpa using hsides)

end Heap

namespace Heap.Search

variable [HeapObject α] {polarity : Bool} {heap : Heap α} {s t : Search α}

theorem Step.remainingWork_lt (h : Step polarity s t) :
    remainingWork polarity t.slots t.pending < remainingWork polarity s.slots s.pending := by
  cases h with
  | skip hpending _ =>
    have hlength := hpending.length_eq
    simp only [remainingWork, List.length_cons] at hlength ⊢
    omega
  | visit hpending hsome =>
    have hlength := hpending.length_eq
    have hwork := visit?_work hsome
    simp only [remainingWork, List.length_append, List.length_cons] at hlength ⊢
    omega

theorem wellFounded_step (polarity : Bool) :
    WellFounded fun later earlier : Search α => Step polarity earlier later :=
  Subrelation.wf Step.remainingWork_lt
    (measure fun s : Search α => remainingWork polarity s.slots s.pending).wf

theorem exists_step (h : s.pending ≠ []) : ∃ t, Step polarity s t := by
  obtain ⟨r, rest, hpending⟩ := List.exists_cons_of_ne_nil h
  cases hvisit : visit? polarity s.slots r with
  | none => exact ⟨_, .skip (.of_eq hpending) hvisit⟩
  | some visited => exact ⟨_, .visit (.of_eq hpending) hvisit⟩

/-- Searches that started from the same references, in whatever order, have done the same in the
end. -/
theorem Tracks.alike {starts starts' : List Ref} (h : s.Tracks heap starts polarity)
    (h' : t.Tracks heap starts' polarity) (hsame : ∀ r, r ∈ starts ↔ r ∈ starts')
    (hdone : s.pending = []) (hdone' : t.pending = []) :
    s.slots = t.slots ∧ s.visited.Perm t.visited := by
  have hvisited : ∀ r, r ∈ s.visited ↔ r ∈ t.visited := by
    intro r
    rw [h.mem_visited hdone, h'.mem_visited hdone']
    exact ⟨.mono fun r => (hsame r).mp, .mono fun r => (hsame r).mpr⟩
  have hmarked : ∀ r, MarkedIn polarity s.slots r ↔ MarkedIn polarity t.slots r := by
    intro r
    rw [h.marked, h'.marked, hvisited]
  refine ⟨slots_eq (h.content.trans h'.content.symm) hmarked, ?_⟩
  rw [List.perm_ext_iff_of_nodup h.nodup h'.nodup]
  exact hvisited

end Heap.Search

namespace Heap

variable [HeapObject α] {heap : Heap α}

/-- What a mark comes to: it visits each object that can be reached once, and marks and counts what
it visits. -/
structure Explores (heap : Heap α) (roots : List Ref) (visited : List Ref) : Prop where
  leads : (heap.search roots).Leads (!heap.polarity) ⟨(heap.mark roots).2.slots, [], visited⟩
  nodup : visited.Nodup
  mem_iff : ∀ r, r ∈ visited ↔ heap.Reaches (roots ++ heap.frozen) r
  isMarked_iff : ∀ r, (heap.mark roots).2.isMarked r = true ↔ r ∈ visited
  count : (heap.mark roots).1 = visited.length

theorem Sound.explores (h : heap.Sound) (roots : List Ref) :
    ∃ visited, heap.Explores roots visited := by
  obtain ⟨visited, hleads, hcount⟩ := heap.mark_leads roots
  have htracks := hleads.tracks (h.tracks_unmarked _)
  refine ⟨visited, hleads, htracks.nodup, fun r => htracks.mem_visited rfl, fun r => ?_, hcount⟩
  rw [h.isMarked_mark, ← htracks.mem_visited rfl]

theorem Sound.mark_le_live (h : heap.Sound) (roots : List Ref) :
    (heap.mark roots).1 ≤ heap.live.length := by
  obtain ⟨visited, hexplores⟩ := h.explores roots
  rw [hexplores.count]
  refine (List.subperm_of_subset hexplores.nodup fun r hr => ?_).length_le
  exact mem_live.mpr ((hexplores.mem_iff r).mp hr).contains

/-- Any search from the roots and the frozen references ends with the slots that a mark ends with,
after as many visits. -/
theorem Sound.search_alike (h : heap.Sound) (roots : List Ref) {starts : List Ref}
    (hsame : ∀ r, r ∈ starts ↔ r ∈ roots ++ heap.frozen) {t : Search α}
    (hleads : Search.Leads (!heap.polarity) ⟨heap.unmarked, starts, []⟩ t)
    (hdone : t.pending = []) :
    t.slots = (heap.mark roots).2.slots ∧ t.visited.Nodup ∧
      t.visited.length = (heap.mark roots).1 := by
  obtain ⟨visited, hexplores⟩ := h.explores roots
  have htracks := hleads.tracks (h.tracks_unmarked starts)
  obtain ⟨hslots, hperm⟩ :=
    htracks.alike (hexplores.leads.tracks (h.tracks_unmarked _)) hsame hdone rfl
  exact ⟨hslots, htracks.nodup, hperm.length_eq.trans hexplores.count.symm⟩

theorem Sound.mark_reordered (h : heap.Sound) {roots roots' frozen' : List Ref}
    (hroots : ∀ r, r ∈ roots' ↔ r ∈ roots) (hfrozen : ∀ r, r ∈ frozen' ↔ r ∈ heap.frozen) :
    ({ heap with frozen := frozen' } : Heap α).mark roots' =
      ((heap.mark roots).1, { (heap.mark roots).2 with frozen := frozen' }) := by
  obtain ⟨visited, hleads, hcount⟩ := mark_leads { heap with frozen := frozen' } roots'
  have hsame : ∀ r, r ∈ roots' ++ frozen' ↔ r ∈ roots ++ heap.frozen := by
    intro r
    rw [List.mem_append, List.mem_append, hroots, hfrozen]
  obtain ⟨hslots, -, hlength⟩ := h.search_alike roots hsame hleads rfl
  refine Prod.ext (hcount.trans hlength) ?_
  exact congrArg (fun slots => { (heap.mark roots).2 with slots, frozen := frozen' }) hslots

end Heap

namespace Chronicle

variable [HeapObject α] {s : Chronicle α}

/-- In every state of a run, a mark visits exactly what can be reached from the roots and the frozen
references, each object once. It marks and counts what it visits, and does so whatever the order in
which references are listed and taken up; all else it leaves as it is. -/
theorem Reached.mark_visits_reachable (h : Reached s) (roots : List Ref) :
    (∃ visited, s.heap.Explores roots visited) ∧
      (WellFounded fun later earlier : Heap.Search α => earlier.Step (!s.heap.polarity) later) ∧
      (∀ t : Heap.Search α, t.pending ≠ [] → ∃ u, t.Step (!s.heap.polarity) u) ∧
      (∀ starts, (∀ r, r ∈ starts ↔ r ∈ roots ++ s.heap.frozen) → ∀ t : Heap.Search α,
        Heap.Search.Leads (!s.heap.polarity) ⟨s.heap.unmarked, starts, []⟩ t → t.pending = [] →
          t.slots = (s.heap.mark roots).2.slots ∧ t.visited.Nodup ∧
            t.visited.length = (s.heap.mark roots).1) ∧
      (∀ roots' frozen', (∀ r, r ∈ roots' ↔ r ∈ roots) → (∀ r, r ∈ frozen' ↔ r ∈ s.heap.frozen) →
        ({ s.heap with frozen := frozen' } : Heap α).mark roots' =
          ((s.heap.mark roots).1, { (s.heap.mark roots).2 with frozen := frozen' })) ∧
      (s.heap.mark roots).2.slots.map Slot.content = s.heap.slots.map Slot.content ∧
      (∀ r, (s.heap.mark roots).2.get? r = s.heap.get? r) ∧
      ∃ slots, (s.heap.mark roots).2 =
        { s.heap with slots, polarity := !s.heap.polarity, unswept := true } := by
  have hsound := h.faithful.sound
  refine ⟨hsound.explores roots, Heap.Search.wellFounded_step _, fun t => Heap.Search.exists_step,
    fun starts hsame t hleads hdone => hsound.search_alike roots hsame hleads hdone,
    fun roots' frozen' hroots hfrozen => hsound.mark_reordered hroots hfrozen,
    Heap.content_mark s.heap roots, Heap.get?_mark s.heap roots, _, rfl⟩

/-- After two marks without a sweep, the first of two objects comes to refer to itself, twice to the
other, which refers back, and to nothing at all. -/
def entangled : Chronicle Node :=
  { renewed with
    heap := renewed.heap.modify ⟨0, 0⟩ fun _ => ⟨[⟨0, 0⟩, ⟨1, 0⟩, ⟨1, 0⟩, ⟨2, 0⟩]⟩ }

theorem contains_entangled (r : Ref) :
    entangled.heap.contains r = true ↔ r = ⟨1, 0⟩ ∨ r = ⟨0, 0⟩ := by
  have hsame : entangled.heap.contains r = renewed.heap.contains r :=
    (Heap.sameAccounts_modify renewed.heap _ _).contains r
  rw [hsame, contains_renewed]

theorem get?_entangled :
    entangled.heap.get? ⟨0, 0⟩ = some ⟨[⟨0, 0⟩, ⟨1, 0⟩, ⟨1, 0⟩, ⟨2, 0⟩]⟩ := by
  obtain ⟨object, hget⟩ := Heap.contains_iff.mp ((contains_renewed ⟨0, 0⟩).mpr (Or.inr rfl))
  rw [entangled, Heap.get?_modify, if_pos rfl, hget]
  rfl

theorem reached_entangled : Reached entangled :=
  reached_renewed.step (.modify _ _ _)

/-- A root given twice and one that names nothing, in either order: both objects are marked and
counted once. -/
theorem entangled_marks_both :
    (entangled.heap.mark [⟨0, 0⟩, ⟨0, 0⟩, ⟨5, 1⟩]).1 = 2 ∧
      (entangled.heap.mark [⟨0, 0⟩, ⟨0, 0⟩, ⟨5, 1⟩]).2.isMarked ⟨0, 0⟩ = true ∧
      (entangled.heap.mark [⟨0, 0⟩, ⟨0, 0⟩, ⟨5, 1⟩]).2.isMarked ⟨1, 0⟩ = true ∧
      entangled.heap.mark [⟨5, 1⟩, ⟨0, 0⟩] = entangled.heap.mark [⟨0, 0⟩, ⟨0, 0⟩, ⟨5, 1⟩] := by
  obtain ⟨⟨visited, hexplores⟩, -, -, -, hreordered, -⟩ :=
    reached_entangled.mark_visits_reachable [⟨0, 0⟩, ⟨0, 0⟩, ⟨5, 1⟩]
  have hfirst : entangled.heap.Reaches ([⟨0, 0⟩, ⟨0, 0⟩, ⟨5, 1⟩] ++ entangled.heap.frozen)
      ⟨0, 0⟩ :=
    .start (List.mem_append_left _ List.mem_cons_self) ((contains_entangled _).mpr (Or.inr rfl))
  have hsecond : entangled.heap.Reaches ([⟨0, 0⟩, ⟨0, 0⟩, ⟨5, 1⟩] ++ entangled.heap.frozen)
      ⟨1, 0⟩ :=
    .step hfirst get?_entangled (List.mem_cons_of_mem _ List.mem_cons_self)
      ((contains_entangled _).mpr (Or.inl rfl))
  have hboth : visited.Perm [⟨1, 0⟩, ⟨0, 0⟩] := by
    rw [List.perm_ext_iff_of_nodup hexplores.nodup (by decide)]
    intro r
    rw [hexplores.mem_iff, List.mem_cons, List.mem_singleton, ← contains_entangled]
    refine ⟨Heap.Reaches.contains, fun hlive => ?_⟩
    rcases (contains_entangled r).mp hlive with rfl | rfl
    · exact hsecond
    · exact hfirst
  refine ⟨hexplores.count.trans hboth.length_eq, ?_, ?_, ?_⟩
  · exact (hexplores.isMarked_iff _).mpr ((hexplores.mem_iff _).mpr hfirst)
  · exact (hexplores.isMarked_iff _).mpr ((hexplores.mem_iff _).mpr hsecond)
  · refine hreordered [⟨5, 1⟩, ⟨0, 0⟩] entangled.heap.frozen (fun r => ?_) fun r => Iff.rfl
    simp only [List.mem_cons, List.not_mem_nil, or_false]
    tauto

end Chronicle
end Metaspace
