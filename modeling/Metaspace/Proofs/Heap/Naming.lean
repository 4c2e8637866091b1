import Metaspace.Proofs.Heap.Freeing

/-!
What references name over a whole run. A ledger holds every reference that was ever issued and the
object behind it, and counts how often each slot was emptied. As long as no slot was emptied so
often that its generation came round, the references differ from each other and resolve exactly
while their objects live.
-/

set_option autoImplicit false

namespace Metaspace

namespace Heap

variable {α : Type} {heap next : Heap α}

def generation? (heap : Heap α) (i : Nat) : Option UInt32 :=
  (heap.slots[i]?).map (·.generation)

def occupied (heap : Heap α) (i : Nat) : Bool :=
  (heap.slots[i]?).any (·.cell.isSome)

def loses (heap : Heap α) (i : Nat) : Bool :=
  heap.occupied i && !heap.sweep.2.occupied i

theorem loses_iff {i : Nat} :
    heap.loses i = true ↔ heap.unswept = true ∧ i ∈ heap.condemned := by
  unfold loses occupied
  rw [mem_condemned]
  cases hunswept : heap.unswept with
  | false =>
    rw [sweep_of_swept hunswept]
    simp
  | true =>
    simp only [sweep, hunswept, if_true, Array.getElem?_map]
    cases heap.slots[i]? with
    | none => simp
    | some slot =>
      obtain ⟨g, cell⟩ := slot
      cases cell with
      | none => simp [Slot.isCondemned]
      | some cell =>
        by_cases hmarked : cell.flag = heap.polarity <;>
          simp [Slot.swept, Slot.isCondemned, hmarked]

theorem getElem?_sweep (heap : Heap α) (i : Nat) :
    heap.sweep.2.slots[i]? = (heap.slots[i]?).map fun slot =>
      if heap.loses i then ⟨slot.generation + 1, none⟩ else slot := by
  cases hunswept : heap.unswept with
  | false =>
    have hkept : heap.loses i = false := by
      rw [Bool.eq_false_iff, ne_eq, loses_iff, hunswept]
      simp
    simp [sweep_of_swept hunswept, hkept]
  | true =>
    have hlost : heap.loses i = true ↔
        ∃ slot, heap.slots[i]? = some slot ∧ slot.isCondemned heap.polarity = true := by
      rw [loses_iff, mem_condemned, and_iff_right hunswept]
    simp only [sweep, hunswept, if_true, Array.getElem?_map]
    cases hslot : heap.slots[i]? with
    | none => rfl
    | some slot =>
      rw [hslot] at hlost
      by_cases hdead : slot.isCondemned heap.polarity = true
      · simp [Slot.swept, hdead, hlost]
      · simp [Slot.swept, hdead, hlost]

theorem generation?_sweep (heap : Heap α) (i : Nat) :
    heap.sweep.2.generation? i =
      (heap.generation? i).map fun g => if heap.loses i then g + 1 else g := by
  unfold generation?
  rw [getElem?_sweep, Option.map_map, Option.map_map]
  congr 1
  funext slot
  rw [Function.comp_apply, Function.comp_apply]
  split <;> rfl

theorem get?_sweep_of_kept {r : Ref} (h : heap.loses r.index = false) :
    heap.sweep.2.get? r = heap.get? r := by
  unfold get? cell?
  rw [getElem?_sweep, h]
  simp

theorem get?_sweep_of_lost {r : Ref} (h : heap.loses r.index = true) :
    heap.sweep.2.get? r = none := by
  unfold get? cell?
  rw [getElem?_sweep, h]
  cases heap.slots[r.index]? with
  | none => rfl
  | some slot => simp [Slot.at?]

theorem Sound.generation?_alloc [HeapObject α] {object : α} (h : heap.Sound) {r : Ref}
    (halloc : heap.alloc object = .ok (r, next)) :
    (heap.slots[r.index]? = some ⟨r.generation, none⟩ ∨
        heap.slots[r.index]? = none ∧ r.generation = 0) ∧
      ∀ i, next.generation? i = if i = r.index then some r.generation else heap.generation? i := by
  obtain ⟨-, ⟨free, hfree, hgeneration, rfl⟩ | ⟨-, -, rfl, rfl⟩⟩ := alloc_eq_ok halloc
  · obtain ⟨g, hslot⟩ := (h.free_iff r.index).mp (by rw [hfree]; exact List.mem_cons_self)
    rw [hslot, Option.elim_some] at hgeneration
    refine ⟨Or.inl (hgeneration ▸ hslot), fun i => ?_⟩
    unfold generation?
    rw [Array.getElem?_setIfInBounds]
    by_cases hi : i = r.index
    · subst hi
      have hbound := (Array.getElem?_eq_some_iff.mp hslot).1
      simp [hbound]
    · simp [hi, Ne.symm hi]
  · refine ⟨Or.inr ⟨by simp, rfl⟩, fun i => ?_⟩
    unfold generation?
    rw [Array.getElem?_push]
    split <;> simp_all

theorem modify_of_not_contains {r : Ref} (f : α → α) (h : heap.contains r = false) :
    heap.modify r f = heap := by
  have hslots : (heap.modify r f).slots = heap.slots := by
    apply Array.ext_getElem?
    intro i
    simp only [modify, Array.getElem?_modify]
    split
    · rename_i hindex
      subst hindex
      unfold contains cell? at h
      cases hslot : heap.slots[r.index]? with
      | none => rfl
      | some slot =>
        rw [hslot] at h
        obtain ⟨g, cell⟩ := slot
        by_cases hgen : g = r.generation
        · cases cell with
          | none => simp [hgen]
          | some cell => simp [Slot.at?, hgen] at h
        · simp [hgen]
    · rfl
  change { heap with slots := (heap.modify r f).slots } = heap
  rw [hslots]

theorem generation?_modify (heap : Heap α) (r : Ref) (f : α → α) (i : Nat) :
    (heap.modify r f).generation? i = heap.generation? i := by
  simp only [generation?, modify, Array.getElem?_modify]
  split
  · cases heap.slots[i]? with
    | none => rfl
    | some slot =>
      simp only [Option.map_some]
      split <;> rfl
  · rfl

theorem generation?_mark [HeapObject α] (heap : Heap α) (roots : List Ref) (i : Nat) :
    (heap.mark roots).2.generation? i = heap.generation? i := by
  have hcontent := congrArg (fun slots => (slots[i]?).map Prod.fst) (content_mark heap roots)
  simpa [generation?, Function.comp_def, Slot.content] using hcontent

end Heap

structure Issue (α : Type) where
  ref : Ref
  object : α
  /-- How often the slot had been emptied when the reference was issued. -/
  tenure : Nat
  live : Bool

structure Ledger (α : Type) where
  heap : Heap α
  entries : List (Issue α)
  frees : Nat → Nat

namespace Issue

variable {α : Type}

def changed (r : Ref) (f : α → α) (e : Issue α) : Issue α :=
  if e.live = true ∧ e.ref = r then { e with object := f e.object } else e

def swept (heap : Heap α) (e : Issue α) : Issue α :=
  { e with live := e.live && !heap.loses e.ref.index }

theorem ref_changed (r : Ref) (f : α → α) (e : Issue α) : (e.changed r f).ref = e.ref := by
  unfold changed
  split <;> rfl

theorem tenure_changed (r : Ref) (f : α → α) (e : Issue α) :
    (e.changed r f).tenure = e.tenure := by
  unfold changed
  split <;> rfl

theorem live_changed (r : Ref) (f : α → α) (e : Issue α) : (e.changed r f).live = e.live := by
  unfold changed
  split <;> rfl

end Issue

namespace Ledger

variable {α : Type} {s : Ledger α}

def start (capacity : UInt64) : Ledger α :=
  ⟨.empty capacity, [], fun _ => 0⟩

def issued (s : Ledger α) (object : α) (r : Ref) (next : Heap α) : Ledger α :=
  { s with
    heap := next
    entries := ⟨r, object, s.frees r.index, true⟩ :: s.entries }

def modify (s : Ledger α) (r : Ref) (f : α → α) : Ledger α :=
  { s with heap := s.heap.modify r f, entries := s.entries.map (Issue.changed r f) }

def sweep (s : Ledger α) : Ledger α where
  heap := s.heap.sweep.2
  entries := s.entries.map (Issue.swept s.heap)
  frees i := if s.heap.loses i then s.frees i + 1 else s.frees i

/-- The heap agrees with the ledger. Of the references that were issued for one slot only the latest
can be live, and only since the slot was last emptied. -/
structure Kept (s : Ledger α) : Prop where
  sound : s.heap.Sound
  generation : ∀ i g, s.heap.generation? i = some g → g = UInt32.ofNat (s.frees i)
  unused : ∀ i, s.heap.generation? i = none → s.frees i = 0
  issued : ∀ e ∈ s.entries, e.ref.generation = UInt32.ofNat e.tenure
  current : ∀ e ∈ s.entries, e.live = true →
    s.heap.get? e.ref = some e.object ∧ e.tenure = s.frees e.ref.index
  past : ∀ e ∈ s.entries, e.live = false → e.tenure < s.frees e.ref.index
  owned : ∀ r object, s.heap.get? r = some object → ∃ e ∈ s.entries, e.live = true ∧ e.ref = r
  successive : s.entries.Pairwise fun later earlier =>
    later.ref.index = earlier.ref.index → earlier.tenure < later.tenure

theorem kept_start (capacity : UInt64) : (start capacity : Ledger α).Kept where
  sound := Heap.empty_sound capacity
  generation i g hg := by simp [start, Heap.empty, Heap.generation?] at hg
  unused _ _ := rfl
  issued := nofun
  current := nofun
  past := nofun
  owned r object hget := by simp [start, Heap.empty, Heap.get?, Heap.cell?] at hget
  successive := List.Pairwise.nil

theorem Kept.tenure_lt (h : s.Kept) {i : Nat} (hempty : s.heap.occupied i = false) :
    ∀ e ∈ s.entries, e.ref.index = i → e.tenure < s.frees i := by
  rintro e he rfl
  cases hlive : e.live with
  | false => exact h.past e he hlive
  | true =>
    obtain ⟨cell, hcell, -⟩ := Heap.get?_eq_some.mp (h.current e he hlive).1
    rw [Heap.occupied, Heap.cell?_eq_some.mp hcell] at hempty
    contradiction

theorem Kept.modify (h : s.Kept) (r : Ref) (f : α → α) : (s.modify r f).Kept where
  sound := h.sound.modify r f
  generation i g hg := h.generation i g ((Heap.generation?_modify s.heap r f i).symm.trans hg)
  unused i hi := h.unused i ((Heap.generation?_modify s.heap r f i).symm.trans hi)
  issued := by
    refine List.forall_mem_map.mpr fun e he => ?_
    rw [Issue.ref_changed, Issue.tenure_changed]
    exact h.issued e he
  current := by
    refine List.forall_mem_map.mpr fun e he hlive => ?_
    rw [Issue.live_changed] at hlive
    obtain ⟨hget, htenure⟩ := h.current e he hlive
    rw [Issue.ref_changed, Issue.tenure_changed]
    refine ⟨?_, htenure⟩
    rw [show (s.modify r f).heap = s.heap.modify r f from rfl, Heap.get?_modify, Issue.changed]
    split
    · rename_i heq
      rw [if_pos ⟨hlive, heq⟩, ← heq, hget]
      rfl
    · rename_i hne
      rw [if_neg fun hr => hne hr.2]
      exact hget
  past := by
    refine List.forall_mem_map.mpr fun e he hlive => ?_
    rw [Issue.live_changed] at hlive
    rw [Issue.ref_changed, Issue.tenure_changed]
    exact h.past e he hlive
  owned r' object hget := by
    have hlive : s.heap.contains r' = true :=
      ((Heap.sameAccounts_modify s.heap r f).contains r').symm.trans (Heap.contains_of_get? hget)
    obtain ⟨other, hother⟩ := Heap.contains_iff.mp hlive
    obtain ⟨e, he, hlive, href⟩ := h.owned r' other hother
    refine ⟨_, List.mem_map_of_mem he, ?_, ?_⟩
    · rw [Issue.live_changed]
      exact hlive
    · rw [Issue.ref_changed]
      exact href
  successive := by
    refine List.pairwise_map.mpr (h.successive.imp ?_)
    intro later earlier hlt
    rw [Issue.ref_changed, Issue.ref_changed, Issue.tenure_changed, Issue.tenure_changed]
    exact hlt

theorem Kept.withHeap (h : s.Kept) {next : Heap α} (hsound : next.Sound)
    (hgeneration : ∀ i, next.generation? i = s.heap.generation? i)
    (hget : ∀ r, next.get? r = s.heap.get? r) : ({ s with heap := next } : Ledger α).Kept where
  sound := hsound
  generation i g hg := h.generation i g ((hgeneration i).symm.trans hg)
  unused i hi := h.unused i ((hgeneration i).symm.trans hi)
  issued := h.issued
  current e he hlive :=
    ⟨(hget e.ref).trans (h.current e he hlive).1, (h.current e he hlive).2⟩
  past := h.past
  owned r object hr := h.owned r object ((hget r).symm.trans hr)
  successive := h.successive

theorem Kept.withFrozen (h : s.Kept) (frozen : List Ref) :
    ({ s with heap := { s.heap with frozen } } : Ledger α).Kept :=
  h.withHeap ⟨h.sound.nodup, h.sound.free_iff, h.sound.settled⟩ (fun _ => rfl) fun _ => rfl

theorem Kept.sweep (h : s.Kept) : s.sweep.Kept where
  sound := h.sound.sweep
  generation i g hg := by
    rw [show s.sweep.heap = s.heap.sweep.2 from rfl, Heap.generation?_sweep] at hg
    obtain ⟨g', hg', rfl⟩ := Option.map_eq_some_iff.mp hg
    rw [h.generation i g' hg']
    simp only [Ledger.sweep]
    split
    · rw [UInt32.ofNat_add]
      rfl
    · rfl
  unused i hi := by
    rw [show s.sweep.heap = s.heap.sweep.2 from rfl, Heap.generation?_sweep,
      Option.map_eq_none_iff] at hi
    have hkept : s.heap.loses i = false := by
      have hslot : s.heap.slots[i]? = none := Option.map_eq_none_iff.mp hi
      simp [Heap.loses, Heap.occupied, hslot]
    simp only [Ledger.sweep, hkept]
    exact h.unused i hi
  issued := List.forall_mem_map.mpr h.issued
  current := by
    refine List.forall_mem_map.mpr fun e he hstill => ?_
    obtain ⟨hlive, hkept⟩ := (Bool.and_eq_true _ _).mp hstill
    rw [Bool.not_eq_true'] at hkept
    obtain ⟨hget, htenure⟩ := h.current e he hlive
    refine ⟨(Heap.get?_sweep_of_kept hkept).trans hget, htenure.trans ?_⟩
    simp [Ledger.sweep, Issue.swept, hkept]
  past := by
    refine List.forall_mem_map.mpr fun e he hended => ?_
    simp only [Ledger.sweep, Issue.swept] at hended ⊢
    cases hlive : e.live with
    | false =>
      have htenure := h.past e he hlive
      split <;> omega
    | true =>
      -- the object was live until this sweep emptied its slot
      have hlost : s.heap.loses e.ref.index = true := by simpa [hlive] using hended
      rw [if_pos hlost, (h.current e he hlive).2]
      exact Nat.lt_succ_self _
  owned r object hget := by
    rw [show s.sweep.heap = s.heap.sweep.2 from rfl] at hget
    have hkept : s.heap.loses r.index = false := by
      by_contra hlost
      rw [Heap.get?_sweep_of_lost (by simpa using hlost)] at hget
      contradiction
    rw [Heap.get?_sweep_of_kept hkept] at hget
    obtain ⟨e, he, hlive, rfl⟩ := h.owned r object hget
    exact ⟨_, List.mem_map_of_mem he, by simp [Issue.swept, hlive, hkept], rfl⟩
  successive := List.pairwise_map.mpr h.successive

theorem Kept.tenure_le (h : s.Kept) {e : Issue α} (he : e ∈ s.entries) :
    e.tenure ≤ s.frees e.ref.index := by
  cases hlive : e.live with
  | false => exact Nat.le_of_lt (h.past e he hlive)
  | true => exact Nat.le_of_eq (h.current e he hlive).2

theorem Kept.toNat_generation (h : s.Kept) (hfrees : ∀ i, s.frees i < 2 ^ 32) {e : Issue α}
    (he : e ∈ s.entries) : e.ref.generation.toNat = e.tenure := by
  rw [h.issued e he]
  exact UInt32.toNat_ofNat_of_lt' (Nat.lt_of_le_of_lt (h.tenure_le he) (hfrees _))

theorem Kept.refs_nodup (h : s.Kept) (hfrees : ∀ i, s.frees i < 2 ^ 32) :
    (s.entries.map (·.ref)).Nodup := by
  refine List.pairwise_map.mpr (h.successive.imp_of_mem ?_)
  intro later earlier hlater hearlier hlt heq
  have htenure := hlt (congrArg Ref.index heq)
  rw [← h.toNat_generation hfrees hlater, ← h.toNat_generation hfrees hearlier, heq] at htenure
  exact Nat.lt_irrefl _ htenure

theorem Kept.get?_ended (h : s.Kept) (hfrees : ∀ i, s.frees i < 2 ^ 32) {e : Issue α}
    (he : e ∈ s.entries) (hended : e.live = false) : s.heap.get? e.ref = none := by
  rw [Option.eq_none_iff_forall_ne_some]
  intro object hget
  obtain ⟨e', he', hlive, href⟩ := h.owned e.ref object hget
  have hsame : e' = e := List.inj_on_of_nodup_map (h.refs_nodup hfrees) he' he href
  rw [hsame, hended] at hlive
  contradiction

variable [HeapObject α]

def mark (s : Ledger α) (roots : List Ref) : Ledger α :=
  { s with heap := (s.heap.mark roots).2 }

def collect (s : Ledger α) (roots : List Ref) : Ledger α :=
  (s.mark roots).sweep

/-- What can happen to a heap. What fails changes nothing. -/
inductive Step : Ledger α → Ledger α → Prop where
  | alloc {s : Ledger α} {object : α} {r : Ref} {next : Heap α} :
      s.heap.alloc object = .ok (r, next) → Step s (s.issued object r next)
  | modify (s : Ledger α) (r : Ref) (f : α → α) : Step s (s.modify r f)
  | freeze {s : Ledger α} {r : Ref} {next : Heap α} :
      s.heap.freeze r = .ok next → Step s { s with heap := next }
  | unfreeze {s : Ledger α} {r : Ref} {next : Heap α} :
      s.heap.unfreeze r = .ok next → Step s { s with heap := next }
  | mark (s : Ledger α) (roots : List Ref) : Step s (s.mark roots)
  | sweep (s : Ledger α) : Step s s.sweep
  | collect (s : Ledger α) (roots : List Ref) : Step s (s.collect roots)

inductive Reached : Ledger α → Prop where
  | start (capacity : UInt64) : Reached (start capacity)
  | step {s t : Ledger α} : Reached s → Step s t → Reached t

theorem Kept.alloc (h : s.Kept) {object : α} {r : Ref} {next : Heap α}
    (halloc : s.heap.alloc object = .ok (r, next)) : (s.issued object r next).Kept := by
  have hnew := h.sound.alloc halloc
  obtain ⟨hslot, hgeneration⟩ := h.sound.generation?_alloc halloc
  have hempty : s.heap.occupied r.index = false := by
    unfold Heap.occupied
    rcases hslot with hslot | ⟨hslot, -⟩ <;> simp [hslot]
  have hissued : r.generation = UInt32.ofNat (s.frees r.index) := by
    rcases hslot with hslot | ⟨hslot, hzero⟩
    · exact h.generation _ _ (by simp [Heap.generation?, hslot])
    · rw [h.unused _ (by simp [Heap.generation?, hslot]), hzero]
      rfl
  refine ⟨hnew.sound h.sound, ?_, ?_, ?_, ?_, ?_, ?_, ?_⟩
  · intro i g hg
    replace hg : next.generation? i = some g := hg
    rw [hgeneration] at hg
    split at hg
    · rename_i hi
      rw [← Option.some.inj hg, hi]
      exact hissued
    · exact h.generation i g hg
  · intro i hi
    replace hi : next.generation? i = none := hi
    rw [hgeneration] at hi
    split at hi
    · contradiction
    · exact h.unused i hi
  · exact List.forall_mem_cons.mpr ⟨hissued, h.issued⟩
  · refine List.forall_mem_cons.mpr ⟨fun _ => ⟨?_, rfl⟩, fun e he hlive => ?_⟩
    · exact (hnew.get?_eq r).trans (if_pos rfl)
    · obtain ⟨hget, htenure⟩ := h.current e he hlive
      exact ⟨hnew.get?_of_get? hget, htenure⟩
  · exact List.forall_mem_cons.mpr ⟨nofun, h.past⟩
  · intro r' other hget
    rcases hnew.get?_cases hget with hget | ⟨rfl, -⟩
    · obtain ⟨e, he, hlive, href⟩ := h.owned r' other hget
      exact ⟨e, List.mem_cons_of_mem _ he, hlive, href⟩
    · exact ⟨_, List.mem_cons_self, rfl, rfl⟩
  · refine List.pairwise_cons.mpr ⟨fun e he hindex => ?_, h.successive⟩
    exact h.tenure_lt hempty e he hindex.symm

theorem Kept.mark (h : s.Kept) (roots : List Ref) : (s.mark roots).Kept :=
  h.withHeap (h.sound.mark roots) (Heap.generation?_mark s.heap roots) (Heap.get?_mark s.heap roots)

theorem Step.kept {t : Ledger α} (h : Step s t) (hs : s.Kept) : t.Kept := by
  cases h with
  | alloc halloc => exact hs.alloc halloc
  | modify r f => exact hs.modify r f
  | freeze hfreeze =>
    unfold Heap.freeze at hfreeze
    split at hfreeze
    · contradiction
    · obtain rfl := Except.ok.inj hfreeze
      exact hs.withFrozen _
  | unfreeze hunfreeze =>
    unfold Heap.unfreeze at hunfreeze
    split at hunfreeze
    · obtain rfl := Except.ok.inj hunfreeze
      exact hs.withFrozen _
    · contradiction
  | mark roots => exact hs.mark roots
  | sweep => exact hs.sweep
  | collect roots => exact (hs.mark roots).sweep

theorem Reached.kept (h : Reached s) : s.Kept := by
  induction h with
  | start capacity => exact kept_start capacity
  | step _ hstep ih => exact hstep.kept ih

/-- As long as no slot was emptied so often that its generations came round, every reference that
was issued differs from all others. It resolves from its allocation until the sweep that frees its
object, and only to what was made of that object through this very reference. No other reference
resolves, and what is done through a reference leaves the object of every other alone. -/
theorem Reached.refs_name_their_objects (h : Reached s) (hfrees : ∀ i, s.frees i < 2 ^ 32) :
    (s.entries.map (·.ref)).Nodup ∧
      (∀ e ∈ s.entries, s.heap.get? e.ref = if e.live then some e.object else none) ∧
      (∀ r, s.heap.contains r = true ↔ ∃ e ∈ s.entries, e.live = true ∧ e.ref = r) ∧
      ∀ r f, (s.heap.contains r = false → s.heap.modify r f = s.heap) ∧
        ∀ e ∈ s.entries, e.ref ≠ r → (s.heap.modify r f).get? e.ref = s.heap.get? e.ref := by
  have hs := h.kept
  refine ⟨hs.refs_nodup hfrees, ?_, ?_, ?_⟩
  · intro e he
    cases hlive : e.live with
    | false => exact hs.get?_ended hfrees he hlive
    | true => exact (hs.current e he hlive).1
  · intro r
    rw [Heap.contains_iff]
    constructor
    · rintro ⟨object, hget⟩
      exact hs.owned r object hget
    · rintro ⟨e, he, hlive, rfl⟩
      exact ⟨e.object, (hs.current e he hlive).1⟩
  · intro r f
    refine ⟨Heap.modify_of_not_contains f, fun e _ hne => ?_⟩
    rw [Heap.get?_modify, if_neg hne]

open Chronicle (Node single alloc_single)

def missed : Heap Node :=
  { single with polarity := true, unswept := true }

def emptied : Heap Node :=
  ⟨64, #[⟨1, none⟩], [0], [], true, false, 0, 0⟩

/-- The next object takes the slot. It refers to the one that was there before. -/
def recycled : Ledger Node :=
  ((((start 64).issued ⟨[]⟩ ⟨0, 0⟩ single).mark []).sweep).issued ⟨[⟨0, 0⟩]⟩ ⟨0, 1⟩
    ⟨64, #[⟨1, some ⟨⟨[⟨0, 0⟩]⟩, 24, true⟩⟩], [], [], true, false, 24, 1⟩

theorem mark_single : (single.mark []).2 = missed := by
  simp [Heap.mark, Heap.trace, Heap.unmarked, single, missed]

theorem sweep_missed : missed.sweep.2 = emptied := by
  simp [Heap.sweep, Heap.condemned, Heap.condemnedBytes, Slot.swept, Slot.isCondemned,
    Slot.charge, missed, single, emptied]

theorem loses_missed : missed.loses 0 = true := by
  rw [Heap.loses, sweep_missed]
  rfl

theorem alloc_emptied : emptied.alloc ⟨[⟨0, 0⟩]⟩ = .ok (⟨0, 1⟩, recycled.heap) := rfl

theorem reached_recycled : Reached recycled := by
  have hswept := (((Reached.start 64).step (.alloc alloc_single)).step (.mark _ [])).step (.sweep _)
  refine hswept.step (.alloc ?_)
  change (single.mark []).2.sweep.2.alloc _ = _
  rw [mark_single, sweep_missed]
  exact alloc_emptied

theorem frees_recycled (i : Nat) : recycled.frees i = if i = 0 then 1 else 0 := by
  change (if (single.mark []).2.loses i then 0 + 1 else 0) = _
  rw [mark_single]
  cases i with
  | zero => rw [loses_missed, if_pos rfl, if_pos rfl]
  | succ i => simp [Heap.loses, Heap.occupied, missed, single]

/-- The old reference neither resolves nor equals the new one, even though they share a slot. -/
theorem recycled_refs_differ :
    Reached recycled ∧ (∀ i, recycled.frees i < 2 ^ 32) ∧
      recycled.entries.map (·.ref) = [⟨0, 1⟩, ⟨0, 0⟩] ∧
      recycled.heap.get? ⟨0, 0⟩ = none ∧ recycled.heap.get? ⟨0, 1⟩ = some ⟨[⟨0, 0⟩]⟩ := by
  have hfrees : ∀ i, recycled.frees i < 2 ^ 32 := by
    intro i
    rw [frees_recycled]
    split <;> decide
  obtain ⟨-, hresolve, -, -⟩ := reached_recycled.refs_name_their_objects hfrees
  refine ⟨reached_recycled, hfrees, rfl, ?_, hresolve _ List.mem_cons_self⟩
  have hlost : (single.mark []).2.loses 0 = true := by
    rw [mark_single]
    exact loses_missed
  refine (hresolve _ (List.mem_cons_of_mem _ List.mem_cons_self)).trans (if_neg ?_)
  simp [Issue.swept, mark, issued, start, hlost]

end Ledger
end Metaspace
