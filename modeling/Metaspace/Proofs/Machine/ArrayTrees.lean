import Mathlib.Algebra.BigOperators.Ring.List
import Metaspace.Proofs.Heap.Naming
import Metaspace.Proofs.Heap.Overflow
import Metaspace.Proofs.Machine.Dealings

set_option autoImplicit false

namespace Metaspace

namespace Heap

variable {α : Type} {heap next later : Heap α}

structure Extends (heap next : Heap α) : Prop where
  sound : next.Sound
  keeps : ∀ r object, heap.get? r = some object → next.get? r = some object
  ages : ∀ i g, heap.generation? i = some g → next.generation? i = some g
  capacity : next.capacity = heap.capacity

theorem Extends.refl (h : heap.Sound) : Extends heap heap :=
  ⟨h, fun _ _ hget => hget, fun _ _ hage => hage, rfl⟩

theorem Extends.trans (h : Extends heap next) (hnext : Extends next later) :
    Extends heap later where
  sound := hnext.sound
  keeps r object hget := hnext.keeps r object (h.keeps r object hget)
  ages i g hage := hnext.ages i g (h.ages i g hage)
  capacity := hnext.capacity.trans h.capacity

theorem generation?_of_get? {r : Ref} {object : α} (h : heap.get? r = some object) :
    heap.generation? r.index = some r.generation := by
  obtain ⟨cell, hcell, -⟩ := get?_eq_some.mp h
  obtain ⟨slot, hslot, hat⟩ := Option.bind_eq_some_iff.mp hcell
  unfold Slot.at? at hat
  split at hat
  · rename_i hsame
    rw [generation?, hslot, Option.map_some, hsame]
  · contradiction

theorem Extends.get?_of_swept (h : Extends heap.sweep.2 later) {r : Ref} {object : α}
    (hlive : heap.get? r = some object) (hgone : heap.sweep.2.get? r = none) :
    later.get? r = none := by
  have hlost : heap.loses r.index = true := by
    by_contra hkept
    rw [get?_sweep_of_kept (Bool.eq_false_iff.mpr hkept), hlive] at hgone
    contradiction
  have hage : heap.sweep.2.generation? r.index = some (r.generation + 1) := by
    rw [generation?_sweep, generation?_of_get? hlive, hlost]
    rfl
  rw [Option.eq_none_iff_forall_not_mem]
  intro other hother
  -- the slot is one generation on since the sweep, which no later object takes back
  have hsame := (h.ages _ _ hage).symm.trans (generation?_of_get? hother)
  have hmoved := congrArg UInt32.toNat (Option.some.inj hsame)
  have hlt := r.generation.toNat_lt
  rw [UInt32.toNat_add, show (1 : UInt32).toNat = 1 from rfl] at hmoved
  omega

section Allocating

variable [HeapObject α]

theorem Sound.extends_alloc (h : heap.Sound) {object : α} {r : Ref}
    (halloc : heap.alloc object = .ok (r, next)) : Extends heap next where
  sound := (h.alloc halloc).sound h
  keeps _ _ hget := (h.alloc halloc).get?_of_get? hget
  ages i g hage := by
    obtain ⟨hslot, hages⟩ := h.generation?_alloc halloc
    rw [hages]
    split
    · rename_i heq
      subst heq
      unfold generation? at hage
      rcases hslot with hslot | ⟨hslot, -⟩
      · rw [hslot] at hage
        exact hage
      · rw [hslot] at hage
        contradiction
    · exact hage
  capacity := (h.alloc halloc).capacity

theorem alloc_ne_objectTooBig {object : α}
    (hfits : heap.ensureFits (HeapObject.size object) = .ok ()) :
    heap.alloc object ≠ .error .objectTooBig := by
  intro halloc
  by_cases hover : heap.Overflows object
  · rw [alloc_of_overflows hover] at halloc
    simp at halloc
  · rw [alloc_error_iff_refusal? hover] at halloc
    have hbig : heap.capacity.toNat < (HeapObject.size object).toNat + 16 := by
      by_contra hsmall
      simp only [refusal?, hsmall, if_false] at halloc
      split at halloc
      · simp at halloc
      · split at halloc <;> simp at halloc
    rw [(ensureFits_error_iff heap _ _).mpr ⟨rfl, hbig⟩] at hfits
    contradiction

end Allocating

end Heap

def arrayCount : List Nat → Nat
  | [] => 0
  | length :: lengths => 1 + length * arrayCount lengths

theorem arrayCount_eq (lengths : List Nat) :
    arrayCount lengths = ((List.range lengths.length).map fun k => (lengths.take k).prod).sum := by
  induction lengths with
  | nil => rfl
  | cons length lengths ih =>
    have hlevels : ((List.range lengths.length).map
        fun k => ((length :: lengths).take (k + 1)).prod) =
          (List.range lengths.length).map fun k => length * (lengths.take k).prod := by
      simp only [List.take_succ_cons, List.prod_cons]
    rw [arrayCount, ih, List.length_cons, List.range_succ_eq_map, List.map_cons, List.map_map,
      List.sum_cons, List.take_zero, List.prod_nil, ← List.sum_map_mul_left]
    exact congrArg (1 + ·.sum) hlevels.symm

/-- Some arrays of the tree would exceed the heap: no level above them is empty. -/
def Oversized (capacity : Nat) (lengths : List Nat) : Prop :=
  ∃ k length : Nat, lengths[k]? = some length ∧ (∀ i < k, lengths[i]? ≠ some 0) ∧
    capacity < (length + 1) * Object.referenceSize + 8 + 16

theorem not_oversized_nil (capacity : Nat) : ¬ Oversized capacity [] := by
  rintro ⟨k, length, hlength, -⟩
  contradiction

theorem oversized_cons {capacity length : Nat} {lengths : List Nat} :
    Oversized capacity (length :: lengths) ↔
      capacity < (length + 1) * Object.referenceSize + 8 + 16 ∨
        length ≠ 0 ∧ Oversized capacity lengths := by
  constructor
  · rintro ⟨k, l, hl, hfilled, hbig⟩
    cases k with
    | zero =>
      obtain rfl := Option.some.inj hl
      exact .inl hbig
    | succ k =>
      refine .inr ⟨fun hzero => hfilled 0 k.succ_pos (congrArg some hzero), k, l, hl, ?_, hbig⟩
      exact fun i hi => hfilled (i + 1) (Nat.succ_lt_succ hi)
  · rintro (hbig | ⟨hpos, k, l, hl, hfilled, hbig⟩)
    · exact ⟨0, length, rfl, fun i hi => absurd hi (Nat.not_lt_zero i), hbig⟩
    · refine ⟨k + 1, l, hl, fun i hi => ?_, hbig⟩
      cases i with
      | zero => exact fun hzero => hpos (Option.some.inj hzero)
      | succ i => exact hfilled i (Nat.lt_of_succ_lt_succ hi)

namespace ObjectHeap

variable {objects next : ObjectHeap}

theorem extends_allocArray (h : objects.heap.Sound) (level : ArrayLevel)
    (elements : Array (Option Ref)) :
    objects.heap.Extends (objects.allocArray level elements).2.heap := by
  unfold allocArray alloc
  cases halloc : objects.heap.alloc (.arrayOf level.classId level.mirror elements) with
  | error e => exact .refl h
  | ok made => exact h.extends_alloc halloc

theorem extends_allocMany {make : ObjectHeap → Except Cause Ref × ObjectHeap}
    (hmake : ∀ objects : ObjectHeap, objects.heap.Sound →
      objects.heap.Extends (make objects).2.heap) (n : Nat) (made : Array (Option Ref))
    (h : objects.heap.Sound) : objects.heap.Extends (allocMany make n made objects).2.heap := by
  induction n generalizing made objects with
  | zero => exact .refl h
  | succ n ih =>
    have hfirst := hmake objects h
    unfold allocMany
    generalize make objects = outcome at hfirst ⊢
    obtain ⟨_ | r, next⟩ := outcome
    · exact hfirst
    · exact hfirst.trans (ih (made.push (some r)) hfirst.sound)

theorem extends_allocNested (level : ArrayLevel) (inner : List ArrayLevel)
    (h : objects.heap.Sound) :
    objects.heap.Extends (allocNested level inner objects).2.heap := by
  induction inner generalizing level objects with
  | nil =>
    unfold allocNested
    split
    · exact .refl h
    · exact extends_allocArray h level _
  | cons next inner ih =>
    unfold allocNested
    split
    · exact .refl h
    · have hmany := extends_allocMany (fun _ hobjects => ih next hobjects) level.length #[] h
      dsimp only
      generalize allocMany (allocNested next inner) level.length #[] objects = outcome at hmany ⊢
      obtain ⟨_ | elements, last⟩ := outcome
      · exact hmany
      · exact hmany.trans (extends_allocArray hmany.sound level elements)

/-- A tree of arrays, level by level, and the references of its arrays. The innermost arrays hold
nulls, the others the roots of the trees below. -/
def Nested (objects : ObjectHeap) : List ArrayLevel → Ref → List Ref → Prop
  | [], _, _ => False
  | [level], r, refs =>
    objects.get? r = some (.arrayOf level.classId level.mirror (.replicate level.length none)) ∧
      refs = [r]
  | level :: next :: inner, r, refs =>
    ∃ (elements : List Ref) (parts : List (List Ref)), elements.length = level.length ∧
      objects.get? r =
        some (.arrayOf level.classId level.mirror (elements.map some).toArray) ∧
      List.Forall₂ (fun element part => objects.Nested (next :: inner) element part) elements
        parts ∧
      refs = r :: parts.flatten

theorem Nested.mono {levels : List ArrayLevel} {r : Ref} {refs : List Ref}
    (h : objects.Nested levels r refs)
    (hkeeps : ∀ r object, objects.get? r = some object → next.get? r = some object) :
    next.Nested levels r refs := by
  induction levels generalizing r refs with
  | nil => exact h
  | cons level inner ih =>
    cases inner with
    | nil => exact ⟨hkeeps _ _ h.1, h.2⟩
    | cons below inner =>
      obtain ⟨elements, parts, hlength, hget, hparts, hrefs⟩ := h
      exact ⟨elements, parts, hlength, hkeeps _ _ hget, hparts.imp fun _ _ hpart => ih hpart,
        hrefs⟩

theorem forall_mem_flatten {R : Ref → List Ref → Prop} {P : Ref → Prop} {elements : List Ref}
    {parts : List (List Ref)} (h : List.Forall₂ R elements parts)
    (hR : ∀ element part, R element part → ∀ x ∈ part, P x) : ∀ x ∈ parts.flatten, P x := by
  induction h with
  | nil =>
    intro x hx
    contradiction
  | cons hpart _ ih =>
    intro x hx
    rw [List.flatten_cons, List.mem_append] at hx
    exact hx.elim (hR _ _ hpart x) (ih x)

theorem Nested.live {levels : List ArrayLevel} {r : Ref} {refs : List Ref}
    (h : objects.Nested levels r refs) : ∀ x ∈ refs, ∃ object, objects.get? x = some object := by
  induction levels generalizing r refs with
  | nil => exact h.elim
  | cons level inner ih =>
    cases inner with
    | nil =>
      obtain ⟨hget, rfl⟩ := h
      intro x hx
      rw [List.mem_singleton.mp hx]
      exact ⟨_, hget⟩
    | cons below inner =>
      obtain ⟨elements, parts, -, hget, hparts, rfl⟩ := h
      intro x hx
      rcases List.mem_cons.mp hx with rfl | hx
      · exact ⟨_, hget⟩
      · exact forall_mem_flatten hparts (fun _ _ hpart => ih hpart) x hx

structure Plants (objects : ObjectHeap) (levels : List ArrayLevel) (r : Ref) (refs : List Ref)
    (next : ObjectHeap) : Prop where
  tree : next.Nested levels r refs
  nodup : refs.Nodup
  fresh : ∀ x ∈ refs, objects.get? x = none
  count : refs.length = arrayCount (levels.map (·.length))

structure PlantsMany (objects : ObjectHeap) (levels : List ArrayLevel) (elements : List Ref)
    (parts : List (List Ref)) (next : ObjectHeap) : Prop where
  trees : List.Forall₂ (fun element part => next.Nested levels element part) elements parts
  nodup : parts.flatten.Nodup
  fresh : ∀ x ∈ parts.flatten, objects.get? x = none
  count : parts.flatten.length = elements.length * arrayCount (levels.map (·.length))

theorem PlantsMany.live {levels : List ArrayLevel} {elements : List Ref} {parts : List (List Ref)}
    (h : objects.PlantsMany levels elements parts next) :
    ∀ x ∈ parts.flatten, ∃ object, next.get? x = some object :=
  forall_mem_flatten h.trees fun _ _ hpart => hpart.live

theorem PlantsMany.cons {levels : List ArrayLevel} {r : Ref} {refs : List Ref}
    {elements : List Ref} {parts : List (List Ref)} {last : ObjectHeap}
    (hfirst : objects.Plants levels r refs next) (hextends : objects.heap.Extends next.heap)
    (hmany : next.PlantsMany levels elements parts last)
    (hlast : next.heap.Extends last.heap) :
    objects.PlantsMany levels (r :: elements) (refs :: parts) last where
  trees := .cons (hfirst.tree.mono hlast.keeps) hmany.trees
  nodup := by
    rw [List.flatten_cons, List.nodup_append]
    refine ⟨hfirst.nodup, hmany.nodup, ?_⟩
    rintro x hx y hy rfl
    obtain ⟨object, hget⟩ := hfirst.tree.live x hx
    rw [hmany.fresh x hy] at hget
    contradiction
  fresh x hx := by
    rw [List.flatten_cons, List.mem_append] at hx
    rcases hx with hx | hx
    · exact hfirst.fresh x hx
    · rw [Option.eq_none_iff_forall_not_mem]
      intro object hget
      have hlater := hextends.keeps x object hget
      rw [show next.heap.get? x = none from hmany.fresh x hx] at hlater
      contradiction
  count := by
    rw [List.flatten_cons, List.length_append, hfirst.count, hmany.count, List.length_cons,
      Nat.succ_mul, Nat.add_comm]

theorem allocMany_plants {make : ObjectHeap → Except Cause Ref × ObjectHeap}
    {levels : List ArrayLevel}
    (hextends : ∀ objects : ObjectHeap, objects.heap.Sound →
      objects.heap.Extends (make objects).2.heap)
    (hplants : ∀ (objects : ObjectHeap) r next, objects.heap.Sound →
      make objects = (.ok r, next) → ∃ refs, objects.Plants levels r refs next)
    {n : Nat} {made elements : Array (Option Ref)} (h : objects.heap.Sound)
    (hmade : allocMany make n made objects = (.ok elements, next)) :
    ∃ (roots : List Ref) (parts : List (List Ref)), roots.length = n ∧
      elements = made ++ (roots.map some).toArray ∧ objects.PlantsMany levels roots parts next := by
  induction n generalizing made objects with
  | zero =>
    obtain ⟨hsame, rfl⟩ := Prod.mk.inj hmade
    obtain rfl := Except.ok.inj hsame
    exact ⟨[], [], rfl, by simp, ⟨.nil, List.nodup_nil, fun x hx => by contradiction, by simp⟩⟩
  | succ n ih =>
    unfold allocMany at hmade
    cases hfirst : make objects with
    | mk result middle =>
      have hmiddle := hextends objects h
      rw [hfirst] at hmade hmiddle
      cases result with
      | error cause =>
        obtain ⟨hfailed, -⟩ := Prod.mk.inj hmade
        contradiction
      | ok r =>
        obtain ⟨refs, hplanted⟩ := hplants objects r middle h hfirst
        obtain ⟨roots, parts, hlength, helements, hmany⟩ := ih hmiddle.sound hmade
        have hlast := extends_allocMany hextends n (made.push (some r)) hmiddle.sound
        rw [show allocMany make n (made.push (some r)) middle = (.ok elements, next) from hmade]
          at hlast
        refine ⟨r :: roots, refs :: parts, congrArg (· + 1) hlength, ?_,
          .cons hplanted hmiddle hmany hlast⟩
        rw [helements]
        apply Array.ext'
        simp

theorem allocArray_of_ok (h : objects.heap.Sound) {level : ArrayLevel}
    {elements : Array (Option Ref)} {r : Ref}
    (hmade : objects.allocArray level elements = (.ok r, next)) :
    objects.get? r = none ∧
      next.get? r = some (.arrayOf level.classId level.mirror elements) ∧
      objects.heap.Extends next.heap := by
  have hextends := extends_allocArray h level elements
  rw [hmade] at hextends
  unfold allocArray at hmade
  rcases alloc_cases h (.arrayOf level.classId level.mirror elements) with
    ⟨e, heq⟩ | ⟨r', heap, heq, halloc⟩
  · rw [heq] at hmade
    obtain ⟨hfailed, -⟩ := Prod.mk.inj hmade
    contradiction
  · rw [heq] at hmade
    obtain ⟨hr, rfl⟩ := Prod.mk.inj hmade
    obtain rfl := Except.ok.inj hr
    exact ⟨halloc.get?_fresh, (halloc.get?_eq r').trans (if_pos rfl), hextends⟩

theorem allocNested_plants {level : ArrayLevel} {inner : List ArrayLevel} {r : Ref}
    (h : objects.heap.Sound) (hmade : allocNested level inner objects = (.ok r, next)) :
    ∃ refs, objects.Plants (level :: inner) r refs next := by
  induction inner generalizing level objects r next with
  | nil =>
    unfold allocNested at hmade
    split at hmade
    · obtain ⟨hfailed, -⟩ := Prod.mk.inj hmade
      contradiction
    · obtain ⟨hfresh, hget, -⟩ := allocArray_of_ok h hmade
      exact ⟨[r], ⟨hget, rfl⟩, List.nodup_singleton r, List.forall_mem_singleton.mpr hfresh,
        by simp [arrayCount]⟩
  | cons below inner ih =>
    unfold allocNested at hmade
    split at hmade
    · obtain ⟨hfailed, -⟩ := Prod.mk.inj hmade
      contradiction
    · have hbelow : ∀ objects : ObjectHeap, objects.heap.Sound →
          objects.heap.Extends (allocNested below inner objects).2.heap :=
        fun _ hobjects => extends_allocNested below inner hobjects
      have hextends := extends_allocMany hbelow level.length #[] h
      dsimp only at hmade
      cases hmany : allocMany (allocNested below inner) level.length #[] objects with
      | mk result middle =>
        rw [hmany] at hmade hextends
        cases result with
        | error cause =>
          obtain ⟨hfailed, -⟩ := Prod.mk.inj hmade
          contradiction
        | ok elements =>
          obtain ⟨roots, parts, hlength, rfl, hplanted⟩ := allocMany_plants hbelow
            (fun _ _ _ hobjects heq => ih hobjects heq) h hmany
          rw [Array.empty_append] at hmade
          obtain ⟨hfresh, hget, hlast⟩ := allocArray_of_ok hextends.sound hmade
          refine ⟨r :: parts.flatten, ?_, ?_, ?_, ?_⟩
          · exact ⟨roots, parts, hlength, hget,
              hplanted.trees.imp fun _ _ hpart => hpart.mono hlast.keeps, rfl⟩
          · -- the arrays below are on the heap by now, where the last one is fresh
            refine List.nodup_cons.mpr ⟨fun hmem => ?_, hplanted.nodup⟩
            obtain ⟨object, hlive⟩ := hplanted.live r hmem
            rw [hfresh] at hlive
            contradiction
          · refine List.forall_mem_cons.mpr ⟨?_, hplanted.fresh⟩
            rw [Option.eq_none_iff_forall_not_mem]
            intro object hold
            have hstill := hextends.keeps r object hold
            rw [show middle.heap.get? r = none from hfresh] at hstill
            contradiction
          · rw [List.length_cons, hplanted.count, hlength, Nat.add_comm]
            rfl

theorem allocNested_of_oversized (level : ArrayLevel) (inner : List ArrayLevel)
    (hbig : Oversized objects.heap.capacity.toNat ((level :: inner).map (·.length))) :
    allocNested level inner objects = (.error (.allocation .objectTooBig), objects) := by
  induction inner generalizing level with
  | nil =>
    unfold allocNested
    obtain hbig | ⟨-, hnone⟩ := oversized_cons.mp hbig
    · rw [Object.ensureFits_arraySize, if_neg (Nat.not_le.mpr hbig)]
      rfl
    · exact absurd hnone (not_oversized_nil _)
  | cons below inner ih =>
    unfold allocNested
    rw [Object.ensureFits_arraySize]
    obtain hbig | ⟨hpos, hbelow⟩ := oversized_cons.mp hbig
    · rw [if_neg (Nat.not_le.mpr hbig)]
      rfl
    · split
      · rename_i e hfits
        split at hfits
        · contradiction
        · rw [← Except.error.inj hfits]
          rfl
      · -- the first element is tried before any other, and nothing is made for it
        obtain ⟨n, hn⟩ := Nat.exists_eq_succ_of_ne_zero hpos
        simp only [hn, allocMany, ih below hbelow]

theorem allocArray_not_tooBig {level : ArrayLevel} {elements : Array (Option Ref)}
    (hfits : objects.heap.ensureFits (Object.arraySize elements.size) = .ok ()) {cause : Cause}
    (hfailed : (objects.allocArray level elements).1 = .error cause) :
    cause ≠ .allocation .objectTooBig := by
  unfold allocArray alloc at hfailed
  cases halloc : objects.heap.alloc (.arrayOf level.classId level.mirror elements) with
  | error e =>
    rw [halloc] at hfailed
    rintro rfl
    obtain rfl := Cause.allocation.inj (Except.error.inj hfailed)
    exact Heap.alloc_ne_objectTooBig hfits halloc
  | ok made =>
    rw [halloc] at hfailed
    contradiction

theorem allocMany_not_tooBig {make : ObjectHeap → Except Cause Ref × ObjectHeap}
    {capacity : UInt64}
    (hextends : ∀ objects : ObjectHeap, objects.heap.Sound →
      objects.heap.Extends (make objects).2.heap)
    (hmake : ∀ (objects : ObjectHeap) cause, objects.heap.Sound →
      objects.heap.capacity = capacity → (make objects).1 = .error cause →
      cause ≠ .allocation .objectTooBig)
    {n : Nat} {made : Array (Option Ref)} (h : objects.heap.Sound)
    (hcapacity : objects.heap.capacity = capacity) {cause : Cause}
    (hfailed : (allocMany make n made objects).1 = .error cause) :
    cause ≠ .allocation .objectTooBig := by
  induction n generalizing made objects with
  | zero => contradiction
  | succ n ih =>
    have hfirst := hextends objects h
    have hcause := fun cause => hmake objects cause h hcapacity
    unfold allocMany at hfailed
    generalize make objects = outcome at hfirst hcause hfailed
    obtain ⟨e | r, next⟩ := outcome
    · rw [← Except.error.inj hfailed]
      exact hcause e rfl
    · exact ih hfirst.sound (hfirst.capacity.trans hcapacity) hfailed

theorem ensureFits_of_not_oversized {heap : Heap Object} {length : Nat} {lengths : List Nat}
    (h : ¬ Oversized heap.capacity.toNat (length :: lengths)) :
    heap.ensureFits (Object.arraySize length) = .ok () := by
  rw [oversized_cons, not_or] at h
  rw [Object.ensureFits_arraySize, if_pos (Nat.not_lt.mp h.1)]

theorem allocNested_not_tooBig {level : ArrayLevel} {inner : List ArrayLevel}
    (h : objects.heap.Sound)
    (hfits : ¬ Oversized objects.heap.capacity.toNat ((level :: inner).map (·.length)))
    {cause : Cause} (hfailed : (allocNested level inner objects).1 = .error cause) :
    cause ≠ .allocation .objectTooBig := by
  induction inner generalizing level objects cause with
  | nil =>
    have hpasses := ensureFits_of_not_oversized hfits
    unfold allocNested at hfailed
    rw [hpasses] at hfailed
    refine allocArray_not_tooBig ?_ hfailed
    rw [Array.size_replicate]
    exact hpasses
  | cons below inner ih =>
    have hpasses := ensureFits_of_not_oversized hfits
    unfold allocNested at hfailed
    rw [hpasses] at hfailed
    have hbelow : ∀ objects : ObjectHeap, objects.heap.Sound →
        objects.heap.Extends (allocNested below inner objects).2.heap :=
      fun _ hobjects => extends_allocNested below inner hobjects
    have hmany := extends_allocMany hbelow level.length #[] h
    by_cases hzero : level.length = 0
    · simp only [hzero, allocMany] at hfailed
      refine allocArray_not_tooBig ?_ hfailed
      rw [Array.size_empty, ← hzero]
      exact hpasses
    · have hinner := fun hbig => hfits (oversized_cons.mpr (.inr ⟨hzero, hbig⟩))
      have hcause : ∀ cause,
          (allocMany (allocNested below inner) level.length #[] objects).1 = .error cause →
            cause ≠ .allocation .objectTooBig := by
        intro cause
        refine allocMany_not_tooBig hbelow (fun other cause hother hcapacity => ?_) h rfl
        exact ih hother (hcapacity ▸ hinner)
      dsimp only at hfailed
      cases hmade : allocMany (allocNested below inner) level.length #[] objects with
      | mk result middle =>
        rw [hmade] at hfailed hmany hcause
        cases result with
        | error e =>
          rw [← Except.error.inj hfailed]
          exact hcause e rfl
        | ok elements =>
          refine allocArray_not_tooBig ?_ hfailed
          rw [size_of_allocMany hmade, Array.size_empty, Nat.zero_add, Heap.ensureFits,
            hmany.capacity]
          exact hpasses

end ObjectHeap
end Metaspace
