import Metaspace.Proofs.Machine.Linkage

set_option autoImplicit false

namespace Metaspace

variable {σ : Type}

theorem getElem?_insert_eq {κ β : Type} [DecidableEq κ] [Ord κ] [Std.TransOrd κ]
    [Std.LawfulEqOrd κ] (t : Std.TreeMap κ β) (k : κ) (value : β) (j : κ) :
    (t.insert k value)[j]? = if j = k then some value else t[j]? := by
  simp only [Std.TreeMap.getElem?_insert, Std.LawfulEqOrd.compare_eq_iff_eq]
  by_cases hj : j = k
  · simp [hj]
  · simp [hj, Ne.symm hj]

/-- The object after a mirror was entered into the holder of a loader. -/
def Object.listing (l : LoaderId) (mirror : Ref) : Object → Object
  | .holderOf id mirrors => .holderOf id (if id = l then mirrors.push mirror else mirrors)
  | object => object

theorem Object.mem_refs_listing {object : Object} {l : LoaderId} {mirror r : Ref}
    (h : r ∈ (object.listing l mirror).refs) : r ∈ object.refs ∨ r = mirror := by
  cases object with
  | holderOf id mirrors =>
    change r ∈ (if id = l then mirrors.push mirror else mirrors).toList at h
    split at h
    · rw [Array.toList_push, List.mem_append, List.mem_singleton] at h
      exact h
    · exact Or.inl h
  | _ => exact Or.inl h

namespace ObjectHeap

variable {pending : Option LoaderId} {registry : Registry σ} {before after : ObjectHeap}

/-- An object heap that another one can have become by putting objects on it: nothing goes away,
mirrors stay as they are, and what gets marked or recorded is new. -/
structure Grows (before after : ObjectHeap) : Prop where
  live : ∀ r object, before.get? r = some object → ∃ object', after.get? r = some object'
  mirrors : ∀ r id loader component, before.get? r = some (.mirrorOf id loader component) →
    after.get? r = some (.mirrorOf id loader component)
  minted : ∀ id r, after.mirror? id = some r → before.mirror? id = some r ∨ before.get? r = none
  holders : ∀ l r, before.holder? l = some r → after.holder? l = some r
  enrolled : ∀ l r, after.holder? l = some r → before.holder? l = some r ∨ before.get? r = none
  marked : ∀ r, after.Marked r ↔
    before.Marked r ∨ before.get? r = none ∧ ∃ object, after.get? r = some object
  unswept : after.heap.unswept = before.heap.unswept

theorem Grows.refl (objects : ObjectHeap) : Grows objects objects where
  live _ object h := ⟨object, h⟩
  mirrors _ _ _ _ h := h
  minted _ _ h := .inl h
  holders _ _ h := h
  enrolled _ _ h := .inl h
  marked r := by
    refine (or_iff_left ?_).symm
    rintro ⟨hnone, object, hget⟩
    rw [hnone] at hget
    contradiction
  unswept := rfl

theorem Grows.get?_eq_none (h : Grows before after) {r : Ref} (hnone : after.get? r = none) :
    before.get? r = none := by
  refine Option.eq_none_iff_forall_ne_some.mpr fun object hget => ?_
  obtain ⟨object', hget'⟩ := h.live r object hget
  rw [hnone] at hget'
  contradiction

theorem Grows.trans {a b c : ObjectHeap} (hab : Grows a b) (hbc : Grows b c) : Grows a c where
  live r object hget := by
    obtain ⟨object', hget'⟩ := hab.live r object hget
    exact hbc.live r object' hget'
  mirrors r id loader component hget := hbc.mirrors r id loader component
    (hab.mirrors r id loader component hget)
  minted id r hmirror := by
    rcases hbc.minted id r hmirror with hmirror | hnone
    · exact hab.minted id r hmirror
    · exact .inr (hab.get?_eq_none hnone)
  holders l r hholder := hbc.holders l r (hab.holders l r hholder)
  enrolled l r hholder := by
    rcases hbc.enrolled l r hholder with hholder | hnone
    · exact hab.enrolled l r hholder
    · exact .inr (hab.get?_eq_none hnone)
  marked r := by
    rw [hbc.marked, hab.marked, or_assoc]
    refine or_congr_right ⟨?_, ?_⟩
    · rintro (⟨hnone, object, hget⟩ | ⟨hnone, hlast⟩)
      · exact ⟨hnone, hbc.live r object hget⟩
      · exact ⟨hab.get?_eq_none hnone, hlast⟩
    · rintro ⟨hnone, hlast⟩
      cases hget : b.get? r with
      | none => exact .inr ⟨rfl, hlast⟩
      | some object => exact .inl ⟨hnone, object, rfl⟩
  unswept := hbc.unswept.trans hab.unswept

theorem Grows.marked_of_marked (h : Grows before after) {r : Ref} (hr : before.Marked r) :
    after.Marked r :=
  (h.marked r).mpr (.inl hr)

theorem Grows.allMarked (h : Grows before after) (hall : before.heap.AllMarked) :
    after.heap.AllMarked := by
  intro r cell hcell
  have hafter : after.Marked r := by
    rw [h.marked]
    cases hget : before.get? r with
    | none => exact .inr ⟨rfl, _, Heap.get?_eq_some.mpr ⟨cell, hcell, rfl⟩⟩
    | some object => exact .inl (hall.isMarked (Heap.contains_of_get? hget))
  obtain ⟨cell', hcell', hflag⟩ := Heap.isMarked_iff.mp hafter
  rw [hcell, Option.some.injEq] at hcell'
  rw [hcell']
  exact hflag

theorem alloc_cases {objects : ObjectHeap} (h : objects.heap.Sound) (object : Object) :
    (∃ e, objects.alloc object = (.error e, objects)) ∨
    (∃ r heap, objects.alloc object = (.ok r, { objects with heap }) ∧
      objects.heap.Allocated object r heap) := by
  unfold alloc
  cases halloc : objects.heap.alloc object with
  | error e => exact Or.inl ⟨e, rfl⟩
  | ok outcome =>
    obtain ⟨r, heap⟩ := outcome
    exact Or.inr ⟨r, heap, rfl, h.alloc halloc⟩

theorem Grows.of_allocated {objects : ObjectHeap} {object : Object} {r : Ref} {heap : Heap Object}
    (h : objects.heap.Allocated object r heap) : Grows objects { objects with heap } where
  live _ other hget := ⟨other, h.get?_of_get? hget⟩
  mirrors _ _ _ _ hget := h.get?_of_get? hget
  minted _ _ hmirror := .inl hmirror
  holders _ _ hholder := hholder
  enrolled _ _ hholder := .inl hholder
  unswept := h.unswept
  marked x := by
    refine (h.isMarked x).trans (or_comm.trans (or_congr_right ⟨?_, ?_⟩))
    · rintro rfl
      exact ⟨h.get?_fresh, object, (h.get?_eq x).trans (if_pos rfl)⟩
    · rintro ⟨hnone, other, hget⟩
      rcases h.get?_cases hget with hold | ⟨hx, -⟩
      · have hnone' : objects.heap.get? x = none := hnone
        rw [hnone'] at hold
        contradiction
      · exact hx

theorem Linked.allocated {objects : ObjectHeap} (h : objects.Linked pending registry)
    {object : Object} {r : Ref} {heap : Heap Object}
    (halloc : objects.heap.Allocated object r heap) {id : ClassId}
    (hclass : object.class? = some id) (hfits : objects.Fits registry r object)
    (hrefs : ∀ r' ∈ object.refs, ∃ object', objects.get? r' = some object') :
    Linked pending registry { objects with heap } := by
  have hkeep : ∀ {x other}, objects.get? x = some other → heap.get? x = some other :=
    fun hget => halloc.get?_of_get? hget
  refine { h with
    fits := ?_
    closed := ?_
    mirrors := ?_
    holders := ?_
    frozen := ?_
    pending := ?_ }
  · intro x other hget
    rcases halloc.get?_cases hget with hget | ⟨rfl, rfl⟩
    · exact h.fits x other hget
    · exact hfits
  · intro x other hget r' hr'
    obtain ⟨object', hobject'⟩ : ∃ object', objects.get? r' = some object' := by
      rcases halloc.get?_cases hget with hget | ⟨-, rfl⟩
      · exact h.closed x other hget r' hr'
      · exact hrefs r' hr'
    exact ⟨object', hkeep hobject'⟩
  · intro k x hmirror
    obtain ⟨loader, component, hget⟩ := h.mirrors k x hmirror
    exact ⟨loader, component, hkeep hget⟩
  · intro l x hholder
    obtain ⟨hboot, hgraph, mirrors, hget⟩ := h.holders l x hholder
    exact ⟨hboot, hgraph, mirrors, hkeep hget⟩
  · intro x
    rw [show ({ objects with heap } : ObjectHeap).heap.frozen = objects.heap.frozen from
      halloc.frozen]
    exact h.frozen x
  · intro l hl
    exact { h.pending l hl with }

theorem mem_refs_store {object : Object} {index : Nat} {value : Option Ref} {r : Ref}
    (hr : r ∈ (object.store index value).refs) : r ∈ object.refs ∨ value = some r := by
  have hplaces : ∀ places : Array (Option Ref),
      r ∈ (places.setIfInBounds index value).toList.filterMap id →
        r ∈ places.toList.filterMap id ∨ value = some r := by
    intro places hmem
    obtain ⟨place, hplace, heq⟩ := List.mem_filterMap.mp hmem
    obtain rfl : place = some r := heq
    rw [Array.toList_setIfInBounds] at hplace
    rcases List.mem_or_eq_of_mem_set hplace with hold | hnew
    · exact Or.inl (List.mem_filterMap.mpr ⟨some r, hold, rfl⟩)
    · exact Or.inr hnew.symm
  cases object with
  | instanceOf id mirror fields =>
    rcases List.mem_cons.mp hr with rfl | hr
    · exact Or.inl List.mem_cons_self
    · exact (hplaces fields hr).imp_left (List.mem_cons_of_mem mirror)
  | arrayOf id mirror elements =>
    rcases List.mem_cons.mp hr with rfl | hr
    · exact Or.inl List.mem_cons_self
    · exact (hplaces elements hr).imp_left (List.mem_cons_of_mem mirror)
  | mirrorOf => exact Or.inl hr
  | holderOf => exact Or.inl hr

def storing (objects : ObjectHeap) (target : Ref) (index : Nat) (value : Option Ref) : ObjectHeap :=
  { objects with heap := objects.heap.modify target (·.store index value) }

theorem get?_storing (objects : ObjectHeap) (target : Ref) (index : Nat) (value : Option Ref)
    (r : Ref) : (objects.storing target index value).get? r =
      (objects.get? r).map fun object =>
        if r = target then object.store index value else object := by
  unfold get? storing
  rw [Heap.get?_modify]
  split
  · rename_i heq
    rw [heq]
  · rw [Option.map_id']

theorem Linked.storing {objects : ObjectHeap} (h : objects.Linked pending registry) (target : Ref)
    (index : Nat) {value : Option Ref}
    (hvalue : ∀ r, value = some r → ∃ object, objects.get? r = some object) :
    (objects.storing target index value).Linked pending registry := by
  have hkeep : ∀ {r object}, objects.get? r = some object →
      ∃ object', (objects.storing target index value).get? r = some object' := by
    intro r object hget
    rw [get?_storing, hget]
    exact ⟨_, rfl⟩
  have hmetadata : ∀ {r object}, objects.get? r = some object →
      object.store index value = object →
        (objects.storing target index value).get? r = some object := by
    intro r object hget hsame
    rw [get?_storing, hget, Option.map_some, hsame, ite_self]
  refine { h with
    fits := ?_
    closed := ?_
    mirrors := ?_
    holders := ?_
    pending := ?_ }
  · intro r object hget
    rw [get?_storing] at hget
    obtain ⟨old, hold, rfl⟩ := Option.map_eq_some_iff.mp hget
    have hfits := h.fits r old hold
    split
    · cases old <;> exact hfits
    · cases old <;> exact hfits
  · intro r object hget r' hr'
    rw [get?_storing] at hget
    obtain ⟨old, hold, rfl⟩ := Option.map_eq_some_iff.mp hget
    have hlive : ∃ object', objects.get? r' = some object' := by
      split at hr'
      · rcases mem_refs_store hr' with hr' | hstored
        · exact h.closed r old hold r' hr'
        · exact hvalue r' hstored
      · exact h.closed r old hold r' hr'
    obtain ⟨object', hobject'⟩ := hlive
    exact hkeep hobject'
  · intro id r hmirror
    obtain ⟨loader, component, hget⟩ := h.mirrors id r hmirror
    exact ⟨loader, component, hmetadata hget rfl⟩
  · intro l r hholder
    obtain ⟨hboot, hgraph, mirrors, hget⟩ := h.holders l r hholder
    exact ⟨hboot, hgraph, mirrors, hmetadata hget rfl⟩
  · intro l hl
    exact { h.pending l hl with }

structure Mirrors (before : ObjectHeap) (c : ClassDescriptor) (component : Option Ref) (r : Ref)
    (after : ObjectHeap) : Prop where
  fresh : before.get? r = none
  get?_eq : ∀ x, after.get? x =
    if x = r then some (.mirrorOf c.id (before.holder? c.loader) component)
    else (before.get? x).map (.listing c.loader r)
  mirror?_eq : ∀ id, after.mirror? id = if id = c.id then some r else before.mirror? id
  holder?_eq : ∀ id, after.holder? id = before.holder? id
  mem_frozen : ∀ x, x ∈ after.heap.frozen ↔
    c.loader = Registry.bootLoader ∧ x = r ∨ x ∈ before.heap.frozen
  marked : ∀ x, after.Marked x ↔ x = r ∨ before.Marked x
  unswept : after.heap.unswept = before.heap.unswept
  roots : after.roots = before.roots

section Mirrors

variable {c : ClassDescriptor} {component : Option Ref} {r : Ref}

theorem Mirrors.get?_of_get? (h : Mirrors before c component r after) {x : Ref} {object : Object}
    (hget : before.get? x = some object) :
    after.get? x = some (object.listing c.loader r) := by
  have hne : x ≠ r := by
    rintro rfl
    rw [h.fresh] at hget
    contradiction
  rw [h.get?_eq, if_neg hne, hget]
  rfl

theorem Mirrors.mirror?_of_mirror? (h : Mirrors before c component r after)
    (hnone : before.mirror? c.id = none) {id : ClassId} {x : Ref}
    (hmirror : before.mirror? id = some x) : after.mirror? id = some x := by
  have hne : id ≠ c.id := by
    rintro rfl
    rw [hnone] at hmirror
    contradiction
  rw [h.mirror?_eq, if_neg hne]
  exact hmirror

theorem Mirrors.grows (h : Mirrors before c component r after) : Grows before after where
  live _ _ hget := ⟨_, h.get?_of_get? hget⟩
  mirrors _ _ _ _ hget := h.get?_of_get? hget
  minted id x hmirror := by
    rw [h.mirror?_eq] at hmirror
    split at hmirror
    · exact .inr (Option.some.inj hmirror ▸ h.fresh)
    · exact .inl hmirror
  holders l x hholder := (h.holder?_eq l).trans hholder
  enrolled l x hholder := .inl ((h.holder?_eq l).symm.trans hholder)
  unswept := h.unswept
  marked x := by
    refine (h.marked x).trans (or_comm.trans (or_congr_right ⟨?_, ?_⟩))
    · rintro rfl
      exact ⟨h.fresh, _, (h.get?_eq x).trans (if_pos rfl)⟩
    · rintro ⟨hgone, object, hget⟩
      by_contra hne
      rw [h.get?_eq, if_neg hne, hgone] at hget
      contradiction

theorem Mirrors.component_eq (h : Mirrors before c component r after)
    (hnone : before.mirror? c.id = none) {d : ClassDescriptor} {k : Option Ref}
    (hk : k = d.component?.bind before.mirror?) (hsome : k.isSome = d.isArray) :
    k = d.component?.bind after.mirror? := by
  cases hd : d.component? with
  | none =>
    rw [hd] at hk
    exact hk
  | some id =>
    rw [hd] at hk
    have harray : d.isArray = true := by
      unfold ClassDescriptor.component? at hd
      unfold ClassDescriptor.isArray
      rw [← Option.isSome_map, hd]
      rfl
    rw [harray] at hsome
    obtain ⟨x, rfl⟩ := Option.isSome_iff_exists.mp hsome
    exact (h.mirror?_of_mirror? hnone hk.symm).symm

theorem Linked.mirrors_fits (h : before.Linked pending registry)
    (hmade : Mirrors before c component r after) (hget : registry.get? c.id = some c)
    (hnone : before.mirror? c.id = none) (hcomponent : component = c.component?.bind before.mirror?)
    (hsome : component.isSome = c.isArray) {x : Ref} {object : Object}
    (hobject : after.get? x = some object) : after.Fits registry x object := by
  rw [hmade.get?_eq] at hobject
  split at hobject
  · rename_i hx
    obtain rfl := Option.some.inj hobject
    refine ⟨by rw [hmade.mirror?_eq, if_pos rfl, hx], c, hget, (hmade.holder?_eq _).symm, ?_, hsome⟩
    exact hmade.component_eq hnone hcomponent hsome
  · obtain ⟨old, hold, rfl⟩ := Option.map_eq_some_iff.mp hobject
    have hfits := h.fits x old hold
    cases old with
    | instanceOf id mirror fields => exact ⟨hfits.1, hmade.mirror?_of_mirror? hnone hfits.2⟩
    | arrayOf id mirror elements => exact ⟨hfits.1, hmade.mirror?_of_mirror? hnone hfits.2⟩
    | mirrorOf id loader k =>
      obtain ⟨hmirror, d, hd, hloader, hk, hksome⟩ := hfits
      refine ⟨hmade.mirror?_of_mirror? hnone hmirror, d, hd, ?_, ?_, hksome⟩
      · rw [hmade.holder?_eq]
        exact hloader
      · exact hmade.component_eq hnone hk hksome
    | holderOf id mirrors =>
      obtain ⟨hholder, hnodup, hmem⟩ := hfits
      have hunlisted : r ∉ mirrors.toList := by
        intro hlisted
        obtain ⟨object', hobject'⟩ := h.closed x _ hold r hlisted
        rw [hmade.fresh] at hobject'
        contradiction
      refine ⟨by rw [hmade.holder?_eq]; exact hholder, ?_, ?_⟩
      · split
        · rw [Array.toList_push]
          exact List.nodup_append.mpr ⟨hnodup, List.nodup_singleton r, fun a ha b hb hab =>
            hunlisted (List.mem_singleton.mp hb ▸ hab ▸ ha)⟩
        · exact hnodup
      · intro y
        have hlisted : y ∈ (if id = c.loader then mirrors.push r else mirrors).toList ↔
            (id = c.loader ∧ y = r) ∨ y ∈ mirrors.toList := by
          split
          · rename_i hid
            rw [Array.toList_push, List.mem_append, List.mem_singleton]
            simp [hid, or_comm]
          · rename_i hid
            simp [hid]
        rw [hlisted, hmem]
        constructor
        · rintro (⟨rfl, rfl⟩ | ⟨k, d, hmirror, hd, hloader⟩)
          · exact ⟨c.id, c, by rw [hmade.mirror?_eq, if_pos rfl], hget, rfl⟩
          · exact ⟨k, d, hmade.mirror?_of_mirror? hnone hmirror, hd, hloader⟩
        · rintro ⟨k, d, hmirror, hd, hloader⟩
          rw [hmade.mirror?_eq] at hmirror
          split at hmirror
          · rename_i hk
            rw [hk, hget, Option.some.injEq] at hd
            subst hd
            exact Or.inl ⟨hloader.symm, (Option.some.inj hmirror).symm⟩
          · exact Or.inr ⟨k, d, hmirror, hd, hloader⟩

theorem Linked.mirrors_closed (h : before.Linked pending registry)
    (hmade : Mirrors before c component r after)
    (hcomponent : component = c.component?.bind before.mirror?) {x : Ref} {object : Object}
    (hobject : after.get? x = some object) {y : Ref} (hy : y ∈ object.refs) :
    ∃ object', after.get? y = some object' := by
  have hnew : ∃ object', after.get? r = some object' := ⟨_, by rw [hmade.get?_eq, if_pos rfl]⟩
  rw [hmade.get?_eq] at hobject
  split at hobject
  · obtain rfl := Option.some.inj hobject
    have hlive : ∃ object', before.get? y = some object' := by
      rcases List.mem_append.mp hy with hy | hy
      · obtain ⟨-, -, mirrors, hholder⟩ := h.holders c.loader y (Option.mem_toList.mp hy)
        exact ⟨_, hholder⟩
      · have hk := Option.mem_toList.mp hy
        rw [hcomponent, Option.bind_eq_some_iff] at hk
        obtain ⟨k, -, hmirror⟩ := hk
        obtain ⟨_, _, hget⟩ := h.mirrors k y hmirror
        exact ⟨_, hget⟩
    obtain ⟨object', hobject'⟩ := hlive
    exact ⟨_, hmade.get?_of_get? hobject'⟩
  · obtain ⟨old, hold, rfl⟩ := Option.map_eq_some_iff.mp hobject
    rcases Object.mem_refs_listing hy with hy | rfl
    · obtain ⟨object', hobject'⟩ := h.closed x old hold y hy
      exact ⟨_, hmade.get?_of_get? hobject'⟩
    · exact hnew

theorem Linked.mirrored (h : before.Linked pending registry)
    (hmade : Mirrors before c component r after) (hget : registry.get? c.id = some c)
    (hnone : before.mirror? c.id = none) (hcomponent : component = c.component?.bind before.mirror?)
    (hsome : component.isSome = c.isArray) : after.Linked pending registry where
  coherent := h.coherent
  kindred := h.kindred
  fits _ _ hobject := h.mirrors_fits hmade hget hnone hcomponent hsome hobject
  closed _ _ hobject _ hy := h.mirrors_closed hmade hcomponent hobject hy
  mirrors id x hmirror := by
    rw [hmade.mirror?_eq] at hmirror
    split at hmirror
    · rename_i hid
      obtain rfl := Option.some.inj hmirror
      exact ⟨_, _, by rw [hmade.get?_eq, if_pos rfl, hid]⟩
    · obtain ⟨loader, k, hobject⟩ := h.mirrors id x hmirror
      exact ⟨loader, k, hmade.get?_of_get? hobject⟩
  holders id x hholder := by
    rw [hmade.holder?_eq] at hholder
    obtain ⟨hboot, hgraph, mirrors, hobject⟩ := h.holders id x hholder
    exact ⟨hboot, hgraph, _, hmade.get?_of_get? hobject⟩
  frozen x := by
    rw [hmade.mem_frozen, h.frozen]
    constructor
    · rintro (⟨hboot, rfl⟩ | ⟨id, d, hmirror, hd, hboot⟩)
      · exact ⟨c.id, c, by rw [hmade.mirror?_eq, if_pos rfl], hget, hboot⟩
      · exact ⟨id, d, hmade.mirror?_of_mirror? hnone hmirror, hd, hboot⟩
    · rintro ⟨id, d, hmirror, hd, hboot⟩
      rw [hmade.mirror?_eq] at hmirror
      split at hmirror
      · rename_i hid
        rw [hid, hget, Option.some.injEq] at hd
        subst hd
        exact Or.inl ⟨hboot, (Option.some.inj hmirror).symm⟩
      · exact Or.inr ⟨id, d, hmirror, hd, hboot⟩
  held l hl := by
    simp only [hmade.holder?_eq]
    exact h.held l hl
  pending id hid :=
    { h.pending id hid with
      unheld := by
        rw [hmade.holder?_eq]
        exact (h.pending id hid).unheld }

end Mirrors

theorem hold_heap (objects : ObjectHeap) (holder mirror : Ref) :
    (objects.hold holder mirror).heap = objects.heap.modify holder fun object =>
      match object with
      | .holderOf loader mirrors => .holderOf loader (mirrors.push mirror)
      | object => object := rfl

theorem sound_pin {objects : ObjectHeap} (h : objects.heap.Sound) (r : Ref) :
    (objects.pin r).heap.Sound := by
  simp only [pin, Heap.freeze]
  by_cases hfrozen : objects.heap.frozen.contains r = true
  · simp only [hfrozen, if_true]
    exact h
  · simp only [hfrozen]
    exact { h with }

theorem Linked.frozen_live (h : before.Linked pending registry) {r : Ref}
    (hr : r ∈ before.heap.frozen) : ∃ object, before.get? r = some object := by
  obtain ⟨id, c, hmirror, -⟩ := (h.frozen r).mp hr
  obtain ⟨loader, component, hget⟩ := h.mirrors id r hmirror
  exact ⟨_, hget⟩

theorem Linked.not_holder (h : before.Linked pending registry) {l : LoaderId} {x : Ref}
    {object : Object} (hx : before.holder? l ≠ some x) (hobject : before.get? x = some object)
    (r : Ref) : object.listing l r = object := by
  cases object with
  | holderOf id mirrors =>
    have hne : id ≠ l := by
      rintro rfl
      exact hx (h.fits x _ hobject).1
    simp [Object.listing, hne]
  | _ => rfl

section Made

variable {c : ClassDescriptor} {component : Option Ref} {r : Ref} {heap : Heap Object}

theorem Linked.mirrors_pinned (h : before.Linked pending registry)
    (halloc : before.heap.Allocated (.mirrorOf c.id (before.holder? c.loader) component) r heap)
    (hholder : before.holder? c.loader = none) (hboot : c.loader = Registry.bootLoader) :
    Mirrors before c component r
      (pin { before with heap, mirrors := before.mirrors.insert c.id r } r) := by
  have hunfrozen : heap.frozen.contains r = false := by
    rw [halloc.frozen, Bool.eq_false_iff]
    intro hfrozen
    obtain ⟨object, hobject⟩ := h.frozen_live (List.contains_iff_mem.mp hfrozen)
    have hfresh : before.get? r = none := halloc.get?_fresh
    rw [hfresh] at hobject
    contradiction
  have hpinned : pin { before with heap, mirrors := before.mirrors.insert c.id r } r =
      { before with
        heap := { heap with frozen := r :: heap.frozen }
        mirrors := before.mirrors.insert c.id r } := by
    simp only [pin, Heap.freeze, hunfrozen]
    rfl
  rw [hpinned]
  refine ⟨halloc.get?_fresh, ?_, getElem?_insert_eq before.mirrors c.id r, fun _ => rfl, ?_,
    halloc.isMarked, halloc.unswept, rfl⟩
  · intro x
    show heap.get? x = _
    rw [halloc.get?_eq, hholder]
    split
    · rfl
    · show before.get? x = _
      cases hx : before.get? x with
      | none => rfl
      | some object =>
        have hother : before.holder? c.loader ≠ some x := by
          rw [hholder]
          exact (Option.some_ne_none x).symm
        rw [Option.map_some, h.not_holder hother hx]
  · intro x
    rw [List.mem_cons, halloc.frozen]
    simp [hboot]

theorem Linked.mirrors_held (h : before.Linked pending registry)
    (halloc : before.heap.Allocated (.mirrorOf c.id (before.holder? c.loader) component) r heap)
    {holder : Ref} (hholder : before.holder? c.loader = some holder) :
    Mirrors before c component r
      (hold { before with heap, mirrors := before.mirrors.insert c.id r } holder r) := by
  obtain ⟨hboot, -, mirrors, hheld⟩ := h.holders c.loader holder hholder
  have hne : holder ≠ r := by
    rintro rfl
    have hfresh : before.get? holder = none := halloc.get?_fresh
    rw [hfresh] at hheld
    contradiction
  refine ⟨halloc.get?_fresh, ?_, getElem?_insert_eq before.mirrors c.id r, fun _ => rfl, ?_, ?_,
    ?_, rfl⟩
  · intro x
    rw [get?, hold_heap, Heap.get?_modify, halloc.get?_eq, halloc.get?_eq, if_neg hne, hholder]
    by_cases hx : x = holder
    · subst hx
      rw [if_pos rfl, if_neg hne]
      show (before.get? x).map _ = (before.get? x).map _
      rw [hheld]
      simp [Object.listing]
    · rw [if_neg hx]
      split
      · rfl
      · show before.get? x = _
        cases hobject : before.get? x with
        | none => rfl
        | some object =>
          have hother : before.holder? c.loader ≠ some x := by
            rw [hholder]
            exact fun heq => hx (Option.some.inj heq).symm
          rw [Option.map_some, h.not_holder hother hobject]
  · intro x
    show x ∈ heap.frozen ↔ _
    rw [halloc.frozen]
    simp [hboot]
  · intro x
    rw [Marked, hold_heap, Heap.isMarked_modify]
    exact halloc.isMarked x
  · rw [hold_heap]
    exact halloc.unswept

end Made

theorem makeMirror_cases (h : before.Linked pending registry) (hsound : before.heap.Sound)
    {c : ClassDescriptor} (hget : registry.get? c.id = some c) (component : Option Ref) :
    (∃ e, before.makeMirror c component = (.error (.allocation e), before)) ∨
    (∃ r after, before.makeMirror c component = (.ok r, after) ∧ after.heap.Sound ∧
      Mirrors before c component r after) := by
  unfold makeMirror
  rcases alloc_cases hsound (.mirrorOf c.id (before.holder? c.loader) component) with
    ⟨e, heq⟩ | ⟨r, heap, heq, halloc⟩
  · left
    simp only [heq]
    exact ⟨e, rfl⟩
  · right
    have hafter := halloc.sound hsound
    simp only [heq]
    cases hholder : before.holder? c.loader with
    | none =>
      have hboot := (h.holder?_eq_none_iff hget).mp hholder
      refine ⟨r, _, rfl, ?_, ?_⟩
      · rw [if_pos hboot]
        exact sound_pin hafter r
      · rw [if_pos hboot]
        exact h.mirrors_pinned halloc hholder hboot
    | some holder =>
      refine ⟨r, _, rfl, ?_, h.mirrors_held halloc hholder⟩
      rw [hold_heap]
      exact hafter.modify holder _

end ObjectHeap
end Metaspace
