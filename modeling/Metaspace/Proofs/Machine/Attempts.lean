import Metaspace.Machine.Instances
import Metaspace.Proofs.Machine.Shading

set_option autoImplicit false

namespace Metaspace.ObjectHeap

variable {σ : Type} {pending : Option LoaderId} {registry : Registry σ} {before : ObjectHeap}

/-- What an attempt comes to. With its success the pending loader may become a finished one. -/
structure Lands (pending settled : Option LoaderId) (registry : Registry σ) (before : ObjectHeap)
    (made : Object → Prop) (outcome : Except Cause Ref × ObjectHeap) : Prop where
  roots : outcome.2.roots = before.roots
  grows : Grows before outcome.2
  error : ∀ cause, outcome.1 = .error cause → outcome.2.Intact pending registry
  ok : ∀ r, outcome.1 = .ok r → outcome.2.Intact settled registry ∧
    ∃ object, outcome.2.get? r = some object ∧ made object ∧ outcome.2.Marked r

theorem Lands.of_error (h : before.Intact pending registry) (settled : Option LoaderId)
    (made : Object → Prop) (cause : Cause) :
    Lands pending settled registry before made (.error cause, before) where
  roots := rfl
  grows := .refl before
  error _ _ := h
  ok r hr := by contradiction

theorem Lands.of_ok {settled : Option LoaderId} {made : Object → Prop} {after : ObjectHeap}
    (hgrows : Grows before after) (hroots : after.roots = before.roots)
    (h : after.Intact settled registry) {r : Ref} {object : Object}
    (hget : after.get? r = some object) (hmade : made object) (hmarked : after.Marked r) :
    Lands pending settled registry before made (.ok r, after) where
  roots := hroots
  grows := hgrows
  error cause hcause := by contradiction
  ok r' hr' := by
    obtain rfl := Except.ok.inj hr'
    exact ⟨h, object, hget, hmade, hmarked⟩

theorem Lands.after {settled : Option LoaderId} {made : Object → Prop}
    {earlier : ObjectHeap} {outcome : Except Cause Ref × ObjectHeap}
    (h : Lands pending settled registry before made outcome)
    (hroots : before.roots = earlier.roots) (hgrows : Grows earlier before) :
    Lands pending settled registry earlier made outcome where
  roots := h.roots.trans hroots
  grows := hgrows.trans h.grows
  error := h.error
  ok := h.ok

theorem Lands.weaken {settled : Option LoaderId} {made made' : Object → Prop}
    {outcome : Except Cause Ref × ObjectHeap}
    (h : Lands pending settled registry before made outcome)
    (himp : ∀ object, made object → made' object) :
    Lands pending settled registry before made' outcome where
  roots := h.roots
  grows := h.grows
  error := h.error
  ok r hr := by
    obtain ⟨hintact, object, hget, hmade, hmarked⟩ := h.ok r hr
    exact ⟨hintact, object, hget, himp object hmade, hmarked⟩

def IsMirror (id : ClassId) (object : Object) : Prop :=
  ∃ loader component, object = .mirrorOf id loader component

theorem currentMirror_cases (h : before.Linked pending registry) {c : ClassDescriptor}
    (hget : registry.get? c.id = some c) :
    (before.mirror? c.id = none ∧ before.currentMirror registry c = .ok none) ∨
    ∃ r, before.mirror? c.id = some r ∧
      (before.Marked r ∧ before.currentMirror registry c = .ok (some r) ∨
        before.currentMirror registry c = .error (.classError (.classUnloaded c.name))) := by
  have hcontains : registry.contains c.id = true := Option.isSome_iff_exists.mpr ⟨c, hget⟩
  unfold currentMirror
  cases hmirror : before.mirror? c.id with
  | none => exact .inl ⟨rfl, by simp [hcontains]⟩
  | some r =>
    obtain ⟨loader, component, hobject⟩ := h.mirrors c.id r hmirror
    have hlive : before.heap.contains r = true := Heap.contains_of_get? hobject
    refine .inr ⟨r, rfl, ?_⟩
    cases hmarked : before.heap.isMarked r with
    | true => exact .inl ⟨hmarked, by simp [hcontains, Option.filter_some, hlive, hmarked]⟩
    | false => exact .inr (by simp [hcontains, Option.filter_some, hlive, hmarked])

theorem makeMirror_lands (h : before.Intact pending registry)
    {c : ClassDescriptor} (hget : registry.get? c.id = some c)
    (hnone : before.mirror? c.id = none) (component : Option Ref)
    (hcomponent : component = c.component?.bind before.mirror?)
    (hsome : component.isSome = c.isArray) (hmarked : ∀ k, component = some k → before.Marked k) :
    Lands pending pending registry before (IsMirror c.id) (before.makeMirror c component) ∧
      ∀ id, c.id < id → (before.makeMirror c component).2.mirror? id = before.mirror? id := by
  rcases makeMirror_cases h.linked h.sound hget component with
    ⟨e, heq⟩ | ⟨r, after, heq, hsound, hmade⟩
  · rw [heq]
    exact ⟨.of_error h _ _ _, fun _ _ => rfl⟩
  · rw [heq]
    refine ⟨.of_ok hmade.grows hmade.roots
      (h.mirrored hsound hmade hget hnone hcomponent hsome hmarked)
      ((hmade.get?_eq r).trans (if_pos rfl)) ⟨_, _, rfl⟩ ((hmade.marked r).mpr (.inl rfl)), ?_⟩
    · intro id hlt
      have hne : id ≠ c.id := by
        rintro rfl
        exact Nat.lt_irrefl _ hlt
      rw [hmade.mirror?_eq, if_neg hne]

theorem recorded_lands (h : before.Intact pending registry) {c : ClassDescriptor} {r : Ref}
    (hmirror : before.mirror? c.id = some r)
    (hcurrent : before.Marked r ∧ before.currentMirror registry c = .ok (some r) ∨
      before.currentMirror registry c = .error (.classError (.classUnloaded c.name)))
    (components : List ClassDescriptor) :
    Lands pending pending registry before (IsMirror c.id)
        (ensureMirror registry c components before) ∧
      ∀ id, c.id < id →
        (ensureMirror registry c components before).2.mirror? id = before.mirror? id := by
  unfold ensureMirror
  rcases hcurrent with ⟨hmarked, hcurrent⟩ | hcurrent
  · obtain ⟨loader, component, hobject⟩ := h.linked.mirrors c.id r hmirror
    rw [hcurrent]
    exact ⟨.of_ok (.refl _) rfl h hobject ⟨_, _, rfl⟩ hmarked, fun _ _ => rfl⟩
  · rw [hcurrent]
    exact ⟨.of_error h _ _ _, fun _ _ => rfl⟩

theorem ensureMirror_lands (h : before.Intact pending registry)
    {c : ClassDescriptor} (hget : registry.get? c.id = some c) {components : List ClassDescriptor}
    (hchain : registry.Chain c components) :
    Lands pending pending registry before (IsMirror c.id)
        (ensureMirror registry c components before) ∧
      ∀ id, c.id < id →
        (ensureMirror registry c components before).2.mirror? id = before.mirror? id := by
  induction components generalizing c with
  | nil =>
    rcases currentMirror_cases h.linked hget with ⟨hmirror, hcurrent⟩ | ⟨r, hmirror, hcurrent⟩
    · have hnone : c.component? = none := hchain
      unfold ensureMirror
      rw [hcurrent]
      refine makeMirror_lands h hget hmirror none ?_ ?_ (fun k hk => by contradiction)
      · rw [hnone]
        rfl
      · rw [Registry.isArray_eq_isSome_component?, hnone]
        rfl
    · exact recorded_lands h hmirror hcurrent _
  | cons d ds ih =>
    obtain ⟨hof, hgetd, holder, htail⟩ := hchain
    rcases currentMirror_cases h.linked hget with ⟨hmirror, hcurrent⟩ | ⟨r, hmirror, hcurrent⟩
    · obtain ⟨hlands, hothers⟩ := ih hgetd htail
      unfold ensureMirror
      rw [hcurrent]
      dsimp only
      generalize ensureMirror registry d ds before = outcome at hlands hothers ⊢
      obtain ⟨result, objects⟩ := outcome
      have hsame : ∀ id, d.id < id → objects.mirror? id = before.mirror? id := hothers
      cases result with
      | error cause =>
        refine ⟨⟨hlands.roots, hlands.grows, hlands.error, fun r hr => by contradiction⟩, ?_⟩
        intro id hlt
        exact hsame id (Nat.lt_trans holder hlt)
      | ok r =>
        obtain ⟨hintact, _, hobject, ⟨loader, component, rfl⟩, hmarked⟩ := hlands.ok r rfl
        have hmade : objects.mirror? d.id = some r := (hintact.linked.fits r _ hobject).1
        have hnone : objects.mirror? c.id = none := by
          rw [hsame c.id holder]
          exact hmirror
        obtain ⟨hmirrored, hrest⟩ := makeMirror_lands hintact hget hnone
          (some r) (by rw [hof]; exact hmade.symm)
          (by rw [Registry.isArray_eq_isSome_component?, hof]; rfl)
          (fun k hk => Option.some.inj hk ▸ hmarked)
        refine ⟨hmirrored.after hlands.roots hlands.grows, ?_⟩
        intro id hlt
        exact (hrest id hlt).trans (hsame id (Nat.lt_trans holder hlt))
    · exact recorded_lands h hmirror hcurrent _

theorem ensureMirror_of_gone {c : ClassDescriptor} (hget : registry.get? c.id = none)
    (components : List ClassDescriptor) :
    ensureMirror registry c components before =
      (.error (.classError (.classUnloaded c.name)), before) := by
  have hcontains : registry.contains c.id = false := by
    rw [← Option.isNone_iff_eq_none] at hget
    unfold Registry.contains IdTable.contains
    rw [← Option.not_isNone]
    exact congrArg _ hget
  unfold ensureMirror currentMirror
  simp [hcontains]

theorem mirror_lands (h : before.Intact pending registry)
    {c : ClassDescriptor} (hsame : ∀ d, registry.get? c.id = some d → d = c) :
    Lands pending pending registry before (IsMirror c.id)
      (ensureMirror registry c (registry.components c) before) := by
  cases hget : registry.get? c.id with
  | none =>
    rw [ensureMirror_of_gone hget]
    exact .of_error h _ _ _
  | some d =>
    obtain rfl := hsame d hget
    exact (ensureMirror_lands h hget (h.linked.coherent.chain_components hget)).1

theorem Linked.holding {id : LoaderId} (h : before.Linked (some id) registry) {r : Ref}
    {heap : Heap Object} (halloc : before.heap.Allocated (.holderOf id #[]) r heap) :
    Linked none registry { before with heap, holders := before.holders.insert id r } := by
  have hpending := h.pending id rfl
  have hkeep : ∀ {x object}, before.get? x = some object → heap.get? x = some object :=
    fun hget => halloc.get?_of_get? hget
  have hholder : ∀ l, (before.holders.insert id r)[l]? =
      if l = id then some r else before.holder? l := getElem?_insert_eq before.holders id r
  have hother : ∀ {l x}, before.holder? l = some x → l ≠ id := by
    intro l x hl heq
    rw [heq, hpending.unheld] at hl
    contradiction
  constructor
  case coherent => exact h.coherent
  case kindred => exact h.kindred
  case fits =>
    intro x object hget
    rcases halloc.get?_cases hget with hget | ⟨rfl, rfl⟩
    · have hfits := h.fits x object hget
      cases object with
      | instanceOf k mirror fields => exact hfits
      | arrayOf k mirror elements => exact hfits
      | mirrorOf k loader component =>
        obtain ⟨hmirror, c, hc, hloader, hrest⟩ := hfits
        refine ⟨hmirror, c, hc, ?_, hrest⟩
        have hne := hpending.unused c (h.coherent.mem_registered_of_get? hc)
        exact hloader.trans ((hholder c.loader).trans (if_neg hne)).symm
      | holderOf l mirrors =>
        obtain ⟨hl, hrest⟩ := hfits
        exact ⟨(hholder l).trans ((if_neg (hother hl)).trans hl), hrest⟩
    · refine ⟨(hholder id).trans (if_pos rfl), List.nodup_nil, ?_⟩
      intro y
      constructor
      · intro hy
        contradiction
      · rintro ⟨k, c, -, hc, hloader⟩
        exact absurd hloader (hpending.unused c (h.coherent.mem_registered_of_get? hc))
  case closed =>
    intro x object hget y hy
    rcases halloc.get?_cases hget with hget | ⟨-, rfl⟩
    · obtain ⟨object', hobject'⟩ := h.closed x object hget y hy
      exact ⟨object', hkeep hobject'⟩
    · contradiction
  case mirrors =>
    intro k x hmirror
    obtain ⟨loader, component, hget⟩ := h.mirrors k x hmirror
    exact ⟨loader, component, hkeep hget⟩
  case holders =>
    intro l x hl
    have hl' := (hholder l).symm.trans hl
    split at hl'
    · rename_i heq
      subst heq
      obtain rfl := Option.some.inj hl'
      exact ⟨hpending.not_boot, hpending.mem_graph, #[], by
        rw [get?, halloc.get?_eq, if_pos rfl]⟩
    · obtain ⟨hboot, hgraph, mirrors, hget⟩ := h.holders l x hl'
      exact ⟨hboot, hgraph, mirrors, hkeep hget⟩
  case frozen =>
    intro x
    rw [show x ∈ heap.frozen ↔ x ∈ before.heap.frozen by rw [halloc.frozen]]
    exact h.frozen x
  case held =>
    intro l hl
    rcases h.held l hl with hboot | heq | ⟨x, hx⟩
    · exact Or.inl hboot
    · obtain rfl := Option.some.inj heq
      exact Or.inr (Or.inr ⟨r, (hholder _).trans (if_pos rfl)⟩)
    · exact Or.inr (Or.inr ⟨x, (hholder _).trans ((if_neg (hother hx)).trans hx)⟩)
  case pending =>
    intro l hl
    contradiction

theorem holder_lands {id : LoaderId} (h : before.Intact (some id) registry) :
    Lands (some id) none registry before (· = .holderOf id #[]) (before.makeHolder id) := by
  have hpending := h.linked.pending id rfl
  unfold makeHolder
  rcases alloc_cases h.sound (.holderOf id #[]) with ⟨e, heq⟩ | ⟨r, heap, heq, halloc⟩
  · rw [heq]
    exact .of_error h _ _ _
  · rw [heq]
    have hgrows : Grows before { before with heap, holders := before.holders.insert id r } :=
      { Grows.of_allocated halloc with
        holders := by
          intro l x hholder
          refine (getElem?_insert_eq before.holders id r l).trans ((if_neg ?_).trans hholder)
          rintro rfl
          rw [hpending.unheld] at hholder
          contradiction
        enrolled := by
          intro l x hholder
          have hholder' := (getElem?_insert_eq before.holders id r l).symm.trans hholder
          split at hholder'
          · obtain rfl := Option.some.inj hholder'
            exact .inr halloc.get?_fresh
          · exact .inl hholder' }
    have hintact : Intact none registry
        { before with heap, holders := before.holders.insert id r } :=
      { linked := h.linked.holding halloc
        sound := halloc.sound h.sound
        shaded := { h.shaded.allocated halloc (fun x hx => by contradiction) with } }
    exact .of_ok hgrows rfl hintact ((halloc.get?_eq r).trans (if_pos rfl)) rfl
      ((halloc.isMarked r).mpr (.inl rfl))

/-- The mirrors that some levels of nested arrays need are there and marked. -/
def Ready (levels : List ArrayLevel) (objects : ObjectHeap) : Prop :=
  ∀ level ∈ levels, objects.Marked level.mirror ∧ ∃ loader component,
    objects.get? level.mirror = some (.mirrorOf level.classId loader component)

theorem Ready.grows {levels : List ArrayLevel} {after : ObjectHeap} (h : Ready levels before)
    (hgrows : Grows before after) : Ready levels after := by
  intro level hlevel
  obtain ⟨hmarked, loader, component, hget⟩ := h level hlevel
  exact ⟨hgrows.marked_of_marked hmarked, loader, component, hgrows.mirrors _ _ _ _ hget⟩

theorem Linked.fits_of_mirror (h : before.Linked pending registry) {mirror : Ref} {id : ClassId}
    {loader component : Option Ref}
    (hget : before.get? mirror = some (.mirrorOf id loader component)) :
    registry.contains id = true ∧ before.mirror? id = some mirror := by
  obtain ⟨hmirror, c, hc, -⟩ := h.fits mirror _ hget
  exact ⟨Option.isSome_iff_exists.mpr ⟨c, hc⟩, hmirror⟩

theorem alloc_lands (h : before.Intact pending registry)
    (object : Object) {id : ClassId} (hclass : object.class? = some id)
    (hfits : ∀ r, before.Fits registry r object)
    (hrefs : ∀ r ∈ object.refs, before.Marked r) :
    (∃ e, before.alloc object = (.error e, before)) ∨
    (∃ r after, before.alloc object = (.ok r, after) ∧
      Lands pending pending registry before (· = object) (.ok r, after)) := by
  rcases alloc_cases h.sound object with ⟨e, heq⟩ | ⟨r, heap, heq, halloc⟩
  · exact Or.inl ⟨e, heq⟩
  · exact Or.inr ⟨r, _, heq, .of_ok (.of_allocated halloc) rfl
      (h.allocated halloc hclass (hfits r) hrefs) ((halloc.get?_eq r).trans (if_pos rfl)) rfl
      ((halloc.isMarked r).mpr (.inl rfl))⟩

theorem allocArray_lands (h : before.Intact pending registry)
    {level : ArrayLevel} (hready : Ready [level] before) (elements : Array (Option Ref))
    (helements : ∀ r, some r ∈ elements.toList → before.Marked r) :
    Lands pending pending registry before (· = .arrayOf level.classId level.mirror elements)
      (before.allocArray level elements) := by
  obtain ⟨hmarked, loader, component, hmirror⟩ := hready level List.mem_cons_self
  have hlands := alloc_lands h (.arrayOf level.classId level.mirror elements) rfl
    (fun _ => h.linked.fits_of_mirror hmirror) (by
      intro r hr
      rcases List.mem_cons.mp hr with rfl | hr
      · exact hmarked
      · obtain ⟨element, helement, heq⟩ := List.mem_filterMap.mp hr
        obtain rfl : element = some r := heq
        exact helements r helement)
  unfold allocArray
  rcases hlands with ⟨e, heq⟩ | ⟨r, after, heq, hlands⟩
  · rw [heq]
    exact .of_error h _ _ _
  · rw [heq]
    exact hlands

theorem allocMany_lands (levels : List ArrayLevel)
    (make : ObjectHeap → Except Cause Ref × ObjectHeap)
    (hmake : ∀ objects : ObjectHeap, objects.Intact pending registry →
      Ready levels objects → Lands pending pending registry objects (fun _ => True)
        (make objects))
    (n : Nat) (made : Array (Option Ref)) (h : before.Intact pending registry)
    (hready : Ready levels before) (hmade : ∀ r, some r ∈ made.toList → before.Marked r) :
    (allocMany make n made before).2.Intact pending registry ∧
      (allocMany make n made before).2.roots = before.roots ∧
      Grows before (allocMany make n made before).2 ∧
      ∀ elements, (allocMany make n made before).1 = .ok elements → ∀ r,
        some r ∈ elements.toList → (allocMany make n made before).2.Marked r := by
  induction n generalizing before made with
  | zero =>
    refine ⟨h, rfl, .refl before, ?_⟩
    intro elements helements
    obtain rfl := Except.ok.inj helements
    exact hmade
  | succ n ih =>
    have hlands := hmake before h hready
    unfold allocMany
    generalize make before = outcome at hlands ⊢
    obtain ⟨result, objects⟩ := outcome
    cases result with
    | error cause =>
      exact ⟨hlands.error cause rfl, hlands.roots, hlands.grows, fun _ hok => by contradiction⟩
    | ok r =>
      obtain ⟨hintact, new, -, -, hnew⟩ := hlands.ok r rfl
      obtain ⟨hintact', hroots', hgrows', hall⟩ := ih (made.push (some r)) hintact
        (hready.grows hlands.grows) (by
          intro x hx
          rw [Array.toList_push, List.mem_append, List.mem_singleton] at hx
          rcases hx with hx | hx
          · exact hlands.grows.marked_of_marked (hmade x hx)
          · obtain rfl := Option.some.inj hx
            exact hnew)
      exact ⟨hintact', hroots'.trans hlands.roots, hlands.grows.trans hgrows', hall⟩

theorem allocNested_lands (level : ArrayLevel) (inner : List ArrayLevel)
    (h : before.Intact pending registry) (hready : Ready (level :: inner) before) :
    Lands pending pending registry before
      (fun object => ∃ elements, object = .arrayOf level.classId level.mirror elements)
      (allocNested level inner before) := by
  induction inner generalizing level before with
  | nil =>
    unfold allocNested
    split
    · exact .of_error h _ _ _
    · have hlands := allocArray_lands h hready
        (Array.replicate level.length none) (by
          intro r hr
          rw [Array.toList_replicate, List.mem_replicate] at hr
          exact absurd hr.2 (by simp))
      exact hlands.weaken fun object hobject => ⟨_, hobject⟩
  | cons next inner ih =>
    unfold allocNested
    split
    · exact .of_error h _ _ _
    · have htail : Ready (next :: inner) before :=
        fun l hl => hready l (List.mem_cons_of_mem level hl)
      obtain ⟨hintact, hroots, hgrows, hall⟩ := allocMany_lands (next :: inner)
        (allocNested next inner) (by
          intro objects hobjects hready
          exact (ih next hobjects hready).weaken fun _ _ => trivial)
        level.length #[] h htail (fun r hr => by simp at hr)
      dsimp only
      generalize allocMany (allocNested next inner) level.length #[] before = outcome at *
      obtain ⟨result, objects⟩ := outcome
      cases result with
      | error cause => exact ⟨hroots, hgrows, fun _ _ => hintact, fun r hr => by contradiction⟩
      | ok elements =>
        have hhead : Ready [level] objects := Ready.grows (fun l hl => hready l (by
          rw [List.mem_singleton.mp hl]
          exact List.mem_cons_self)) hgrows
        have hlands := allocArray_lands hintact hhead elements (hall elements rfl)
        exact (hlands.after hroots hgrows).weaken fun object hobject => ⟨_, hobject⟩

end Metaspace.ObjectHeap
