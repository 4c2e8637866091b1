import Metaspace.Proofs.Machine.Collection

set_option autoImplicit false

namespace Metaspace

open Reachability

variable {σ : Type}

namespace Registry.Culled

variable {before after : Registry σ} {keeps : LoaderId → Prop} {report : CycleReport σ}

theorem mem_unloaded_ids (hculled : before.Culled keeps report after) (h : before.Coherent)
    (id : ClassId) : id ∈ report.unloaded.map (·.id) ↔
      ∃ c, before.get? id = some c ∧ ¬ keeps c.loader := by
  rw [List.mem_map]
  constructor
  · rintro ⟨c, hc, rfl⟩
    exact ⟨c, (hculled.unloaded c).mp hc⟩
  · rintro ⟨c, hget, hdead⟩
    exact ⟨c, (hculled.unloaded c).mpr ⟨h.get?_self hget, hdead⟩, h.id_of_get? hget⟩

theorem mem_unloadedLoaders_ids (hculled : before.Culled keeps report after) (id : LoaderId) :
    id ∈ report.unloadedLoaders.map (·.id) ↔ (∃ l ∈ before.graph, l.id = id) ∧ ¬ keeps id := by
  rw [List.mem_map]
  constructor
  · rintro ⟨l, hmem, rfl⟩
    obtain ⟨hgraph, hdead⟩ := (hculled.unloadedLoaders l).mp hmem
    exact ⟨⟨l, hgraph, rfl⟩, hdead⟩
  · rintro ⟨⟨l, hgraph, rfl⟩, hdead⟩
    exact ⟨l, (hculled.unloadedLoaders l).mpr ⟨hgraph, hdead⟩, rfl⟩

end Registry.Culled

namespace ObjectHeap

variable {pending : Option LoaderId} {registry after : Registry σ} {objects swept : ObjectHeap}
  {reached : Ref → Prop}

/-- An object heap before and after what is not reached was freed, with the mirrors and holders of
what is not kept. -/
structure Swept (registry : Registry σ) (objects : ObjectHeap) (reached : Ref → Prop)
    (swept : ObjectHeap) : Prop where
  tidy : swept.heap.Tidy
  get?_eq_some : ∀ r object, swept.get? r = some object ↔
    reached r ∧ objects.get? r = some object
  mirror?_eq_some : ∀ id r, swept.mirror? id = some r ↔ objects.mirror? id = some r ∧
    ∀ c, registry.get? id = some c → objects.Keeps reached c.loader
  holder?_eq_some : ∀ l r, swept.holder? l = some r ↔
    objects.holder? l = some r ∧ objects.Keeps reached l
  frozen : swept.heap.frozen = objects.heap.frozen
  roots : swept.roots = objects.roots

theorem Linked.swept_of_culled (h : objects.Linked pending registry) (hsound : objects.heap.Sound)
    (hunswept : objects.heap.unswept = true) {report : CycleReport σ}
    (hculled : registry.Culled (objects.Keeps objects.Marked) report after) :
    Swept registry objects objects.Marked
      (objects.sweep (report.unloaded.map (·.id)) (report.unloadedLoaders.map (·.id))) := by
  have hgone := hculled.mem_unloaded_ids h.coherent
  have hdropped := hculled.mem_unloadedLoaders_ids
  constructor
  case tidy => exact ⟨hsound.sweep, Heap.allMarked_sweep hunswept⟩
  case get?_eq_some =>
    intro r object
    rw [get?, show (objects.sweep _ _).heap = objects.heap.sweep.2 from rfl,
      Heap.get?_sweep hunswept]
    rfl
  case mirror?_eq_some =>
    intro id r
    have hfound : (objects.sweep (report.unloaded.map (·.id))
        (report.unloadedLoaders.map (·.id))).mirror? id =
          if id ∈ report.unloaded.map (·.id) then none else objects.mirror? id :=
      getElem?_foldl_erase _ objects.mirrors id
    rw [hfound]
    by_cases hid : id ∈ report.unloaded.map (·.id)
    · rw [if_pos hid]
      obtain ⟨c, hget, hdead⟩ := (hgone id).mp hid
      constructor
      · intro hnone
        contradiction
      · rintro ⟨-, hkept⟩
        exact absurd (hkept c hget) hdead
    · rw [if_neg hid]
      refine (and_iff_left ?_).symm
      intro c hget
      exact not_not.mp fun hdead => hid ((hgone id).mpr ⟨c, hget, hdead⟩)
  case holder?_eq_some =>
    intro l r
    have hfound : (objects.sweep (report.unloaded.map (·.id))
        (report.unloadedLoaders.map (·.id))).holder? l =
          if l ∈ report.unloadedLoaders.map (·.id) then none else objects.holder? l :=
      getElem?_foldl_erase _ objects.holders l
    rw [hfound]
    by_cases hl : l ∈ report.unloadedLoaders.map (·.id)
    · rw [if_pos hl]
      constructor
      · intro hnone
        contradiction
      · rintro ⟨-, hkept⟩
        exact absurd hkept ((hdropped l).mp hl).2
    · rw [if_neg hl]
      constructor
      · intro hholder
        refine ⟨hholder, not_not.mp fun hdead => hl ((hdropped l).mpr ⟨?_, hdead⟩)⟩
        exact (h.holders l r hholder).2.1
      · exact And.left
  case frozen => exact Heap.frozen_sweep objects.heap
  case roots => rfl

theorem get?_mark (objects : ObjectHeap) (strong : Bool) :
    (objects.mark strong).get? = objects.get? :=
  funext fun r => Heap.get?_mark objects.heap _ r

theorem Linked.mark (h : objects.Linked pending registry) (strong : Bool) :
    (objects.mark strong).Linked pending registry where
  coherent := h.coherent
  kindred := h.kindred
  fits r object hget := by
    rw [get?_mark] at hget
    have hfits := h.fits r object hget
    cases object <;> exact hfits
  closed := by
    rw [get?_mark]
    exact h.closed
  mirrors := by
    rw [get?_mark]
    exact h.mirrors
  holders := by
    rw [get?_mark]
    exact h.holders
  frozen := h.frozen
  held := h.held
  pending id hid := { h.pending id hid with }

theorem marked_mark (hsound : objects.heap.Sound) (strong : Bool) :
    (objects.mark strong).Marked = reachedBy objects strong :=
  funext fun r => propext (hsound.isMarked_mark _ r)

theorem Linked.swept_mark_of_culled (h : objects.Linked pending registry)
    (hsound : objects.heap.Sound) {strong : Bool} {report : CycleReport σ}
    (hculled : registry.Culled (objects.Keeps (reachedBy objects strong)) report after) :
    Swept registry objects (reachedBy objects strong)
      ((objects.mark strong).sweep (report.unloaded.map (·.id))
        (report.unloadedLoaders.map (·.id))) := by
  have hmarked : registry.Culled ((objects.mark strong).Keeps (objects.mark strong).Marked) report
      after := by
    rw [marked_mark hsound]
    exact hculled
  have hswept := (h.mark strong).swept_of_culled (hsound.mark _) (Heap.unswept_mark _ _) hmarked
  rw [marked_mark hsound] at hswept
  refine { hswept with get?_eq_some := ?_ }
  intro r object
  rw [hswept.get?_eq_some, get?_mark]

section Survival

variable {report : CycleReport σ}

theorem Swept.mirror?_eq (h : Swept registry objects reached swept) {id : ClassId}
    (hkept : ∀ c, registry.get? id = some c → objects.Keeps reached c.loader) :
    swept.mirror? id = objects.mirror? id := by
  apply Option.ext
  intro r
  rw [h.mirror?_eq_some]
  exact and_iff_left hkept

theorem Swept.holder?_eq (h : Swept registry objects reached swept) {l : LoaderId}
    (hkept : objects.Keeps reached l) : swept.holder? l = objects.holder? l := by
  apply Option.ext
  intro r
  rw [h.holder?_eq_some]
  exact and_iff_left hkept

theorem Linked.survives_fits (h : objects.Linked pending registry)
    (hclosed : objects.Closes reached)
    (hculled : registry.Culled (objects.Keeps reached) report after)
    (hswept : Swept registry objects reached swept) {r : Ref} {object : Object}
    (hr : reached r) (hget : objects.get? r = some object) :
    swept.Fits after r object := by
  have hfits := h.fits r object hget
  have hstays : ∀ id mirror, object.class? = some id → registry.contains id = true ∧
      objects.mirror? id = some mirror → after.contains id = true ∧
        swept.mirror? id = some mirror := by
    rintro id mirror hclass ⟨hcontains, hmirror⟩
    obtain ⟨c, hc⟩ := Option.isSome_iff_exists.mp hcontains
    have hkept : ∀ d, registry.get? id = some d → objects.Keeps reached d.loader :=
      fun d hd => h.keeps_of_class? hclosed hr hget hclass hd
    exact ⟨Option.isSome_iff_exists.mpr ⟨c, (hculled.get?_eq_some id c).mpr ⟨hc, hkept c hc⟩⟩,
      (hswept.mirror?_eq_some id mirror).mpr ⟨hmirror, hkept⟩⟩
  cases object with
  | instanceOf id mirror fields => exact hstays id mirror rfl hfits
  | arrayOf id mirror elements => exact hstays id mirror rfl hfits
  | mirrorOf id loader component =>
    obtain ⟨hmirror, c, hc, hloader, hcomponent, hsome⟩ := hfits
    have hkept := h.keeps_of_mirror hclosed hr hget hc
    refine ⟨?_, c, (hculled.get?_eq_some id c).mpr ⟨hc, hkept⟩, ?_, ?_, hsome⟩
    · rw [hswept.mirror?_eq fun d hd => h.keeps_of_mirror hclosed hr hget hd]
      exact hmirror
    · rw [hswept.holder?_eq hkept]
      exact hloader
    · cases hof : c.component? with
      | none =>
        rw [hof] at hcomponent
        exact hcomponent
      | some k =>
        rw [hof] at hcomponent
        refine hcomponent.trans (hswept.mirror?_eq ?_).symm
        intro d hd
        rw [h.kindred id c k d hc hof hd]
        exact hkept
  | holderOf l mirrors =>
    obtain ⟨hholder, hnodup, hmem⟩ := hfits
    have hkept := h.keeps_of_holder hr hget
    refine ⟨(hswept.holder?_eq hkept).trans hholder, hnodup, ?_⟩
    intro x
    rw [hmem]
    constructor
    · rintro ⟨k, c, hmirror, hc, rfl⟩
      refine ⟨k, c, ?_, (hculled.get?_eq_some k c).mpr ⟨hc, hkept⟩, rfl⟩
      refine (hswept.mirror?_eq_some k x).mpr ⟨hmirror, ?_⟩
      intro d hd
      rw [hc, Option.some.injEq] at hd
      exact hd ▸ hkept
    · rintro ⟨k, c, hmirror, hc, hloader⟩
      exact ⟨k, c, ((hswept.mirror?_eq_some k x).mp hmirror).1,
        ((hculled.get?_eq_some k c).mp hc).1, hloader⟩

theorem Linked.survives (h : objects.Linked pending registry)
    (hclosed : objects.Closes reached) (hfrozen : ∀ r ∈ objects.heap.frozen, reached r)
    (hculled : registry.Culled (objects.Keeps reached) report after)
    (hswept : Swept registry objects reached swept) : swept.Linked pending after where
  coherent := hculled.coherent
  kindred id c k component hget hof hcomponent :=
    h.kindred id c k component ((hculled.get?_eq_some id c).mp hget).1 hof
      ((hculled.get?_eq_some k component).mp hcomponent).1
  fits r object hget := by
    obtain ⟨hr, hobject⟩ := (hswept.get?_eq_some r object).mp hget
    exact h.survives_fits hclosed hculled hswept hr hobject
  closed r object hget r' hr' := by
    obtain ⟨hr, hobject⟩ := (hswept.get?_eq_some r object).mp hget
    obtain ⟨object', hobject'⟩ := h.closed r object hobject r' hr'
    exact ⟨object', (hswept.get?_eq_some r' object').mpr
      ⟨hclosed r object hr hobject r' hr', hobject'⟩⟩
  mirrors id r hmirror := by
    obtain ⟨hmirror, hkept⟩ := (hswept.mirror?_eq_some id r).mp hmirror
    obtain ⟨c, hc⟩ := h.mirror_registered hmirror
    obtain ⟨loader, component, hobject⟩ := h.mirrors id r hmirror
    exact ⟨loader, component, (hswept.get?_eq_some r _).mpr
      ⟨h.reached_mirror hclosed hfrozen hc (hkept c hc) hmirror, hobject⟩⟩
  holders l r hholder := by
    obtain ⟨hholder, hkept⟩ := (hswept.holder?_eq_some l r).mp hholder
    obtain ⟨hboot, ⟨loader, hgraph, rfl⟩, mirrors, hobject⟩ := h.holders l r hholder
    exact ⟨hboot, ⟨loader, (hculled.mem_graph loader).mpr ⟨hgraph, hkept⟩, rfl⟩, mirrors,
      (hswept.get?_eq_some r _).mpr ⟨hkept r hholder, hobject⟩⟩
  frozen r := by
    rw [hswept.frozen, h.frozen]
    constructor
    · rintro ⟨id, c, hmirror, hc, hboot⟩
      have hkept : objects.Keeps reached c.loader := by
        rw [hboot]
        exact h.keeps_boot
      refine ⟨id, c, (hswept.mirror?_eq_some id r).mpr ⟨hmirror, ?_⟩,
        (hculled.get?_eq_some id c).mpr ⟨hc, hkept⟩, hboot⟩
      intro d hd
      rw [hc, Option.some.injEq] at hd
      exact hd ▸ hkept
    · rintro ⟨id, c, hmirror, hc, hboot⟩
      exact ⟨id, c, ((hswept.mirror?_eq_some id r).mp hmirror).1,
        ((hculled.get?_eq_some id c).mp hc).1, hboot⟩
  held l hl := by
    obtain ⟨hgraph, hkept⟩ := (hculled.mem_graph l).mp hl
    rw [hswept.holder?_eq hkept]
    exact h.held l hgraph
  pending id hid := by
    have hpending := h.pending id hid
    obtain ⟨l, hgraph, rfl⟩ := hpending.mem_graph
    have hkept : objects.Keeps reached l.id := by
      intro r hholder
      rw [hpending.unheld] at hholder
      contradiction
    refine ⟨⟨l, (hculled.mem_graph l).mpr ⟨hgraph, hkept⟩, rfl⟩, hpending.not_boot, ?_, ?_⟩
    · rw [hswept.holder?_eq hkept]
      exact hpending.unheld
    · intro c hc
      have hget := ((hculled.get?_eq_some c.id c).mp (hculled.coherent.mem_registered.mp hc)).1
      exact hpending.unused c (h.coherent.mem_registered_of_get? hget)

end Survival
end ObjectHeap
end Metaspace
