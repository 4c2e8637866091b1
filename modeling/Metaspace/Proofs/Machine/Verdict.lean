import Mathlib.Order.Bounds.Basic
import Metaspace.Machine.Reachability
import Metaspace.Proofs.Heap.Sweeping
import Metaspace.Proofs.Saturation
import Metaspace.Proofs.Unload.Hearing
import Metaspace.Proofs.Unload.Nesting

set_option autoImplicit false

namespace Metaspace

variable {σ : Type}

def Object.mirrored? : Object → Option ClassId
  | .mirrorOf c _ _ => some c
  | _ => none

def Object.held? : Object → Option LoaderId
  | .holderOf l _ => some l
  | _ => none

namespace ObjectHeap

/-- The last mark reached such an object, or it was allocated later. -/
def Shows (objects : ObjectHeap) (object : Object) : Prop :=
  ∃ r, objects.heap.isMarked r = true ∧ objects.get? r = some object

def Uses (objects : ObjectHeap) (id : ClassId) : Prop :=
  ∃ object, objects.Shows object ∧ (object.class? = some id ∨ object.mirrored? = some id)

theorem mem_marked_objects {objects : ObjectHeap} {object : Object} :
    object ∈ objects.heap.marked.map (·.2) ↔ objects.Shows object := by
  rw [List.mem_map]
  constructor
  · rintro ⟨⟨r, _⟩, hmem, rfl⟩
    exact ⟨r, Heap.mem_marked.mp hmem⟩
  · rintro ⟨r, hmarked⟩
    exact ⟨(r, object), Heap.mem_marked.mpr hmarked, rfl⟩

end ObjectHeap

namespace Snapshot

def Complete (snapshot : Snapshot σ) : Prop :=
  ∀ c ∈ snapshot.classes, ∀ id, c.component? = some id → ∃ d ∈ snapshot.classes, d.id = id

/-- Some registry that was built up from nothing, with kinds from anywhere, looked like this. -/
def Taken (snapshot : Snapshot σ) : Prop :=
  ∃ (bootSources : List σ) (m : Moment σ),
    Becomes (fun _ => True) ⟨.new bootSources, []⟩ m ∧ m.registry.snapshot = snapshot

/-- The loader of each class is listed, and every listed loader is in use. -/
structure InUse (snapshot : Snapshot σ) (registry : Registry σ) : Prop where
  ordered : snapshot.Ordered
  housed : ∀ c ∈ snapshot.classes, ∃ l ∈ snapshot.loaders, l.id = c.loader
  unretired : ∀ l ∈ snapshot.loaders, registry.isUnloading l.id = false

/-- A set of loaders that leaves out none that has to be alive if it is. -/
structure Closed (snapshot : Snapshot σ) (objects : ObjectHeap) (alive : Set LoaderId) : Prop where
  permanent : ∀ l ∈ snapshot.loaders, l.permanent = true → l.id ∈ alive
  unheld : ∀ l ∈ snapshot.loaders, objects.holder? l.id = none → l.id ∈ alive
  held : ∀ l ∈ snapshot.loaders, ∀ object, objects.Shows object → object.held? = some l.id →
    l.id ∈ alive
  used : ∀ c ∈ snapshot.classes, objects.Uses c.id → c.loader ∈ alive
  component : ∀ c ∈ snapshot.classes, ∀ d ∈ snapshot.classes, c.component? = some d.id →
    c.loader ∈ alive → d.loader ∈ alive

variable {snapshot : Snapshot σ}

theorem mem_of_loader?_eq_some {id : LoaderId} {l : Loader σ} (h : snapshot.loader? id = some l) :
    l ∈ snapshot.loaders ∧ l.id = id :=
  ⟨(mem_of_bisect? h).1, Std.LawfulEqOrd.eq_of_compare (mem_of_bisect? h).2⟩

theorem Ordered.eq_of_loader_id (h : snapshot.Ordered) {l k : Loader σ} (hl : l ∈ snapshot.loaders)
    (hk : k ∈ snapshot.loaders) (hid : l.id = k.id) : l = k := by
  have hnodup : (snapshot.loaders.map (·.id)).Nodup := by
    refine List.pairwise_map.mpr (h.loaders.imp fun hlt heq => ?_)
    rw [heq] at hlt
    exact Nat.lt_irrefl _ hlt
  exact List.inj_on_of_nodup_map hnodup hl hk hid

theorem Ordered.eq_of_class_id (h : snapshot.Ordered) {c d : ClassDescriptor}
    (hc : c ∈ snapshot.classes) (hd : d ∈ snapshot.classes) (hid : c.id = d.id) : c = d := by
  have hnodup : (snapshot.classes.map (·.id)).Nodup := by
    refine List.pairwise_map.mpr (h.classes.imp fun hlt heq => ?_)
    rw [heq] at hlt
    exact Nat.lt_irrefl _ hlt
  exact List.inj_on_of_nodup_map hnodup hc hd hid

theorem Ordered.loader?_eq_some (h : snapshot.Ordered) {l : Loader σ}
    (hl : l ∈ snapshot.loaders) : snapshot.loader? l.id = some l :=
  h.loader?_iff.mpr ⟨hl, rfl⟩

theorem Taken.complete (h : snapshot.Taken) : snapshot.Complete := by
  obtain ⟨bootSources, m, hbecomes, rfl⟩ := h
  have hm := (hbecomes.sound ⟨Registry.new_vouched bootSources, by simp⟩).vouched
  intro c hc id hid
  obtain ⟨a, harray, rfl⟩ := Option.map_eq_some_iff.mp hid
  obtain ⟨d, hd, -⟩ := hm.layers c.id c a (hm.mem_registered.mp hc) harray
  exact ⟨d, hm.mem_registered_of_get? hd, hm.id_of_get? hd⟩

theorem inUse_of_indexed {registry : Registry σ} (h : registry.Indexed) :
    registry.snapshot.InUse registry where
  ordered := ⟨h.ascending, h.roster.ordered⟩
  housed := h.housed
  unretired _ hl := h.isUnloading_eq_false hl

end Snapshot

namespace Reachability

variable {registry : Registry σ} {objects : ObjectHeap} {snapshot : Snapshot σ}
  {found : Reachability}

theorem mem_instances_foldl (marked : List Object) (found : Reachability) {id : ClassId} :
    id ∈ (marked.foldl note found).instances ↔
      id ∈ found.instances ∨ ∃ object ∈ marked, object.class? = some id := by
  induction marked generalizing found with
  | nil => simp
  | cons object marked ih =>
    rw [List.foldl_cons, ih]
    cases object <;> simp [note, Object.class?, or_assoc, or_left_comm]

theorem mem_referenced_foldl (marked : List Object) (found : Reachability) {id : ClassId} :
    id ∈ (marked.foldl note found).referenced ↔
      id ∈ found.referenced ∨ ∃ object ∈ marked, object.mirrored? = some id := by
  induction marked generalizing found with
  | nil => simp
  | cons object marked ih =>
    rw [List.foldl_cons, ih]
    cases object <;> simp [note, Object.mirrored?, or_assoc, or_left_comm]

theorem mem_loaders_foldl (marked : List Object) (found : Reachability) {l : LoaderId} :
    l ∈ (marked.foldl note found).loaders ↔
      l ∈ found.loaders ∨ ∃ object ∈ marked, object.held? = some l := by
  induction marked generalizing found with
  | nil => simp
  | cons object marked ih =>
    rw [List.foldl_cons, ih]
    cases object <;> simp [note, Object.held?, or_assoc, or_left_comm]

/-- What the marks and the missing holders show, before anything is concluded from it. -/
def seen (objects : ObjectHeap) (snapshot : Snapshot σ) : Reachability :=
  (objects.heap.marked.map (·.2)).foldl note
    { empty with
      loaders := .ofList ((snapshot.loaders.map (·.id)).filter fun id =>
        (objects.holder? id).isNone) }

theorem ofMarked_eq (objects : ObjectHeap) (registry : Registry σ) (snapshot : Snapshot σ) :
    ofMarked objects registry snapshot =
      saturate (fun found c => found.classAlive registry snapshot c) sustain
        (seen objects snapshot) snapshot.classes := rfl

theorem mem_instances_seen {id : ClassId} :
    id ∈ (seen objects snapshot).instances ↔
      ∃ object, objects.Shows object ∧ object.class? = some id := by
  simp only [seen, mem_instances_foldl, ObjectHeap.mem_marked_objects]
  simp [empty]

theorem mem_referenced_seen {id : ClassId} :
    id ∈ (seen objects snapshot).referenced ↔
      ∃ object, objects.Shows object ∧ object.mirrored? = some id := by
  simp only [seen, mem_referenced_foldl, ObjectHeap.mem_marked_objects]
  simp [empty]

theorem mem_loaders_seen {l : LoaderId} :
    l ∈ (seen objects snapshot).loaders ↔
      (∃ k ∈ snapshot.loaders, k.id = l ∧ objects.holder? l = none) ∨
        ∃ object, objects.Shows object ∧ object.held? = some l := by
  simp only [seen, mem_loaders_foldl, ObjectHeap.mem_marked_objects]
  refine or_congr_left ?_
  rw [Std.TreeSet.mem_ofList, List.contains_iff_mem, List.mem_filter, List.mem_map,
    Option.isNone_iff_eq_none]
  constructor
  · rintro ⟨⟨k, hk, hid⟩, hnone⟩
    exact ⟨k, hk, hid, hnone⟩
  · rintro ⟨k, hk, hid, hnone⟩
    exact ⟨⟨k, hk, hid⟩, hnone⟩

/-- Of what is in the snapshot nothing but what is alive was found. -/
structure Bounded (snapshot : Snapshot σ) (alive : Set LoaderId) (found : Reachability) : Prop where
  loaders : ∀ l ∈ snapshot.loaders, l.id ∈ found.loaders → l.id ∈ alive
  classes : ∀ c ∈ snapshot.classes, c.id ∈ found.instances ∨ c.id ∈ found.referenced →
    c.loader ∈ alive

section Bounded

variable {alive : Set LoaderId} (hclosed : snapshot.Closed objects alive)

include hclosed

theorem bounded_seen : (seen objects snapshot).Bounded snapshot alive := by
  constructor
  · intro l hl hseen
    rcases mem_loaders_seen.mp hseen with ⟨-, -, -, hnone⟩ | ⟨object, hshows, hheld⟩
    · exact hclosed.unheld l hl hnone
    · exact hclosed.held l hl object hshows hheld
  · rintro c hc (hseen | hseen)
    · obtain ⟨object, hshows, hclass⟩ := mem_instances_seen.mp hseen
      exact hclosed.used c hc ⟨object, hshows, Or.inl hclass⟩
    · obtain ⟨object, hshows, hmirrored⟩ := mem_referenced_seen.mp hseen
      exact hclosed.used c hc ⟨object, hshows, Or.inr hmirrored⟩

theorem Bounded.mem_of_loaderAlive (h : found.Bounded snapshot alive) {l : Loader σ}
    (hl : l ∈ snapshot.loaders) (halive : found.loaderAlive registry l = true) :
    l.id ∈ alive := by
  simp only [loaderAlive, Bool.and_eq_true, Bool.or_eq_true] at halive
  rcases halive.2 with hpermanent | hfound
  · exact hclosed.permanent l hl hpermanent
  · exact h.loaders l hl (Std.TreeSet.mem_iff_contains.mpr hfound)

theorem Bounded.mem_of_classAlive (h : found.Bounded snapshot alive) {c : ClassDescriptor}
    (hc : c ∈ snapshot.classes) (halive : found.classAlive registry snapshot c = true) :
    c.loader ∈ alive := by
  simp only [classAlive, Bool.or_eq_true, Option.any_eq_true] at halive
  rcases halive with (hinstance | hreferenced) | ⟨l, hl, hloader⟩
  · exact h.classes c hc (Or.inl (Std.TreeSet.mem_iff_contains.mpr hinstance))
  · exact h.classes c hc (Or.inr (Std.TreeSet.mem_iff_contains.mpr hreferenced))
  · obtain ⟨hmem, hid⟩ := Snapshot.mem_of_loader?_eq_some hl
    rw [← hid]
    exact h.mem_of_loaderAlive hclosed hmem hloader

theorem Bounded.sustain (h : found.Bounded snapshot alive) {c : ClassDescriptor}
    (hc : c ∈ snapshot.classes) (halive : found.classAlive registry snapshot c = true) :
    (found.sustain c).Bounded snapshot alive := by
  have hmem := h.mem_of_classAlive hclosed hc halive
  constructor
  · intro l hl hfound
    rcases Std.TreeSet.mem_insert.mp hfound with heq | hfound
    · rw [← Std.LawfulEqOrd.compare_eq_iff_eq.mp heq]
      exact hmem
    · exact h.loaders l hl hfound
  · rintro d hd (hfound | hfound)
    · exact h.classes d hd (Or.inl hfound)
    · cases hcomponent : c.component? with
      | none =>
        rw [Reachability.sustain, hcomponent] at hfound
        exact h.classes d hd (Or.inr hfound)
      | some k =>
        rw [Reachability.sustain, hcomponent] at hfound
        rcases Std.TreeSet.mem_insert.mp hfound with heq | hfound
        · rw [Std.LawfulEqOrd.compare_eq_iff_eq.mp heq] at hcomponent
          exact hclosed.component c hc d hd hcomponent hmem
        · exact h.classes d hd (Or.inr hfound)

theorem bounded_ofMarked : (ofMarked objects registry snapshot).Bounded snapshot alive := by
  rw [ofMarked_eq]
  refine saturate_keeps (P := Bounded snapshot alive) ?_ (bounded_seen hclosed)
  intro found c hc halive hfound
  exact hfound.sustain hclosed hc halive

end Bounded

theorem mem_loaders_sustain {c : ClassDescriptor} {l : LoaderId} :
    l ∈ (found.sustain c).loaders ↔ c.loader = l ∨ l ∈ found.loaders := by
  simp [sustain]

theorem mem_referenced_sustain {c : ClassDescriptor} {id : ClassId} :
    id ∈ (found.sustain c).referenced ↔ c.component? = some id ∨ id ∈ found.referenced := by
  cases hcomponent : c.component? <;> simp [sustain, hcomponent]

theorem mem_loaders_ofMarked {l : LoaderId} (h : l ∈ (seen objects snapshot).loaders) :
    l ∈ (ofMarked objects registry snapshot).loaders := by
  rw [ofMarked_eq]
  refine saturate_keeps (P := fun found : Reachability => l ∈ found.loaders) ?_ h
  intro found c _ _ hfound
  exact mem_loaders_sustain.mpr (Or.inr hfound)

theorem classAlive_of_referenced {c : ClassDescriptor} (h : c.id ∈ found.referenced) :
    found.classAlive registry snapshot c = true := by
  simp [classAlive, Std.TreeSet.mem_iff_contains.mp h]

theorem mem_instances_ofMarked (registry : Registry σ) {id : ClassId}
    (h : id ∈ (seen objects snapshot).instances) :
    id ∈ (ofMarked objects registry snapshot).instances := by
  rw [ofMarked_eq]
  refine saturate_keeps (P := fun found : Reachability => id ∈ found.instances) ?_ h
  intro found c _ _ hfound
  exact hfound

theorem mem_referenced_ofMarked (registry : Registry σ) {id : ClassId}
    (h : id ∈ (seen objects snapshot).referenced) :
    id ∈ (ofMarked objects registry snapshot).referenced := by
  rw [ofMarked_eq]
  refine saturate_keeps (P := fun found : Reachability => id ∈ found.referenced) ?_ h
  intro found c _ _ hfound
  exact mem_referenced_sustain.mpr (Or.inr hfound)

def Settled (found : Reachability) (c : ClassDescriptor) : Prop :=
  c.loader ∈ found.loaders ∧ ∀ id, c.component? = some id → id ∈ found.referenced

theorem settled_ofMarked {c : ClassDescriptor} (hc : c ∈ snapshot.classes)
    (halive : (ofMarked objects registry snapshot).classAlive registry snapshot c = true) :
    (ofMarked objects registry snapshot).Settled c := by
  rw [ofMarked_eq] at halive ⊢
  have htaken : ∀ found c, (sustain found c).Settled c := by
    intro found c
    exact ⟨mem_loaders_sustain.mpr (Or.inl rfl),
      fun id hid => mem_referenced_sustain.mpr (Or.inl hid)⟩
  have hkept : ∀ found c d, found.Settled d → (sustain found c).Settled d := by
    rintro found c d ⟨hloader, hcomponent⟩
    exact ⟨mem_loaders_sustain.mpr (Or.inr hloader),
      fun id hid => mem_referenced_sustain.mpr (Or.inr (hcomponent id hid))⟩
  refine (saturate_settles Settled htaken hkept _ _ c hc).resolve_right ?_
  simp [halive]

theorem classAlive_ofMarked_of_uses {c : ClassDescriptor} (h : objects.Uses c.id) :
    (ofMarked objects registry snapshot).classAlive registry snapshot c = true := by
  obtain ⟨object, hshows, hclass | hmirrored⟩ := h
  · have hseen : c.id ∈ (seen objects snapshot).instances :=
      mem_instances_seen.mpr ⟨object, hshows, hclass⟩
    have hfound := mem_instances_ofMarked registry hseen
    simp [classAlive, Std.TreeSet.mem_iff_contains.mp hfound]
  · have hseen : c.id ∈ (seen objects snapshot).referenced :=
      mem_referenced_seen.mpr ⟨object, hshows, hmirrored⟩
    exact classAlive_of_referenced (mem_referenced_ofMarked registry hseen)

section InUse

variable (h : snapshot.InUse registry)

include h

theorem loaderAlive_of_inUse {l : Loader σ} (hl : l ∈ snapshot.loaders) :
    found.loaderAlive registry l = true ↔ l.permanent = true ∨ l.id ∈ found.loaders := by
  rw [loaderAlive, h.unretired l hl, Bool.not_false, Bool.true_and, Bool.or_eq_true,
    Std.TreeSet.mem_iff_contains]

theorem classAlive_of_loader {c : ClassDescriptor} {l : Loader σ}
    (hl : l ∈ snapshot.loaders) (hid : l.id = c.loader)
    (halive : found.loaderAlive registry l = true) :
    found.classAlive registry snapshot c = true := by
  have hloader := h.ordered.loader?_eq_some hl
  rw [hid] at hloader
  simp [classAlive, hloader, halive]

theorem classAlive_eq_loaderAlive (objects : ObjectHeap) {c : ClassDescriptor}
    (hc : c ∈ snapshot.classes) {l : Loader σ} (hl : l ∈ snapshot.loaders) (hid : l.id = c.loader) :
    (ofMarked objects registry snapshot).classAlive registry snapshot c =
      (ofMarked objects registry snapshot).loaderAlive registry l := by
  rw [Bool.eq_iff_iff]
  constructor
  · intro halive
    refine (loaderAlive_of_inUse h hl).mpr (Or.inr ?_)
    rw [hid]
    exact (settled_ofMarked hc halive).1
  · exact classAlive_of_loader h hl hid

theorem isLeast_loaders (objects : ObjectHeap) :
    IsLeast {alive | snapshot.Closed objects alive}
      {id | ∃ l ∈ snapshot.loaders, l.id = id ∧
        (ofMarked objects registry snapshot).loaderAlive registry l = true} := by
  constructor
  · have hlive : ∀ c ∈ snapshot.classes,
        (ofMarked objects registry snapshot).classAlive registry snapshot c = true →
        ∃ l ∈ snapshot.loaders, l.id = c.loader ∧
          (ofMarked objects registry snapshot).loaderAlive registry l = true := by
      intro c hc halive
      obtain ⟨l, hl, hid⟩ := h.housed c hc
      exact ⟨l, hl, hid, (classAlive_eq_loaderAlive h _ hc hl hid).symm.trans halive⟩
    constructor
    · intro l hl hpermanent
      exact ⟨l, hl, rfl, (loaderAlive_of_inUse h hl).mpr (Or.inl hpermanent)⟩
    · intro l hl hnone
      refine ⟨l, hl, rfl, (loaderAlive_of_inUse h hl).mpr (Or.inr (mem_loaders_ofMarked ?_))⟩
      exact mem_loaders_seen.mpr (Or.inl ⟨l, hl, rfl, hnone⟩)
    · intro l hl object hshows hheld
      refine ⟨l, hl, rfl, (loaderAlive_of_inUse h hl).mpr (Or.inr (mem_loaders_ofMarked ?_))⟩
      exact mem_loaders_seen.mpr (Or.inr ⟨object, hshows, hheld⟩)
    · intro c hc huses
      exact hlive c hc (classAlive_ofMarked_of_uses huses)
    · rintro c hc d hd hcomponent ⟨l, hl, hid, halive⟩
      have hsettled := settled_ofMarked hc (classAlive_of_loader h hl hid halive)
      exact hlive d hd (classAlive_of_referenced (hsettled.2 d.id hcomponent))
  · rintro alive hclosed _ ⟨l, hl, rfl, halive⟩
    exact (bounded_ofMarked hclosed).mem_of_loaderAlive hclosed hl halive

end InUse

/-- A class that was found alive does not lose its component over a complete snapshot: the component
was found alive with it. -/
theorem classAlive_eq_false_of_losesComponent (hordered : snapshot.Ordered)
    (hcomplete : snapshot.Complete) {condemned : Std.TreeSet ClassId}
    (hcondemned : ∀ c ∈ snapshot.classes, c.id ∈ condemned →
      (ofMarked objects registry snapshot).classAlive registry snapshot c = false)
    {c : ClassDescriptor} (hc : c ∈ snapshot.classes)
    (hloses : Cycle.losesComponent snapshot condemned c = true) :
    (ofMarked objects registry snapshot).classAlive registry snapshot c = false := by
  obtain ⟨id, hcomponent, hlost⟩ := (Option.any_eq_true _ _).mp hloses
  obtain ⟨d, hd, rfl⟩ := hcomplete c hc id hcomponent
  have hdead : (ofMarked objects registry snapshot).classAlive registry snapshot d = false := by
    rcases (Bool.or_eq_true _ _).mp hlost with hmem | hnone
    · exact hcondemned d hd (Std.TreeSet.mem_iff_contains.mpr hmem)
    · rw [hordered.get?_iff.mpr ⟨hd, rfl⟩] at hnone
      contradiction
  rw [Bool.eq_false_iff]
  intro halive
  rw [classAlive_of_referenced ((settled_ofMarked hc halive).2 d.id hcomponent)] at hdead
  contradiction

theorem classAlive_eq_false_of_condemned (hordered : snapshot.Ordered)
    (hcomplete : snapshot.Complete) {dead : List ClassId}
    (hdead : ∀ c ∈ snapshot.classes, c.id ∈ dead →
      (ofMarked objects registry snapshot).classAlive registry snapshot c = false) :
    ∀ c ∈ snapshot.classes, c.id ∈ Cycle.condemned snapshot dead →
      (ofMarked objects registry snapshot).classAlive registry snapshot c = false := by
  simp only [Cycle.condemned, Std.TreeSet.mem_toList]
  refine saturate_keeps (P := fun condemned : Std.TreeSet ClassId =>
    ∀ c ∈ snapshot.classes, c.id ∈ condemned →
      (ofMarked objects registry snapshot).classAlive registry snapshot c = false) ?_ ?_
  · intro condemned c hc hloses hcondemned d hd hmem
    rcases Std.TreeSet.mem_insert.mp hmem with heq | hmem
    · rw [← hordered.eq_of_class_id hc hd (Std.LawfulEqOrd.compare_eq_iff_eq.mp heq)]
      exact classAlive_eq_false_of_losesComponent hordered hcomplete hcondemned hc hloses
    · exact hcondemned d hd hmem
  · intro c hc hmem
    rw [Std.TreeSet.mem_ofList, List.contains_iff_mem] at hmem
    exact hdead c hc hmem

end Reachability

open Reachability

theorem decide_ofMarked {snapshot : Snapshot σ} {engine : Engine σ} {objects : ObjectHeap}
    (h : snapshot.InUse engine.registry) (hcomplete : snapshot.Complete) (on : Bool) :
    let state : Engine σ × HeapView :=
      Cycle.setPhase .deciding (engine, objects, ofMarked objects engine.registry snapshot)
    ∃ classes loaders,
      Cycle.decide (heapOracle on) snapshot state = (.ok (classes, loaders), state) ∧
      ∀ c ∈ snapshot.classes, c.id ∈ classes →
        (ofMarked objects engine.registry snapshot).classAlive engine.registry snapshot c =
          false := by
  intro state
  cases hunloading : engine.classUnloading with
  | false => exact ⟨[], [], by simp [Cycle.decide, state, hunloading], by simp⟩
  | true =>
    have hclasses : Cycle.ClassAnswers (heapOracle on) snapshot snapshot.classes state _ state :=
      .of_still (fun _ => rfl) _
    have hloaders : Cycle.LoaderAnswers (heapOracle on) snapshot.loaders state _ state :=
      .of_still (fun _ => rfl) _
    refine ⟨_, _, Cycle.decide_of_answers hunloading hclasses hloaders, ?_⟩
    refine classAlive_eq_false_of_condemned h.ordered hcomplete fun c hc hmem => ?_
    obtain ⟨d, hd, hid, hdead⟩ := Cycle.mem_deadClasses_map.mp hmem
    rw [← h.ordered.eq_of_class_id hd hc hid]
    exact hdead

/-- When the heap oracle has begun a cycle, the loaders it calls alive are the least set of loaders
of the snapshot that is closed over the marked heap. It calls a class live exactly if it calls its
loader alive, so that the closure over lost components, for which a snapshot has all it needs, takes
no class that the oracle called live. -/
theorem heapOracle_isLeast {snapshot : Snapshot σ} (engine : Engine σ)
    (h : snapshot.InUse engine.registry) (on : Bool) (objects : ObjectHeap)
    (found : Reachability) :
    ∃ begun : Engine σ × HeapView,
      (heapOracle on).beginCycle snapshot (engine, objects, found) = (.ok (), begun) ∧
      begun.1 = engine ∧ begun.2.1 = objects.mark (!on) ∧
      IsLeast {alive | snapshot.Closed begun.2.1 alive}
        {id | ∃ l ∈ snapshot.loaders, l.id = id ∧
          (heapOracle on).queryLoader l begun = (.ok true, begun)} ∧
      (∀ c ∈ snapshot.classes, ∀ l ∈ snapshot.loaders, l.id = c.loader →
        ∃ liveness : Liveness,
          (heapOracle on).query c (snapshot.loader? c.loader) begun = (.ok liveness, begun) ∧
          (heapOracle on).queryLoader l begun = (.ok liveness.isLive, begun)) ∧
      (snapshot.Taken → snapshot.Complete) ∧
      (snapshot.Complete → ∃ classes loaders,
        Cycle.decide (heapOracle on) snapshot (Cycle.setPhase .deciding begun) =
          (.ok (classes, loaders), Cycle.setPhase .deciding begun) ∧
        ∀ c ∈ snapshot.classes, ∀ liveness : Liveness,
          (heapOracle on).query c (snapshot.loader? c.loader) begun = (.ok liveness, begun) →
          liveness.isLive = true → c.id ∉ classes) := by
  let begun : Engine σ × HeapView :=
    (engine, objects.mark (!on), ofMarked (objects.mark (!on)) engine.registry snapshot)
  refine ⟨begun, rfl, rfl, rfl, ?_, ?_, Snapshot.Taken.complete, ?_⟩
  · have hanswer : ∀ l, (heapOracle on).queryLoader l begun = (.ok true, begun) ↔
        begun.2.2.loaderAlive engine.registry l = true := by
      intro l
      simp [heapOracle, begun]
    simp only [hanswer]
    exact isLeast_loaders h _
  · intro c hc l hl hid
    refine ⟨_, rfl, ?_⟩
    change (Except.ok (begun.2.2.loaderAlive engine.registry l), begun) = _
    rw [← classAlive_eq_loaderAlive h _ hc hl hid]
    rfl
  · intro hcomplete
    obtain ⟨classes, loaders, hdecide, hdead⟩ := decide_ofMarked h hcomplete on
    refine ⟨classes, loaders, hdecide, fun c hc liveness hquery hlive hmem => ?_⟩
    obtain rfl : begun.2.2.liveness engine.registry c (snapshot.loader? c.loader) = liveness :=
      Except.ok.inj (Prod.mk.inj hquery).1
    exact Bool.false_ne_true ((hdead c hc hmem).symm.trans hlive)

namespace Registry

def staffed (registry : Registry Unit) (name : String) : Registry Unit :=
  (registry.newLoader? name [()]).elim registry (·.2)

theorem Develops.staffed {rule : Registry Unit → ClassDefinition → Prop}
    {before after : Registry Unit} (h : Develops rule before after) (name : String) :
    Develops rule before (after.staffed name) := by
  unfold Registry.staffed
  cases hnew : after.newLoader? name [()] with
  | none => exact h
  | some made => exact h.newLoader hnew

/-- Of three loaders besides the boot loader the first defines a class and an array class. -/
def ranked : Registry Unit :=
  let loaders := (((new [()]).staffed "app").staffed "tools").staffed "idle"
  let loaded := (load stocked (loaderId 2) "A" (loaders, ())).2.1
  (loaded.deriveArray (classA (loaderId 2) 1) 1).2

def strayArray : ClassDefinition :=
  { ClassDefinition.arrayOver (classA (loaderId 2) 1) (by decide) with loader := loaderId 3 }

def straddling : Registry Unit := ranked.inserting strayArray

theorem develops_straddling (rule : Registry Unit → ClassDefinition → Prop)
    (hrule : rule ranked strayArray) : Develops rule (new [()]) straddling := by
  have hloaders : Develops rule (new [()]) ((((new [()]).staffed "app").staffed "tools").staffed "idle") :=
    (((Develops.refl _).staffed _).staffed _).staffed _
  exact ((hloaders.load_stocked (loaderId 2) "A").derive _ 1).inserting hrule

end Registry

/-- Its array class has a mirror, which is all there is on the heap, and every loader but the boot
loader had a holder. -/
def mirrored : ObjectHeap where
  heap := ⟨64, #[⟨0, some ⟨.mirrorOf (Registry.classId 3) none none, 40, false⟩⟩], [], [], false,
    false, 40, 1⟩
  roots := (RootTable.empty.add ⟨0, 0⟩).2
  mirrors := ∅
  holders := .ofList ([2, 3, 4].map fun number => (Registry.loaderId number, (⟨number, 1⟩ : Ref)))
  lastCollection := ⟨0, 0, 0⟩

theorem alloc_mirrored :
    (Heap.empty 64 : Heap Object).alloc (.mirrorOf (Registry.classId 3) none none) =
      .ok (⟨0, 0⟩, mirrored.heap) := rfl

theorem mirrored_shows {object : Object} :
    (mirrored.mark false).Shows object ↔
      object = .mirrorOf (Registry.classId 3) none none := by
  have hnew := (Heap.empty_sound 64).alloc alloc_mirrored
  have hmirror : mirrored.heap.get? ⟨0, 0⟩ = some (.mirrorOf (Registry.classId 3) none none) := rfl
  constructor
  · rintro ⟨r, -, hget⟩
    rcases hnew.get?_cases ((Heap.get?_mark _ _ r).symm.trans hget) with hempty | ⟨-, rfl⟩
    · simp [Heap.empty, Heap.get?, Heap.cell?] at hempty
    · rfl
  · rintro rfl
    refine ⟨⟨0, 0⟩, ?_, (Heap.get?_mark _ _ _).trans hmirror⟩
    refine ((hnew.sound (Heap.empty_sound 64)).isMarked_mark _ _).mpr ?_
    exact .start List.mem_cons_self (Heap.contains_of_get? hmirror)

theorem closed_below_four :
    Registry.straddling.snapshot.Closed (mirrored.mark false) {id | id.number < 4} where
  permanent := by
    show ∀ l ∈ Registry.straddling.graph, l.permanent = true → l.id.number < 4
    decide +kernel
  unheld := by
    show ∀ l ∈ Registry.straddling.graph, mirrored.holder? l.id = none → l.id.number < 4
    decide +kernel
  held l _ object hshows hheld := by
    rw [mirrored_shows.mp hshows] at hheld
    contradiction
  used := by
    have hlow : ∀ c ∈ Registry.straddling.registered, c.loader.number < 4 := by decide +kernel
    exact fun c hc _ => hlow c hc
  component := by
    have hlow : ∀ c ∈ Registry.straddling.registered, c.loader.number < 4 := by decide +kernel
    exact fun _ _ d hd _ _ => hlow d hd

/-- The mirror keeps the loader of the array class alive, which keeps the loader of the component
alive. The loader that nothing speaks for is dead. -/
theorem straddling_verdict :
    Registry.straddling.snapshot.Taken ∧
      ∃ begun : Engine Unit × HeapView,
        (heapOracle true).beginCycle Registry.straddling.snapshot
          (⟨Registry.straddling, .new, .empty, true⟩, mirrored, .empty) = (.ok (), begun) ∧
        ∀ l ∈ Registry.straddling.snapshot.loaders,
          (heapOracle true).queryLoader l begun = (.ok true, begun) ↔ l.id.number < 4 := by
  have hbecomes : Becomes (fun _ => True) ⟨.new [()], []⟩ ⟨Registry.straddling, []⟩ :=
    .run (.refl ⟨.new [()], []⟩) (Registry.develops_straddling _ (Or.inr (Or.inr trivial)))
  have hinUse := Snapshot.inUse_of_indexed
    (hbecomes.sound ⟨Registry.new_vouched [()], by simp⟩).vouched.toIndexed
  refine ⟨⟨[()], _, hbecomes, rfl⟩, ?_⟩
  obtain ⟨begun, hbegun, -, hmarked, ⟨hclosed, hleast⟩, -⟩ := heapOracle_isLeast
    ⟨Registry.straddling, .new, .empty, true⟩ hinUse true mirrored .empty
  rw [hmarked] at hclosed hleast
  refine ⟨begun, hbegun, fun l hl => ?_⟩
  constructor
  · intro halive
    exact hleast closed_below_four ⟨l, hl, rfl, halive⟩
  · intro hlow
    suffices hmem : l.id ∈ {id | ∃ k ∈ Registry.straddling.snapshot.loaders, k.id = id ∧
        (heapOracle true).queryLoader k begun = (.ok true, begun)} by
      obtain ⟨k, hk, hid, halive⟩ := hmem
      rw [hinUse.ordered.eq_of_loader_id hk hl hid] at halive
      exact halive
    have harray : ∃ c ∈ Registry.straddling.snapshot.classes,
        ∃ d ∈ Registry.straddling.snapshot.classes, c.id = Registry.classId 3 ∧
        c.component? = some d.id ∧ c.loader = Registry.loaderId 3 ∧
        d.loader = Registry.loaderId 2 := by
      decide +kernel
    obtain ⟨c, hc, d, hd, hid, hcomponent, hthird, hsecond⟩ := harray
    have hused := hclosed.used c hc ⟨_, mirrored_shows.mpr rfl, Or.inr (by rw [hid]; rfl)⟩
    have hunder := hclosed.component c hc d hd hcomponent hused
    have hcases : ∀ l ∈ Registry.straddling.snapshot.loaders, l.id.number < 4 →
        l.permanent = true ∨ l.id = Registry.loaderId 2 ∨ l.id = Registry.loaderId 3 := by
      decide +kernel
    rcases hcases l hl hlow with hpermanent | hl' | hl'
    · exact hclosed.permanent l hl hpermanent
    · rw [hl', ← hsecond]
      exact hunder
    · rw [hl', ← hthird]
      exact hused

end Metaspace
