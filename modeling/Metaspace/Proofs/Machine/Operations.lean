import Metaspace.Machine.Instances
import Metaspace.Proofs.Machine.Upkeep

set_option autoImplicit false

namespace Metaspace.Machine

open ObjectHeap

variable {σ ω : Type} {pending settled : Option LoaderId} {handles : List Root} {m : Machine σ}

theorem Upheld.withRegistry (h : m.Upheld pending handles) {registry : Registry σ}
    (hlinked : m.objects.Linked settled registry) :
    (m.withRegistry registry).Upheld settled handles :=
  { h with linked := hlinked }

theorem Sound.entering (h : m.Sound none handles) {name : String} {sources : List σ}
    {id : LoaderId} {registry : Registry σ}
    (hnew : m.registry.newLoader? name sources = some (id, registry)) :
    (m.withRegistry registry).Sound (some id) handles :=
  ⟨h.toUpheld.withRegistry (h.linked.entering hnew), h.idle⟩

theorem continues_withRegistry (handles : List Root) {registry : Registry σ}
    (houtgrows : Registry.Outgrows m.registry registry)
    (hgraph : m.registry.graph ⊆ registry.graph) :
    Continues handles m (m.withRegistry registry) where
  outgrows := houtgrows
  config := rfl
  mirrors _ _ _ _ _ hget := hget
  phase := rfl
  running _ := ⟨rfl, hgraph, .refl _⟩

theorem Continues.leaving {next : Machine σ} (h : Continues handles m next)
    (hcoherent : next.registry.Coherent) {id : LoaderId}
    (hnew : ∀ l ∈ m.registry.graph, l.id ≠ id) :
    Continues handles m (next.withRegistry (next.registry.unloadLoaders [id]).2) := by
  have hdrops := hcoherent.toIndexed.unloadLoaders [id]
  refine { h with
    outgrows := h.outgrows.trans hdrops.outgrows
    running := fun hrunning => ?_ }
  have hendures := h.running hrunning
  refine { hendures with graph := fun l hl => (hdrops.mem_graph l).mpr ⟨hendures.graph hl, ?_⟩ }
  rintro ⟨hid, -⟩
  exact hnew l hl (List.mem_singleton.mp hid)

theorem newLoader_of_none {name : String} {sources : List σ}
    (hnew : m.registry.newLoader? name sources = none) :
    m.newLoader name sources = (.error (.of (.classError .idsExhausted)), m) := by
  simp only [newLoader, hnew]

theorem newLoader_of_ok {name : String} {sources : List σ} {id : LoaderId} {entered : Registry σ}
    {holder : Root} {next : Machine σ}
    (hnew : m.registry.newLoader? name sources = some (id, entered))
    (hallocated : (m.withRegistry entered).allocateRooted (fun _ objects => objects.makeHolder id) =
      (.ok holder, next)) :
    m.newLoader name sources = (.ok ⟨id, holder⟩, next) := by
  simp only [newLoader, hnew, hallocated]

theorem newLoader_of_error {name : String} {sources : List σ} {id : LoaderId}
    {entered : Registry σ} {failure : Failure} {next : Machine σ}
    (hnew : m.registry.newLoader? name sources = some (id, entered))
    (hallocated : (m.withRegistry entered).allocateRooted (fun _ objects => objects.makeHolder id) =
      (.error failure, next)) :
    m.newLoader name sources =
      (.error (failure.within (.allocatingHolder name)),
        next.withRegistry (next.registry.unloadLoaders [id]).2) := by
  simp only [newLoader, hnew, hallocated]

theorem Upheld.newLoader (h : m.Upheld none handles) (name : String) (sources : List σ) :
    Serves none none handles m (fun held => [held.holder])
      (fun next held => Names (· = .holderOf held.id #[]) next held.holder)
      (m.newLoader name sources) := by
  cases hnew : m.registry.newLoader? name sources with
  | none =>
    rw [newLoader_of_none hnew]
    exact .of_error (.refl handles m) h _
  | some made =>
    obtain ⟨id, registry⟩ := made
    have hentered : (m.withRegistry registry).Upheld (some id) handles :=
      h.withRegistry (h.linked.entering hnew)
    have hgraph : m.registry.graph ⊆ registry.graph := by
      rw [Registry.newLoader?_graph hnew]
      exact List.subset_append_left _ _
    have hcontinues := continues_withRegistry handles (Registry.outgrows_newLoader? hnew) hgraph
    have hholder := (hentered.allocateRooted (fun _ objects => objects.makeHolder id)
      fun next hnext _ => holder_lands hnext.toIntact).after hcontinues
    cases hallocated : (m.withRegistry registry).allocateRooted _ with
    | mk result next =>
    rw [hallocated] at hholder
    cases result with
    | ok holder =>
      obtain ⟨hupheld, hnames⟩ := hholder.ok holder rfl
      rw [newLoader_of_ok hnew hallocated]
      exact .of_ok hholder.continues hupheld hnames
    | error failure =>
      have hfailed := hholder.error failure rfl
      rw [newLoader_of_error hnew hallocated]
      exact .of_error (hholder.continues.leaving hfailed.linked.coherent
        (h.linked.coherent.ne_of_newLoader? hnew)) (hfailed.withRegistry hfailed.linked.leaving) _

theorem Upheld.mirrorOf (h : m.Upheld none handles) {c : ClassDescriptor}
    (hc : m.registry.Knows c) :
    Serves none none handles m (fun root => [root]) (Names (IsMirror c.id)) (m.mirrorOf c) := by
  have hmirror := h.allocateRooted
    (fun registry objects => objects.ensureMirror registry c (registry.components c))
    fun next hnext hcontinues =>
      mirror_lands hnext.toIntact (hcontinues.outgrows.knows hc).2
  unfold Machine.mirrorOf
  dsimp only
  generalize m.allocateRooted _ = outcome at hmirror ⊢
  obtain ⟨result, next⟩ := outcome
  cases result with
  | error failure => exact .of_error hmirror.continues (hmirror.error failure rfl) _
  | ok root =>
    obtain ⟨hupheld, hnames⟩ := hmirror.ok root rfl
    dsimp only
    split
    · exact .of_ok hmirror.continues hupheld hnames
    · have hdropped := hupheld.drop List.mem_cons_self
      rw [List.singleton_append, List.erase_cons_head] at hdropped
      exact .of_error (hmirror.continues.trans (continues_drop handles _ root)) hdropped _

def Holding (next : Machine σ) (held : HeldClass) : Prop :=
  Names (IsMirror held.descriptor.id) next held.mirror

theorem Upheld.holdClass (h : m.Upheld none handles) {c : ClassDescriptor}
    (hc : m.registry.Knows c) :
    Serves none none handles m (fun held => [held.mirror]) Holding (m.holdClass c) := by
  have hmirror := h.mirrorOf hc
  unfold Machine.holdClass
  generalize m.mirrorOf c = outcome at hmirror ⊢
  obtain ⟨result, next⟩ := outcome
  cases result with
  | error failure => exact .of_error hmirror.continues (hmirror.error failure rfl) _
  | ok root =>
    obtain ⟨hupheld, hnames⟩ := hmirror.ok root rfl
    exact .of_ok hmirror.continues hupheld hnames

def Quiet (ask : Asking σ ω) : Prop :=
  ∀ source name state, (ask source name state).2.1 = state.1

/-- What the step of the registry comes to that an operation begins with. -/
structure Begins (handles : List Root) (m : Machine σ) (registry : Registry σ) : Prop where
  upheld : (m.withRegistry registry).Upheld none handles
  outgrows : Registry.Outgrows m.registry registry
  retains : Registry.Retains m.registry registry
  graph : m.registry.graph ⊆ registry.graph

theorem Begins.refl (h : m.Upheld none handles) : Begins handles m m.registry :=
  ⟨h, .refl _, .refl _, List.Subset.refl _⟩

theorem Begins.continues {registry : Registry σ} (h : Begins handles m registry) :
    Continues handles m (m.withRegistry registry) :=
  continues_withRegistry handles h.outgrows h.graph

theorem Begins.adding {registry : Registry σ} (h : Begins handles m registry)
    {d : ClassDefinition} {c : ClassDescriptor} (hc : registry.Entered d c)
    (hgenuine : registry.Genuine d.kind)
    (hkindred : ∀ k component, c.component? = some k → registry.get? k = some component →
      component.loader = c.loader) : Begins handles m (registry.adding c) where
  upheld := Upheld.withRegistry h.upheld (h.upheld.linked.adding hc hgenuine hkindred)
  outgrows := h.outgrows.trans hc.toFresh.outgrows
  retains := h.retains.trans hc.toFresh.retains
  graph := (Registry.adding_graph registry c).symm ▸ h.graph

theorem Upheld.begins_load (h : m.Upheld none handles) {ask : Asking σ ω} (hask : Quiet ask)
    (loader : LoaderId) (name : String) (outside : ω) :
    Begins handles m (Registry.load ask loader name (m.registry, outside)).2.1 ∧
      ∀ c, (Registry.load ask loader name (m.registry, outside)).1 = .ok c →
        (Registry.load ask loader name (m.registry, outside)).2.1.get? c.id = some c := by
  refine Registry.load_keeps (P := Begins handles m) ask
    (fun r hr => hr.upheld.linked.coherent.toIndexed) ?_ loader name ?_ (m.registry, outside)
    (.refl h)
  · intro source name state hr
    rw [hask source name state]
    exact hr
  · intro r size c hr hc
    refine hr.adding hc trivial fun k component hk => ?_
    rw [hc.eq_ofDefinition] at hk
    contradiction

theorem Upheld.begins_deriveArray (h : m.Upheld none handles) (component : ClassDescriptor)
    (dimensions : Nat) :
    Begins handles m (m.registry.deriveArray component dimensions).2 ∧
      ∀ c, (m.registry.deriveArray component dimensions).1 = .ok c →
        (m.registry.deriveArray component dimensions).2.get? c.id = some c := by
  refine Registry.deriveArray_keeps (P := Begins handles m)
    (fun r hr => hr.upheld.linked.coherent.toIndexed) ?_ (.refl h) component dimensions
  intro r component c hdimensions hr hget hc
  refine hr.adding hc (Registry.genuine_arrayOver hget hdimensions) fun k d hk hd => ?_
  rw [hc.eq_ofDefinition] at hk ⊢
  obtain rfl : component.id = k := Option.some.inj hk
  rw [hget, Option.some.injEq] at hd
  rw [← hd]
  rfl

theorem Upheld.load (h : m.Upheld none handles) {ask : Asking σ ω} (hask : Quiet ask)
    (loader : LoaderId) (name : String) (outside : ω) :
    Serves none none handles m (fun held => [held.mirror]) Holding
      ((Machine.load ask loader name (m, outside)).1,
        (Machine.load ask loader name (m, outside)).2.1) := by
  obtain ⟨hbegins, hloaded⟩ := h.begins_load hask loader name outside
  unfold Machine.load
  dsimp only
  generalize Registry.load ask loader name (m.registry, outside) = outcome at *
  obtain ⟨result, registry, outside'⟩ := outcome
  cases result with
  | error failure => exact .of_error hbegins.continues hbegins.upheld _
  | ok c =>
    exact (hbegins.upheld.holdClass (Registry.knows_of_get? (hloaded c rfl))).after
      hbegins.continues

theorem Upheld.deriveArray (h : m.Upheld none handles) (component : ClassDescriptor)
    (dimensions : Nat) :
    Serves none none handles m (fun held => [held.mirror]) Holding
      (m.deriveArray component dimensions) := by
  obtain ⟨hbegins, hderived⟩ := h.begins_deriveArray component dimensions
  unfold Machine.deriveArray
  dsimp only
  split
  · exact .of_error (.refl handles m) h _
  · generalize m.registry.deriveArray component dimensions = outcome at *
    obtain ⟨result, registry⟩ := outcome
    cases result with
    | error e => exact .of_error hbegins.continues hbegins.upheld _
    | ok c =>
      exact (hbegins.upheld.holdClass (Registry.knows_of_get? (hderived c rfl))).after
        hbegins.continues

theorem get?_dropAll (m : Machine σ) (roots : List Root) (r : Ref) :
    (m.dropAll roots).objects.get? r = m.objects.get? r := by
  induction roots generalizing m with
  | nil => rfl
  | cons root roots ih => exact ih (m.drop root)

theorem Upheld.allocateWith {needed : List Root} (h : m.Upheld none (needed ++ handles))
    (context : Context) (make : Attempt σ) {made : Object → Prop}
    (hmake : ∀ next : Machine σ, next.Upheld none (needed ++ handles) →
      Continues (needed ++ handles) m next →
        Lands none none next.registry next.objects made (make next.registry next.objects)) :
    Serves none none handles m (fun root => [root]) (Names made)
      (m.allocateWith needed context make) := by
  have hallocated := h.allocateRooted make hmake
  have hcontinues := hallocated.continues.mono (List.subset_append_right needed handles)
  unfold Machine.allocateWith
  generalize m.allocateRooted make = outcome at hallocated hcontinues ⊢
  obtain ⟨result, next⟩ := outcome
  cases result with
  | error failure =>
    obtain ⟨hdropped, hrest⟩ := (hallocated.error failure rfl).dropAll
    exact .of_error (hcontinues.trans hrest) hdropped _
  | ok root =>
    obtain ⟨hupheld, object, hget, hmade⟩ := hallocated.ok root rfl
    have hperm : (root :: (needed ++ handles)).Perm (needed ++ root :: handles) :=
      List.perm_middle.symm
    obtain ⟨hdropped, hrest⟩ := (hupheld.perm hperm).dropAll
    exact .of_ok (hcontinues.trans (hrest.mono (List.subset_cons_self root handles))) hdropped
      ⟨object, (get?_dropAll next needed root.ref).trans hget, hmade⟩

theorem Continues.names_mirror {next : Machine σ} (h : Continues handles m next) {root : Root}
    (hroot : root ∈ handles) {id : ClassId} (hnames : Names (IsMirror id) m root) :
    Names (IsMirror id) next root := by
  obtain ⟨_, hget, loader, component, rfl⟩ := hnames
  exact ⟨_, h.mirrors root hroot id loader component hget, loader, component, rfl⟩

def makeInstance (id : ClassId) (mirror : Ref) : Attempt σ := fun _ objects =>
  match objects.alloc (.instanceOf id mirror #[none]) with
  | (.ok r, objects) => (.ok r, objects)
  | (.error e, objects) => objects.fail e

theorem Upheld.instance_lands (h : m.Upheld none handles) {mirror : Root} (hmirror : mirror ∈ handles)
    {id : ClassId} (hnames : Names (IsMirror id) m mirror) :
    Lands none none m.registry m.objects
      (fun object => ∃ mirror, object = .instanceOf id mirror #[none])
      (makeInstance id mirror.ref m.registry m.objects) := by
  obtain ⟨_, hget, loader, component, rfl⟩ := hnames
  have hlands := alloc_lands h.toIntact (.instanceOf id mirror.ref #[none]) rfl
    (fun _ => h.linked.fits_of_mirror hget) (by
      intro r hr
      rw [List.mem_singleton.mp hr]
      exact h.marked mirror hmirror)
  unfold makeInstance
  rcases hlands with ⟨e, heq⟩ | ⟨r, after, heq, hlands⟩
  · rw [heq]
    exact .of_error h.toIntact _ _ _
  · rw [heq]
    exact hlands.weaken fun object hobject => ⟨mirror.ref, hobject⟩

theorem Upheld.newInstance (h : m.Upheld none handles) {c : ClassDescriptor}
    (hc : m.registry.Knows c) :
    Serves none none handles m (fun root => [root])
      (Names fun object => ∃ mirror, object = .instanceOf c.id mirror #[none])
      (m.newInstance c) := by
  unfold Machine.newInstance
  split
  · exact .of_error (.refl handles m) h _
  · have hmirror := h.mirrorOf hc
    generalize m.mirrorOf c = outcome at hmirror ⊢
    obtain ⟨result, next⟩ := outcome
    cases result with
    | error failure => exact .of_error hmirror.continues (hmirror.error failure rfl) _
    | ok mirror =>
      obtain ⟨hupheld, hnames⟩ := hmirror.ok mirror rfl
      exact (hupheld.allocateWith _ _ fun later hlater hsince =>
        hlater.instance_lands List.mem_cons_self
          (hsince.names_mirror List.mem_cons_self hnames)).after hmirror.continues

theorem ready_of_holding {next : Machine σ} {classes : List HeldClass}
    (h : next.Upheld none (classes.map (·.mirror) ++ handles)) (lengths : List Nat)
    (hclasses : ∀ c ∈ classes, Holding next c) :
    Ready (classes.zipWith (fun c length => ⟨c.descriptor.id, c.mirror.ref, length⟩) lengths)
      next.objects := by
  intro level hlevel
  obtain ⟨i, hi⟩ := List.mem_iff_getElem?.mp hlevel
  obtain ⟨c, length, hc, -, rfl⟩ := List.getElem?_zipWith_eq_some.mp hi
  have hmem := List.mem_of_getElem? hc
  obtain ⟨_, hget, loader, component, rfl⟩ := hclasses c hmem
  exact ⟨h.marked c.mirror (List.mem_append_left _ (List.mem_map_of_mem hmem)), loader, component,
    hget⟩

theorem Continues.holding {next : Machine σ} {classes : List HeldClass}
    (h : Continues (classes.map (·.mirror) ++ handles) m next)
    (hclasses : ∀ c ∈ classes, Holding m c) : ∀ c ∈ classes, Holding next c := by
  intro c hc
  exact h.names_mirror (List.mem_append_left _ (List.mem_map_of_mem hc)) (hclasses c hc)

theorem Upheld.array_lands {held : HeldClass} (h : m.Upheld none (held.mirror :: handles))
    (hholding : Holding m held) (length : Nat) :
    Lands none none m.registry m.objects
      (fun object => ∃ elements, object = .arrayOf held.descriptor.id held.mirror.ref elements)
      (m.objects.allocNested ⟨held.descriptor.id, held.mirror.ref, length⟩ []) :=
  allocNested_lands _ [] h.toIntact
    (ready_of_holding h [length] (List.forall_mem_singleton.mpr hholding))

theorem Upheld.newArray (h : m.Upheld none handles) (component : ClassDescriptor) (length : Nat) :
    Serves none none handles m (fun root => [root])
      (Names fun object => ∃ id mirror elements, object = .arrayOf id mirror elements)
      (m.newArray component length) := by
  have hderived := h.deriveArray component 1
  unfold Machine.newArray
  generalize m.deriveArray component 1 = outcome at hderived ⊢
  obtain ⟨result, next⟩ := outcome
  cases result with
  | error failure => exact .of_error hderived.continues (hderived.error failure rfl) _
  | ok held =>
    obtain ⟨hupheld, hholding⟩ := hderived.ok held rfl
    refine (hupheld.allocateWith _ _ ?_).after hderived.continues
    intro later hlater hsince
    exact (hlater.array_lands (hsince.names_mirror List.mem_cons_self hholding) length).weaken
      fun object ⟨elements, hobject⟩ => ⟨_, _, elements, hobject⟩

theorem Upheld.deriveNested (h : m.Upheld none handles) (component : ClassDescriptor) (n : Nat) :
    Serves none none handles m (fun classes => classes.map (·.mirror))
      (fun next classes => classes.length = n ∧ ∀ c ∈ classes, Holding next c)
      (m.deriveNested component n) := by
  induction n generalizing m handles with
  | zero => exact .of_ok (.refl handles m) h ⟨rfl, fun c hc => absurd hc List.not_mem_nil⟩
  | succ n ih =>
    have hderived := h.deriveArray component (n + 1)
    unfold Machine.deriveNested
    generalize m.deriveArray component (n + 1) = outcome at hderived ⊢
    obtain ⟨result, next⟩ := outcome
    cases result with
    | error failure => exact .of_error hderived.continues (hderived.error failure rfl) _
    | ok c =>
      obtain ⟨hupheld, hholding⟩ := hderived.ok c rfl
      have hinner := ih hupheld
      have hcontinues := hderived.continues.trans
        (hinner.continues.mono (List.subset_append_right [c.mirror] handles))
      dsimp only
      generalize next.deriveNested component n = outcome at hinner hcontinues ⊢
      obtain ⟨result, last⟩ := outcome
      cases result with
      | error failure =>
        obtain ⟨hdropped, hrest⟩ := (hinner.error failure rfl).dropAll
        exact .of_error (hcontinues.trans hrest) hdropped _
      | ok inner =>
        obtain ⟨hlast, hlength, hclasses⟩ := hinner.ok inner rfl
        have hperm : (inner.map (·.mirror) ++ c.mirror :: handles).Perm
            (c.mirror :: (inner.map (·.mirror) ++ handles)) := List.perm_middle
        refine .of_ok hcontinues (hlast.perm hperm) ⟨congrArg (· + 1) hlength, ?_⟩
        intro d hd
        rcases List.mem_cons.mp hd with rfl | hd
        · exact hinner.continues.names_mirror List.mem_cons_self hholding
        · exact hclasses d hd

theorem Upheld.newArrays (h : m.Upheld none handles) (component : ClassDescriptor)
    (lengths : List Nat) :
    Serves none none handles m (fun root => [root])
      (Names fun object => ∃ id mirror elements, object = .arrayOf id mirror elements)
      (m.newArrays component lengths) := by
  have hderived := h.deriveNested component lengths.length
  unfold Machine.newArrays
  generalize m.deriveNested component lengths.length = outcome at hderived ⊢
  obtain ⟨result, next⟩ := outcome
  cases result with
  | error failure => exact .of_error hderived.continues (hderived.error failure rfl) _
  | ok classes =>
    obtain ⟨hupheld, hlength, hclasses⟩ := hderived.ok classes rfl
    cases classes with
    | nil => exact .of_error hderived.continues hupheld _
    | cons c classes =>
      cases lengths with
      | nil => contradiction
      | cons length lengths =>
        refine (hupheld.allocateWith _ _ ?_).after hderived.continues
        intro later hlater hsince
        have hready := ready_of_holding hlater (length :: lengths) (hsince.holding hclasses)
        exact (allocNested_lands _ _ hlater.toIntact hready).weaken
          fun object ⟨elements, hobject⟩ => ⟨_, _, elements, hobject⟩

theorem Upheld.store (h : m.Upheld none handles) (target : Root) (index : Nat) {value : Option Root}
    (hvalue : ∀ root, value = some root → root ∈ handles) :
    Serves none none handles m (fun _ => []) (fun _ _ => True)
      (m.store target index (value.map (·.ref))) := by
  unfold Machine.store
  split
  · have hgrows := Grows.storing m.objects target.ref index (value.map (·.ref))
    have hmarked : ∀ r, value.map (·.ref) = some r → m.objects.Marked r := by
      intro r hr
      obtain ⟨root, hroot, rfl⟩ := Option.map_eq_some_iff.mp hr
      exact h.marked root (hvalue root hroot)
    have hstored := h.toIntact.storing target.ref index hmarked
    exact .of_ok (continues_grown handles hgrows) (h.grown hgrows rfl hstored) trivial
  · exact .of_error (.refl handles m) h _

theorem Upheld.fetch (h : m.Upheld pending handles) {target : Root} (htarget : target ∈ handles)
    (index : Nat) :
    (m.fetch target index).2.Upheld pending ((m.fetch target index).1.toList ++ handles) ∧
      Continues handles m (m.fetch target index).2 := by
  unfold Machine.fetch
  split
  · exact ⟨h, .refl handles m⟩
  · rename_i r hread
    obtain ⟨object, hget, hplace⟩ := Option.bind_eq_some_iff.mp hread
    have hmem : some r ∈ object.slots.toList :=
      Array.mem_toList_iff.mpr (Array.mem_of_getElem? (Option.join_eq_some_iff.mp hplace))
    have hrefs : r ∈ object.coreRefs := by
      have hread : r ∈ object.slots.toList.filterMap id := List.mem_filterMap.mpr ⟨_, hmem, rfl⟩
      cases object with
      | instanceOf id mirror fields => exact List.mem_cons_of_mem mirror hread
      | arrayOf id mirror elements => exact List.mem_cons_of_mem mirror hread
      | mirrorOf => contradiction
      | holderOf => contradiction
    have hmarked := h.shaded.refs target.ref object (h.marked target htarget) hget r hrefs
    exact ⟨h.root hmarked, continues_root handles m r⟩

theorem Upheld.clone (h : m.Upheld pending handles) {root : Root} (hroot : root ∈ handles) :
    (m.clone root).2.Upheld pending ((m.clone root).1 :: handles) ∧
      Continues handles m (m.clone root).2 :=
  ⟨h.root (h.marked root hroot), continues_root handles m root.ref⟩

end Metaspace.Machine
