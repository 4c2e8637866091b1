import Metaspace.Proofs.Heap.Accounts
import Metaspace.Proofs.Machine.Underway

/-!
Cycles on a machine that is used meanwhile. From the mark to the eviction others may take steps
between and during the calls of the oracle. What they hold in the end survives, unless it reaches
the mirror of a class whose loader the mark has missed.
-/

set_option autoImplicit false

namespace Metaspace

variable {σ : Type}

/-- What a session has besides the engine and the object heap. -/
structure Users where
  config : Config
  handles : List Root
  known : List ClassDescriptor

namespace Session

def ofState (state : Engine σ × HeapView × Users) : Session σ where
  machine := ⟨state.2.2.config, state.1, state.2.1.1, state.2.1.2⟩
  handles := state.2.2.handles
  known := state.2.2.known

def state (s : Session σ) : Engine σ × HeapView × Users :=
  (s.machine.engine, (s.machine.objects, s.machine.found), ⟨s.machine.config, s.handles, s.known⟩)

end Session

def aside {ε α : Type} (operation : EngineCall σ HeapView ε α) :
    EngineCall σ (HeapView × Users) ε α := fun state =>
  let (answer, engine, view) := operation (state.1, state.2.1)
  (answer, engine, view, state.2.2)

def Interleaves {α : Type} (operation : EngineCall σ HeapView Interruption α)
    (shared : EngineCall σ (HeapView × Users) Interruption α) : Prop :=
  ∀ state, ∃ between last,
    Session.Mutations (.ofState state) (.ofState between) ∧
    shared state = ((aside operation between).1, last) ∧
    Session.Mutations (.ofState (aside operation between).2) (.ofState last)

/-- The oracle of the object heap, with others who use the machine from when it has marked until the
cycle evicts. -/
structure Oracle.Shared (classUnloading : Bool) (oracle : Oracle σ (HeapView × Users)) : Prop where
  beginCycle : ∀ snapshot state, ∃ last,
    oracle.beginCycle snapshot state =
      ((aside ((heapOracle classUnloading).beginCycle snapshot) state).1, last) ∧
    Session.Mutations
      (.ofState (aside ((heapOracle classUnloading).beginCycle snapshot) state).2) (.ofState last)
  query : ∀ c loader,
    Interleaves ((heapOracle classUnloading).query c loader) (oracle.query c loader)
  queryLoader : ∀ l, Interleaves ((heapOracle classUnloading).queryLoader l) (oracle.queryLoader l)
  endCycle : ∀ report, oracle.endCycle report = aside ((heapOracle classUnloading).endCycle report)

namespace Session

structure Condemns (start : Session σ) (dead : List ClassId × List LoaderId) : Prop where
  falls : ∀ {now : Registry σ}, now.Coherent → Registry.Outgrows start.machine.registry now →
    ∀ id, now.Falls (· ∈ dead.1) id ↔ now.Falls start.Dooms id
  loaders : ∀ id, id ∈ dead.2 ↔
    ∃ l ∈ start.machine.registry.graph, l.id = id ∧ ¬ start.machine.Saves l.id

section Condemns

variable {start : Session σ}

theorem Sound.condemns_nothing (h : start.Sound)
    (hoff : start.machine.config.classUnloading = false) : start.Condemns ([], []) := by
  have hsaves : ∀ l, start.machine.Saves l := by
    intro l
    unfold Machine.Saves Machine.Reached
    rw [hoff]
    exact h.machine.linked.keeps_strong l
  constructor
  · intro now _ _ id
    have hsame : (· ∈ ([] : List ClassId)) = start.Dooms := by
      funext id
      simp [Dooms, hsaves]
    rw [hsame]
  · simp [hsaves]

theorem Sound.condemns (h : start.Sound) {classes : List ClassId} {loaders : List LoaderId}
    (hclasses : ∀ id, id ∈ classes ↔ ∃ c ∈ start.machine.registry.snapshot.classes,
      c.id = id ∧ ¬ start.machine.Saves c.loader)
    (hloaders : ∀ id, id ∈ loaders ↔ ∃ l ∈ start.machine.registry.graph,
      l.id = id ∧ ¬ start.machine.Saves l.id) :
    start.Condemns (Cycle.condemned start.machine.registry.snapshot classes, loaders) := by
  have hcoherent := h.machine.linked.coherent
  refine ⟨?_, hloaders⟩
  intro now hnow houtgrows id
  rw [Cycle.falls_condemned_iff hcoherent.toLayered hnow.toLayered houtgrows]
  have hsame : (· ∈ classes) = start.Dooms := by
    funext id
    rw [eq_iff_iff, hclasses]
    constructor
    · rintro ⟨c, hc, rfl, hmissed⟩
      exact ⟨c, hcoherent.mem_registered.mp hc, hmissed⟩
    · rintro ⟨c, hget, hmissed⟩
      exact ⟨c, hcoherent.mem_registered_of_get? hget, hcoherent.id_of_get? hget, hmissed⟩
  rw [hsame]

end Condemns

theorem Underway.setPhase {start : Session σ} {state : Engine σ × HeapView × Users}
    (h : Underway start (.ofState state)) {phase : Phase} (hphase : phase ≠ .idle) :
    Underway start (.ofState (Cycle.setPhase phase state)) where
  machine := { h.machine with rests := fun hidle => absurd hidle hphase }
  known := h.known
  sound := h.sound
  running := hphase
  outgrows := h.outgrows
  config := h.config
  endures := { h.endures with }

end Session

open Session

namespace Oracle.Shared

variable {start : Session σ} {oracle : Oracle σ (HeapView × Users)} {classUnloading : Bool}

theorem answers_query (h : oracle.Shared classUnloading) {c : ClassDescriptor}
    (hc : c ∈ start.machine.registry.registered) :
    Cycle.Answers (fun state => Underway start (.ofState state))
      (fun liveness : Liveness => liveness.isLive = true ↔ start.machine.Saves c.loader)
      (oracle.query c (start.machine.registry.snapshot.loader? c.loader)) := by
  intro state hstate
  obtain ⟨between, last, hbefore, heq, hafter⟩ := h.query c _ state
  have hbetween := hstate.mutations hbefore
  exact ⟨_, last, heq, hbetween.mutations hafter, hbetween.isLive_iff hc⟩

theorem answers_queryLoader (h : oracle.Shared classUnloading) {l : Loader σ}
    (hl : l ∈ start.machine.registry.graph) :
    Cycle.Answers (fun state => Underway start (.ofState state))
      (fun answer => answer = true ↔ start.machine.Saves l.id) (oracle.queryLoader l) := by
  intro state hstate
  obtain ⟨between, last, hbefore, heq, hafter⟩ := h.queryLoader l state
  have hbetween := hstate.mutations hbefore
  exact ⟨_, last, heq, hbetween.mutations hafter, hbetween.loaderAlive_iff hl⟩

theorem answers_decide (h : oracle.Shared classUnloading) (hsound : start.Sound)
    (hconfig : start.machine.config.classUnloading = classUnloading) :
    Cycle.Answers (fun state => Underway start (.ofState state)) start.Condemns
      (Cycle.decide oracle start.machine.registry.snapshot) := by
  intro state hstate
  have hunloading : state.1.classUnloading = classUnloading :=
    hstate.machine.classUnloading.trans
      ((congrArg Config.classUnloading hstate.config).trans hconfig)
  rw [Cycle.decide_eq, hunloading]
  cases classUnloading with
  | false => exact ⟨_, state, rfl, hstate, hsound.condemns_nothing hconfig⟩
  | true =>
    have hclasses := Cycle.answers_askClasses
      fun c (hc : c ∈ start.machine.registry.registered) => h.answers_query hc
    have hloaders := Cycle.answers_askLoaders
      (fun l hl state hstate hskipped => hstate.saves_of_unasked hl hskipped)
      fun l (hl : l ∈ start.machine.registry.graph) => h.answers_queryLoader hl
    exact (hclasses.followedBy fun classes hdead => hloaders.followedBy fun loaders hdead' =>
      .ok (hsound.condemns hdead hdead')) state hstate

theorem deliberate (h : oracle.Shared start.machine.config.classUnloading)
    (hsound : start.Sound) :
    ∃ dead last,
      Cycle.deliberate oracle start.machine.registry.snapshot
        (start.machine.engine.entered, start.state.2) = (.ok dead, last) ∧
      Underway start (.ofState last) ∧ start.Condemns dead := by
  obtain ⟨begun, hbegin, hmutations⟩ := h.beginCycle start.machine.registry.snapshot
    (start.machine.engine.entered, start.state.2)
  have hbegun : Underway start (.ofState begun) := hsound.begun.mutations hmutations
  unfold Cycle.deliberate
  rw [Cycle.followedBy_of_ok hbegin]
  exact h.answers_decide hsound rfl _ (hbegun.setPhase Phase.noConfusion)

end Oracle.Shared

namespace Session

/-- A session before and after a cycle evicted what it had found dead and swept the heap. -/
structure Concludes (start s : Session σ) (dead : List ClassId × List LoaderId)
    (report : CycleReport σ) (t : Session σ) : Prop where
  underway : Underway start s
  condemns : start.Condemns dead
  evicted : Cycle.Evicted s.machine.registry (· ∈ dead.1) (· ∈ dead.2) report t.machine.registry
  objects : t.machine.objects = s.machine.objects.sweep (report.unloaded.map (·.id))
    (report.unloadedLoaders.map (·.id))
  handles : t.handles = s.handles
  known : t.known = s.known
  idle : t.machine.engine.coordinator.phase = .idle
  classUnloading : t.machine.engine.classUnloading = t.machine.config.classUnloading

def Reaches (s : Session σ) (r : Ref) : Prop :=
  s.machine.objects.heap.Reaches (s.handles.map (·.ref)) r

/-- A session before and after a cycle that took nothing away from what is held. -/
structure Spared (s t : Session σ) : Prop where
  handles : t.handles = s.handles
  /-- All that can be reached is unchanged, and what it refers to is there. -/
  objects : ∀ r object, s.Reaches r → s.machine.objects.get? r = some object →
    t.machine.objects.get? r = some object ∧
      ∀ r' ∈ object.refs, ∃ object', t.machine.objects.get? r' = some object'
  /-- The class of an instance, an array or a mirror that is held is registered. -/
  classes : ∀ root ∈ s.handles, ∀ object id, s.machine.objects.get? root.ref = some object →
    object.class? = some id ∨ object.mirrored? = some id →
      ∃ c, s.machine.registry.get? id = some c ∧ t.machine.registry.get? id = some c

section Concludes

variable {start s t : Session σ} {dead : List ClassId × List LoaderId} {report : CycleReport σ}

theorem Underway.unswept (h : Underway start s) : s.machine.objects.heap.unswept = true :=
  h.endures.grows.unswept.trans (Heap.unswept_mark _ _)

theorem Concludes.get?_eq_some (h : Concludes start s dead report t) {r : Ref} {object : Object} :
    t.machine.objects.get? r = some object ↔
      s.machine.objects.Marked r ∧ s.machine.objects.get? r = some object := by
  rw [h.objects, ObjectHeap.get?]
  exact Heap.get?_sweep h.underway.unswept

theorem Concludes.registered (h : Concludes start s dead report t) {id : ClassId}
    {c : ClassDescriptor} (hget : s.machine.registry.get? id = some c)
    (hkept : s.machine.objects.Keeps s.machine.objects.Marked c.loader) :
    t.machine.registry.get? id = some c := by
  refine (h.evicted.get?_eq_some id c).mpr ⟨hget, ?_⟩
  rw [h.condemns.falls h.underway.machine.linked.coherent h.underway.outgrows]
  intro hfalls
  obtain ⟨d, hd, hmissed⟩ := h.underway.not_saves_of_falls hfalls
  rw [hget, Option.some.injEq] at hd
  exact hmissed (hd ▸ (h.underway.keeps_iff c.loader).mp hkept)

theorem Upheld.reaches_root (h : s.Upheld) {root : Root} (hroot : root ∈ s.handles) :
    s.Reaches root.ref := by
  obtain ⟨object, hget⟩ := h.machine.live root hroot
  exact .start (List.mem_map_of_mem hroot) (Heap.contains_of_get? hget)

theorem Underway.marked_of_reaches (h : Underway start s)
    (hstays : ∀ r, s.Reaches r → ¬ start.Strays s r) {r : Ref} (hr : s.Reaches r) :
    s.machine.objects.Marked r := by
  induction hr with
  | start hmem _ =>
    obtain ⟨root, hroot, rfl⟩ := List.mem_map.mp hmem
    exact h.machine.marked root hroot
  | step hreached hget hmem _ ih => exact h.marked_of_ref ih hget (hstays _ hreached) _ hmem

theorem Underway.keeps_of_mirror (h : Underway start s)
    (hstays : ∀ r, s.Reaches r → ¬ start.Strays s r) {r : Ref} (hr : s.Reaches r) {id : ClassId}
    {loader component : Option Ref}
    (hget : s.machine.objects.get? r = some (.mirrorOf id loader component)) :
    ∃ c, s.machine.registry.get? id = some c ∧
      s.machine.objects.Keeps s.machine.objects.Marked c.loader := by
  obtain ⟨-, c, hc, rfl, -⟩ := h.machine.linked.fits r _ hget
  refine ⟨c, hc, ?_⟩
  intro holder hholder
  rw [hholder] at hget
  exact h.marked_of_mirror (h.marked_of_reaches hstays hr) hget (hstays r hr)

theorem Underway.keeps_of_held (h : Underway start s)
    (hstays : ∀ r, s.Reaches r → ¬ start.Strays s r) {root : Root} (hroot : root ∈ s.handles)
    {object : Object} {id : ClassId} (hget : s.machine.objects.get? root.ref = some object)
    (huses : object.class? = some id ∨ object.mirrored? = some id) :
    ∃ c, s.machine.registry.get? id = some c ∧
      s.machine.objects.Keeps s.machine.objects.Marked c.loader := by
  have hreached := h.reaches_root hroot
  rcases huses with hclass | hmirrored
  · obtain ⟨-, mirror, -, hmirror, hmem⟩ := h.machine.linked.mirror_of_class? hget hclass
    obtain ⟨loader, component, hobject⟩ := h.machine.linked.mirrors id mirror hmirror
    exact h.keeps_of_mirror hstays (.step hreached hget hmem (Heap.contains_of_get? hobject))
      hobject
  · cases object with
    | mirrorOf k loader component =>
      obtain rfl := Option.some.inj hmirrored
      exact h.keeps_of_mirror hstays hreached hget
    | _ => contradiction

theorem Concludes.spared_iff (h : Concludes start s dead report t) :
    Spared s t ↔ ∀ r, s.Reaches r → ¬ start.Strays s r := by
  have hunderway := h.underway
  constructor
  · rintro hspared r hr ⟨-, id, holder, component, hget, hmissed⟩
    obtain ⟨-, hrefs⟩ := hspared.objects r _ hr hget
    obtain ⟨object, hobject⟩ := hrefs holder (List.mem_append_left _ List.mem_cons_self)
    exact hmissed (h.get?_eq_some.mp hobject).1
  · intro hstays
    refine ⟨h.handles, ?_, ?_⟩
    · intro r object hr hget
      have hmarked := hunderway.marked_of_reaches hstays hr
      refine ⟨h.get?_eq_some.mpr ⟨hmarked, hget⟩, ?_⟩
      intro r' hr'
      have hmarked' := hunderway.marked_of_ref hmarked hget (hstays r hr) r' hr'
      obtain ⟨object', hobject'⟩ := hmarked'.live
      exact ⟨object', h.get?_eq_some.mpr ⟨hmarked', hobject'⟩⟩
    · intro root hroot object id hget huses
      obtain ⟨c, hc, hkept⟩ := hunderway.keeps_of_held hstays hroot hget huses
      exact ⟨c, hc, h.registered hc hkept⟩

end Concludes

/-- Nothing was made for a loader whose holder the mark has missed: no mirror, and no class but
arrays. -/
structure Unharmed (start s : Session σ) : Prop where
  mirrors : ∀ r, s.machine.objects.Marked r → ¬ start.Strays s r
  classes : ∀ id c, s.machine.registry.get? id = some c → c.isArray = false →
    start.machine.registry.get? id = none → start.machine.Saves c.loader

section Unharmed

variable {start s t : Session σ} {dead : List ClassId × List LoaderId} {report : CycleReport σ}

theorem Underway.falls_of_not_saves (h : Underway start s) (hunharmed : start.Unharmed s)
    {c : ClassDescriptor} (hget : s.machine.registry.get? c.id = some c)
    (hmissed : ¬ start.machine.Saves c.loader) :
    s.machine.registry.Falls start.Dooms c.id := by
  have hchain := h.machine.linked.coherent.chain_components hget
  generalize s.machine.registry.components c = components at hchain
  induction components generalizing c with
  | nil =>
    have hordinary : c.isArray = false := by
      rw [Registry.isArray_eq_isSome_component?, show c.component? = none from hchain]
      rfl
    refine .given ?_ (Option.isSome_iff_exists.mpr ⟨c, hget⟩)
    cases hthen : start.machine.registry.get? c.id with
    | none => exact absurd (hunharmed.classes c.id c hget hordinary hthen) hmissed
    | some d =>
      have hsame := h.outgrows.get?_before (IdTable.issued_of_get? hthen) hget
      rw [hthen, Option.some.injEq] at hsame
      exact ⟨c, hsame ▸ hthen, hmissed⟩
  | cons d ds ih =>
    obtain ⟨hof, hgetd, -, htail⟩ := hchain
    refine .array hget hof (ih hgetd ?_ htail)
    rw [h.machine.linked.kindred c.id c d.id d hget hof hgetd]
    exact hmissed

theorem Concludes.culled (h : Concludes start s dead report t) (hunharmed : start.Unharmed s) :
    s.machine.registry.Culled (s.machine.objects.Keeps s.machine.objects.Marked) report
      t.machine.registry := by
  have hlinked := h.underway.machine.linked
  refine .of_evicted hlinked.coherent hlinked.keeps_boot ?_ ?_ h.evicted
  · intro id
    rw [h.condemns.falls hlinked.coherent h.underway.outgrows]
    simp only [h.underway.keeps_iff]
    constructor
    · exact h.underway.not_saves_of_falls
    · rintro ⟨c, hget, hmissed⟩
      have hid := hlinked.coherent.id_of_get? hget
      subst hid
      exact h.underway.falls_of_not_saves hunharmed hget hmissed
  · intro l _
    rw [h.condemns.loaders, h.underway.keeps_iff]
    constructor
    · rintro ⟨k, -, hid, hmissed⟩
      exact hid ▸ hmissed
    · intro hmissed
      obtain ⟨r, hr⟩ := not_forall.mp hmissed
      obtain ⟨hholder, -⟩ := Classical.not_imp.mp hr
      obtain ⟨-, ⟨k, hk, hid⟩, -⟩ := h.underway.sound.machine.linked.holders l.id r hholder
      exact ⟨k, hk, hid, hid ▸ hmissed⟩

theorem Concludes.sound (h : Concludes start s dead report t) (hunharmed : start.Unharmed s) :
    t.Sound := by
  have hmachine := h.underway.machine
  have hculled := h.culled hunharmed
  have hswept := hmachine.linked.swept_of_culled hmachine.sound h.underway.unswept hculled
  rw [← h.objects] at hswept
  constructor
  · rw [h.handles]
    have hclosed : s.machine.objects.Closes s.machine.objects.Marked :=
      fun r _ hr hget => h.underway.marked_of_ref hr hget (hunharmed.mirrors r hr)
    exact hmachine.swept hclosed hmachine.shaded.frozen hmachine.marked hculled hswept h.idle
      h.classUnloading
  · intro c hc
    rw [h.known] at hc
    exact h.evicted.outgrows.knows (h.underway.known c hc)

end Unharmed
end Session

theorem Oracle.Shared.concludes {start : Session σ} {oracle : Oracle σ (HeapView × Users)}
    (h : oracle.Shared start.machine.config.classUnloading) (hsound : start.Sound) :
    ∃ dead last report final,
      Cycle.deliberate oracle start.machine.registry.snapshot
        (start.machine.engine.entered, start.state.2) = (.ok dead, last) ∧
      trigger oracle start.state = (.finished (.ok report), final) ∧
      Concludes start (.ofState last) dead report (.ofState final) := by
  obtain ⟨dead, last, hdeliberate, hunderway, hcondemns⟩ := h.deliberate hsound
  let cycle := start.machine.engine.coordinator.started + 1
  let evicting := (Cycle.setPhase .evicting last).1
  let scanned := start.machine.registry.snapshot.size
  obtain ⟨hevicted, -⟩ := Cycle.evict_spec evicting hunderway.machine.linked.coherent.toIndexed cycle scanned
    dead.1 dead.2
  let report := (Cycle.evict evicting cycle scanned dead.1 dead.2).1
  let closed : Engine σ × HeapView × Users :=
    ((Cycle.evict evicting cycle scanned dead.1 dead.2).2,
      (last.2.1.1.sweep (report.unloaded.map (·.id)) (report.unloadedLoaders.map (·.id)),
        last.2.1.2),
      last.2.2)
  refine ⟨dead, last, report, Cycle.conclude cycle (.ok report) closed, hdeliberate, ?_,
    hunderway, hcondemns, hevicted, rfl, rfl, rfl, rfl, hunderway.machine.classUnloading⟩
  have hclose : Cycle.close oracle cycle scanned dead last = (.ok report, closed) := by
    simp only [Cycle.close, h.endCycle]
    rfl
  exact trigger_of_deliberate hsound.machine.idle hdeliberate hclose

namespace Session

/-- What a session on a new machine can become, with cycles that others share and that do no
harm. -/
inductive Lived (config : Config) (bootSources : List σ) : Session σ → Prop where
  | start : Lived config bootSources (new config bootSources)
  | step {s t : Session σ} : Lived config bootSources s → Step s t → Lived config bootSources t
  | cycle {s : Session σ} {oracle : Oracle σ (HeapView × Users)}
      {dead : List ClassId × List LoaderId} {last : Engine σ × HeapView × Users} :
      Lived config bootSources s → oracle.Shared s.machine.config.classUnloading →
      Cycle.deliberate oracle s.machine.registry.snapshot (s.machine.engine.entered, s.state.2) =
        (.ok dead, last) →
      s.Unharmed (.ofState last) →
      Lived config bootSources (.ofState (trigger oracle s.state).2)

theorem Reached.lived {config : Config} {bootSources : List σ} {s : Session σ}
    (h : Reached config bootSources s) : Lived config bootSources s := by
  induction h with
  | start => exact .start
  | step _ hstep ih => exact ih.step hstep

theorem Lived.sound {config : Config} {bootSources : List σ} {s : Session σ}
    (h : Lived config bootSources s) : s.Sound := by
  induction h with
  | start => exact (Reached.start : Reached config bootSources _).sound.1
  | step _ hstep ih =>
    obtain ⟨hupheld, hcontinues⟩ := hstep.keeps ⟨ih.machine.toUpheld, ih.known⟩
    exact ⟨⟨hupheld.machine, hcontinues.phase.trans ih.machine.idle⟩, hupheld.known⟩
  | cycle _ hshared hdeliberate hunharmed ih =>
    obtain ⟨dead, last, report, final, hsame, htrigger, hconcludes⟩ := hshared.concludes ih
    rw [hdeliberate] at hsame
    obtain ⟨-, rfl⟩ := Prod.mk.inj hsame
    rw [htrigger]
    exact hconcludes.sound hunharmed

end Session

/-- The oracle of the object heap, joined by someone who takes a step right after the mark, if that
needs no collection. -/
def Oracle.joined (classUnloading : Bool) (act : Session σ → Session σ) :
    Oracle σ (HeapView × Users) where
  beginCycle snapshot state :=
    let (answer, begun) := aside ((heapOracle classUnloading).beginCycle snapshot) state
    let s := Session.ofState begun
    let t := act s
    (answer, if t.machine.engine.coordinator.coalesced = s.machine.engine.coordinator.coalesced
      then t.state else begun)
  query c loader := aside ((heapOracle classUnloading).query c loader)
  queryLoader l := aside ((heapOracle classUnloading).queryLoader l)
  endCycle report := aside ((heapOracle classUnloading).endCycle report)

theorem Oracle.shared_joined (classUnloading : Bool) {act : Session σ → Session σ}
    (h : ∀ s, Session.Step s (act s)) :
    (Oracle.joined classUnloading act).Shared classUnloading where
  beginCycle snapshot state := by
    refine ⟨_, rfl, ?_⟩
    split
    · rename_i hsame
      exact .single ⟨h _, hsame⟩
    · exact .refl
  query _ _ state := ⟨state, _, .refl, rfl, .refl⟩
  queryLoader _ state := ⟨state, _, .refl, rfl, .refl⟩
  endCycle _ := rfl

def ObjectHeap.anchored (objects : ObjectHeap) : Bool :=
  objects.heap.live.all fun r =>
    match objects.get? r with
    | some (.mirrorOf _ (some holder) _) => objects.heap.isMarked holder
    | _ => true

namespace Session

theorem not_strays_of_anchored {start s : Session σ} (h : s.machine.objects.anchored = true)
    (r : Ref) : ¬ start.Strays s r := by
  rintro ⟨-, id, holder, component, hget, hmissed⟩
  have hr := List.all_eq_true.mp h r (Heap.mem_live.mpr (Heap.contains_of_get? hget))
  rw [hget] at hr
  exact hmissed hr

/-- The session after a class was loaded through its first loader. -/
def loading (name : String) (s : Session Unit) : Session Unit :=
  let (outcome, machine, _) :=
    Machine.load Registry.stocked (Registry.loaderId 2) name (s.machine, ())
  s.after (fun held => [held.mirror]) (outcome, machine)

theorem loading_step (name : String) (s : Session Unit) : Step s (loading name s) :=
  .load s Registry.stocked () (Registry.loaderId 2) name fun _ _ _ => rfl

/-- The state when a cycle evicts that began on a session and was joined. -/
def joinedBy (act : Session Unit → Session Unit) (start : Session Unit) :
    Engine Unit × HeapView × Users :=
  (Cycle.deliberate (.joined true act) start.machine.registry.snapshot
    (start.machine.engine.entered, start.state.2)).2

/-- Whatever others do while a cycle is under way, the cycle comes to its end, and it takes nothing
away from what is held exactly if no stray mirror can be reached when it evicts. -/
theorem Lived.shared_cycle {config : Config} {bootSources : List σ} {start : Session σ}
    (h : Lived config bootSources start) {oracle : Oracle σ (HeapView × Users)}
    (hshared : oracle.Shared start.machine.config.classUnloading) :
    ∃ dead last report final,
      Cycle.deliberate oracle start.machine.registry.snapshot
        (start.machine.engine.entered, start.state.2) = (.ok dead, last) ∧
      trigger oracle start.state = (.finished (.ok report), final) ∧
      (Spared (.ofState last) (.ofState final) ↔
        ∀ r, Reaches (.ofState last) r → ¬ start.Strays (.ofState last) r) := by
  obtain ⟨dead, last, report, final, hdeliberate, htrigger, hconcludes⟩ :=
    hshared.concludes h.sound
  exact ⟨dead, last, report, final, hdeliberate, htrigger, hconcludes.spared_iff⟩

/-- A class is loaded through a loader that is kept by an array only. -/
theorem loading_beside_array :
    ∃ report final,
      trigger (.joined true (loading "B")) holdingArray.state = (.finished (.ok report), final) ∧
      Spared (.ofState (joinedBy (loading "B") holdingArray)) (.ofState final) ∧
      (joinedBy (loading "B") holdingArray).2.2.handles.length = 2 := by
  obtain ⟨dead, last, report, final, hdeliberate, htrigger, hspared⟩ :=
    holdingArray_reached.lived.shared_cycle (Oracle.shared_joined true (loading_step "B"))
  have hlast : joinedBy (loading "B") holdingArray = last := congrArg Prod.snd hdeliberate
  have hanchored : (joinedBy (loading "B") holdingArray).2.1.1.anchored = true := by
    decide +kernel
  have hhandles : (joinedBy (loading "B") holdingArray).2.2.handles.length = 2 := by
    decide +kernel
  rw [hlast] at hanchored hhandles ⊢
  refine ⟨report, final, htrigger, hspared.mpr ?_, hhandles⟩
  exact fun r _ => not_strays_of_anchored hanchored r

def abandoned : Session Unit :=
  let empty := new {} []
  let made := empty.after (fun held => [held.holder]) (empty.machine.newLoader "app" [()])
  made.moved (made.machine.drop ⟨0, ⟨0, 0⟩⟩) (made.handles.erase ⟨0, ⟨0, 0⟩⟩)

theorem abandoned_reached : Reached {} [] abandoned := by
  have hmade := Reached.start.step (.newLoader (new {} ([] : List Unit)) "app" [()])
  exact hmade.step (.drop _ ⟨0, ⟨0, 0⟩⟩ (by decide +kernel))

/-- A class is loaded through a loader that the mark has missed. Its mirror is held, and the holder
that it points at is swept away. -/
theorem stray_loses_its_holder :
    Reached {} [] abandoned ∧ (Oracle.joined true (loading "A")).Shared true ∧
      ¬ Spared (.ofState (joinedBy (loading "A") abandoned))
        (.ofState (trigger (.joined true (loading "A")) abandoned.state).2) := by
  refine ⟨abandoned_reached, Oracle.shared_joined true (loading_step "A"), ?_⟩
  intro hspared
  have hheld : ⟨0, ⟨1, 0⟩⟩ ∈ (joinedBy (loading "A") abandoned).2.2.handles := by
    decide +kernel
  have hmirror : (joinedBy (loading "A") abandoned).2.1.1.get? ⟨1, 0⟩ =
      some (.mirrorOf ⟨1, by decide⟩ (some ⟨0, 0⟩) none) := by
    decide +kernel
  have hlost : (trigger (.joined true (loading "A")) abandoned.state).2.2.1.1.get? ⟨0, 0⟩ =
      none := by
    decide +kernel
  obtain ⟨-, hrefs⟩ := hspared.objects ⟨1, 0⟩ _
    (.start (List.mem_map_of_mem hheld) (Heap.contains_of_get? hmirror)) hmirror
  obtain ⟨object, hobject⟩ := hrefs ⟨0, 0⟩ List.mem_cons_self
  exact absurd (hlost.symm.trans hobject) (Option.some_ne_none object).symm

end Session
end Metaspace
