import Metaspace.CommandLine.Scenario
import Metaspace.Proofs.Machine.Hosting
import Metaspace.Proofs.Unload.Stream

/-!
The scenario of the command line confirms itself. Once the loader, the class and the array could be
made, all of its checks pass: the array keeps the loader and its two classes, and when it is let go
nothing else holds them, so that they go too unless classes are never unloaded.
-/

set_option autoImplicit false

namespace Metaspace

namespace Scenario

/-- From a state the step succeeds with a value and comes to another state. -/
def Yields {α : Type} (step : Step α) (s : State) (a : α) (t : State) : Prop :=
  step.run.run s = (.ok a, t)

def State.on (s : State) (machine : Machine Source) : State := { s with machine }

def State.logging (s : State) (lines : List LogLine) : State :=
  { s with log := lines.reverse ++ s.log }

@[simp] theorem State.logging_logging (s : State) (lines more : List LogLine) :
    (s.logging lines).logging more = s.logging (lines ++ more) := by
  simp [logging]

def line (text : String) : LogLine := ⟨.info, harmless text⟩

def livenessLine (name : String) (alive : Bool) : LogLine :=
  line (name ++ " is " ++ livenessWord alive)

def eventLine (name kind : String) (cycle : Nat) : LogLine :=
  line ("Unloaded " ++ name ++ " (" ++ kind ++ ") in cycle " ++ toString cycle)

def reportLine (cycle ordinary arrays loaders : Nat) : LogLine :=
  line ("Cycle " ++ toString cycle ++ " unloaded " ++ toString ordinary ++ " classes, "
    ++ toString arrays ++ " array classes, " ++ toString loaders ++ " loaders")

section Steps

variable {α β : Type} {s t u : State} {a : α} {b : β}

theorem Yields.bind {step : Step α} {next : α → Step β} (h : Yields step s a t)
    (hnext : Yields (next a) t b u) : Yields (step >>= next) s b u := by
  unfold Yields at h hnext ⊢
  rw [ExceptT.run_bind, StateT.run_bind, h]
  exact hnext

theorem Yields.of_bind {step : Step α} {next : α → Step β} (h : Yields (step >>= next) s b u) :
    ∃ a t, Yields step s a t ∧ Yields (next a) t b u := by
  unfold Yields at h ⊢
  rw [ExceptT.run_bind, StateT.run_bind] at h
  cases hstep : step.run.run s with
  | mk result t =>
    rw [hstep] at h
    cases result with
    | error failure =>
      obtain ⟨hfailed, -⟩ := Prod.mk.inj h
      contradiction
    | ok a => exact ⟨a, t, rfl, h⟩

theorem Yields.of_eq {step : Step α} (h : Yields step s a t) (heq : t = u) : Yields step s a u :=
  heq ▸ h

theorem yields_pure (s : State) : Yields (pure ()) s () s := rfl

theorem yields_ok (a : α) (s : State) : Yields (liftM (Except.ok a : Except Failure α)) s a s := rfl

theorem yields_onMachine {f : Machine Source → Except Failure α × Machine Source}
    {machine : Machine Source} (h : f s.machine = (.ok a, machine)) :
    Yields (onMachine f) s a (s.on machine) := by
  unfold onMachine
  refine .bind (a := s) (t := s) rfl ?_
  rw [h]
  exact .bind (a := ()) rfl rfl

theorem Yields.of_onMachine {f : Machine Source → Except Failure α × Machine Source}
    (h : Yields (onMachine f) s a t) : f s.machine = (.ok a, t.machine) := by
  unfold onMachine at h
  obtain ⟨_, _, hget, h⟩ := h.of_bind
  obtain ⟨hstate, rfl⟩ := Prod.mk.inj hget
  obtain rfl := Except.ok.inj hstate
  dsimp only at h
  obtain ⟨_, _, hset, h⟩ := h.of_bind
  obtain ⟨-, rfl⟩ := Prod.mk.inj hset
  cases houtcome : f s.machine with
  | mk outcome machine =>
    rw [houtcome] at h
    cases outcome with
    | error failure =>
      obtain ⟨hfailed, -⟩ := Prod.mk.inj h
      contradiction
    | ok value =>
      obtain ⟨hvalue, rfl⟩ := Prod.mk.inj h
      rw [Except.ok.inj hvalue]

theorem yields_say (level : LogLevel) (text : String) (s : State) :
    Yields (say level text) s () (s.logging [⟨level, harmless text⟩]) := rfl

theorem yields_release (roots : List Root) (s : State) :
    Yields (release roots) s () (s.on (s.machine.dropAll roots)) := rfl

theorem yields_check {name : String} {expected : Bool} (h : s.machine.isAlive name = expected) :
    Yields (check name expected) s () (s.logging [livenessLine name expected]) := by
  unfold check
  refine .bind (a := s) (t := s) rfl ?_
  dsimp only
  rw [h, if_neg (not_not_intro rfl)]
  rfl

theorem yields_takeEvents (subscriber : Nat) (s : State) :
    Yields (takeEvents subscriber) s (s.machine.engine.publisher.pending subscriber)
      (s.on { s.machine with
        engine := { s.machine.engine with
          publisher := (s.machine.engine.publisher.take subscriber).2 } }) := rfl

theorem yields_sayReport (report : CycleReport Source) (s : State) :
    Yields (sayReport report) s () (s.logging [reportLine report.statistics.cycle
      report.statistics.ordinary report.statistics.arrays report.statistics.loaders]) := rfl

theorem yields_forIn (text : UnloadEvent → String) (events : List UnloadEvent) (s : State) :
    Yields (forIn events PUnit.unit fun event _ => do
        say .info (text event)
        pure (ForInStep.yield PUnit.unit)) s ()
      (s.logging (events.map fun event => line (text event))) := by
  induction events generalizing s with
  | nil => rfl
  | cons event events ih =>
    have hrest := ih (s.logging [line (text event)])
    rw [State.logging_logging] at hrest
    rw [List.forIn_cons]
    exact .bind (.bind (yields_say .info (text event) s) rfl) hrest

end Steps

def opened (options : Options) : Machine Source :=
  let machine : Machine Source := .new options.config []
  { machine with
    engine := { machine.engine with publisher := machine.engine.publisher.subscribe.2 } }

theorem opened_sound (options : Options) : (opened options).Sound none [] :=
  { Machine.new_sound options.config [] with }

theorem opened_connected (options : Options) : (opened options).engine.publisher.Connected 1 :=
  ⟨⟨1, #[]⟩, List.mem_singleton_self _, rfl⟩

def arrayName (options : Options) : String := "[L" ++ options.className ++ ";"

/-- The loader, the class and the array could be made, one after the other. -/
structure Setup (options : Options) (source : Source) where
  loader : HeldLoader
  loaded : HeldClass
  array : Root
  housing : Machine Source
  loading : Machine Source
  filled : Machine Source
  newLoader : (opened options).newLoader "unload" [source] = (.ok loader, housing)
  load : Machine.load Source.ask loader.id options.className (housing, ()) =
    (.ok loaded, loading, ())
  newArray : loading.newArray loaded.descriptor options.length = (.ok array, filled)

namespace Setup

variable {options : Options} {source : Source}

def unloader (s : Setup options source) : Loader Source := ⟨s.loader.id, "unload", false, [source]⟩

def relying (s : Setup options source) : Machine Source :=
  s.filled.dropAll [s.loader.holder, s.loaded.mirror]

/-- A machine on which all that was made is still there, with the class of the array. -/
structure Holds (s : Setup options source) (a : ClassDescriptor) (handles : List Root)
    (m : Machine Source) : Prop where
  sound : m.Sound none handles
  config : m.config = options.config
  publisher : m.engine.publisher = (opened options).engine.publisher
  hosts : m.Hosts s.unloader [s.loaded.descriptor, a] [s.array.ref]
  named : s.loaded.descriptor.type = .object options.className
  ordinary : s.loaded.descriptor.kind = .ordinary
  derived : ∃ hdimensions, a = .ofDefinition a.id (.arrayOver s.loaded.descriptor hdimensions)
  object : ∃ mirror elements, m.objects.get? s.array.ref = some (.arrayOf a.id mirror elements)
  get? : ∀ r object, m.objects.get? r = some object ↔ s.filled.objects.get? r = some object

theorem filled_holds (s : Setup options source) :
    ∃ a, s.Holds a [s.array, s.loaded.mirror, s.loader.holder] s.filled := by
  have hquiet : Machine.Quiet (Source.ask (ω := Unit)) := fun _ _ _ => rfl
  have hopened := opened_sound options
  have hmade := hopened.toUpheld.newLoader "unload" [source]
  rw [s.newLoader] at hmade
  have hhousing : s.housing.Sound none [s.loader.holder] := hmade.sound hopened rfl
  -- whatever collections ran on the way, the holder of the one loader was held
  obtain ⟨hempty, hholder, hpublisher⟩ := Machine.Hosts.of_newLoader hopened rfl
    (Machine.get?_new options.config ([] : List Source)) s.newLoader
  have hsecured := hempty.secured hhousing.toUpheld (List.mem_singleton_self _) hholder
  have hserved := hhousing.toUpheld.load hquiet s.loader.id options.className ()
  rw [s.load] at hserved
  have hloading : s.loading.Sound none [s.loaded.mirror, s.loader.holder] :=
    hserved.sound hhousing rfl
  obtain ⟨size, hdescriptor, hone, hholders, hpublisher'⟩ :=
    hempty.load hhousing hsecured hquiet s.load
  have hsecured' := hone.secured hloading.toUpheld (List.mem_cons_of_mem _ List.mem_cons_self)
    (hholders _ _ hholder)
  have hfills := hloading.toUpheld.newArray s.loaded.descriptor options.length
  rw [s.newArray] at hfills
  obtain ⟨a, hdimensions, hover, htwo, hobject, hpublisher''⟩ :=
    hone.newArray hloading hsecured' s.newArray
  exact ⟨a,
    { sound := hfills.sound hloading rfl
      config := hfills.continues.config.trans
        (hserved.continues.config.trans hmade.continues.config)
      publisher := hpublisher''.trans (hpublisher'.trans hpublisher)
      hosts := htwo
      named := by rw [hdescriptor]; rfl
      ordinary := by rw [hdescriptor]; rfl
      derived := ⟨hdimensions, hover⟩
      object := hobject
      get? := fun _ _ => Iff.rfl }⟩

namespace Holds

variable {s : Setup options source} {a : ClassDescriptor} {handles kept : List Root}
  {m n : Machine Source} {report : CycleReport Source}

theorem dropAll (h : s.Holds a handles m) {roots : List Root}
    (hperm : handles.Perm (roots ++ kept)) : s.Holds a kept (m.dropAll roots) := by
  obtain ⟨hupheld, hcontinues⟩ := (h.sound.toUpheld.perm hperm).dropAll
  have hsame := Machine.get?_dropAll m roots
  have hhosts := h.hosts.rests (.of_dropAll m roots)
  exact
    { h with
      sound := ⟨hupheld, hcontinues.phase.trans h.sound.idle⟩
      config := hcontinues.config.trans h.config
      publisher := (Machine.Rests.of_dropAll m roots).publisher.trans h.publisher
      hosts := hhosts
      object := by
        rw [hsame]
        exact h.object
      get? := fun r object => by
        rw [hsame]
        exact h.get? r object }

theorem name_eq (h : s.Holds a handles m) : s.loaded.descriptor.name = options.className := by
  rw [ClassDescriptor.name, h.named]
  rfl

theorem arrayName_eq (h : s.Holds a handles m) : a.name = arrayName options := by
  obtain ⟨_, hderived⟩ := h.derived
  rw [hderived]
  show "[" ++ s.loaded.descriptor.type.descriptor = _
  rw [h.named]
  show "[" ++ ("L" ++ options.className ++ ";") = "[L" ++ options.className ++ ";"
  rw [← String.append_assoc, ← String.append_assoc]
  rfl

theorem kinds (h : s.Holds a handles m) (cycle : Nat) :
    (UnloadEvent.ofClass cycle a).kind = "array class[1]" ∧
      (UnloadEvent.ofClass cycle s.loaded.descriptor).kind = "class" := by
  have hzero : s.loaded.descriptor.dimensions = 0 := by
    rw [ClassDescriptor.dimensions, ClassDescriptor.array?, h.ordinary]
    rfl
  obtain ⟨_, hderived⟩ := h.derived
  have hone : a.dimensions = 1 := by
    rw [hderived]
    exact congrArg (· + 1) hzero
  constructor
  · rw [UnloadEvent.kind, UnloadEvent.ofClass, hone]
    rfl
  · rw [UnloadEvent.kind, UnloadEvent.ofClass, hzero]
    rfl

theorem isArray (h : s.Holds a handles m) :
    a.isArray = true ∧ s.loaded.descriptor.isArray = false := by
  constructor
  · obtain ⟨_, hderived⟩ := h.derived
    rw [hderived]
    rfl
  · rw [ClassDescriptor.isArray, ClassDescriptor.array?, h.ordinary]
    rfl

theorem alive_of_hosts (h : s.Holds a handles m) {bodies : List Ref}
    (hhosts : n.Hosts s.unloader [s.loaded.descriptor, a] bodies) :
    n.isAlive options.className = true ∧ n.isAlive (arrayName options) = true := by
  constructor
  · exact (hhosts.isAlive_iff _).mpr ⟨_, List.mem_cons_self, h.name_eq⟩
  · exact (hhosts.isAlive_iff _).mpr ⟨a, List.mem_cons_of_mem _ List.mem_cons_self, h.arrayName_eq⟩

theorem isAlive (h : s.Holds a handles m) :
    m.isAlive options.className = true ∧ m.isAlive (arrayName options) = true :=
  h.alive_of_hosts h.hosts

theorem collect (h : s.Holds a handles m) (hheld : s.array ∈ handles)
    (hcollect : m.collect = (.ok report, n)) :
    report.unloaded = [] ∧ report.unloadedLoaders = [] ∧ s.Holds a handles n := by
  obtain ⟨mirror, elements, hobject⟩ := h.object
  have hspared := h.hosts.spared h.sound.toUpheld hheld hobject rfl
  have hfrees := h.sound.collect_frees hspared hcollect
  have hrests := h.sound.collect_rests hspared
  have hkept : [s.array.ref] ⊆ handles.map (·.ref) :=
    List.cons_subset.mpr ⟨List.mem_map_of_mem hheld, List.nil_subset _⟩
  have hsame := h.hosts.get?_collect h.sound hspared hkept hcollect
  obtain ⟨hnext, hcontinues, -⟩ := h.sound.collected hcollect
  rw [hcollect] at hrests
  refine ⟨hfrees.unloaded, hfrees.unloadedLoaders, ?_⟩
  exact
    { h with
      sound := hnext
      config := hcontinues.config.trans h.config
      publisher := hrests.publisher.trans h.publisher
      hosts := h.hosts.rests hrests
      object := ⟨mirror, elements, (hsame _ _).mpr hobject⟩
      get? := fun r object => (hsame r object).trans (h.get? r object) }

end Holds

/-- What the second collection comes to, when nothing is held any more: everything goes or, without
class unloading, the array alone. -/
structure Ends (s : Setup options source) (a : ClassDescriptor) (late : CycleReport Source)
    (after : Machine Source) : Prop where
  alive : after.isAlive options.className = !options.classUnloading ∧
    after.isAlive (arrayName options) = !options.classUnloading
  unloading : options.classUnloading = true →
    late.unloaded = [a, s.loaded.descriptor] ∧ late.unloadedLoaders = [s.unloader] ∧
      ∀ r, after.objects.get? r = none
  keeping : options.classUnloading = false →
    late.unloaded = [] ∧ late.unloadedLoaders = [] ∧
      ∀ r object, after.objects.get? r = some object ↔
        s.filled.objects.get? r = some object ∧ r ≠ s.array.ref

theorem Holds.ends {s : Setup options source} {a : ClassDescriptor} {m n : Machine Source}
    {report : CycleReport Source} (h : s.Holds a [] m) (hcollect : m.collect = (.ok report, n)) :
    s.Ends a report n := by
  have hsetting : m.config.classUnloading = options.classUnloading := by
    rw [h.config]
    rfl
  cases hunloading : options.classUnloading with
  | true =>
    rw [hunloading] at hsetting
    obtain ⟨hfirst, hnodup, hmem, hloaders, hviewed, hnone, hempty⟩ :=
      h.hosts.collect_empties h.sound hsetting hcollect
    have hcomponent : a.component? = some s.loaded.descriptor.id := by
      obtain ⟨_, hderived⟩ := h.derived
      rw [hderived]
      rfl
    have hgone : ∀ name, n.isAlive name = false := by
      intro name
      rw [Bool.eq_false_iff]
      intro halive
      obtain ⟨c, hc, -⟩ := (hviewed.agreeing.containsName name).mp halive
      rw [hnone] at hc
      contradiction
    have hpair : report.unloaded = [a, s.loaded.descriptor] := by
      refine hfirst.eq_pair hnodup (fun d => ?_) hcomponent
      rw [hmem, List.mem_pair, or_comm]
    refine ⟨?_, fun _ => ⟨hpair, hloaders, hempty⟩, fun hkept => ?_⟩
    · rw [hunloading]
      exact ⟨hgone _, hgone _⟩
    · rw [hunloading] at hkept
      contradiction
  | false =>
    rw [hunloading] at hsetting
    have hspared := h.sound.spared_strong hsetting
    have hfrees := h.sound.collect_frees hspared hcollect
    have hrests := h.sound.collect_rests hspared
    rw [hcollect] at hrests
    obtain ⟨mirror, elements, hobject⟩ := h.object
    have hbodies : ∀ r ∈ [s.array.ref], ∀ object, m.objects.get? r = some object →
        object.class? ≠ none := by
      intro r hr object hget
      rw [List.mem_singleton.mp hr, hobject, Option.some.injEq] at hget
      rw [← hget]
      exact Option.some_ne_none a.id
    refine ⟨?_, fun hoff => ?_, fun _ => ⟨hfrees.unloaded, hfrees.unloadedLoaders, ?_⟩⟩
    · rw [hunloading]
      exact h.alive_of_hosts (h.hosts.rests hrests)
    · rw [hunloading] at hoff
      contradiction
    · intro r object
      rw [h.hosts.get?_collect_strong h.sound hsetting hbodies hcollect, h.get?, List.mem_singleton]

def verdict (options : Options) (alive : Bool) : List LogLine :=
  [livenessLine options.className alive, livenessLine (arrayName options) alive]

def summary (options : Options) (cycle : Nat) : List LogLine :=
  if options.classUnloading then
    [eventLine (arrayName options) "array class[1]" cycle,
      eventLine options.className "class" cycle, reportLine cycle 1 1 1]
  else
    [reportLine cycle 0 0 0, ⟨.warn, harmless "Class unloading is disabled, classes stay loaded"⟩]

def transcript (options : Options) (cycle : Nat) : List LogLine :=
  verdict options true ++ verdict options true ++ verdict options (!options.classUnloading) ++
    summary options cycle

theorem Holds.summary_eq {s : Setup options source} {a : ClassDescriptor} {m n : Machine Source}
    {report : CycleReport Source} (h : s.Holds a [] m) (hcollect : m.collect = (.ok report, n)) :
    (n.engine.publisher.pending 1).map (fun event => eventLine event.name event.kind event.cycle) ++
        reportLine report.statistics.cycle report.statistics.ordinary report.statistics.arrays
          report.statistics.loaders ::
        (if options.classUnloading then []
          else [⟨.warn, harmless "Class unloading is disabled, classes stay loaded"⟩]) =
      summary options report.statistics.cycle := by
  have hstatistics := h.sound.statistics_collect hcollect
  have hevents := h.sound.publisher_collect hcollect
  have hends := h.ends hcollect
  have hconnected := opened_connected options
  rw [h.publisher] at hevents
  rw [hevents, Publisher.pending_publishAll hconnected, hstatistics]
  unfold summary
  cases hunloading : options.classUnloading with
  | true =>
    obtain ⟨hpair, hloaders, -⟩ := hends.unloading hunloading
    obtain ⟨harray, hordinary⟩ := h.isArray
    have hfiltered : [a, s.loaded.descriptor].filter (·.isArray) = [a] := by
      rw [List.filter_cons_of_pos harray, List.filter_cons_of_neg (Bool.eq_false_iff.mp hordinary),
        List.filter_nil]
    rw [hpair, hloaders, hfiltered]
    obtain ⟨harrayKind, hclassKind⟩ := h.kinds (m.engine.coordinator.started + 1)
    have hpending : (opened options).engine.publisher.pending 1 = [] := rfl
    rw [hpending, List.nil_append, List.map_map]
    simp only [List.map_cons, List.map_nil, Function.comp_apply, harrayKind, hclassKind]
    rw [← h.arrayName_eq, ← h.name_eq]
    rfl
  | false =>
    obtain ⟨hnone, hloaders, -⟩ := hends.keeping hunloading
    rw [hnone, hloaders]
    rfl

theorem yields_steps (s : Setup options source) {a : ClassDescriptor}
    {early late : CycleReport Source} {between after : Machine Source}
    (hfilled : s.Holds a [s.array, s.loaded.mirror, s.loader.holder] s.filled)
    (hbetween : s.Holds a [s.array] between) (hends : s.Ends a late after)
    (hfirst : s.relying.collect = (.ok early, between))
    (hsecond : (between.drop s.array).collect = (.ok late, after)) :
    Yields (steps options (.ok source) 1) ⟨opened options, []⟩ ()
      ⟨{ after with engine := { after.engine with
          publisher := (after.engine.publisher.take 1).2 } },
        (transcript options late.statistics.cycle).reverse⟩ := by
  have hdropped : s.Holds a [] (between.dropAll [s.array]) := hbetween.dropAll (.refl _)
  have hsummary := hdropped.summary_eq hsecond
  unfold steps transcript
  rw [← hsummary]
  -- each bind runs one step of the scenario, from the state that the one before came to
  refine .bind (yields_ok source _) (.bind (yields_onMachine s.newLoader) ?_)
  have hload : (fun m : Machine Source =>
      let outcome := Machine.load Source.ask s.loader.id options.className (m, ())
      (outcome.1, outcome.2.1)) s.housing = (.ok s.loaded, s.loading) := by
    simp only [s.load]
  refine .bind (yields_onMachine hload) (.bind (yields_onMachine s.newArray) ?_)
  refine .bind (yields_check hfilled.isAlive.1) (.bind (yields_check hfilled.isAlive.2) ?_)
  refine .bind (yields_release [s.loader.holder, s.loaded.mirror] _) ?_
  refine .bind (yields_onMachine hfirst) ?_
  refine .bind (yields_check hbetween.isAlive.1) (.bind (yields_check hbetween.isAlive.2) ?_)
  refine .bind (yields_release [s.array] _) ?_
  refine .bind (yields_onMachine hsecond) ?_
  refine .bind (yields_check hends.alive.1) (.bind (yields_check hends.alive.2) ?_)
  refine .bind (yields_takeEvents 1 _) (.bind (yields_forIn _ _ _) ?_)
  refine .bind (yields_sayReport late _) ?_
  cases hunloading : options.classUnloading with
  | true =>
    refine .of_eq (yields_pure _) ?_
    simp [State.logging, State.on, verdict, eventLine, arrayName]
  | false =>
    refine .of_eq (yields_say .warn "Class unloading is disabled, classes stay loaded" _) ?_
    simp [State.logging, State.on, verdict, eventLine, arrayName]

/-- Everything goes as the scenario expects. The first collection takes out and frees nothing, the
second comes to its end, all checks are passed and the command succeeds. -/
structure Confirmed (s : Setup options source) (a : ClassDescriptor)
    (early late : CycleReport Source) (between after : Machine Source) : Prop where
  named : s.loaded.descriptor.name = options.className ∧ a.name = arrayName options
  derived : ∃ hdimensions, a = .ofDefinition a.id (.arrayOver s.loaded.descriptor hdimensions)
  array : ∃ mirror elements,
    s.filled.objects.get? s.array.ref = some (.arrayOf a.id mirror elements)
  alive : s.filled.isAlive options.className = true ∧ s.filled.isAlive (arrayName options) = true
  first : s.relying.collect = (.ok early, between)
  stays : early.unloaded = [] ∧ early.unloadedLoaders = [] ∧
    ∀ r object, between.objects.get? r = some object ↔ s.filled.objects.get? r = some object
  stillAlive : between.isAlive options.className = true ∧
    between.isAlive (arrayName options) = true
  second : (between.drop s.array).collect = (.ok late, after)
  ends : s.Ends a late after
  outcome : ∃ t, Yields (steps options (.ok source) 1) ⟨opened options, []⟩ () t ∧
    t.log.reverse = transcript options late.statistics.cycle
  completion : ∀ tree, options.source tree = .ok source →
    (Invocation.run options).complete tree =
      ⟨0, transcript options late.statistics.cycle, []⟩

theorem runScenario_eq (options : Options) (tree : FileTree) :
    runScenario options tree =
      let result := (steps options (options.source tree) 1).run.run ⟨opened options, []⟩
      ⟨result.1, result.2.log.reverse, result.2.machine⟩ := rfl

theorem complete_of_yields {tree : FileTree} {t : State}
    (h : Yields (steps options (options.source tree) 1) ⟨opened options, []⟩ () t) :
    (Invocation.run options).complete tree = ⟨0, t.log.reverse, []⟩ := by
  unfold Yields at h
  have hrun := runScenario_eq options tree
  rw [h] at hrun
  unfold Invocation.complete
  simp only [hrun]

theorem yields_of_exitCode {tree : FileTree}
    (h : ((Invocation.run options).complete tree).exitCode = 0) :
    ∃ t, Yields (steps options (options.source tree) 1) ⟨opened options, []⟩ () t := by
  have hrun := runScenario_eq options tree
  unfold Invocation.complete at h
  simp only [hrun] at h
  unfold Yields
  generalize (steps options (options.source tree) 1).run.run ⟨opened options, []⟩ = outcome at h ⊢
  obtain ⟨result, t⟩ := outcome
  cases result with
  | ok => exact ⟨t, rfl⟩
  | error failure =>
    dsimp only at h
    split at h <;> contradiction

theorem of_yields {given : Except Failure Source} {t : State}
    (h : Yields (steps options given 1) ⟨opened options, []⟩ () t) :
    ∃ source, given = .ok source ∧ Nonempty (Setup options source) := by
  cases given with
  | error failure =>
    obtain ⟨hfailed, -⟩ := Prod.mk.inj h
    contradiction
  | ok source =>
    unfold steps at h
    obtain ⟨_, _, hsource, h⟩ := h.of_bind
    obtain ⟨hok, rfl⟩ := Prod.mk.inj hsource
    obtain rfl := Except.ok.inj hok
    obtain ⟨loader, ⟨housing, _⟩, hmade, h⟩ := h.of_bind
    obtain ⟨loaded, ⟨loading, _⟩, hloaded, h⟩ := h.of_bind
    obtain ⟨array, ⟨filled, _⟩, hfilled, -⟩ := h.of_bind
    obtain ⟨hclass, hmachine⟩ := Prod.mk.inj hloaded.of_onMachine
    exact ⟨_, rfl, ⟨loader, loaded, array, housing, loading, filled, hmade.of_onMachine,
      Prod.ext hclass (Prod.ext hmachine rfl), hfilled.of_onMachine⟩⟩

theorem confirmed (s : Setup options source) :
    ∃ a early late between after, s.Confirmed a early late between after := by
  obtain ⟨a, hfilled⟩ := s.filled_holds
  have hrelying : s.Holds a [s.array] s.relying :=
    hfilled.dropAll (List.reverse_perm [s.loader.holder, s.loaded.mirror, s.array])
  obtain ⟨early, between, hfirst, -⟩ := hrelying.sound.collect
  obtain ⟨hclasses, hloaders, hbetween⟩ := hrelying.collect (List.mem_singleton_self _) hfirst
  have hdropped : s.Holds a [] (between.dropAll [s.array]) := hbetween.dropAll (.refl _)
  obtain ⟨late, after, hsecond, -⟩ := hdropped.sound.collect
  have hends := hdropped.ends hsecond
  have hyields := s.yields_steps hfilled hbetween hends hfirst hsecond
  refine ⟨a, early, late, between, after, ?_⟩
  exact
    { named := ⟨hfilled.name_eq, hfilled.arrayName_eq⟩
      derived := hfilled.derived
      array := hfilled.object
      alive := hfilled.isAlive
      first := hfirst
      stays := ⟨hclasses, hloaders, hbetween.get?⟩
      stillAlive := hbetween.isAlive
      second := hsecond
      ends := hends
      outcome := ⟨_, hyields, List.reverse_reverse _⟩
      completion := fun tree hsource => by
        rw [← hsource] at hyields
        rw [complete_of_yields hyields, List.reverse_reverse] }

end Setup

/-- Whenever the loader, the class and the array can be made, the scenario confirms itself, whatever
the class is called, wherever it comes from, and whether or not classes are unloaded. So the command
succeeds exactly if there is a source and they can be made. -/
theorem confirms_itself (options : Options) :
    (∀ source (s : Setup options source),
      ∃ a early late between after, s.Confirmed a early late between after) ∧
    ∀ tree, ((Invocation.run options).complete tree).exitCode = 0 ↔
      ∃ source, options.source tree = .ok source ∧ Nonempty (Setup options source) := by
  refine ⟨fun source s => s.confirmed, fun tree => ⟨fun hcode => ?_, ?_⟩⟩
  · obtain ⟨t, ht⟩ := Setup.yields_of_exitCode hcode
    exact Setup.of_yields ht
  · rintro ⟨source, hsource, ⟨s⟩⟩
    obtain ⟨a, early, late, between, after, hconfirmed⟩ := s.confirmed
    rw [hconfirmed.completion tree hsource]

def setup? (options : Options) (source : Source) : Option (Setup options source) :=
  match hmade : (opened options).newLoader "unload" [source] with
  | (.error _, _) => none
  | (.ok loader, housing) =>
    match hloaded : Machine.load Source.ask loader.id options.className (housing, ()) with
    | (.error _, _) => none
    | (.ok loaded, loading, _) =>
      match hfilled : loading.newArray loaded.descriptor options.length with
      | (.error _, _) => none
      | (.ok array, filled) =>
        some ⟨loader, loaded, array, housing, loading, filled, hmade, hloaded, hfilled⟩

/-- All can be made of the class that stands in without a class path. -/
def standIn (classUnloading : Bool) :
    Setup { classUnloading } (.memory [("test.Empty", Options.standIn "test.Empty")]) :=
  (setup? _ _).get (by cases classUnloading <;> decide +kernel)

theorem standIn_confirms_itself :
    (∃ a early late between after, (standIn true).Confirmed a early late between after ∧
      late.unloaded.map (·.name) = ["[Ltest.Empty;", "test.Empty"]) ∧
    (∃ a early late between after, (standIn false).Confirmed a early late between after ∧
      late.unloaded = []) ∧
    ((Invocation.run {}).complete ⟨[]⟩).exitCode = 0 ∧
    ((Invocation.run { classUnloading := false }).complete ⟨[]⟩).exitCode = 0 := by
  obtain ⟨hconfirms, hexit⟩ := confirms_itself {}
  obtain ⟨hconfirms', hexit'⟩ := confirms_itself { classUnloading := false }
  obtain ⟨a, early, late, between, after, h⟩ := hconfirms _ (standIn true)
  obtain ⟨a', early', late', between', after', h'⟩ := hconfirms' _ (standIn false)
  refine ⟨⟨a, early, late, between, after, h, ?_⟩, ⟨a', early', late', between', after', h', ?_⟩,
    (hexit _).mpr ⟨_, rfl, ⟨standIn true⟩⟩, (hexit' _).mpr ⟨_, rfl, ⟨standIn false⟩⟩⟩
  · obtain ⟨hpair, -⟩ := h.ends.unloading rfl
    rw [hpair, List.map_cons, List.map_cons, h.named.2, h.named.1]
    rfl
  · exact (h'.ends.keeping rfl).1

end Scenario
end Metaspace
