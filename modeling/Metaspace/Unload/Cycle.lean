import Metaspace.Registry.Removal
import Metaspace.Unload.Oracle

/-!
Unload cycles. A cycle takes a snapshot, has the oracle judge its classes and loaders, evicts the
dead classes with the arrays over them, drops the dead loaders and publishes an event per class,
arrays before their components. A cycle that is interrupted before that evicts nothing.
-/

set_option autoImplicit false

namespace Metaspace

variable {σ ω : Type}

inductive Triggered (σ : Type) where
  | finished (outcome : Outcome σ)
  | waits (cycle : Nat)
  | panicked (cycle : Nat) (text : String)

namespace Cycle

def askClasses (oracle : Oracle σ ω) (snapshot : Snapshot σ) :
    List ClassDescriptor → EngineCall σ ω Interruption (List ClassId)
  | [], state => (.ok [], state)
  | c :: cs, state =>
    match oracle.query c (snapshot.loader? c.loader) state with
    | (.error i, state) => (.error i, state)
    | (.ok liveness, state) =>
      match askClasses oracle snapshot cs state with
      | (.error i, state) => (.error i, state)
      | (.ok dead, state) => (.ok (if liveness.isLive then dead else c.id :: dead), state)

/-- Asks about the loaders that could be dropped and lists the dead ones. -/
def askLoaders (oracle : Oracle σ ω) :
    List (Loader σ) → EngineCall σ ω Interruption (List LoaderId)
  | [], state => (.ok [], state)
  | l :: ls, state =>
    if l.permanent || state.1.registry.isUnloading l.id then askLoaders oracle ls state
    else
      match oracle.queryLoader l state with
      | (.error i, state) => (.error i, state)
      | (.ok alive, state) =>
        match askLoaders oracle ls state with
        | (.error i, state) => (.error i, state)
        | (.ok dead, state) => (.ok (if alive then dead else l.id :: dead), state)

def losesComponent (snapshot : Snapshot σ) (dead : Std.TreeSet ClassId) (c : ClassDescriptor) :
    Bool :=
  c.component?.any fun id => dead.contains id || (snapshot.get? id).isNone

/-- The dead classes of a snapshot together with the arrays that lose their component. -/
def condemned (snapshot : Snapshot σ) (dead : List ClassId) : List ClassId :=
  (saturate (losesComponent snapshot) (fun dead c => dead.insert c.id) (Std.TreeSet.ofList dead)
    snapshot.classes).toList

def decide (oracle : Oracle σ ω) (snapshot : Snapshot σ) :
    EngineCall σ ω Interruption (List ClassId × List LoaderId) := fun state =>
  if state.1.classUnloading then
    match askClasses oracle snapshot snapshot.classes state with
    | (.error i, state) => (.error i, state)
    | (.ok dead, state) =>
      match askLoaders oracle snapshot.loaders state with
      | (.error i, state) => (.error i, state)
      | (.ok loaders, state) => (.ok (condemned snapshot dead, loaders), state)
  else (.ok ([], []), state)

def evictedBefore (a b : ClassDescriptor) : Bool :=
  b.dimensions < a.dimensions || (a.dimensions = b.dimensions && a.id.number ≤ b.id.number)

/-- Evicts classes, drops loaders, publishes the events and reports. -/
def evict (engine : Engine σ) (cycle scanned : Nat) (classes : List ClassId)
    (loaders : List LoaderId) : CycleReport σ × Engine σ :=
  let (removed, registry) := engine.registry.removeBatch classes
  let unloaded := removed.mergeSort evictedBefore
  let (dropped, registry) := registry.unloadLoaders loaders
  let arrays := (unloaded.filter (·.isArray)).length
  let report : CycleReport σ :=
    { statistics := ⟨cycle, scanned, unloaded.length - arrays, arrays, dropped.length⟩
      unloaded := unloaded
      unloadedLoaders := dropped
      coalesced := false }
  (report,
    { engine with
      registry := registry
      publisher := engine.publisher.publishAll (unloaded.map (.ofClass cycle)) })

def setPhase (phase : Phase) (state : Engine σ × ω) : Engine σ × ω :=
  ({ state.1 with coordinator := state.1.coordinator.setPhase phase }, state.2)

def run (oracle : Oracle σ ω) (cycle : Nat) : EngineCall σ ω Interruption (CycleReport σ) :=
  fun state =>
    let snapshot := state.1.registry.snapshot
    match oracle.beginCycle snapshot state with
    | (.error i, state) => (.error i, state)
    | (.ok (), state) =>
      match decide oracle snapshot (setPhase .deciding state) with
      | (.error i, state) => (.error i, state)
      | (.ok (classes, loaders), state) =>
        let (engine, outside) := setPhase .evicting state
        let (report, engine) := evict engine cycle snapshot.size classes loaders
        match oracle.endCycle report (engine, outside) with
        | (.error text, state) => (.error (.panicked text), state)
        | (.ok (), state) => (.ok report, state)

def conclude (cycle : Nat) (outcome : Outcome σ) (state : Engine σ × ω) : Engine σ × ω :=
  ({ state.1 with coordinator := state.1.coordinator.finish cycle outcome }, state.2)

end Cycle

/-- Runs a cycle, or joins the one that is running. However a cycle ends, the coordinator is idle
after it. -/
def trigger (oracle : Oracle σ ω) (state : Engine σ × ω) : Triggered σ × (Engine σ × ω) :=
  let (entry, coordinator) := state.1.coordinator.enter
  let state := ({ state.1 with coordinator }, state.2)
  match entry with
  | .joins cycle => (.waits cycle, state)
  | .starts cycle =>
    match Cycle.run oracle cycle state with
    | (.ok report, state) => (.finished (.ok report), Cycle.conclude cycle (.ok report) state)
    | (.error (.failed e), state) =>
      let outcome := .error (.oracle cycle e)
      (.finished outcome, Cycle.conclude cycle outcome state)
    | (.error (.panicked text), state) =>
      (.panicked cycle text, Cycle.conclude cycle (.error (.panicked cycle)) state)

end Metaspace
