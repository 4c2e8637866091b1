import Metaspace.Proofs.Machine.Operations

set_option autoImplicit false

namespace Metaspace

variable {σ : Type}

/-- A machine, the roots that are held on it and the classes that have been registered. -/
structure Session (σ : Type) where
  machine : Machine σ
  handles : List Root
  known : List ClassDescriptor

namespace Session

def new (config : Config) (bootSources : List σ) : Session σ := ⟨.new config bootSources, [], []⟩

def moved (s : Session σ) (machine : Machine σ) (handles : List Root) : Session σ :=
  ⟨machine, handles, machine.registry.registered ++ s.known⟩

/-- The session after an operation, which grants roots if it succeeds. -/
def after {ε α : Type} (s : Session σ) (granted : α → List Root)
    (outcome : Except ε α × Machine σ) : Session σ :=
  s.moved outcome.2 (match outcome.1 with
    | .ok a => granted a ++ s.handles
    | .error _ => s.handles)

/-- The operations of a machine, which may fail. The sources that a load asks leave the machine alone,
an instance is made only of a class that was registered at some time of the session, and the roots
that a caller uses are held. -/
inductive Step : Session σ → Session σ → Prop where
  | newLoader (s : Session σ) (name : String) (sources : List σ) :
      Step s (s.after (fun held => [held.holder]) (s.machine.newLoader name sources))
  | load (s : Session σ) {ω : Type} (ask : Asking σ ω) (outside : ω) (loader : LoaderId)
      (name : String) : Machine.Quiet ask →
      Step s (s.after (fun held => [held.mirror])
        ((Machine.load ask loader name (s.machine, outside)).1,
          (Machine.load ask loader name (s.machine, outside)).2.1))
  | deriveArray (s : Session σ) (component : ClassDescriptor) (dimensions : Nat) :
      Step s (s.after (fun held => [held.mirror]) (s.machine.deriveArray component dimensions))
  | newInstance (s : Session σ) (c : ClassDescriptor) : c ∈ s.known →
      Step s (s.after (fun root => [root]) (s.machine.newInstance c))
  | newArray (s : Session σ) (component : ClassDescriptor) (length : Nat) :
      Step s (s.after (fun root => [root]) (s.machine.newArray component length))
  | newArrays (s : Session σ) (component : ClassDescriptor) (lengths : List Nat) :
      Step s (s.after (fun root => [root]) (s.machine.newArrays component lengths))
  | store (s : Session σ) (target : Root) (index : Nat) (value : Option Root) :
      target ∈ s.handles → (∀ root, value = some root → root ∈ s.handles) →
      Step s (s.after (fun _ => []) (s.machine.store target index (value.map (·.ref))))
  | fetch (s : Session σ) (target : Root) (index : Nat) : target ∈ s.handles →
      Step s (s.moved (s.machine.fetch target index).2
        ((s.machine.fetch target index).1.toList ++ s.handles))
  | clone (s : Session σ) (root : Root) : root ∈ s.handles →
      Step s (s.moved (s.machine.clone root).2 ((s.machine.clone root).1 :: s.handles))
  | drop (s : Session σ) (root : Root) : root ∈ s.handles →
      Step s (s.moved (s.machine.drop root) (s.handles.erase root))
  | collect (s : Session σ) : Step s (s.after (fun _ => []) s.machine.collect)
  | listen (s : Session σ) (publisher : Publisher) :
      Step s (s.moved { s.machine with engine := { s.machine.engine with publisher } } s.handles)

inductive Reached (config : Config) (bootSources : List σ) : Session σ → Prop where
  | start : Reached config bootSources (new config bootSources)
  | step {s t : Session σ} : Reached config bootSources s → Step s t → Reached config bootSources t

/-- The machine is in order for the roots that are held, and ids still mean what they meant. -/
structure Upheld (s : Session σ) : Prop where
  machine : s.machine.Upheld none s.handles
  known : ∀ c ∈ s.known, s.machine.registry.Knows c

structure Sound (s : Session σ) : Prop where
  machine : s.machine.Sound none s.handles
  known : ∀ c ∈ s.known, s.machine.registry.Knows c

theorem Upheld.moved {s : Session σ} (h : s.Upheld) {machine : Machine σ} {handles : List Root}
    (hmachine : machine.Upheld none handles)
    (houtgrows : Registry.Outgrows s.machine.registry machine.registry) :
    (s.moved machine handles).Upheld where
  machine := hmachine
  known c hc := by
    rcases List.mem_append.mp hc with hregistered | hknown
    · exact Registry.knows_of_get? (hmachine.linked.coherent.mem_registered.mp hregistered)
    · exact houtgrows.knows (h.known c hknown)

theorem Upheld.after {ε α : Type} {s : Session σ} (h : s.Upheld) {granted : α → List Root}
    {good : Machine σ → α → Prop} {outcome : Except ε α × Machine σ}
    (hserves : Machine.Serves none none s.handles s.machine granted good outcome) :
    (s.after granted outcome).Upheld ∧
      Machine.Continues [] s.machine (s.after granted outcome).machine := by
  refine ⟨h.moved ?_ hserves.continues.outgrows, hserves.continues.mono (List.nil_subset _)⟩
  split
  · rename_i a ha
    exact (hserves.ok a ha).1
  · rename_i e he
    exact hserves.error e he

theorem Step.keeps {s t : Session σ} (hstep : Step s t) (h : s.Upheld) :
    t.Upheld ∧ Machine.Continues [] s.machine t.machine := by
  have hmoved : ∀ {machine handles}, machine.Upheld none handles →
      Machine.Continues s.handles s.machine machine →
        (s.moved machine handles).Upheld ∧ Machine.Continues [] s.machine machine :=
    fun hmachine hcontinues =>
      ⟨h.moved hmachine hcontinues.outgrows, hcontinues.mono (List.nil_subset _)⟩
  cases hstep with
  | newLoader name sources => exact h.after (h.machine.newLoader name sources)
  | load ask outside loader name hquiet => exact h.after (h.machine.load hquiet loader name outside)
  | deriveArray component dimensions => exact h.after (h.machine.deriveArray component dimensions)
  | newInstance c hknown => exact h.after (h.machine.newInstance (h.known c hknown))
  | newArray component length => exact h.after (h.machine.newArray component length)
  | newArrays component lengths => exact h.after (h.machine.newArrays component lengths)
  | store target index value _ hvalue => exact h.after (h.machine.store target index hvalue)
  | fetch target index htarget =>
    obtain ⟨hupheld, hcontinues⟩ := h.machine.fetch htarget index
    exact hmoved hupheld hcontinues
  | clone root hroot =>
    obtain ⟨hupheld, hcontinues⟩ := h.machine.clone hroot
    exact hmoved hupheld hcontinues
  | drop root hroot => exact hmoved (h.machine.drop hroot) (Machine.continues_drop _ _ root)
  | collect =>
    obtain ⟨hupheld, hcontinues⟩ := h.machine.collect
    have hserves : Machine.Serves none none s.handles s.machine (fun _ => []) (fun _ _ => True)
        s.machine.collect := ⟨hcontinues, fun _ _ => hupheld, fun _ _ => ⟨hupheld, trivial⟩⟩
    exact h.after hserves
  | listen publisher =>
    refine hmoved { h.machine with } ⟨.refl _, rfl, fun _ _ _ _ _ hget => hget, rfl, fun _ => ?_⟩
    exact ⟨rfl, List.Subset.refl _, .refl _⟩

theorem Reached.sound {config : Config} {bootSources : List σ} {s : Session σ}
    (h : Reached config bootSources s) : s.Sound ∧ s.machine.config = config := by
  induction h with
  | start =>
    refine ⟨⟨Machine.new_sound config bootSources, ?_⟩, rfl⟩
    intro c hc
    contradiction
  | step _ hstep ih =>
    obtain ⟨hsound, hconfig⟩ := ih
    obtain ⟨hupheld, hcontinues⟩ := hstep.keeps ⟨hsound.machine.toUpheld, hsound.known⟩
    exact ⟨⟨⟨hupheld.machine, hcontinues.phase.trans hsound.machine.idle⟩, hupheld.known⟩,
      hcontinues.config.trans hconfig⟩

/-- Only an array is held: its class was loaded through a loader that is not held any more. -/
def holdingArray : Session Unit :=
  let found : Asking Unit Unit := fun _ _ state => (.ok (some .empty), state)
  let empty := new {} []
  let made := empty.after (fun held => [held.holder]) (empty.machine.newLoader "app" [()])
  let (outcome, machine, _) := Machine.load found ⟨2, by decide⟩ "A" (made.machine, ())
  let loaded := made.after (fun held => [held.mirror]) (outcome, machine)
  let filled := loaded.after (fun root => [root])
    (loaded.machine.newArray (Registry.classA ⟨2, by decide⟩ 1) 1)
  let dropped := filled.moved (filled.machine.drop ⟨1, ⟨1, 0⟩⟩) (filled.handles.erase ⟨1, ⟨1, 0⟩⟩)
  dropped.moved (dropped.machine.drop ⟨0, ⟨0, 0⟩⟩) (dropped.handles.erase ⟨0, ⟨0, 0⟩⟩)

theorem holdingArray_reached : Reached {} [] holdingArray := by
  have hmade := Reached.start.step (.newLoader (new {} ([] : List Unit)) "app" [()])
  have hloaded := hmade.step (.load _ (fun _ _ state => (.ok (some .empty), state)) ()
    ⟨2, by decide⟩ "A" fun _ _ _ => rfl)
  have hfilled := hloaded.step (.newArray _ (Registry.classA ⟨2, by decide⟩ 1) 1)
  have hdropped := hfilled.step (.drop _ ⟨1, ⟨1, 0⟩⟩ (by decide +kernel))
  exact hdropped.step (.drop _ ⟨0, ⟨0, 0⟩⟩ (by decide +kernel))

end Session
end Metaspace
