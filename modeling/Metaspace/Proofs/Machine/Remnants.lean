import Metaspace.Proofs.Machine.Passage
import Metaspace.Proofs.Machine.Session
import Metaspace.Proofs.Registry.Views

set_option autoImplicit false

namespace Metaspace

variable {σ ω : Type}

namespace Machine

inductive Call where
  | load (loader : LoaderId) (name : String)
  | deriveArray (component : ClassDescriptor) (dimensions : Nat)
  | newArray (component : ClassDescriptor) (length : Nat)
  | newArrays (component : ClassDescriptor) (lengths : List Nat)

namespace Call

def outcome {α : Type} (result : Except Failure α × Machine σ) : Option Failure × Machine σ :=
  match result with
  | (.ok _, m) => (none, m)
  | (.error failure, m) => (some failure, m)

def run (ask : Asking σ ω) (outside : ω) (m : Machine σ) : Call → Option Failure × Machine σ
  | load loader name =>
    let (result, m, _) := Machine.load ask loader name (m, outside)
    outcome (result, m)
  | deriveArray component dimensions => outcome (m.deriveArray component dimensions)
  | newArray component length => outcome (m.newArray component length)
  | newArrays component lengths => outcome (m.newArrays component lengths)

def begun (ask : Asking σ ω) (outside : ω) (m : Machine σ) : Call → Registry σ
  | load loader name => (Registry.load ask loader name (m.registry, outside)).2.1
  | deriveArray component dimensions => m.derived component dimensions
  | newArray component _ => m.derived component 1
  | newArrays component lengths => m.derived component lengths.length

theorem outcome_snd {α : Type} (result : Except Failure α × Machine σ) :
    (outcome result).2 = result.2 := by
  obtain ⟨_ | _, _⟩ := result <;> rfl

end Call

theorem Upheld.begins {handles : List Root} {m : Machine σ} (h : m.Upheld none handles)
    {ask : Asking σ ω} (hask : Quiet ask) (outside : ω) (call : Call) :
    Begins handles m (call.begun ask outside m) := by
  cases call with
  | load loader name => exact (h.begins_load hask loader name outside).1
  | deriveArray component dimensions => exact h.begins_derived component dimensions
  | newArray component length => exact h.begins_derived component 1
  | newArrays component lengths => exact h.begins_derived component lengths.length

theorem Upheld.collects_run {handles : List Root} {m : Machine σ} (h : m.Upheld none handles)
    {ask : Asking σ ω} (hask : Quiet ask) (outside : ω) (call : Call) :
    Collects (m.withRegistry (call.begun ask outside m)) (call.run ask outside m).2 := by
  cases call with
  | load loader name =>
    have hcollects := h.collects_load hask loader name outside
    unfold Call.run
    dsimp only
    rw [Call.outcome_snd]
    exact hcollects
  | deriveArray component dimensions =>
    unfold Call.run
    rw [Call.outcome_snd]
    exact h.collects_deriveArray component dimensions
  | newArray component length =>
    unfold Call.run
    rw [Call.outcome_snd]
    exact h.collects_newArray component length
  | newArrays component lengths =>
    unfold Call.run
    rw [Call.outcome_snd]
    exact h.collects_newArrays component lengths

end Machine

/-- What was registered before the heap is asked stays with its loader, so nothing is new in the end
exactly if the loaders of the new classes are gone. -/
theorem Registry.Sheds.registered_subset_iff {before begun after : Registry σ}
    (hbegun : begun.Coherent) (h : Sheds begun after) :
    after.registered ⊆ before.registered ↔
      ∀ c ∈ begun.registered, c ∉ before.registered → ∀ l ∈ after.graph, l.id ≠ c.loader := by
  have hmem : ∀ c, c ∈ after.registered ↔
      c ∈ begun.registered ∧ ∃ l ∈ after.graph, l.id = c.loader := by
    intro c
    rw [h.coherent.mem_registered, hbegun.mem_registered, h.get?_eq_some]
  constructor
  · intro hsub c hc hnew l hl hloader
    exact hnew (hsub ((hmem c).mpr ⟨hc, l, hl, hloader⟩))
  · intro hgone c hc
    obtain ⟨hbegun, l, hl, hloader⟩ := (hmem c).mp hc
    by_contra hnew
    exact hgone c hbegun hnew l hl hloader

namespace Session

/-- A call that fails leaves what it had registered before the heap was asked, less the classes
whose loaders are gone. So it registers nothing exactly if every class that it had registered has
lost its loader. -/
theorem Reached.failed_call_registers {config : Config} {bootSources : List σ} {s : Session σ}
    (h : Reached config bootSources s) {ask : Asking σ ω} (hask : Machine.Quiet ask) (outside : ω)
    (call : Machine.Call) (failure : Failure) (next : Machine σ)
    (hfails : call.run ask outside s.machine = (some failure, next)) :
    (∀ id c, next.registry.get? id = some c ↔
      (call.begun ask outside s.machine).get? id = some c ∧
        ∃ l ∈ next.registry.graph, l.id = c.loader) ∧
    (next.registry.registered ⊆ s.machine.registry.registered ↔
      ∀ c ∈ (call.begun ask outside s.machine).registered, c ∉ s.machine.registry.registered →
        ∀ l ∈ next.registry.graph, l.id ≠ c.loader) := by
  have hupheld := h.sound.1.machine.toUpheld
  have hbegun := (hupheld.begins hask outside call).upheld.linked.coherent
  have hsheds := (hupheld.collects_run hask outside call).sheds hbegun
  rw [hfails] at hsheds
  exact ⟨hsheds.get?_eq_some, hsheds.registered_subset_iff hbegun⟩

/-- A loader is held on a heap that has room for its holder and nothing else. -/
def cramped : Session Unit :=
  let empty := new { heapSize := 64 } []
  empty.after (fun held => [held.holder]) (empty.machine.newLoader "app" [()])

theorem cramped_reached : Reached { heapSize := 64 } [] cramped :=
  Reached.start.step (.newLoader (new { heapSize := 64 } ([] : List Unit)) "app" [()])

def loadingA : Machine.Call := .load (Registry.loaderId 2) "A"

/-- The class is registered, there is no room for its mirror, and the class stays. -/
theorem cramped_load_registers :
    Reached { heapSize := 64 } [] cramped ∧
    (loadingA.run Registry.stocked () cramped.machine).1 =
      some ⟨[.allocatingMirror "A"], .allocation .outOfHeap⟩ ∧
    cramped.machine.registry.registered = [] ∧
    (loadingA.run Registry.stocked () cramped.machine).2.registry.registered.map (·.name) = ["A"] :=
  ⟨cramped_reached, by decide +kernel, by decide +kernel, by decide +kernel⟩

theorem cramped_load_leaves_class :
    ∃ failure next, loadingA.run Registry.stocked () cramped.machine = (some failure, next) ∧
      ¬ next.registry.registered ⊆ cramped.machine.registry.registered := by
  have hfails : loadingA.run Registry.stocked () cramped.machine =
      (some ⟨[.allocatingMirror "A"], .allocation .outOfHeap⟩,
        (loadingA.run Registry.stocked () cramped.machine).2) :=
    Prod.ext (by decide +kernel) rfl
  have hquiet : Machine.Quiet Registry.stocked := fun _ _ _ => rfl
  obtain ⟨-, hexactly⟩ :=
    Reached.failed_call_registers cramped_reached hquiet () loadingA _ _ hfails
  have hnew : ∃ c ∈ (loadingA.begun Registry.stocked () cramped.machine).registered,
      c ∉ cramped.machine.registry.registered ∧
      ∃ l ∈ (loadingA.run Registry.stocked () cramped.machine).2.registry.graph,
        l.id = c.loader := by
    decide +kernel
  obtain ⟨c, hc, hunknown, l, hl, hloader⟩ := hnew
  exact ⟨_, _, hfails, fun hsub => hexactly.mp hsub c hc hunknown l hl hloader⟩

end Session
end Metaspace
