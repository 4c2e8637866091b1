import Metaspace.Failure
import Std.Data.TreeMap

/-!
The coordinator of unload cycles. One cycle runs at a time; a trigger that comes while a cycle runs
joins it, waits until it is complete and returns its outcome. The functions here are the steps that
triggers take one at a time: to enter, to move on to another phase, to finish and to wake up.
-/

set_option autoImplicit false

namespace Metaspace

inductive Phase where
  | idle | scanning | deciding | evicting
  deriving DecidableEq, Repr

def Phase.name : Phase → String
  | .idle => "Idle"
  | .scanning => "Scanning"
  | .deciding => "Deciding"
  | .evicting => "Evicting"

structure UnloadStatistics where
  cycle : Nat
  scanned : Nat
  ordinary : Nat
  arrays : Nat
  loaders : Nat
  deriving DecidableEq, Repr

def UnloadStatistics.total (statistics : UnloadStatistics) : Nat :=
  statistics.ordinary + statistics.arrays

/-- What a cycle did. Classes are in the order of their events. -/
structure CycleReport (σ : Type) where
  statistics : UnloadStatistics
  unloaded : List ClassDescriptor
  unloadedLoaders : List (Loader σ)
  coalesced : Bool

abbrev Outcome (σ : Type) := Except UnloadError (CycleReport σ)

def Outcome.shared {σ : Type} : Outcome σ → Outcome σ
  | .ok report => .ok { report with coalesced := true }
  | .error e => .error e

/-- The triggers that joined one cycle and have not returned, and its outcome once it is known. -/
structure Joiners (σ : Type) where
  waiting : Nat
  outcome : Option (Outcome σ)

structure Coordinator (σ : Type) where
  phase : Phase
  started : Nat
  completed : Nat
  coalesced : Nat
  joined : Std.TreeMap Nat (Joiners σ)

inductive Entry where
  | starts (cycle : Nat)
  | joins (cycle : Nat)
  deriving DecidableEq, Repr

inductive Wakeup (σ : Type) where
  | notYet
  | outcome (outcome : Outcome σ)
  | lost

namespace Coordinator

variable {σ : Type}

def new : Coordinator σ := ⟨.idle, 0, 0, 0, ∅⟩

def joiners (coordinator : Coordinator σ) (cycle : Nat) : Joiners σ :=
  coordinator.joined.getD cycle ⟨0, none⟩

def enter (coordinator : Coordinator σ) : Entry × Coordinator σ :=
  if coordinator.phase = .idle then
    let cycle := coordinator.started + 1
    (.starts cycle, { coordinator with phase := .scanning, started := cycle })
  else
    let cycle := coordinator.started
    let joiners := coordinator.joiners cycle
    (.joins cycle,
      { coordinator with
        coalesced := coordinator.coalesced + 1
        joined := coordinator.joined.insert cycle { joiners with waiting := joiners.waiting + 1 } })

def setPhase (coordinator : Coordinator σ) (phase : Phase) : Coordinator σ :=
  { coordinator with phase }

/-- Ends a cycle and leaves its outcome to the triggers that joined it. -/
def finish (coordinator : Coordinator σ) (cycle : Nat) (outcome : Outcome σ) : Coordinator σ :=
  { coordinator with
    phase := .idle
    completed := cycle
    joined :=
      match coordinator.joined[cycle]? with
      | some joiners => coordinator.joined.insert cycle { joiners with outcome := some outcome }
      | none => coordinator.joined }

/-- A joined trigger takes the outcome of its cycle; the last one clears it away. -/
def wake (coordinator : Coordinator σ) (cycle : Nat) : Wakeup σ × Coordinator σ :=
  if coordinator.completed < cycle then (.notYet, coordinator)
  else
    match coordinator.joined[cycle]? with
    | none => (.lost, coordinator)
    | some joiners =>
      let waiting := joiners.waiting - 1
      let joined :=
        if waiting = 0 then coordinator.joined.erase cycle
        else coordinator.joined.insert cycle { joiners with waiting }
      let wakeup := joiners.outcome.elim .lost fun outcome => .outcome outcome.shared
      (wakeup, { coordinator with joined })

end Coordinator
end Metaspace
