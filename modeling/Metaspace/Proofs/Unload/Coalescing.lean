import Mathlib.Data.List.Nodup
import Metaspace.Unload.Coordinator

/-!
Triggers that run together. Each of them takes its steps one at a time, and the steps of different
triggers may follow one another in any order. A trigger that joined a cycle gets the outcome of that
cycle, however late it wakes up.
-/

set_option autoImplicit false

namespace Metaspace

variable {σ : Type}

inductive Ending (σ : Type) where
  | reported (report : CycleReport σ)
  | failed (e : OracleError)
  | panicked

/-- The outcome that the end of a cycle leaves to the triggers that joined it. -/
def Ending.outcome (cycle : Nat) : Ending σ → Outcome σ
  | .reported report => .ok report
  | .failed e => .error (.oracle cycle e)
  | .panicked => .error (.panicked cycle)

inductive Trigger (σ : Type) where
  | running (cycle : Nat)
  | ran (cycle : Nat) (ending : Ending σ)
  | sleeping (cycle : Nat)
  | joined (cycle : Nat) (outcome : Outcome σ)
  | lost (cycle : Nat)

namespace Trigger

def started? : Trigger σ → Option Nat
  | .running cycle => some cycle
  | .ran cycle _ => some cycle
  | _ => none

def sleepsOn (cycle : Nat) : Trigger σ → Bool
  | .sleeping c => c = cycle
  | _ => false

/-- A sleeping trigger after it looked whether its cycle is complete. -/
def woken (cycle : Nat) : Wakeup σ → Trigger σ
  | .notYet => .sleeping cycle
  | .outcome outcome => .joined cycle outcome
  | .lost => .lost cycle

end Trigger

structure Crowd (σ : Type) where
  coordinator : Coordinator σ
  triggers : List (Trigger σ)

namespace Crowd

def empty : Crowd σ := ⟨.new, []⟩

def sleepers (crowd : Crowd σ) (cycle : Nat) : Nat :=
  crowd.triggers.countP (Trigger.sleepsOn cycle)

inductive Step : Crowd σ → Crowd σ → Prop where
  | start {s : Crowd σ} {cycle : Nat} {next : Coordinator σ} :
      s.coordinator.enter = (.starts cycle, next) →
      Step s ⟨next, s.triggers ++ [.running cycle]⟩
  | join {s : Crowd σ} {cycle : Nat} {next : Coordinator σ} :
      s.coordinator.enter = (.joins cycle, next) →
      Step s ⟨next, s.triggers ++ [.sleeping cycle]⟩
  | advance {s : Crowd σ} {cycle : Nat} (phase : Phase) :
      .running cycle ∈ s.triggers → phase ≠ .idle →
      Step s ⟨s.coordinator.setPhase phase, s.triggers⟩
  | finish {coordinator : Coordinator σ} {front back : List (Trigger σ)} {cycle : Nat}
      (ending : Ending σ) :
      Step ⟨coordinator, front ++ .running cycle :: back⟩
        ⟨coordinator.finish cycle (ending.outcome cycle), front ++ .ran cycle ending :: back⟩
  | wake {coordinator next : Coordinator σ} {front back : List (Trigger σ)} {cycle : Nat}
      {wakeup : Wakeup σ} :
      coordinator.wake cycle = (wakeup, next) →
      Step ⟨coordinator, front ++ .sleeping cycle :: back⟩
        ⟨next, front ++ .woken cycle wakeup :: back⟩

/-- What any number of triggers can bring about, in any order of their steps. -/
inductive Reached : Crowd σ → Prop where
  | empty : Reached empty
  | step {s t : Crowd σ} : Reached s → Step s t → Reached t

end Crowd

namespace Coordinator

variable {coordinator : Coordinator σ}

theorem enter_eq_starts {cycle : Nat} {next : Coordinator σ}
    (h : coordinator.enter = (.starts cycle, next)) :
    coordinator.phase = .idle ∧ cycle = coordinator.started + 1 ∧
      next = { coordinator with phase := .scanning, started := coordinator.started + 1 } := by
  simp only [enter] at h
  split at h
  · rename_i hidle
    obtain ⟨hentry, hnext⟩ := Prod.mk.inj h
    exact ⟨hidle, (Entry.starts.inj hentry).symm, hnext.symm⟩
  · simp at h

theorem enter_eq_joins {cycle : Nat} {next : Coordinator σ}
    (h : coordinator.enter = (.joins cycle, next)) :
    coordinator.phase ≠ .idle ∧ cycle = coordinator.started ∧
      next = { coordinator with
        coalesced := coordinator.coalesced + 1
        joined := coordinator.joined.insert cycle
          { coordinator.joiners cycle with
            waiting := (coordinator.joiners cycle).waiting + 1 } } := by
  simp only [enter] at h
  split at h
  · simp at h
  · rename_i hbusy
    obtain ⟨hentry, hnext⟩ := Prod.mk.inj h
    obtain rfl := Entry.joins.inj hentry
    exact ⟨hbusy, rfl, hnext.symm⟩

theorem getElem?_finish_joined (cycle : Nat) (outcome : Outcome σ) (c : Nat) :
    (coordinator.finish cycle outcome).joined[c]? =
      if cycle = c then coordinator.joined[cycle]?.map fun j => { j with outcome := some outcome }
      else coordinator.joined[c]? := by
  unfold finish
  cases hjoiners : coordinator.joined[cycle]? with
  | none =>
    by_cases hcycle : cycle = c
    · rw [if_pos hcycle, ← hcycle]
      exact hjoiners
    · rw [if_neg hcycle]
  | some joiners =>
    simp only [Std.TreeMap.getElem?_insert, Std.LawfulEqOrd.compare_eq_iff_eq, Option.map_some]

theorem wake_of_running {cycle : Nat} (h : coordinator.completed < cycle) :
    coordinator.wake cycle = (.notYet, coordinator) := by
  simp [wake, h]

/-- The coordinator after one of several joiners, or the only one, took its outcome. -/
def leaving (coordinator : Coordinator σ) (cycle : Nat) (joiners : Joiners σ) : Coordinator σ :=
  let waiting := joiners.waiting - 1
  { coordinator with
    joined :=
      if waiting = 0 then coordinator.joined.erase cycle
      else coordinator.joined.insert cycle { joiners with waiting } }

theorem wake_of_complete {cycle : Nat} (h : cycle ≤ coordinator.completed) {joiners : Joiners σ}
    (hjoiners : coordinator.joined[cycle]? = some joiners) {outcome : Outcome σ}
    (houtcome : joiners.outcome = some outcome) :
    coordinator.wake cycle = (.outcome outcome.shared, coordinator.leaving cycle joiners) := by
  simp [wake, Nat.not_lt.mpr h, hjoiners, houtcome, leaving]

theorem getElem?_leaving_joined (cycle : Nat) (joiners : Joiners σ) (c : Nat) :
    (coordinator.leaving cycle joiners).joined[c]? =
      if cycle = c then
        if joiners.waiting - 1 = 0 then none
        else some { joiners with waiting := joiners.waiting - 1 }
      else coordinator.joined[c]? := by
  unfold leaving
  by_cases hlast : joiners.waiting - 1 = 0
  · simp only [hlast, if_true, Std.TreeMap.getElem?_erase, Std.LawfulEqOrd.compare_eq_iff_eq]
  · simp only [hlast, if_false, Std.TreeMap.getElem?_insert, Std.LawfulEqOrd.compare_eq_iff_eq]

end Coordinator

namespace Crowd

variable {s : Crowd σ}

/-- What the coordinator holds for the joiners of a cycle: nothing without sleepers, else their
number and, once the cycle has ended, its outcome. -/
def Attends (s : Crowd σ) (cycle : Nat) : Option (Joiners σ) → Prop
  | none => s.sleepers cycle = 0
  | some joiners => joiners.waiting = s.sleepers cycle ∧ 0 < s.sleepers cycle ∧
      ∀ ending, .ran cycle ending ∈ s.triggers → joiners.outcome = some (ending.outcome cycle)

structure Orderly (s : Crowd σ) : Prop where
  idle_iff : s.coordinator.phase = .idle ↔ s.coordinator.started = s.coordinator.completed
  completed_le : s.coordinator.completed ≤ s.coordinator.started
  started_le : s.coordinator.started ≤ s.coordinator.completed + 1
  running_iff : ∀ c, .running c ∈ s.triggers ↔
    s.coordinator.completed < c ∧ c ≤ s.coordinator.started
  ran_iff : ∀ c, (∃ ending, .ran c ending ∈ s.triggers) ↔ 0 < c ∧ c ≤ s.coordinator.completed
  distinct : (s.triggers.filterMap Trigger.started?).Nodup
  sleeping : ∀ c, .sleeping c ∈ s.triggers → 0 < c ∧ c ≤ s.coordinator.started
  attends : ∀ c, s.Attends c s.coordinator.joined[c]?
  joined : ∀ c outcome, .joined c outcome ∈ s.triggers →
    ∃ ending, .ran c ending ∈ s.triggers ∧ outcome = (ending.outcome c).shared
  found : ∀ c, .lost c ∉ s.triggers

theorem sleepers_pos {c : Nat} : 0 < s.sleepers c ↔ .sleeping c ∈ s.triggers := by
  unfold sleepers
  rw [List.countP_pos_iff]
  constructor
  · rintro ⟨t, ht, hsleeps⟩
    cases t with
    | sleeping d =>
      obtain rfl : d = c := by simpa [Trigger.sleepsOn] using hsleeps
      exact ht
    | _ => simp [Trigger.sleepsOn] at hsleeps
  · intro ht
    exact ⟨_, ht, by simp [Trigger.sleepsOn]⟩

theorem mem_started {c : Nat} {triggers : List (Trigger σ)} :
    c ∈ triggers.filterMap Trigger.started? ↔
      .running c ∈ triggers ∨ ∃ ending, .ran c ending ∈ triggers := by
  rw [List.mem_filterMap]
  constructor
  · rintro ⟨t, ht, hstarted⟩
    cases t with
    | running d =>
      obtain rfl := Option.some.inj hstarted
      exact Or.inl ht
    | ran d ending =>
      obtain rfl := Option.some.inj hstarted
      exact Or.inr ⟨ending, ht⟩
    | _ => simp [Trigger.started?] at hstarted
  · rintro (ht | ⟨ending, ht⟩)
    · exact ⟨_, ht, rfl⟩
    · exact ⟨_, ht, rfl⟩

theorem mem_middle {t u : Trigger σ} {front back : List (Trigger σ)} :
    u ∈ front ++ t :: back ↔ u = t ∨ u ∈ front ++ back := by
  simp only [List.mem_append, List.mem_cons]
  exact or_left_comm

theorem started_middle {t : Trigger σ} {c : Nat} (ht : t.started? = some c)
    (front back : List (Trigger σ)) :
    (front ++ t :: back).filterMap Trigger.started? =
      front.filterMap Trigger.started? ++ c :: back.filterMap Trigger.started? := by
  rw [List.filterMap_append, List.filterMap_cons_some ht]

theorem sleepers_append (next : Coordinator σ) (t : Trigger σ) (c : Nat) :
    sleepers ⟨next, s.triggers ++ [t]⟩ c = s.sleepers c + if t.sleepsOn c then 1 else 0 := by
  simp [sleepers, List.countP_append, List.countP_singleton]

theorem sleepers_middle (coordinator : Coordinator σ) (front back : List (Trigger σ))
    (t : Trigger σ) (c : Nat) :
    sleepers ⟨coordinator, front ++ t :: back⟩ c =
      (front ++ back).countP (Trigger.sleepsOn c) + if t.sleepsOn c then 1 else 0 := by
  simp [sleepers, List.countP_append, List.countP_cons, Nat.add_assoc]

theorem Orderly.wake_cases (h : s.Orderly) {c : Nat} (hc : .sleeping c ∈ s.triggers) :
    (.running c ∈ s.triggers ∧ s.coordinator.wake c = (.notYet, s.coordinator)) ∨
    ∃ ending joiners, .ran c ending ∈ s.triggers ∧ s.coordinator.joined[c]? = some joiners ∧
      s.coordinator.wake c =
        (.outcome (ending.outcome c).shared, s.coordinator.leaving c joiners) := by
  obtain ⟨hpos, hle⟩ := h.sleeping c hc
  by_cases hrunning : s.coordinator.completed < c
  · exact Or.inl ⟨(h.running_iff c).mpr ⟨hrunning, hle⟩, Coordinator.wake_of_running hrunning⟩
  · right
    have hcomplete := Nat.not_lt.mp hrunning
    obtain ⟨ending, hran⟩ := (h.ran_iff c).mpr ⟨hpos, hcomplete⟩
    have hattends := h.attends c
    cases hjoiners : s.coordinator.joined[c]? with
    | none =>
      rw [hjoiners] at hattends
      have hsome := sleepers_pos.mpr hc
      have hnone : s.sleepers c = 0 := hattends
      omega
    | some joiners =>
      rw [hjoiners] at hattends
      exact ⟨ending, joiners, hran, rfl,
        Coordinator.wake_of_complete hcomplete hjoiners (hattends.2.2 ending hran)⟩

theorem Orderly.waiting_eq (h : s.Orderly) (c : Nat) :
    (s.coordinator.joiners c).waiting = s.sleepers c := by
  have hattends := h.attends c
  unfold Coordinator.joiners
  rw [Std.TreeMap.getD_eq_getD_getElem?]
  cases hjoiners : s.coordinator.joined[c]? with
  | none =>
    rw [hjoiners] at hattends
    exact hattends.symm
  | some joiners =>
    rw [hjoiners] at hattends
    exact hattends.1

theorem orderly_empty : (empty : Crowd σ).Orderly where
  idle_iff := by simp [empty, Coordinator.new]
  completed_le := Nat.le_refl _
  started_le := Nat.le_succ _
  running_iff c := by
    simp only [empty, Coordinator.new, List.not_mem_nil, false_iff]
    omega
  ran_iff c := by
    simp only [empty, Coordinator.new, List.not_mem_nil, exists_false, false_iff]
    omega
  distinct := List.nodup_nil
  sleeping c hc := by contradiction
  attends c := by
    simp [empty, Coordinator.new, Attends, sleepers]
  joined c outcome hc := by contradiction
  found c := List.not_mem_nil

theorem Orderly.start (h : s.Orderly) {cycle : Nat} {next : Coordinator σ}
    (henter : s.coordinator.enter = (.starts cycle, next)) :
    Orderly ⟨next, s.triggers ++ [.running cycle]⟩ := by
  obtain ⟨hidle, rfl, rfl⟩ := Coordinator.enter_eq_starts henter
  have hequal := h.idle_iff.mp hidle
  have hfresh : s.coordinator.started + 1 ∉ s.triggers.filterMap Trigger.started? := by
    rw [mem_started, h.running_iff, h.ran_iff]
    omega
  constructor
  case idle_iff =>
    simp only [reduceCtorEq, false_iff]
    omega
  case completed_le => exact Nat.le_succ_of_le h.completed_le
  case started_le =>
    dsimp only
    omega
  case running_iff =>
    intro c
    simp only [List.mem_append, List.mem_singleton, h.running_iff, Trigger.running.injEq]
    omega
  case ran_iff =>
    intro c
    simpa using h.ran_iff c
  case distinct =>
    rw [List.filterMap_append]
    exact h.distinct.append (List.nodup_singleton _) (by simpa [Trigger.started?] using hfresh)
  case sleeping =>
    intro c hc
    have hle := h.sleeping c (by simpa using hc)
    exact ⟨hle.1, Nat.le_succ_of_le hle.2⟩
  case attends =>
    intro c
    have hattends := h.attends c
    unfold Attends at hattends ⊢
    simpa [sleepers_append, Trigger.sleepsOn] using hattends
  case joined =>
    intro c outcome hc
    obtain ⟨ending, hran, heq⟩ := h.joined c outcome (by simpa using hc)
    exact ⟨ending, List.mem_append_left _ hran, heq⟩
  case found =>
    intro c
    simpa using h.found c

theorem Orderly.join (h : s.Orderly) {cycle : Nat} {next : Coordinator σ}
    (henter : s.coordinator.enter = (.joins cycle, next)) :
    Orderly ⟨next, s.triggers ++ [.sleeping cycle]⟩ := by
  obtain ⟨hbusy, rfl, rfl⟩ := Coordinator.enter_eq_joins henter
  have hunequal := mt h.idle_iff.mpr hbusy
  have hcompleted := h.completed_le
  have hunfinished : ∀ ending, .ran s.coordinator.started ending ∉ s.triggers := by
    intro ending hran
    have hle := (h.ran_iff _).mp ⟨ending, hran⟩
    omega
  constructor
  case idle_iff => exact h.idle_iff
  case completed_le => exact h.completed_le
  case started_le => exact h.started_le
  case running_iff =>
    intro c
    simpa using h.running_iff c
  case ran_iff =>
    intro c
    simpa using h.ran_iff c
  case distinct =>
    rw [List.filterMap_append, List.filterMap_cons_none rfl, List.filterMap_nil, List.append_nil]
    exact h.distinct
  case sleeping =>
    intro c hc
    rcases List.mem_append.mp hc with hc | hc
    · exact h.sleeping c hc
    · obtain rfl := Trigger.sleeping.inj (List.mem_singleton.mp hc)
      dsimp only
      omega
  case attends =>
    intro c
    have hattends := h.attends c
    simp only [Std.TreeMap.getElem?_insert, Std.LawfulEqOrd.compare_eq_iff_eq]
    by_cases hc : s.coordinator.started = c
    · subst hc
      rw [if_pos rfl]
      refine ⟨?_, ?_, ?_⟩
      · simp [sleepers_append, Trigger.sleepsOn, h.waiting_eq]
      · simp [sleepers_append, Trigger.sleepsOn]
      · intro ending hran
        exact absurd (by simpa using hran) (hunfinished ending)
    · rw [if_neg hc]
      unfold Attends at hattends ⊢
      simpa [sleepers_append, Trigger.sleepsOn, hc] using hattends
  case joined =>
    intro c outcome hc
    obtain ⟨ending, hran, heq⟩ := h.joined c outcome (by simpa using hc)
    exact ⟨ending, List.mem_append_left _ hran, heq⟩
  case found =>
    intro c
    simpa using h.found c

theorem Orderly.advance (h : s.Orderly) {cycle : Nat} (hrunning : .running cycle ∈ s.triggers)
    {phase : Phase} (hphase : phase ≠ .idle) :
    Orderly ⟨s.coordinator.setPhase phase, s.triggers⟩ :=
  { h with
    idle_iff := by
      have hcycle := (h.running_iff cycle).mp hrunning
      simp only [Coordinator.setPhase, hphase, false_iff]
      omega }

section Middle

variable {coordinator : Coordinator σ} {front back : List (Trigger σ)}

theorem Orderly.started_once {cycle : Nat} {t : Trigger σ} (ht : t.started? = some cycle)
    (h : Orderly ⟨coordinator, front ++ t :: back⟩) :
    .running cycle ∉ front ++ back ∧ ∀ ending, .ran cycle ending ∉ front ++ back := by
  have hdistinct := h.distinct
  rw [started_middle ht, List.nodup_middle, List.nodup_cons, ← List.filterMap_append, mem_started,
    not_or, not_exists] at hdistinct
  exact hdistinct.1

theorem Orderly.attends_finish {cycle : Nat}
    (h : Orderly ⟨coordinator, front ++ .running cycle :: back⟩) (ending : Ending σ) (c : Nat) :
    Attends ⟨coordinator.finish cycle (ending.outcome cycle), front ++ .ran cycle ending :: back⟩ c
      (coordinator.finish cycle (ending.outcome cycle)).joined[c]? := by
  have hsleepers : sleepers
      ⟨coordinator.finish cycle (ending.outcome cycle), front ++ .ran cycle ending :: back⟩ c =
        sleepers ⟨coordinator, front ++ .running cycle :: back⟩ c := by
    rw [sleepers_middle, sleepers_middle]
    rfl
  have hattends := h.attends c
  rw [Coordinator.getElem?_finish_joined]
  by_cases hc : cycle = c
  · subst hc
    rw [if_pos rfl]
    dsimp only at hattends
    cases hjoiners : coordinator.joined[cycle]? with
    | none =>
      rw [hjoiners] at hattends
      exact hsleepers.trans hattends
    | some joiners =>
      rw [hjoiners] at hattends
      refine ⟨hattends.1.trans hsleepers.symm, ?_, ?_⟩
      · rw [hsleepers]
        exact hattends.2.1
      · intro e he
        rcases mem_middle.mp he with heq | he
        · rw [(Trigger.ran.inj heq).2]
        · exact absurd he ((h.started_once rfl).2 e)
  · rw [if_neg hc]
    unfold Attends at hattends ⊢
    simpa [hsleepers, mem_middle, Ne.symm hc] using hattends

theorem Orderly.finish {cycle : Nat}
    (h : Orderly ⟨coordinator, front ++ .running cycle :: back⟩) (ending : Ending σ) :
    Orderly ⟨coordinator.finish cycle (ending.outcome cycle),
      front ++ .ran cycle ending :: back⟩ := by
  have hrunning := (h.running_iff cycle).mp (by simp)
  have hstarted := h.started_le
  dsimp only at hrunning hstarted
  constructor
  case idle_iff =>
    simp only [Coordinator.finish, true_iff]
    omega
  case completed_le => exact hrunning.2
  case started_le =>
    simp only [Coordinator.finish]
    omega
  case running_iff =>
    intro c
    have hc := h.running_iff c
    simp only [mem_middle, Trigger.running.injEq, reduceCtorEq, false_or] at hc ⊢
    simp only [Coordinator.finish]
    constructor
    · intro hmem
      have hrange := hc.mp (Or.inr hmem)
      obtain rfl : c = cycle := by omega
      exact absurd hmem (h.started_once rfl).1
    · omega
  case ran_iff =>
    intro c
    have hc := h.ran_iff c
    simp only [mem_middle, Trigger.ran.injEq, reduceCtorEq, false_or] at hc ⊢
    simp only [Coordinator.finish]
    constructor
    · rintro ⟨_, ⟨rfl, rfl⟩ | hmem⟩
      · omega
      · have hrange := hc.mp ⟨_, hmem⟩
        omega
    · intro hrange
      by_cases hcycle : c = cycle
      · exact ⟨ending, Or.inl ⟨hcycle, rfl⟩⟩
      · obtain ⟨e, hmem⟩ := hc.mpr (by omega)
        exact ⟨e, Or.inr hmem⟩
  case distinct =>
    have hdistinct := h.distinct
    rw [started_middle rfl] at hdistinct ⊢
    exact hdistinct
  case sleeping =>
    intro c hc
    refine h.sleeping c ?_
    simpa using hc
  case attends => exact h.attends_finish ending
  case joined =>
    intro c outcome hc
    obtain ⟨e, hran, heq⟩ := h.joined c outcome (by simpa [mem_middle] using hc)
    refine ⟨e, ?_, heq⟩
    simp only [mem_middle, reduceCtorEq, false_or] at hran ⊢
    exact Or.inr hran
  case found =>
    intro c
    have hfound := h.found c
    simpa using hfound

theorem ran_mem_leave {cycle c : Nat} {outcome : Outcome σ} {ending : Ending σ} :
    .ran c ending ∈ front ++ .joined cycle outcome :: back ↔
      .ran c ending ∈ front ++ .sleeping cycle :: back := by
  simp

theorem Orderly.attends_leave {cycle : Nat}
    (h : Orderly ⟨coordinator, front ++ .sleeping cycle :: back⟩) {joiners : Joiners σ}
    (hjoiners : coordinator.joined[cycle]? = some joiners) (outcome : Outcome σ) (c : Nat) :
    Attends ⟨coordinator.leaving cycle joiners, front ++ .joined cycle outcome :: back⟩ c
      (coordinator.leaving cycle joiners).joined[c]? := by
  have hattends := h.attends c
  have hcount : sleepers ⟨coordinator, front ++ .sleeping cycle :: back⟩ c =
      sleepers ⟨coordinator.leaving cycle joiners, front ++ .joined cycle outcome :: back⟩ c +
        if cycle = c then 1 else 0 := by
    simp [sleepers_middle, Trigger.sleepsOn]
  rw [Coordinator.getElem?_leaving_joined]
  by_cases hc : cycle = c
  · subst hc
    dsimp only at hattends
    rw [hjoiners] at hattends
    obtain ⟨hwaiting, -, houtcome⟩ := hattends
    rw [if_pos rfl]
    rw [if_pos rfl] at hcount
    split
    · show sleepers _ cycle = 0
      omega
    · refine ⟨?_, ?_, ?_⟩
      · dsimp only
        omega
      · omega
      · intro e he
        exact houtcome e (ran_mem_leave.mp he)
  · rw [if_neg hc]
    rw [if_neg hc] at hcount
    unfold Attends at hattends ⊢
    simpa [ran_mem_leave, hcount] using hattends

theorem Orderly.leave {cycle : Nat}
    (h : Orderly ⟨coordinator, front ++ .sleeping cycle :: back⟩) {ending : Ending σ}
    (hran : .ran cycle ending ∈ front ++ .sleeping cycle :: back) {joiners : Joiners σ}
    (hjoiners : coordinator.joined[cycle]? = some joiners) :
    Orderly ⟨coordinator.leaving cycle joiners,
      front ++ .joined cycle (ending.outcome cycle).shared :: back⟩ := by
  constructor
  case idle_iff => exact h.idle_iff
  case completed_le => exact h.completed_le
  case started_le => exact h.started_le
  case running_iff =>
    intro c
    have hc := h.running_iff c
    simp only [mem_middle, reduceCtorEq, false_or] at hc ⊢
    exact hc
  case ran_iff =>
    intro c
    simp only [ran_mem_leave]
    exact h.ran_iff c
  case distinct =>
    have hdistinct := h.distinct
    rw [List.filterMap_append, List.filterMap_cons_none rfl] at hdistinct ⊢
    exact hdistinct
  case sleeping =>
    intro c hc
    refine h.sleeping c ?_
    simp only [mem_middle, reduceCtorEq, false_or] at hc ⊢
    exact Or.inr hc
  case attends => exact h.attends_leave hjoiners _
  case joined =>
    intro c outcome hc
    simp only [ran_mem_leave]
    rcases mem_middle.mp hc with heq | hc
    · obtain ⟨rfl, rfl⟩ := Trigger.joined.inj heq
      exact ⟨ending, hran, rfl⟩
    · exact h.joined c outcome (mem_middle.mpr (Or.inr hc))
  case found =>
    intro c
    have hfound := h.found c
    simpa using hfound

theorem Orderly.wake {cycle : Nat} {wakeup : Wakeup σ} {next : Coordinator σ}
    (h : Orderly ⟨coordinator, front ++ .sleeping cycle :: back⟩)
    (hwake : coordinator.wake cycle = (wakeup, next)) :
    Orderly ⟨next, front ++ .woken cycle wakeup :: back⟩ := by
  rcases h.wake_cases (c := cycle) (by simp) with
    ⟨-, heq⟩ | ⟨ending, joiners, hran, hjoiners, heq⟩
  · rw [hwake] at heq
    obtain ⟨rfl, rfl⟩ := Prod.mk.inj heq
    exact h
  · rw [hwake] at heq
    obtain ⟨rfl, rfl⟩ := Prod.mk.inj heq
    exact h.leave hran hjoiners

end Middle

theorem Step.orderly {s t : Crowd σ} (hstep : Step s t) (h : s.Orderly) : t.Orderly := by
  cases hstep with
  | start henter => exact h.start henter
  | join henter => exact h.join henter
  | advance phase hrunning hphase => exact h.advance hrunning hphase
  | finish ending => exact h.finish ending
  | wake hwake => exact h.wake hwake

theorem Reached.orderly {s : Crowd σ} (h : s.Reached) : s.Orderly := by
  induction h with
  | empty => exact orderly_empty
  | step _ hstep ih => exact hstep.orderly ih

end Crowd
end Metaspace
