import Mathlib.Logic.Relation
import Metaspace.Proofs.Registry.Stocked
import Metaspace.Proofs.Unload.Conduct
import Metaspace.Proofs.Unload.Eviction
import Metaspace.Proofs.Unload.Hearing

/-!
The stream of unload events. What a subscriber gets is the log of the evictions since it subscribed:
for every successful cycle one event per evicted class, more dimensions first. While the oracle is
asked and between the cycles, others may change the registry, come and go as subscribers,
take their events and join the running cycle.
-/

set_option autoImplicit false

namespace Metaspace

variable {σ ω : Type} {rule : Registry σ → ClassDefinition → Prop}

namespace Publisher

variable {publisher : Publisher}

def Connected (publisher : Publisher) (id : Nat) : Prop :=
  ∃ s ∈ publisher.subscriptions, s.id = id

instance (id : Nat) : Decidable (publisher.Connected id) :=
  inferInstanceAs (Decidable (∃ s ∈ publisher.subscriptions, s.id = id))

theorem find?_of_not_connected {id : Nat} (h : ¬ publisher.Connected id) :
    publisher.subscriptions.find? (·.id = id) = none := by
  rw [List.find?_eq_none]
  intro s hs hid
  exact h ⟨s, hs, of_decide_eq_true hid⟩

theorem pending_of_not_connected {id : Nat} (h : ¬ publisher.Connected id) :
    publisher.pending id = [] := by
  simp [pending, find?_of_not_connected h]

theorem connected_subscribe {id : Nat} :
    publisher.subscribe.2.Connected id ↔ id = publisher.issued + 1 ∨ publisher.Connected id := by
  simp [Connected, subscribe, or_and_right, exists_or, or_comm, eq_comm]

theorem pending_subscribe {id : Nat} (h : id ≤ publisher.issued) :
    publisher.subscribe.2.pending id = publisher.pending id := by
  have hne : publisher.issued + 1 ≠ id := by omega
  simp [pending, subscribe, List.find?_append, hne]

theorem pending_subscribe_new (h : ¬ publisher.Connected (publisher.issued + 1)) :
    publisher.subscribe.2.pending (publisher.issued + 1) = [] := by
  simp [pending, subscribe, List.find?_append, find?_of_not_connected h]

theorem connected_unsubscribe {id k : Nat} :
    (publisher.unsubscribe id).Connected k ↔ publisher.Connected k ∧ k ≠ id := by
  simp only [Connected, unsubscribe, List.mem_filter, decide_eq_true_eq]
  constructor
  · rintro ⟨s, ⟨hs, hne⟩, rfl⟩
    exact ⟨⟨s, hs, rfl⟩, hne⟩
  · rintro ⟨⟨s, hs, rfl⟩, hne⟩
    exact ⟨s, ⟨hs, hne⟩, rfl⟩

theorem pending_unsubscribe {id k : Nat} (h : k ≠ id) :
    (publisher.unsubscribe id).pending k = publisher.pending k := by
  have hsame : ∀ s : Subscription,
      decide (decide (s.id ≠ id) = true ∧ decide (s.id = k) = true) = decide (s.id = k) := by
    intro s
    by_cases hk : s.id = k <;> simp [hk, h]
  simp only [pending, unsubscribe, List.find?_filter, hsame]

theorem connected_take {id k : Nat} :
    (publisher.take id).2.Connected k ↔ publisher.Connected k := by
  simp only [Connected, take, List.mem_map]
  constructor
  · rintro ⟨_, ⟨s, hs, rfl⟩, hid⟩
    refine ⟨s, hs, ?_⟩
    rw [← hid]
    split <;> rfl
  · rintro ⟨s, hs, rfl⟩
    refine ⟨_, ⟨s, hs, rfl⟩, ?_⟩
    split <;> rfl

theorem pending_take (id k : Nat) :
    (publisher.take id).2.pending k = if k = id then [] else publisher.pending k := by
  have hids : ((fun s : Subscription => decide (s.id = k)) ∘ fun s =>
      if s.id = id then { s with pending := #[] } else s) = fun s => decide (s.id = k) := by
    funext s
    simp only [Function.comp_apply]
    split <;> rfl
  simp only [pending, take, List.find?_map, hids]
  cases hfound : publisher.subscriptions.find? (·.id = k) with
  | none => simp
  | some s =>
    have hid : s.id = k := by simpa using List.find?_some hfound
    by_cases hk : k = id <;> simp [hid, hk]

theorem connected_publish {event : UnloadEvent} {k : Nat} :
    (publisher.publish event).Connected k ↔ publisher.Connected k := by
  simp [Connected, publish]

theorem pending_publish {event : UnloadEvent} {k : Nat} (h : publisher.Connected k) :
    (publisher.publish event).pending k = publisher.pending k ++ [event] := by
  obtain ⟨s, hs, hid⟩ := h
  have hsome : (publisher.subscriptions.find? (·.id = k)).isSome = true := by
    rw [List.find?_isSome]
    exact ⟨s, hs, by simpa using hid⟩
  obtain ⟨s', hs'⟩ := Option.isSome_iff_exists.mp hsome
  have hmapped : (publisher.publish event).subscriptions.find? (·.id = k) =
      some { s' with pending := s'.pending.push event } := by
    simp only [publish, List.find?_map]
    exact congrArg (Option.map _) hs'
  simp [pending, hs', hmapped]

theorem issued_publishAll (publisher : Publisher) (events : List UnloadEvent) :
    (publisher.publishAll events).issued = publisher.issued := by
  induction events generalizing publisher with
  | nil => rfl
  | cons event events ih => exact ih (publisher.publish event)

theorem connected_publishAll {events : List UnloadEvent} {k : Nat} :
    (publisher.publishAll events).Connected k ↔ publisher.Connected k := by
  induction events generalizing publisher with
  | nil => exact Iff.rfl
  | cons event events ih => exact ih.trans connected_publish

theorem pending_publishAll {events : List UnloadEvent} {k : Nat} (h : publisher.Connected k) :
    (publisher.publishAll events).pending k = publisher.pending k ++ events := by
  induction events generalizing publisher with
  | nil => exact (List.append_nil _).symm
  | cons event events ih =>
    refine (ih (connected_publish.mpr h)).trans ?_
    rw [pending_publish h, List.append_assoc, List.singleton_append]

end Publisher

abbrev Inbox := Nat → List UnloadEvent

/-- All that a subscriber got: what it has taken and what is pending. -/
def heard (state : Engine σ × Inbox) (k : Nat) : List UnloadEvent :=
  state.2 k ++ state.1.publisher.pending k

/-- A step of others, who define classes as the rule lets them. Whoever triggers a cycle while one
is running joins it. -/
inductive Stir (rule : Registry σ → ClassDefinition → Prop) :
    Engine σ × Inbox → Engine σ × Inbox → Prop where
  | registry {engine : Engine σ} {next : Registry σ} (inbox : Inbox) :
      Registry.Develops rule engine.registry next →
      Stir rule (engine, inbox) ({ engine with registry := next }, inbox)
  | subscribe (engine : Engine σ) (inbox : Inbox) :
      Stir rule (engine, inbox) ({ engine with publisher := engine.publisher.subscribe.2 }, inbox)
  | unsubscribe (engine : Engine σ) (inbox : Inbox) (id : Nat) :
      Stir rule (engine, inbox)
        ({ engine with publisher := engine.publisher.unsubscribe id }, inbox)
  | take (engine : Engine σ) (inbox : Inbox) (id : Nat) :
      Stir rule (engine, inbox) ({ engine with publisher := (engine.publisher.take id).2 },
        Function.update inbox id (inbox id ++ (engine.publisher.take id).1))
  | join {engine : Engine σ} {cycle : Nat} {next : Coordinator σ} (inbox : Inbox) :
      engine.coordinator.enter = (.joins cycle, next) →
      Stir rule (engine, inbox) ({ engine with coordinator := next }, inbox)
  | wake (engine : Engine σ) (inbox : Inbox) (cycle : Nat) :
      Stir rule (engine, inbox)
        ({ engine with coordinator := (engine.coordinator.wake cycle).2 }, inbox)

/-- Subscriptions are numbered as they come, and before it subscribed nobody got anything. -/
structure Numbered (state : Engine σ × Inbox) : Prop where
  connected : ∀ k, state.1.publisher.Connected k → k ≤ state.1.publisher.issued
  inbox : ∀ k, state.1.publisher.issued < k → state.2 k = []

/-- What no step of others undoes. Whoever is connected afterwards was connected before and got
nothing new, or is new and got nothing at all. -/
structure Drifts (rule : Registry σ → ClassDefinition → Prop) (before after : Engine σ × Inbox) :
    Prop where
  registry : Registry.Develops rule before.1.registry after.1.registry
  started_le : before.1.coordinator.started ≤ after.1.coordinator.started
  issued_le : before.1.publisher.issued ≤ after.1.publisher.issued
  numbered : Numbered before → Numbered after
  heard : Numbered before → ∀ k, after.1.publisher.Connected k →
    before.1.publisher.Connected k ∧ heard after k = heard before k ∨
      before.1.publisher.issued < k ∧ heard after k = []

theorem Drifts.refl (state : Engine σ × Inbox) : Drifts rule state state :=
  ⟨.refl _, Nat.le_refl _, Nat.le_refl _, id, fun _ _ h => .inl ⟨h, rfl⟩⟩

theorem Drifts.trans {first second third : Engine σ × Inbox} (h : Drifts rule first second)
    (h' : Drifts rule second third) : Drifts rule first third where
  registry := h.registry.trans h'.registry
  started_le := Nat.le_trans h.started_le h'.started_le
  issued_le := Nat.le_trans h.issued_le h'.issued_le
  numbered := h'.numbered ∘ h.numbered
  heard hnumbered k hconnected := by
    rcases h'.heard (h.numbered hnumbered) k hconnected with ⟨hbetween, heq'⟩ | ⟨hk, heq'⟩
    · rcases h.heard hnumbered k hbetween with ⟨hbefore, heq⟩ | ⟨hk, heq⟩
      · exact .inl ⟨hbefore, heq'.trans heq⟩
      · exact .inr ⟨hk, heq'.trans heq⟩
    · exact .inr ⟨Nat.lt_of_le_of_lt h.issued_le hk, heq'⟩

theorem Drifts.of_publisher {engine : Engine σ} {inbox inbox' : Inbox} {publisher : Publisher}
    (hissued : engine.publisher.issued ≤ publisher.issued)
    (hnumbered : Numbered (engine, inbox) → Numbered ({ engine with publisher }, inbox'))
    (hheard : Numbered (engine, inbox) → ∀ k, publisher.Connected k →
      engine.publisher.Connected k ∧ inbox' k ++ publisher.pending k =
          inbox k ++ engine.publisher.pending k ∨
        engine.publisher.issued < k ∧ inbox' k ++ publisher.pending k = []) :
    Drifts rule (engine, inbox) ({ engine with publisher }, inbox') where
  registry := .refl _
  started_le := Nat.le_refl _
  issued_le := hissued
  numbered := hnumbered
  heard := hheard

theorem Drifts.of_coordinator {engine : Engine σ} {coordinator : Coordinator σ} (inbox : Inbox)
    (h : engine.coordinator.started ≤ coordinator.started) :
    Drifts rule (engine, inbox) ({ engine with coordinator }, inbox) where
  registry := .refl _
  started_le := h
  issued_le := Nat.le_refl _
  numbered hnumbered := ⟨hnumbered.connected, hnumbered.inbox⟩
  heard _ _ h := .inl ⟨h, rfl⟩

theorem Coordinator.enter_of_joins {coordinator next : Coordinator σ} {cycle : Nat}
    (h : coordinator.enter = (.joins cycle, next)) :
    coordinator.started ≤ next.started ∧ next.phase = coordinator.phase := by
  unfold Coordinator.enter at h
  split at h
  · exact absurd (Prod.mk.inj h).1 nofun
  · obtain ⟨-, rfl⟩ := Prod.mk.inj h
    exact ⟨Nat.le_refl _, rfl⟩

theorem Coordinator.wake_keeps (coordinator : Coordinator σ) (cycle : Nat) :
    coordinator.started ≤ (coordinator.wake cycle).2.started ∧
      (coordinator.wake cycle).2.phase = coordinator.phase := by
  unfold Coordinator.wake
  split
  · exact ⟨Nat.le_refl _, rfl⟩
  · split <;> exact ⟨Nat.le_refl _, rfl⟩

theorem Numbered.not_connected {state : Engine σ × Inbox} (h : Numbered state) {k : Nat}
    (hk : state.1.publisher.issued < k) : ¬ state.1.publisher.Connected k :=
  fun hconnected => absurd (h.connected k hconnected) (Nat.not_le.mpr hk)

theorem Drifts.subscribe (rule : Registry σ → ClassDefinition → Prop) (engine : Engine σ)
    (inbox : Inbox) : Drifts rule (engine, inbox)
      ({ engine with publisher := engine.publisher.subscribe.2 }, inbox) := by
  refine .of_publisher (Nat.le_succ _) (fun hnumbered => ⟨?_, ?_⟩) ?_
  · intro k hconnected
    rcases Publisher.connected_subscribe.mp hconnected with rfl | hconnected
    · exact Nat.le_refl _
    · exact Nat.le_succ_of_le (hnumbered.connected k hconnected)
  · intro k hk
    exact hnumbered.inbox k (Nat.lt_of_succ_lt hk)
  · intro hnumbered k hconnected
    rcases Publisher.connected_subscribe.mp hconnected with rfl | hconnected
    · have hnew : engine.publisher.issued < engine.publisher.issued + 1 := Nat.lt_succ_self _
      have hempty : inbox (engine.publisher.issued + 1) = [] := hnumbered.inbox _ hnew
      rw [Publisher.pending_subscribe_new (hnumbered.not_connected hnew), hempty]
      exact .inr ⟨hnew, rfl⟩
    · rw [Publisher.pending_subscribe (hnumbered.connected k hconnected)]
      exact .inl ⟨hconnected, rfl⟩

theorem Drifts.unsubscribe (rule : Registry σ → ClassDefinition → Prop) (engine : Engine σ)
    (inbox : Inbox) (id : Nat) : Drifts rule (engine, inbox)
      ({ engine with publisher := engine.publisher.unsubscribe id }, inbox) := by
  refine .of_publisher (Nat.le_refl _) (fun hnumbered => ⟨?_, hnumbered.inbox⟩) ?_
  · intro k hconnected
    exact hnumbered.connected k (Publisher.connected_unsubscribe.mp hconnected).1
  · intro _ k hconnected
    obtain ⟨hbefore, hne⟩ := Publisher.connected_unsubscribe.mp hconnected
    rw [Publisher.pending_unsubscribe hne]
    exact .inl ⟨hbefore, rfl⟩

theorem Drifts.take (rule : Registry σ → ClassDefinition → Prop) (engine : Engine σ)
    (inbox : Inbox) (id : Nat) : Drifts rule (engine, inbox)
      ({ engine with publisher := (engine.publisher.take id).2 },
        Function.update inbox id (inbox id ++ (engine.publisher.take id).1)) := by
  refine .of_publisher (Nat.le_refl _) (fun hnumbered => ⟨?_, ?_⟩) ?_
  · intro k hconnected
    exact hnumbered.connected k (Publisher.connected_take.mp hconnected)
  · intro k hk
    have hempty : inbox k = [] := hnumbered.inbox k hk
    dsimp only
    by_cases hid : k = id
    · subst hid
      simp [Publisher.take, Publisher.pending_of_not_connected (hnumbered.not_connected hk), hempty]
    · rw [Function.update_of_ne hid]
      exact hempty
  · intro _ k hconnected
    refine .inl ⟨Publisher.connected_take.mp hconnected, ?_⟩
    rw [Publisher.pending_take]
    by_cases hid : k = id
    · subst hid
      simp [Publisher.take]
    · rw [Function.update_of_ne hid, if_neg hid]

theorem Stir.drifts {before after : Engine σ × Inbox} (h : Stir rule before after) :
    Drifts rule before after := by
  cases h with
  | @registry engine next inbox hdevelops =>
    exact
      { registry := hdevelops
        started_le := Nat.le_refl _
        issued_le := Nat.le_refl _
        numbered := fun hnumbered => ⟨hnumbered.connected, hnumbered.inbox⟩
        heard := fun _ _ hconnected => .inl ⟨hconnected, rfl⟩ }
  | subscribe engine inbox => exact .subscribe rule engine inbox
  | unsubscribe engine inbox id => exact .unsubscribe rule engine inbox id
  | take engine inbox id => exact .take rule engine inbox id
  | join inbox henter => exact .of_coordinator inbox (Coordinator.enter_of_joins henter).1
  | wake engine inbox cycle => exact .of_coordinator inbox (engine.coordinator.wake_keeps cycle).1

theorem Stir.phase_eq {before after : Engine σ × Inbox} (h : Stir rule before after) :
    after.1.coordinator.phase = before.1.coordinator.phase := by
  cases h with
  | join inbox henter => exact (Coordinator.enter_of_joins henter).2
  | wake engine inbox cycle => exact (engine.coordinator.wake_keeps cycle).2
  | _ => rfl

theorem drifts_of_stirs {before after : Engine σ × Inbox}
    (h : Relation.ReflTransGen (Stir rule) before after) : Drifts rule before after := by
  induction h with
  | refl => exact .refl _
  | tail _ hstir ih => exact ih.trans hstir.drifts

def Bystanders (rule : Registry σ → ClassDefinition → Prop) (before after : Engine σ × ω × Inbox) :
    Prop :=
  Relation.ReflTransGen (Stir rule) (before.1, before.2.2) (after.1, after.2.2)

/-- An oracle that leaves the engine to others, who may use it during every call. What it does at
the end of a cycle does not panic. -/
structure Oracle.Observing (rule : Registry σ → ClassDefinition → Prop)
    (oracle : Oracle σ (ω × Inbox)) : Prop where
  beginCycle : ∀ snapshot, Cycle.Moves (Bystanders rule) (oracle.beginCycle snapshot)
  query : ∀ c loader, Cycle.Moves (Bystanders rule) (oracle.query c loader)
  queryLoader : ∀ l, Cycle.Moves (Bystanders rule) (oracle.queryLoader l)
  endCycle : ∀ report, Cycle.Moves (Bystanders rule) (oracle.endCycle report)
  calm : ∀ report state, ∃ final, oracle.endCycle report state = (.ok (), final)

def Drifting (rule : Registry σ → ClassDefinition → Prop) (before after : Engine σ × ω × Inbox) :
    Prop :=
  Drifts rule (before.1, before.2.2) (after.1, after.2.2)

theorem drifting_spans : Cycle.Spans (Drifting rule : Engine σ × ω × Inbox → _ → Prop) where
  refl _ := Drifts.refl _
  trans := Drifts.trans
  phase _ _ := .of_coordinator _ (Nat.le_refl _)

theorem Oracle.Observing.deliberate {oracle : Oracle σ (ω × Inbox)} (h : oracle.Observing rule)
    (snapshot : Snapshot σ) : Cycle.Moves (Drifting rule) (Cycle.deliberate oracle snapshot) :=
  Cycle.moves_deliberate drifting_spans
    (fun snapshot state => drifts_of_stirs (h.beginCycle snapshot state))
    (fun c loader state => drifts_of_stirs (h.query c loader state))
    (fun l state => drifts_of_stirs (h.queryLoader l state)) snapshot

def UnloadEvent.telling (cycle : Nat) (c : ClassDescriptor) : UnloadEvent where
  cycle := cycle
  classId := c.id
  name := c.name
  dimensions := c.array?.map (·.dimensions)
  loader := c.loader

def CycleReport.announcements (report : CycleReport σ) : List UnloadEvent :=
  report.unloaded.map (.telling report.statistics.cycle)

theorem UnloadEvent.ofClass_eq (cycle : Nat) (c : ClassDescriptor) :
    UnloadEvent.ofClass cycle c = .telling cycle c := by
  have hdimensions : (if c.dimensions = 0 then none else some c.dimensions) =
      c.array?.map (·.dimensions) := by
    unfold ClassDescriptor.dimensions
    cases c.array? with
    | none => rfl
    | some a => simp [a.dimensions_pos.ne']
  rw [ofClass, hdimensions, telling]

def Triggered.report? : Triggered σ → Option (CycleReport σ)
  | .finished (.ok report) => some report
  | _ => none

/-- An engine with all that is outside of it, in the course of a run, and the reports of the
triggers that succeeded. -/
structure Saga (σ ω : Type) where
  engine : Engine σ
  outside : ω
  inbox : Inbox
  reports : List (CycleReport σ)

namespace Saga

def start (bootSources : List σ) (classUnloading : Bool) (outside : ω) : Saga σ ω :=
  ⟨.new bootSources classUnloading, outside, fun _ => [], []⟩

def state (s : Saga σ ω) : Engine σ × ω × Inbox := (s.engine, s.outside, s.inbox)

def view (s : Saga σ ω) : Engine σ × Inbox := (s.engine, s.inbox)

def triggered (oracle : Oracle σ (ω × Inbox)) (s : Saga σ ω) : Saga σ ω where
  engine := (trigger oracle s.state).2.1
  outside := (trigger oracle s.state).2.2.1
  inbox := (trigger oracle s.state).2.2.2
  reports := s.reports ++ (trigger oracle s.state).1.report?.toList

inductive Step (rule : Registry σ → ClassDefinition → Prop) (oracle : Oracle σ (ω × Inbox)) :
    Saga σ ω → Saga σ ω → Prop where
  | stir {s : Saga σ ω} {engine : Engine σ} {inbox : Inbox} (outside : ω) :
      Stir rule s.view (engine, inbox) → Step rule oracle s ⟨engine, outside, inbox, s.reports⟩
  | trigger (s : Saga σ ω) : Step rule oracle s (s.triggered oracle)

abbrev Leads (rule : Registry σ → ClassDefinition → Prop) (oracle : Oracle σ (ω × Inbox)) :
    Saga σ ω → Saga σ ω → Prop :=
  Relation.ReflTransGen (Step rule oracle)

def Reached (rule : Registry σ → ClassDefinition → Prop) (oracle : Oracle σ (ω × Inbox))
    (s : Saga σ ω) : Prop :=
  ∃ bootSources classUnloading outside,
    Leads rule oracle (start bootSources classUnloading outside) s

def log (s : Saga σ ω) : List UnloadEvent :=
  s.reports.flatMap CycleReport.announcements

/-- The ids of all classes that were reported, in the order of their events. -/
def evicted (s : Saga σ ω) : List ClassId :=
  s.log.map (·.classId)

theorem evicted_append (engine : Engine σ) (outside : ω) (inbox : Inbox)
    (reports : List (CycleReport σ)) (report : CycleReport σ) :
    evicted ⟨engine, outside, inbox, reports ++ [report]⟩ =
      evicted ⟨engine, outside, inbox, reports⟩ ++ report.unloaded.map (·.id) := by
  simp only [evicted, log, List.flatMap_append, List.flatMap_singleton, List.map_append]
  rw [CycleReport.announcements, List.map_map]
  rfl

/-- What a trigger comes to that ran a cycle: if the cycle got as far as its eviction it succeeds,
since the end of a cycle does not panic, and otherwise it has touched nothing itself. -/
inductive Outcome (rule : Registry σ → ClassDefinition → Prop) (oracle : Oracle σ (ω × Inbox))
    (s : Saga σ ω) : Saga σ ω → Prop where
  | failed {last : Engine σ × ω × Inbox} {coordinator : Coordinator σ} :
      Drifting rule (s.engine.entered, s.outside, s.inbox) last → coordinator.phase = .idle →
      last.1.coordinator.started ≤ coordinator.started →
      (∀ report, (trigger oracle s.state).1 ≠ .finished (.ok report)) →
      Outcome rule oracle s ⟨{ last.1 with coordinator }, last.2.1, last.2.2, s.reports⟩
  | evicted {dead : List ClassId × List LoaderId} {last final : Engine σ × ω × Inbox}
      {coordinator : Coordinator σ} {report : CycleReport σ} {engine : Engine σ} :
      Cycle.deliberate oracle s.engine.registry.snapshot
        (s.engine.entered, s.outside, s.inbox) = (.ok dead, last) →
      Drifting rule (s.engine.entered, s.outside, s.inbox) last →
      Cycle.evict (Cycle.setPhase .evicting last).1 (s.engine.coordinator.started + 1)
        s.engine.registry.snapshot.size dead.1 dead.2 = (report, engine) →
      Drifting rule (engine, last.2) final → coordinator.phase = .idle →
      final.1.coordinator.started ≤ coordinator.started →
      (trigger oracle s.state).1 = .finished (.ok report) →
      Outcome rule oracle s
        ⟨{ final.1 with coordinator }, final.2.1, final.2.2, s.reports ++ [report]⟩

theorem triggered_outcome {oracle : Oracle σ (ω × Inbox)} (horacle : oracle.Observing rule)
    {s : Saga σ ω} (hidle : s.engine.coordinator.phase = .idle) :
    Outcome rule oracle s (s.triggered oracle) := by
  have hdrifting := horacle.deliberate s.engine.registry.snapshot
    (s.engine.entered, s.outside, s.inbox)
  cases hoffered : Cycle.deliberate oracle s.engine.registry.snapshot
      (s.engine.entered, s.outside, s.inbox) with
  | mk answer last =>
    rw [hoffered] at hdrifting
    cases answer with
    | error i =>
      have htrigger : trigger oracle s.state = _ := trigger_of_interrupted hidle hoffered
      have hanswer : ∀ report, (trigger oracle s.state).1 ≠ .finished (.ok report) := by
        rw [htrigger]
        cases i <;> exact nofun
      have hreports : (trigger oracle s.state).1.report? = none := by
        rw [htrigger]
        cases i <;> rfl
      unfold triggered
      rw [hreports, Option.toList_none, List.append_nil, htrigger]
      exact .failed hdrifting rfl (Nat.le_refl _) hanswer
    | ok dead =>
      cases hevict : Cycle.evict (Cycle.setPhase .evicting last).1
          (s.engine.coordinator.started + 1) s.engine.registry.snapshot.size dead.1 dead.2 with
      | mk report engine =>
        obtain ⟨final, hended⟩ := horacle.calm report (engine, last.2)
        have hclose : Cycle.close oracle (s.engine.coordinator.started + 1)
            s.engine.registry.snapshot.size dead last = (.ok report, final) := by
          simp only [Cycle.close, hevict, hended]
        have hfinal := horacle.endCycle report (engine, last.2)
        rw [hended] at hfinal
        have htrigger : trigger oracle s.state = _ := trigger_of_deliberate hidle hoffered hclose
        have hanswer : (trigger oracle s.state).1 = .finished (.ok report) := by
          rw [htrigger]
          rfl
        unfold triggered
        rw [hanswer, htrigger]
        exact .evicted hoffered hdrifting hevict (drifts_of_stirs hfinal) rfl (Nat.le_refl _)
          hanswer

def Gone (registry : Registry σ) (id : ClassId) : Prop :=
  registry.classes.Issued id ∧ registry.get? id = none

theorem Gone.outgrows {before after : Registry σ} (hgrows : Registry.Outgrows before after)
    {id : ClassId} (h : Gone before id) : Gone after id := by
  refine ⟨hgrows.issued h.1, ?_⟩
  rw [Option.eq_none_iff_forall_ne_some]
  intro c hget
  have hbefore := hgrows.get?_before h.1 hget
  rw [h.2] at hbefore
  contradiction

theorem gone_of_evicted {before after : Registry σ} {classes : ClassId → Prop}
    {loaders : LoaderId → Prop} {report : CycleReport σ}
    (h : Cycle.Evicted before classes loaders report after) {id : ClassId}
    (hid : id ∈ report.unloaded.map (·.id)) :
    (∃ c, before.get? id = some c) ∧ Gone after id := by
  obtain ⟨c, hc, rfl⟩ := List.mem_map.mp hid
  obtain ⟨hget, hfalls⟩ := (h.unloaded c).mp hc
  refine ⟨⟨c, hget⟩, h.outgrows.issued (IdTable.issued_of_get? hget), ?_⟩
  rw [Option.eq_none_iff_forall_ne_some]
  intro c' hget'
  exact ((h.get?_eq_some _ _).mp hget').2 hfalls

structure Sound (rule : Registry σ → ClassDefinition → Prop) (s : Saga σ ω) : Prop where
  built : ∃ bootSources, Registry.Develops rule (.new bootSources) s.engine.registry
  numbered : Numbered s.view
  gone : ∀ id ∈ s.evicted, Gone s.engine.registry id
  once : s.evicted.Nodup
  past : ∀ report ∈ s.reports, report.statistics.cycle ≤ s.engine.coordinator.started
  ascending : s.reports.Pairwise fun a b => a.statistics.cycle < b.statistics.cycle
  orderly : ∀ report ∈ s.reports, Cycle.Orderly report
  arraysFirst : Registry.Faithful rule → ∀ report ∈ s.reports, Cycle.ArraysFirst report

theorem Sound.layered {s : Saga σ ω} (h : s.Sound rule) : s.engine.registry.Layered := by
  obtain ⟨bootSources, hbuilt⟩ := h.built
  exact (hbuilt.layered (Registry.new_coherent bootSources).toLayered).1

theorem Sound.viewed {s : Saga σ ω} (h : s.Sound rule) : s.engine.registry.Viewed := by
  obtain ⟨bootSources, hbuilt⟩ := h.built
  exact (hbuilt.viewed (Registry.new_viewed bootSources)).1

theorem Sound.coherent {s : Saga σ ω} (h : s.Sound rule) (hrule : Registry.Faithful rule) :
    s.engine.registry.Coherent := by
  obtain ⟨bootSources, hbuilt⟩ := h.built
  exact (Registry.coherent_invariant hrule).develops hbuilt (Registry.new_coherent bootSources)

/-- The run went on: to the reports new ones were added, and whoever was connected all the time got
the events they announce. Who came later got those of the last ones, from some report on. -/
structure Continues (s t : Saga σ ω) : Prop where
  issued_le : s.engine.publisher.issued ≤ t.engine.publisher.issued
  added : ∃ since, t.reports = s.reports ++ since ∧ ∀ k, t.engine.publisher.Connected k →
    s.engine.publisher.Connected k ∧
        heard t.view k = heard s.view k ++ since.flatMap CycleReport.announcements ∨
      s.engine.publisher.issued < k ∧ ∃ missed rest, since = missed ++ rest ∧
        heard t.view k = rest.flatMap CycleReport.announcements

theorem sound_start (bootSources : List σ) (classUnloading : Bool) (outside : ω) :
    (start bootSources classUnloading outside).Sound rule where
  built := ⟨bootSources, .refl _⟩
  numbered := ⟨by simp [view, start, Engine.new, Publisher.empty, Publisher.Connected],
    fun _ _ => rfl⟩
  gone := nofun
  once := List.nodup_nil
  past := nofun
  ascending := List.Pairwise.nil
  orderly := nofun
  arraysFirst := fun _ => nofun

theorem Continues.refl (s : Saga σ ω) : Continues s s :=
  ⟨Nat.le_refl _, [], by simp, fun _ h => .inl ⟨h, by simp⟩⟩

theorem Continues.trans {s t u : Saga σ ω} (h : Continues s t) (h' : Continues t u) :
    Continues s u := by
  obtain ⟨since, hreports, hheard⟩ := h.added
  obtain ⟨since', hreports', hheard'⟩ := h'.added
  refine ⟨Nat.le_trans h.issued_le h'.issued_le, since ++ since', ?_, ?_⟩
  · rw [hreports', hreports, List.append_assoc]
  · intro k hconnected
    rcases hheard' k hconnected with ⟨hbetween, heq'⟩ | ⟨hk, missed, rest, rfl, heq'⟩
    · rcases hheard k hbetween with ⟨hbefore, heq⟩ | ⟨hk, missed, rest, rfl, heq⟩
      · refine .inl ⟨hbefore, ?_⟩
        rw [heq', heq, List.flatMap_append, List.append_assoc]
      · refine .inr ⟨hk, missed, rest ++ since', List.append_assoc .., ?_⟩
        rw [heq', heq, List.flatMap_append]
    · exact .inr ⟨Nat.lt_of_le_of_lt h.issued_le hk, since ++ missed, rest,
        (List.append_assoc ..).symm, heq'⟩

theorem Sound.drifted {s : Saga σ ω} (h : s.Sound rule) {engine : Engine σ} (outside : ω)
    {inbox : Inbox} (hdrifts : Drifts rule s.view (engine, inbox)) :
    Sound rule ⟨engine, outside, inbox, s.reports⟩ ∧
      Continues s ⟨engine, outside, inbox, s.reports⟩ := by
  obtain ⟨bootSources, hbuilt⟩ := h.built
  have hgrows := (hdrifts.registry.layered h.layered).2
  refine ⟨?_, hdrifts.issued_le, [], by simp, fun k hconnected => ?_⟩
  · exact
      { built := ⟨bootSources, hbuilt.trans hdrifts.registry⟩
        numbered := hdrifts.numbered h.numbered
        gone := fun id hid => (h.gone id hid).outgrows hgrows
        once := h.once
        past := fun report hreport => Nat.le_trans (h.past report hreport) hdrifts.started_le
        ascending := h.ascending
        orderly := h.orderly
        arraysFirst := h.arraysFirst }
  · rcases hdrifts.heard h.numbered k hconnected with ⟨hbefore, heq⟩ | ⟨hk, heq⟩
    · refine .inl ⟨hbefore, ?_⟩
      rw [List.flatMap_nil, List.append_nil]
      exact heq
    · exact .inr ⟨hk, [], [], rfl, heq⟩

theorem publisher_evict (engine : Engine σ) (cycle scanned : Nat) (classes : List ClassId)
    (loaders : List LoaderId) :
    (Cycle.evict engine cycle scanned classes loaders).2.publisher =
      engine.publisher.publishAll
        (Cycle.evict engine cycle scanned classes loaders).1.announcements :=
  congrArg engine.publisher.publishAll (List.map_congr_left fun c _ => UnloadEvent.ofClass_eq cycle c)

theorem Continues.evicting {s : Saga σ ω} (outside : ω) {cycle scanned : Nat}
    {classes : List ClassId} {loaders : List LoaderId} {report : CycleReport σ}
    {engine : Engine σ}
    (hevict : Cycle.evict s.engine cycle scanned classes loaders = (report, engine)) :
    Continues s ⟨engine, outside, s.inbox, s.reports ++ [report]⟩ := by
  have hpublisher := publisher_evict s.engine cycle scanned classes loaders
  rw [hevict] at hpublisher
  dsimp only at hpublisher
  have hissued : engine.publisher.issued = s.engine.publisher.issued := by
    rw [hpublisher, Publisher.issued_publishAll]
  refine ⟨hissued.ge, [report], rfl, fun k hk => ?_⟩
  have hbefore : s.engine.publisher.Connected k :=
    Publisher.connected_publishAll.mp (hpublisher ▸ hk)
  refine .inl ⟨hbefore, ?_⟩
  rw [List.flatMap_singleton, heard, heard, List.append_assoc]
  refine congrArg (s.inbox k ++ ·) ?_
  exact (congrArg (·.pending k) hpublisher).trans (Publisher.pending_publishAll hbefore)

theorem numbered_evicting {s : Saga σ ω} (h : Numbered s.view) {cycle scanned : Nat}
    {classes : List ClassId} {loaders : List LoaderId} {report : CycleReport σ}
    {engine : Engine σ}
    (hevict : Cycle.evict s.engine cycle scanned classes loaders = (report, engine)) :
    Numbered (engine, s.inbox) := by
  have hpublisher := publisher_evict s.engine cycle scanned classes loaders
  rw [hevict] at hpublisher
  dsimp only at hpublisher
  have hissued : engine.publisher.issued = s.engine.publisher.issued := by
    rw [hpublisher, Publisher.issued_publishAll]
  refine ⟨fun k hk => ?_, fun k hk => h.inbox k (hissued ▸ hk)⟩
  rw [hpublisher, Publisher.connected_publishAll] at hk
  exact hissued ▸ h.connected k hk

theorem Sound.evicting {s : Saga σ ω} (h : s.Sound rule) (outside : ω) {cycle scanned : Nat}
    {classes : List ClassId} {loaders : List LoaderId} {report : CycleReport σ}
    {engine : Engine σ}
    (hevict : Cycle.evict s.engine cycle scanned classes loaders = (report, engine))
    (hyounger : ∀ past ∈ s.reports, past.statistics.cycle < cycle)
    (hstarted : cycle ≤ s.engine.coordinator.started) :
    Sound rule ⟨engine, outside, s.inbox, s.reports ++ [report]⟩ := by
  obtain ⟨bootSources, hbuilt⟩ := h.built
  have hevicted := (Cycle.evict_spec s.engine h.layered.toIndexed cycle scanned classes loaders).1
  have hdevelops := Cycle.develops_evict rule s.engine cycle scanned classes loaders
  have horderly := Cycle.evict_orderly s.engine h.layered cycle scanned classes loaders
  have hfirst : Registry.Faithful rule →
      Cycle.ArraysFirst (Cycle.evict s.engine cycle scanned classes loaders).1 := fun hrule =>
    Cycle.evict_arraysFirst s.engine (h.coherent hrule) cycle scanned classes loaders
  have hcycle : cycle = report.statistics.cycle := congrArg (·.1.statistics.cycle) hevict
  have hcoordinator : s.engine.coordinator = engine.coordinator :=
    congrArg (·.2.coordinator) hevict
  rw [hevict] at hevicted hdevelops horderly hfirst
  exact
    { built := ⟨bootSources, hbuilt.trans hdevelops⟩
      numbered := numbered_evicting h.numbered hevict
      gone := by
        intro id hid
        rw [evicted_append, List.mem_append] at hid
        rcases hid with hid | hid
        · exact (h.gone id hid).outgrows hevicted.outgrows
        · exact (gone_of_evicted hevicted hid).2
      once := by
        rw [evicted_append]
        refine h.once.append horderly.ids fun id hpast hid => ?_
        obtain ⟨⟨c, hget⟩, -⟩ := gone_of_evicted hevicted hid
        rw [(h.gone id hpast).2] at hget
        contradiction
      past := by
        rw [← hcoordinator]
        exact List.forall_mem_append.mpr
          ⟨h.past, List.forall_mem_singleton.mpr (hcycle ▸ hstarted)⟩
      ascending := by
        refine List.pairwise_append.mpr ⟨h.ascending, List.pairwise_singleton _ _, ?_⟩
        intro past hpast last hlast
        rw [List.mem_singleton.mp hlast, ← hcycle]
        exact hyounger past hpast
      orderly := List.forall_mem_append.mpr ⟨h.orderly, List.forall_mem_singleton.mpr horderly⟩
      arraysFirst := fun hrule => List.forall_mem_append.mpr
        ⟨h.arraysFirst hrule, List.forall_mem_singleton.mpr (hfirst hrule)⟩ }

structure Resting (rule : Registry σ → ClassDefinition → Prop) (s : Saga σ ω) : Prop
    extends Sound rule s where
  idle : s.engine.coordinator.phase = .idle

theorem Resting.triggered {oracle : Oracle σ (ω × Inbox)} (horacle : oracle.Observing rule)
    {s : Saga σ ω} (h : s.Resting rule) :
    (s.triggered oracle).Resting rule ∧ Continues s (s.triggered oracle) := by
  have hentered : Drifts rule s.view (s.engine.entered, s.inbox) :=
    .of_coordinator s.inbox (Nat.le_succ _)
  have houtcome := triggered_outcome horacle h.idle
  generalize s.triggered oracle = t at houtcome ⊢
  cases houtcome with
  | @failed last coordinator hdrifting hidle hstarted =>
    have hdrifts := (hentered.trans hdrifting).trans (.of_coordinator last.2.2 hstarted)
    obtain ⟨hsound, hcontinues⟩ := h.toSound.drifted last.2.1 hdrifts
    exact ⟨⟨hsound, hidle⟩, hcontinues⟩
  | @evicted dead last final coordinator report engine _ hdrifting hevict hended hidle hstarted =>
    have hdrifts : Drifts rule s.view ((Cycle.setPhase .evicting last).1, last.2.2) :=
      (hentered.trans hdrifting).trans (.of_coordinator last.2.2 (Nat.le_refl _))
    obtain ⟨hsound, hcontinues⟩ := h.toSound.drifted last.2.1 hdrifts
    have hcontinues' := Continues.evicting
      (s := ⟨(Cycle.setPhase .evicting last).1, last.2.1, last.2.2, s.reports⟩) last.2.1 hevict
    have hsound' := hsound.evicting last.2.1 hevict
      (fun past hpast => Nat.lt_succ_of_le (h.past past hpast)) hdrifting.started_le
    obtain ⟨hsound'', hcontinues''⟩ := hsound'.drifted final.2.1
      (hended.trans (.of_coordinator final.2.2 hstarted))
    exact ⟨⟨hsound'', hidle⟩, (hcontinues.trans hcontinues').trans hcontinues''⟩

theorem Resting.step {oracle : Oracle σ (ω × Inbox)} (horacle : oracle.Observing rule)
    {s t : Saga σ ω} (h : s.Resting rule) (hstep : Step rule oracle s t) : t.Resting rule ∧ Continues s t := by
  cases hstep with
  | stir outside hstir =>
    obtain ⟨hsound, hcontinues⟩ := h.toSound.drifted outside hstir.drifts
    exact ⟨⟨hsound, hstir.phase_eq.trans h.idle⟩, hcontinues⟩
  | trigger => exact h.triggered horacle

theorem Resting.leads {oracle : Oracle σ (ω × Inbox)} (horacle : oracle.Observing rule)
    {s t : Saga σ ω} (h : s.Resting rule) (hleads : Leads rule oracle s t) :
    t.Resting rule ∧ Continues s t := by
  induction hleads with
  | refl => exact ⟨h, .refl s⟩
  | tail _ hstep ih =>
    obtain ⟨hbetween, hcontinues⟩ := ih
    obtain ⟨hnext, hcontinues'⟩ := hbetween.step horacle hstep
    exact ⟨hnext, hcontinues.trans hcontinues'⟩

theorem Reached.resting {oracle : Oracle σ (ω × Inbox)} (horacle : oracle.Observing rule)
    {s : Saga σ ω} (h : Reached rule oracle s) : s.Resting rule := by
  obtain ⟨bootSources, classUnloading, outside, hleads⟩ := h
  have hstart : (start bootSources classUnloading outside : Saga σ ω).Resting rule :=
    ⟨sound_start bootSources classUnloading outside, rfl⟩
  exact (hstart.leads horacle hleads).1

theorem Reached.heard_eq {oracle : Oracle σ (ω × Inbox)} (horacle : oracle.Observing rule)
    {s : Saga σ ω} (h : Reached rule oracle s) {k : Nat} (hk : s.engine.publisher.Connected k) :
    ∃ missed rest, s.reports = missed ++ rest ∧
      heard s.view k = rest.flatMap CycleReport.announcements := by
  obtain ⟨bootSources, classUnloading, outside, hleads⟩ := h
  have hstart : (start bootSources classUnloading outside : Saga σ ω).Resting rule :=
    ⟨sound_start bootSources classUnloading outside, rfl⟩
  obtain ⟨since, hreports, hheard⟩ := (hstart.leads horacle hleads).2.added
  rcases hheard k hk with ⟨hnone, -⟩ | ⟨-, missed, rest, rfl, heq⟩
  · obtain ⟨_, hmem, -⟩ := hnone
    exact absurd hmem (List.not_mem_nil)
  · exact ⟨missed, rest, hreports, heq⟩

theorem Resting.heard_leads {oracle : Oracle σ (ω × Inbox)} (horacle : oracle.Observing rule)
    {s t : Saga σ ω} (h : s.Resting rule) (hleads : Leads rule oracle s t) :
    ∃ since, t.reports = s.reports ++ since ∧ ∀ k, s.engine.publisher.Connected k →
      t.engine.publisher.Connected k →
        heard t.view k = heard s.view k ++ since.flatMap CycleReport.announcements := by
  obtain ⟨since, hreports, hheard⟩ := (h.leads horacle hleads).2.added
  refine ⟨since, hreports, fun k hbefore hafter => ?_⟩
  rcases hheard k hafter with ⟨-, heq⟩ | ⟨hnew, -⟩
  · exact heq
  · exact absurd (h.numbered.connected k hbefore) (Nat.not_le.mpr hnew)

/-- The eviction step of a trigger that succeeds takes as many classes out of the registry as its
report has. -/
theorem Resting.shrinks {oracle : Oracle σ (ω × Inbox)} (horacle : oracle.Observing rule)
    {s : Saga σ ω} (h : s.Resting rule) {report : CycleReport σ}
    (hreport : (trigger oracle s.state).1 = .finished (.ok report)) :
    ∃ dead last engine,
      Cycle.deliberate oracle s.engine.registry.snapshot
        (s.engine.entered, s.outside, s.inbox) = (.ok dead, last) ∧
      Cycle.evict (Cycle.setPhase .evicting last).1 (s.engine.coordinator.started + 1)
        s.engine.registry.snapshot.size dead.1 dead.2 = (report, engine) ∧
      last.1.registry.size = engine.registry.size + report.unloaded.length := by
  have houtcome := triggered_outcome horacle h.idle
  generalize s.triggered oracle = t at houtcome
  cases houtcome with
  | failed _ _ _ hnone => exact absurd hreport (hnone report)
  | @evicted dead last final coordinator report' engine hoffered hdrifting hevict _ _ _ hanswer =>
    obtain rfl : report' = report := by
      rw [hanswer] at hreport
      injection hreport with houtcome
      exact Except.ok.inj houtcome
    refine ⟨dead, last, engine, hoffered, hevict, ?_⟩
    have hsize := Cycle.size_evict (Cycle.setPhase .evicting last).1
      (hdrifting.registry.viewed h.viewed).1
      (s.engine.coordinator.started + 1) s.engine.registry.snapshot.size dead.1 dead.2
    rw [hevict] at hsize
    exact hsize

/-- The stream of events is the log of the evictions. The reports of a run are in cycle order, each
tells of the classes of its cycle once and in order, and no class id is in two events. All array
classes go before their components if no kind comes from elsewhere. A subscriber gets this log in
whole reports: all of them from its subscription on, as long as it is connected. -/
theorem Reached.stream_is_log {oracle : Oracle σ (ω × Inbox)} (horacle : oracle.Observing rule)
    {s : Saga σ ω} (h : Reached rule oracle s) :
    (s.reports.Pairwise fun a b => a.statistics.cycle < b.statistics.cycle) ∧
    (∀ report ∈ s.reports, Cycle.Orderly report) ∧
    (Registry.Faithful rule → ∀ report ∈ s.reports, Cycle.ArraysFirst report) ∧
    (s.log.map (·.classId)).Nodup ∧
    (∀ k, s.engine.publisher.Connected k → ∃ missed rest, s.reports = missed ++ rest ∧
      heard s.view k = rest.flatMap CycleReport.announcements) ∧
    heard ({ s.engine with publisher := s.engine.publisher.subscribe.2 }, s.inbox)
      s.engine.publisher.subscribe.1 = [] ∧
    (∀ t, Leads rule oracle s t → ∃ since, t.reports = s.reports ++ since ∧
      ∀ k, s.engine.publisher.Connected k → t.engine.publisher.Connected k →
        heard t.view k = heard s.view k ++ since.flatMap CycleReport.announcements) ∧
    ∀ report, (trigger oracle s.state).1 = .finished (.ok report) →
      (s.triggered oracle).reports = s.reports ++ [report] ∧
      ∃ dead last engine,
        Cycle.deliberate oracle s.engine.registry.snapshot
          (s.engine.entered, s.outside, s.inbox) = (.ok dead, last) ∧
        Cycle.evict (Cycle.setPhase .evicting last).1 (s.engine.coordinator.started + 1)
          s.engine.registry.snapshot.size dead.1 dead.2 = (report, engine) ∧
        last.1.registry.size = engine.registry.size + report.unloaded.length := by
  have hresting := h.resting horacle
  refine ⟨hresting.ascending, hresting.orderly, hresting.arraysFirst, hresting.once, fun k hk => h.heard_eq horacle hk,
    ?_, fun t hleads => hresting.heard_leads horacle hleads, fun report hreport => ⟨?_, ?_⟩⟩
  · have hdrifts : Drifts rule _ _ := (Stir.subscribe s.engine s.inbox).drifts
    have hconnected : s.engine.publisher.subscribe.2.Connected s.engine.publisher.subscribe.1 :=
      Publisher.connected_subscribe.mpr (.inl rfl)
    rcases hdrifts.heard hresting.numbered _ hconnected with ⟨hold, -⟩ | ⟨-, heq⟩
    · exact absurd (hresting.numbered.connected _ hold) (Nat.not_succ_le_self _)
    · exact heq
  · rw [triggered, hreport]
    rfl
  · exact hresting.shrinks horacle hreport

/-- The oracle that finds all classes dead and leaves the engine alone. -/
def quiet : Oracle Unit (Unit × Inbox) := Cycle.steady (fun _ => false) fun _ => true

theorem quiet_observing (rule : Registry Unit → ClassDefinition → Prop) :
    quiet.Observing rule where
  beginCycle _ _ := .refl
  query _ _ _ := .refl
  queryLoader _ _ := .refl
  endCycle _ _ := .refl
  calm _ state := ⟨state, rfl⟩

def listening (registry : Registry Unit) : Saga Unit Unit where
  engine := ⟨registry, .new, Publisher.empty.subscribe.2, true⟩
  outside := ()
  inbox := fun _ => []
  reports := []

theorem listening_reached {rule : Registry Unit → ClassDefinition → Prop}
    {registry : Registry Unit} (h : Registry.Develops rule (.new [()]) registry) :
    Reached rule quiet (listening registry) :=
  ⟨[()], true, (), .tail (.single (.stir () (.registry _ h))) (.stir () (.subscribe _ _))⟩

/-- The classes of a registry in the order of their events, if a cycle takes all of them. -/
def announced (registry : Registry Unit) : List ClassDescriptor :=
  (registry.removeBatch (Cycle.condemned registry.snapshot
    (registry.registered.map (·.id)))).1.mergeSort Cycle.evictedBefore

theorem heard_listening (registry : Registry Unit) :
    heard ((listening registry).triggered quiet).view 1 =
      (announced registry).map (.telling 1) := by
  let start : Engine Unit × Unit × Inbox := ((listening registry).engine.entered, (), fun _ => [])
  have hdead : Cycle.deadClasses (registry.registered.map fun c =>
      (c, (⟨false, false, false⟩ : Liveness))) = registry.registered.map (·.id) := by
    simp [Cycle.deadClasses, List.filter_map, Function.comp_def, Liveness.isLive]
  have hoffered : Cycle.deliberate quiet registry.snapshot start = _ :=
    (Cycle.Hearing.steady (fun _ => false) (fun _ => true) start).decide_eq rfl
  have htrigger : trigger quiet (listening registry).state = _ :=
    trigger_of_deliberate rfl hoffered rfl
  have hpublisher : (trigger quiet (listening registry).state).2.1.publisher =
      Publisher.empty.subscribe.2.publishAll ((announced registry).map (.telling 1)) := by
    rw [htrigger, ← funext (UnloadEvent.ofClass_eq 1), announced, ← hdead]
    rfl
  have hinbox : (trigger quiet (listening registry).state).2.2.2 1 = [] := by
    rw [htrigger]
    rfl
  have hconnected : Publisher.empty.subscribe.2.Connected 1 := by decide
  change (trigger quiet (listening registry).state).2.2.2 1 ++
    (trigger quiet (listening registry).state).2.1.publisher.pending 1 = _
  rw [hinbox, hpublisher, Publisher.pending_publishAll hconnected]
  rfl

theorem announced_eq {registry : Registry Unit} {unloaded : List ClassDescriptor}
    (hperm : (registry.removeBatch (Cycle.condemned registry.snapshot
      (registry.registered.map (·.id)))).1.Perm unloaded)
    (hsorted : unloaded.Pairwise fun a b => Cycle.evictedBefore a b = true)
    (hids : ∀ a ∈ unloaded, ∀ b ∈ unloaded, Cycle.evictedBefore a b = true →
      Cycle.evictedBefore b a = true → a = b) : announced registry = unloaded := by
  have hsame := (List.mergeSort_perm _ Cycle.evictedBefore).trans hperm
  refine hsame.eq_of_pairwise (fun a b ha hb => ?_) (Cycle.pairwise_unloaded _) hsorted
  exact hids a (hsame.mem_iff.mp ha) b hb

open Registry in
/-- The subscriber hears of the array class first. -/
theorem audience_hears_array_first :
    Reached (fun r d => r.Genuine d.kind) quiet (listening classAndArray) ∧
    ∃ t, Leads (fun r d => r.Genuine d.kind) quiet (listening classAndArray) t ∧
      heard t.view 1 = [⟨1, classId 2, "[LA;", some 1, bootLoader⟩,
        ⟨1, classId 1, "A", none, bootLoader⟩] ∧
      ∀ report ∈ t.reports, Cycle.ArraysFirst report := by
  have hreached := listening_reached (develops_classAndArray fun r d => r.Genuine d.kind)
  have hleads : Leads (fun r d => r.Genuine d.kind) quiet (listening classAndArray) _ :=
    .single (.trigger _)
  obtain ⟨bootSources, classUnloading, outside, hbefore⟩ := hreached
  have hafter : Reached (fun r d => r.Genuine d.kind) quiet _ :=
    ⟨bootSources, classUnloading, outside, hbefore.trans hleads⟩
  obtain ⟨-, -, hfirst, -⟩ := hafter.stream_is_log (quiet_observing _)
  refine ⟨⟨_, _, _, hbefore⟩, _, hleads, ?_, hfirst fun _ _ hkind => hkind⟩
  have hall : announced classAndArray = [arrayOverA, classA bootLoader 1] :=
    announced_eq (by decide +kernel) (by decide) (by decide)
  rw [heard_listening, hall]
  rfl

open Registry in
/-- With a kind from elsewhere the subscriber hears of a component before its array class. With the
kind of a registered class and another type it hears of a class before the array class of its
type. -/
theorem component_heard_first :
    (∃ s, Reached (fun _ _ => True) quiet s ∧
      ∃ a ∈ s.engine.registry.registered, ∃ c ∈ s.engine.registry.registered,
        a.component? = some c.id ∧
        ∃ t, Leads (fun _ _ => True) quiet s t ∧
          (heard t.view 1).map (·.classId) = [c.id, a.id, classId 1]) ∧
    ∃ s, Reached (fun r d => r.Genuine d.kind) quiet s ∧
      ∃ a ∈ s.engine.registry.registered, ∃ c ∈ s.engine.registry.registered,
        a.type = .array c.type ∧ a.loader = c.loader ∧
        ∃ t, Leads (fun r d => r.Genuine d.kind) quiet s t ∧
          (heard t.view 1).map (·.classId) = [c.id, a.id, classId 1] := by
  have hgenuine : classAndArray.Genuine mistypedArray.kind := by
    have hcoherent := (Evolves.keeps (develops_classAndArray _) (new_coherent [()])).1
    obtain ⟨c, hc, hsame⟩ := mistyped_kind
    rw [← hsame]
    exact hcoherent.genuine (hcoherent.mem_registered.mp hc)
  refine ⟨⟨listening (classAndArray.inserting foreignArray),
    listening_reached ((develops_classAndArray _).inserting trivial), ?_⟩,
    listening (classAndArray.inserting mistypedArray),
    listening_reached ((develops_classAndArray _).inserting hgenuine), ?_⟩
  · refine ⟨.ofDefinition (classId 3) foreignArray, by decide +kernel, arrayOverA, by decide +kernel,
      by decide, _, .single (.trigger _), ?_⟩
    have hall : announced (classAndArray.inserting foreignArray) =
        [arrayOverA, .ofDefinition (classId 3) foreignArray, classA bootLoader 1] :=
      announced_eq (by decide +kernel) (by decide) (by decide)
    rw [heard_listening, hall]
    rfl
  · refine ⟨.ofDefinition (classId 3) mistypedArray, by decide +kernel, arrayOverA, by decide +kernel,
      by decide, rfl, _, .single (.trigger _), ?_⟩
    have hall : announced (classAndArray.inserting mistypedArray) =
        [arrayOverA, .ofDefinition (classId 3) mistypedArray, classA bootLoader 1] :=
      announced_eq (by decide +kernel) (by decide) (by decide)
    rw [heard_listening, hall]
    rfl

end Saga
end Metaspace
