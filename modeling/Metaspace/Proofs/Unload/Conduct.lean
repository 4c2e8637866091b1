import Metaspace.Proofs.Registry.Views
import Metaspace.Unload.Cycle

/-!
The conduct of a cycle. Every call of an oracle is noted down together with the engine before and
after it, and the notes follow an agenda that the snapshot sets, up to the first call that is
interrupted. From there on the cycle touches nothing but the coordinator.
-/

set_option autoImplicit false

namespace Metaspace

variable {σ ω : Type}

inductive OracleCall (σ : Type) where
  | begin (snapshot : Snapshot σ)
  | query (c : ClassDescriptor) (loader : Option (Loader σ))
  | queryLoader (l : Loader σ)
  | done (report : CycleReport σ)

/-- A call of an oracle and, if there was no answer, how it ended instead. -/
structure Note (σ : Type) where
  call : OracleCall σ
  before : Engine σ
  after : Engine σ
  interruption : Option Interruption

def interruptionOf {α ε : Type} (f : ε → Interruption) : Except ε α → Option Interruption
  | .ok _ => none
  | .error e => some (f e)

/-- The same operation, with its call added to the notes that are kept outside of the engine. -/
def noting {α ε : Type} (call : OracleCall σ) (f : ε → Interruption)
    (operation : EngineCall σ ω ε α) : EngineCall σ (ω × List (Note σ)) ε α := fun state =>
  let (answer, engine, outside) := operation (state.1, state.2.1)
  (answer, engine, outside, state.2.2 ++ [⟨call, state.1, engine, interruptionOf f answer⟩])

def Keeps {α ε : Type} (P : Engine σ → Prop) (operation : EngineCall σ ω ε α) : Prop :=
  ∀ state, P state.1 → P (operation state).2.1

namespace Oracle

def noted (oracle : Oracle σ ω) : Oracle σ (ω × List (Note σ)) where
  beginCycle snapshot := noting (.begin snapshot) id (oracle.beginCycle snapshot)
  query c loader := noting (.query c loader) id (oracle.query c loader)
  queryLoader l := noting (.queryLoader l) id (oracle.queryLoader l)
  endCycle report := noting (.done report) .panicked (oracle.endCycle report)

structure Preserves (oracle : Oracle σ ω) (P : Engine σ → Prop) : Prop where
  beginCycle : ∀ snapshot, Keeps P (oracle.beginCycle snapshot)
  query : ∀ c loader, Keeps P (oracle.query c loader)
  queryLoader : ∀ l, Keeps P (oracle.queryLoader l)
  endCycle : ∀ report, Keeps P (oracle.endCycle report)

/-- While a cycle runs no other one is started, and class unloading is not switched. -/
def Confined (oracle : Oracle σ ω) : Prop :=
  ∀ started on, oracle.Preserves fun engine =>
    engine.coordinator.started = started ∧ engine.classUnloading = on

end Oracle

def Engine.tables (engine : Engine σ) : Registry σ × Publisher :=
  (engine.registry, engine.publisher)

/-- A call that is to be made, unless it is not due when its turn comes. -/
structure Turn (σ : Type) where
  call : OracleCall σ
  due : Registry σ → Bool

def Turn.begin (snapshot : Snapshot σ) : Turn σ :=
  ⟨.begin snapshot, fun _ => true⟩

def Turn.ofClass (snapshot : Snapshot σ) (c : ClassDescriptor) : Turn σ :=
  ⟨.query c (snapshot.loader? c.loader), fun _ => true⟩

def Turn.ofLoader (l : Loader σ) : Turn σ :=
  ⟨.queryLoader l, fun registry => !(l.permanent || registry.isUnloading l.id)⟩

def agenda (snapshot : Snapshot σ) (classUnloading : Bool) : List (Turn σ) :=
  .begin snapshot ::
    if classUnloading then
      snapshot.classes.map (.ofClass snapshot) ++ snapshot.loaders.map .ofLoader
    else []

/-- A note of the call whose turn it is, which finds the tables as they are. -/
structure Turn.Taken (turn : Turn σ) (tables : Registry σ × Publisher) (note : Note σ) : Prop where
  due : turn.due tables.1 = true
  call : note.call = turn.call
  before : note.before.tables = tables

/-- The notes of an agenda that is worked through from first to last, or up to a call that is
interrupted. The tables change in the calls only. -/
inductive Course : List (Turn σ) → Registry σ × Publisher → List (Note σ) →
    Option Interruption → Registry σ × Publisher → Prop where
  | done (tables : Registry σ × Publisher) : Course [] tables [] none tables
  | pass {turn : Turn σ} {turns : List (Turn σ)} {tables last : Registry σ × Publisher}
      {notes : List (Note σ)} {i : Option Interruption} : turn.due tables.1 = false →
      Course turns tables notes i last → Course (turn :: turns) tables notes i last
  | answered {turn : Turn σ} {turns : List (Turn σ)} {tables last : Registry σ × Publisher}
      {note : Note σ} {notes : List (Note σ)} {i : Option Interruption} : turn.Taken tables note →
      note.interruption = none → Course turns note.after.tables notes i last →
      Course (turn :: turns) tables (note :: notes) i last
  | interrupted {turn : Turn σ} (turns : List (Turn σ)) {tables : Registry σ × Publisher}
      {note : Note σ} {i : Interruption} : turn.Taken tables note → note.interruption = some i →
      Course (turn :: turns) tables [note] (some i) note.after.tables

namespace Course

variable {turns turns' : List (Turn σ)} {tables middle last : Registry σ × Publisher}
  {notes notes' : List (Note σ)}

theorem append {i : Option Interruption} (h : Course turns tables notes none middle)
    (h' : Course turns' middle notes' i last) :
    Course (turns ++ turns') tables (notes ++ notes') i last := by
  generalize hnone : (none : Option Interruption) = none' at h
  induction h with
  | done => exact h'
  | pass hdue _ ih => exact .pass hdue (ih h' hnone)
  | answered htaken hanswer _ ih => exact .answered htaken hanswer (ih h' hnone)
  | interrupted => contradiction

theorem cut {i : Interruption} (h : Course turns tables notes (some i) last)
    (turns' : List (Turn σ)) : Course (turns ++ turns') tables notes (some i) last := by
  generalize hsome : some i = some' at h
  induction h with
  | done => contradiction
  | pass hdue _ ih => exact .pass hdue (ih hsome)
  | answered htaken hanswer _ ih => exact .answered htaken hanswer (ih hsome)
  | interrupted turns htaken hinterrupted => exact .interrupted _ htaken hinterrupted

theorem tables_eq {i : Option Interruption} (h : Course turns tables notes i last)
    (hstill : ∀ note ∈ notes, note.after.tables = note.before.tables) : last = tables := by
  induction h with
  | done => rfl
  | pass _ _ ih => exact ih hstill
  | @answered turn turns tables last note notes i htaken _ _ ih =>
    have hnote := hstill note List.mem_cons_self
    rw [ih fun n hn => hstill n (List.mem_cons_of_mem _ hn), hnote, htaken.before]
  | @interrupted turn turns tables note i htaken _ =>
    rw [hstill note List.mem_cons_self, htaken.before]

end Course

namespace Cycle

variable {oracle : Oracle σ ω}

/-- With notes taken an operation comes to the same, and the notes are the course of the turns. -/
def Told {α : Type} (turns : List (Turn σ)) (operation : EngineCall σ ω Interruption α)
    (noted : EngineCall σ (ω × List (Note σ)) Interruption α) (state : Engine σ × ω) : Prop :=
  ∀ log, ∃ notes,
    noted (state.1, state.2, log) =
      ((operation state).1, (operation state).2.1, (operation state).2.2, log ++ notes) ∧
    Course turns state.1.tables notes (interruptionOf id (operation state).1)
      (operation state).2.1.tables

theorem told_noting {α : Type} (turn : Turn σ) (operation : EngineCall σ ω Interruption α)
    (state : Engine σ × ω) (hdue : turn.due state.1.registry = true) :
    Told [turn] operation (noting turn.call id operation) state := by
  intro log
  refine ⟨_, rfl, ?_⟩
  cases hanswer : (operation state).1 with
  | ok answer => exact .answered ⟨hdue, rfl, rfl⟩ (by simp [interruptionOf]) (.done _)
  | error i => exact .interrupted [] ⟨hdue, rfl, rfl⟩ (by simp [interruptionOf])

def followedBy {α β : Type} (first : EngineCall σ ω Interruption α)
    (next : α → EngineCall σ ω Interruption β) : EngineCall σ ω Interruption β := fun state =>
  match first state with
  | (.error i, state) => (.error i, state)
  | (.ok answer, state) => next answer state

section

variable {α β : Type} {first : EngineCall σ ω Interruption α}
  {next : α → EngineCall σ ω Interruption β} {state between : Engine σ × ω}

theorem followedBy_of_error {i : Interruption} (h : first state = (.error i, between)) :
    followedBy first next state = (.error i, between) := by
  simp only [followedBy, h]

theorem followedBy_of_ok {answer : α} (h : first state = (.ok answer, between)) :
    followedBy first next state = next answer between := by
  simp only [followedBy, h]

end

theorem Told.followedBy {α β : Type} {turns turns' : List (Turn σ)}
    {first : EngineCall σ ω Interruption α} {next : α → EngineCall σ ω Interruption β}
    {notedFirst : EngineCall σ (ω × List (Note σ)) Interruption α}
    {notedNext : α → EngineCall σ (ω × List (Note σ)) Interruption β} {state : Engine σ × ω}
    (hfirst : Told turns first notedFirst state)
    (hnext : ∀ answer between, first state = (.ok answer, between) →
      Told turns' (next answer) (notedNext answer) between) :
    Told (turns ++ turns') (Cycle.followedBy first next) (Cycle.followedBy notedFirst notedNext)
      state := by
  intro log
  obtain ⟨notes, heq, hcourse⟩ := hfirst log
  unfold Cycle.followedBy
  rw [heq]
  cases hanswer : first state with
  | mk answer between =>
    rw [hanswer] at hcourse
    cases answer with
    | error i => exact ⟨notes, rfl, hcourse.cut turns'⟩
    | ok answer =>
      obtain ⟨notes', heq', hcourse'⟩ := hnext answer between hanswer (log ++ notes)
      exact ⟨notes ++ notes', by simp [heq'], hcourse.append hcourse'⟩

theorem Told.ok {α : Type} (answer : α) (state : Engine σ × ω) :
    Told [] (fun state => (.ok answer, state)) (fun state => (.ok answer, state)) state :=
  fun log => ⟨[], by simp, .done _⟩

theorem askClasses_cons (oracle : Oracle σ ω) (snapshot : Snapshot σ) (c : ClassDescriptor)
    (cs : List ClassDescriptor) :
    askClasses oracle snapshot (c :: cs) =
      followedBy (oracle.query c (snapshot.loader? c.loader)) fun liveness =>
        followedBy (askClasses oracle snapshot cs) fun dead state =>
          (.ok (if liveness.isLive then dead else c.id :: dead), state) := by
  funext state
  simp only [askClasses, followedBy]
  rcases oracle.query c (snapshot.loader? c.loader) state with ⟨_ | liveness, between⟩
  · rfl
  · dsimp only
    rcases askClasses oracle snapshot cs between with ⟨_ | dead, last⟩ <;> rfl

theorem askLoaders_cons (oracle : Oracle σ ω) (l : Loader σ) (ls : List (Loader σ)) :
    askLoaders oracle (l :: ls) = fun state =>
      if l.permanent || state.1.registry.isUnloading l.id then askLoaders oracle ls state
      else
        followedBy (oracle.queryLoader l) (fun alive =>
          followedBy (askLoaders oracle ls) fun dead state =>
            (.ok (if alive then dead else l.id :: dead), state)) state := by
  funext state
  simp only [askLoaders, followedBy]
  rcases oracle.queryLoader l state with ⟨_ | alive, between⟩
  · rfl
  · dsimp only
    rcases askLoaders oracle ls between with ⟨_ | dead, last⟩ <;> rfl

theorem told_askClasses (oracle : Oracle σ ω) (snapshot : Snapshot σ) (cs : List ClassDescriptor)
    (state : Engine σ × ω) :
    Told (cs.map (.ofClass snapshot)) (askClasses oracle snapshot cs)
      (askClasses oracle.noted snapshot cs) state := by
  induction cs generalizing state with
  | nil => exact .ok [] state
  | cons c cs ih =>
    rw [askClasses_cons, askClasses_cons, List.map_cons, ← List.singleton_append,
      ← List.append_nil (cs.map _)]
    exact (told_noting (.ofClass snapshot c) _ state rfl).followedBy fun liveness between _ =>
      (ih between).followedBy fun dead last _ => .ok _ last

theorem told_askLoaders (oracle : Oracle σ ω) (ls : List (Loader σ)) (state : Engine σ × ω) :
    Told (ls.map .ofLoader) (askLoaders oracle ls) (askLoaders oracle.noted ls) state := by
  induction ls generalizing state with
  | nil => exact .ok [] state
  | cons l ls ih =>
    rw [askLoaders_cons, askLoaders_cons]
    -- the registry that the calls before left decides whether the loader is asked about
    cases hskip : l.permanent || state.1.registry.isUnloading l.id with
    | true =>
      intro log
      obtain ⟨notes, heq, hcourse⟩ := ih state log
      simp only [hskip, if_true]
      exact ⟨notes, heq, .pass (congrArg (!·) hskip) hcourse⟩
    | false =>
      have hdue : (Turn.ofLoader l).due state.1.registry = true := congrArg (!·) hskip
      have hasked := (told_noting (.ofLoader l) (oracle.queryLoader l) state hdue).followedBy
        fun alive between _ => (ih between).followedBy fun dead last _ =>
          .ok (if alive then dead else l.id :: dead) last
      intro log
      simp only [hskip, if_false, Bool.false_eq_true]
      rw [List.map_cons, ← List.singleton_append, ← List.append_nil (ls.map _)]
      exact hasked log

def deliberate (oracle : Oracle σ ω) (snapshot : Snapshot σ) :
    EngineCall σ ω Interruption (List ClassId × List LoaderId) :=
  followedBy (oracle.beginCycle snapshot) fun _ state =>
    decide oracle snapshot (setPhase .deciding state)

def close (oracle : Oracle σ ω) (cycle scanned : Nat) (dead : List ClassId × List LoaderId) :
    EngineCall σ ω Interruption (CycleReport σ) := fun state =>
  let (report, engine) := evict (setPhase .evicting state).1 cycle scanned dead.1 dead.2
  match oracle.endCycle report (engine, state.2) with
  | (.error text, state) => (.error (.panicked text), state)
  | (.ok (), state) => (.ok report, state)

theorem run_eq (oracle : Oracle σ ω) (cycle : Nat) (state : Engine σ × ω) :
    run oracle cycle state =
      followedBy (deliberate oracle state.1.registry.snapshot)
        (close oracle cycle state.1.registry.snapshot.size) state := by
  simp only [run, deliberate, followedBy]
  rcases oracle.beginCycle state.1.registry.snapshot state with ⟨_ | _, begun⟩
  · rfl
  · dsimp only
    rcases decide oracle state.1.registry.snapshot (setPhase .deciding begun) with ⟨_ | _, last⟩
    · rfl
    · rfl

theorem decide_eq (oracle : Oracle σ ω) (snapshot : Snapshot σ) (state : Engine σ × ω) :
    decide oracle snapshot state =
      if state.1.classUnloading then
        followedBy (askClasses oracle snapshot snapshot.classes) (fun dead =>
          followedBy (askLoaders oracle snapshot.loaders) fun loaders state =>
            (.ok (condemned snapshot dead, loaders), state)) state
      else (.ok ([], []), state) := by
  simp only [decide, followedBy]
  rcases askClasses oracle snapshot snapshot.classes state with ⟨_ | dead, judged⟩
  · rfl
  · dsimp only
    rcases askLoaders oracle snapshot.loaders judged with ⟨_ | loaders, last⟩ <;> rfl

theorem told_decide (oracle : Oracle σ ω) (snapshot : Snapshot σ) (state : Engine σ × ω) :
    Told (if state.1.classUnloading then
        snapshot.classes.map (.ofClass snapshot) ++ snapshot.loaders.map .ofLoader
      else []) (decide oracle snapshot) (decide oracle.noted snapshot) state := by
  intro log
  rw [decide_eq, decide_eq]
  cases hon : state.1.classUnloading with
  | false => exact Told.ok ([], []) state log
  | true =>
    rw [← List.append_nil (snapshot.loaders.map _)]
    exact (told_askClasses oracle snapshot snapshot.classes state).followedBy
      (fun dead judged _ => (told_askLoaders oracle snapshot.loaders judged).followedBy
        fun loaders last _ => .ok (condemned snapshot dead, loaders) last) log

theorem told_deliberate (horacle : oracle.Confined) (snapshot : Snapshot σ)
    (state : Engine σ × ω) :
    Told (agenda snapshot state.1.classUnloading) (deliberate oracle snapshot)
      (deliberate oracle.noted snapshot) state := by
  refine (told_noting (.begin snapshot) (oracle.beginCycle snapshot) state rfl).followedBy ?_
  intro answer begun hbegun
  have hkept := (horacle state.1.coordinator.started state.1.classUnloading).beginCycle snapshot
    state ⟨rfl, rfl⟩
  rw [hbegun] at hkept
  rw [← hkept.2]
  exact told_decide oracle snapshot (setPhase .deciding begun)

theorem close_noted (oracle : Oracle σ ω) (cycle scanned : Nat)
    (dead : List ClassId × List LoaderId) (state : Engine σ × ω) (log : List (Note σ)) :
    ∃ note report, note.call = .done report ∧
      close oracle.noted cycle scanned dead (state.1, state.2, log) =
        ((close oracle cycle scanned dead state).1, (close oracle cycle scanned dead state).2.1,
          (close oracle cycle scanned dead state).2.2, log ++ [note]) := by
  simp only [close, setPhase]
  generalize evict _ cycle scanned dead.1 dead.2 = evicted
  obtain ⟨report, engine⟩ := evicted
  simp only [Oracle.noted, noting]
  cases hended : oracle.endCycle report (engine, state.2) with
  | mk answer final =>
    refine ⟨⟨.done report, engine, final.1, interruptionOf .panicked answer⟩, report, rfl, ?_⟩
    cases answer <;> simp [hended]

/-- A cycle follows its agenda. If a call is interrupted, so is the cycle, and the tables are what
that call left; otherwise the oracle is told the report. -/
theorem run_noted (horacle : oracle.Confined) (cycle : Nat) (state : Engine σ × ω)
    (log : List (Note σ)) :
    ∃ notes last,
      (∃ i, Course (agenda state.1.registry.snapshot state.1.classUnloading) state.1.tables notes
          (some i) last ∧
        run oracle.noted cycle (state.1, state.2, log) =
          (.error i, (run oracle cycle state).2.1, (run oracle cycle state).2.2, log ++ notes) ∧
        (run oracle cycle state).1 = .error i ∧ (run oracle cycle state).2.1.tables = last) ∨
      (∃ note report, Course (agenda state.1.registry.snapshot state.1.classUnloading)
          state.1.tables notes none last ∧ note.call = .done report ∧
        run oracle.noted cycle (state.1, state.2, log) =
          ((run oracle cycle state).1, (run oracle cycle state).2.1, (run oracle cycle state).2.2,
            log ++ (notes ++ [note]))) := by
  obtain ⟨notes, heq, hcourse⟩ := told_deliberate horacle state.1.registry.snapshot state log
  rw [run_eq, run_eq]
  simp only [followedBy, heq]
  generalize deliberate oracle state.1.registry.snapshot state = outcome at hcourse ⊢
  obtain ⟨i | dead, last⟩ := outcome
  · exact ⟨notes, last.1.tables, Or.inl ⟨i, hcourse, rfl, rfl, rfl⟩⟩
  · obtain ⟨note, report, hcall, hclose⟩ := close_noted oracle cycle
      state.1.registry.snapshot.size dead last (log ++ notes)
    refine ⟨notes, last.1.tables, Or.inr ⟨note, report, hcourse, hcall, ?_⟩⟩
    rw [← List.append_assoc]
    exact hclose

def Moves {α ε : Type} (R : Engine σ × ω → Engine σ × ω → Prop) (operation : EngineCall σ ω ε α) :
    Prop :=
  ∀ state, R state (operation state).2

/-- What holds between the states of a cycle, if it holds across the calls of the oracle. -/
structure Spans (R : Engine σ × ω → Engine σ × ω → Prop) : Prop where
  refl : ∀ state, R state state
  trans : ∀ {first second third}, R first second → R second third → R first third
  phase : ∀ phase state, R state (setPhase phase state)

section

variable {R : Engine σ × ω → Engine σ × ω → Prop}

theorem Moves.followedBy (hR : Spans R) {α β : Type} {first : EngineCall σ ω Interruption α}
    {next : α → EngineCall σ ω Interruption β} (hfirst : Moves R first)
    (hnext : ∀ answer, Moves R (next answer)) : Moves R (Cycle.followedBy first next) := by
  intro state
  have hbetween := hfirst state
  unfold Cycle.followedBy
  generalize first state = outcome at hbetween ⊢
  obtain ⟨i | answer, between⟩ := outcome
  · exact hbetween
  · exact hR.trans hbetween (hnext answer between)

theorem moves_askClasses (hR : Spans R) (h : ∀ c loader, Moves R (oracle.query c loader))
    (snapshot : Snapshot σ) (cs : List ClassDescriptor) :
    Moves R (askClasses oracle snapshot cs) := by
  induction cs with
  | nil => exact fun state => hR.refl state
  | cons c cs ih =>
    rw [askClasses_cons]
    exact (h c _).followedBy hR fun _ => ih.followedBy hR fun _ state => hR.refl state

theorem moves_askLoaders (hR : Spans R) (h : ∀ l, Moves R (oracle.queryLoader l))
    (ls : List (Loader σ)) : Moves R (askLoaders oracle ls) := by
  induction ls with
  | nil => exact fun state => hR.refl state
  | cons l ls ih =>
    rw [askLoaders_cons]
    intro state
    dsimp only
    split
    · exact ih state
    · exact (h l).followedBy hR (fun _ => ih.followedBy hR fun _ state => hR.refl state) state

theorem moves_deliberate (hR : Spans R) (hbegin : ∀ snapshot, Moves R (oracle.beginCycle snapshot))
    (hquery : ∀ c loader, Moves R (oracle.query c loader))
    (hloader : ∀ l, Moves R (oracle.queryLoader l)) (snapshot : Snapshot σ) :
    Moves R (deliberate oracle snapshot) := by
  refine (hbegin snapshot).followedBy hR fun _ begun => hR.trans (hR.phase .deciding begun) ?_
  rw [decide_eq]
  split
  · exact (moves_askClasses hR hquery _ _).followedBy hR
      (fun _ => (moves_askLoaders hR hloader _).followedBy hR fun _ state => hR.refl state) _
  · exact hR.refl _

end

theorem keeps_run {P : Engine σ → Prop} (h : oracle.Preserves P)
    (hphase : ∀ (phase : Phase) (state : Engine σ × ω), P state.1 → P (setPhase phase state).1)
    (hevict : ∀ engine cycle scanned classes loaders, P engine →
      P (evict engine cycle scanned classes loaders).2) (cycle : Nat) :
    Keeps P (run oracle cycle) := by
  intro state hP
  have hspans : Spans fun before after : Engine σ × ω => P before.1 → P after.1 :=
    ⟨fun _ => id, fun hfirst hsecond hP => hsecond (hfirst hP), hphase⟩
  have hdeliberated := moves_deliberate hspans h.beginCycle h.query h.queryLoader
    state.1.registry.snapshot state hP
  rw [run_eq]
  unfold followedBy
  generalize deliberate oracle state.1.registry.snapshot state = outcome at hdeliberated ⊢
  obtain ⟨i | dead, last⟩ := outcome
  · exact hdeliberated
  · have hevicted := hevict _ cycle state.1.registry.snapshot.size dead.1 dead.2
      (hphase .evicting last hdeliberated)
    simp only [close]
    generalize evict _ cycle _ dead.1 dead.2 = evicted at hevicted ⊢
    have hended := h.endCycle evicted.1 (evicted.2, last.2) hevicted
    generalize oracle.endCycle evicted.1 (evicted.2, last.2) = ended at hended ⊢
    obtain ⟨_ | _, final⟩ := ended
    · exact hended
    · exact hended

/-- In a state that is in order, an operation succeeds with a right answer and leaves the state in
order. -/
def Answers {α : Type} (P : Engine σ × ω → Prop) (right : α → Prop)
    (operation : EngineCall σ ω Interruption α) : Prop :=
  ∀ state, P state → ∃ answer next, operation state = (.ok answer, next) ∧ P next ∧ right answer

section Answers

variable {P : Engine σ × ω → Prop}

theorem Answers.ok {α : Type} {right : α → Prop} {answer : α} (h : right answer) :
    Answers P right fun state => (.ok answer, state) :=
  fun state hstate => ⟨answer, state, rfl, hstate, h⟩

theorem Answers.followedBy {α β : Type} {right : α → Prop} {right' : β → Prop}
    {first : EngineCall σ ω Interruption α} {next : α → EngineCall σ ω Interruption β}
    (hfirst : Answers P right first)
    (hnext : ∀ answer, right answer → Answers P right' (next answer)) :
    Answers P right' (Cycle.followedBy first next) := by
  intro state hstate
  obtain ⟨answer, between, heq, hbetween, hright⟩ := hfirst state hstate
  rw [followedBy_of_ok heq]
  exact hnext answer hright between hbetween

theorem answers_askClasses {snapshot : Snapshot σ} {live : ClassDescriptor → Prop}
    {cs : List ClassDescriptor}
    (h : ∀ c ∈ cs, Answers P (fun liveness : Liveness => liveness.isLive = true ↔ live c)
      (oracle.query c (snapshot.loader? c.loader))) :
    Answers P (fun dead => ∀ id, id ∈ dead ↔ ∃ c ∈ cs, c.id = id ∧ ¬ live c)
      (askClasses oracle snapshot cs) := by
  induction cs with
  | nil => exact .ok fun id => by simp
  | cons c cs ih =>
    rw [askClasses_cons]
    refine (h c List.mem_cons_self).followedBy fun liveness hliveness => ?_
    refine (ih fun d hd => h d (List.mem_cons_of_mem c hd)).followedBy fun dead hdead => .ok ?_
    intro id
    cases hlive : liveness.isLive with
    | true =>
      have hc : live c := hliveness.mp hlive
      simp [hdead, hc]
    | false =>
      have hc : ¬ live c := fun hc => by simp [hliveness.mpr hc] at hlive
      simp [hdead, hc, eq_comm]

theorem answers_askLoaders {alive : Loader σ → Prop} {ls : List (Loader σ)}
    (hskip : ∀ l ∈ ls, ∀ state, P state →
      (l.permanent || state.1.registry.isUnloading l.id) = true → alive l)
    (h : ∀ l ∈ ls, Answers P (fun answer => answer = true ↔ alive l) (oracle.queryLoader l)) :
    Answers P (fun dead => ∀ id, id ∈ dead ↔ ∃ l ∈ ls, l.id = id ∧ ¬ alive l)
      (askLoaders oracle ls) := by
  induction ls with
  | nil => exact .ok fun id => by simp
  | cons l ls ih =>
    have hrest := ih (fun k hk => hskip k (List.mem_cons_of_mem l hk))
      (fun k hk => h k (List.mem_cons_of_mem l hk))
    rw [askLoaders_cons]
    intro state hstate
    dsimp only
    split
    · rename_i hskipped
      have hl := hskip l List.mem_cons_self state hstate hskipped
      obtain ⟨dead, last, heq, hlast, hdead⟩ := hrest state hstate
      exact ⟨dead, last, heq, hlast, fun id => by simp [hdead, hl]⟩
    · refine (h l List.mem_cons_self).followedBy (fun answer hanswer => ?_) state hstate
      refine hrest.followedBy fun dead hdead => .ok ?_
      intro id
      cases answer with
      | true =>
        have hl : alive l := hanswer.mp rfl
        simp [hdead, hl]
      | false =>
        have hl : ¬ alive l := fun hl => by simpa using hanswer.mpr hl
        simp [hdead, hl, eq_comm]

end Answers

/-- What the trigger that ran a cycle returns and what it leaves to those that joined. -/
def ending (cycle : Nat) : Except Interruption (CycleReport σ) → Triggered σ × Outcome σ
  | .ok report => (.finished (.ok report), .ok report)
  | .error (.failed e) => (.finished (.error (.oracle cycle e)), .error (.oracle cycle e))
  | .error (.panicked text) => (.panicked cycle text, .error (.panicked cycle))

end Cycle

def Engine.entered (engine : Engine σ) : Engine σ :=
  { engine with
    coordinator :=
      { engine.coordinator with
        phase := .scanning, started := engine.coordinator.started + 1 } }

open Metaspace.Cycle in
theorem trigger_of_idle (oracle : Oracle σ ω) {engine : Engine σ}
    (hidle : engine.coordinator.phase = .idle) (outside : ω) :
    trigger oracle (engine, outside) =
      let cycle := engine.coordinator.started + 1
      let result := run oracle cycle (engine.entered, outside)
      ((ending cycle result.1).1, conclude cycle (ending cycle result.1).2 result.2) := by
  simp only [trigger, Coordinator.enter, hidle, if_true, Engine.entered]
  generalize run oracle _ _ = result
  obtain ⟨(_ | _) | _, final⟩ := result <;> rfl

section

open Metaspace.Cycle

variable {oracle : Oracle σ ω} {engine : Engine σ} {outside : ω} {last : Engine σ × ω}

theorem trigger_of_interrupted {i : Interruption} (hidle : engine.coordinator.phase = .idle)
    (h : deliberate oracle engine.registry.snapshot (engine.entered, outside) = (.error i, last)) :
    trigger oracle (engine, outside) =
      ((ending (engine.coordinator.started + 1) (.error i)).1,
        conclude (engine.coordinator.started + 1)
          (ending (engine.coordinator.started + 1) (.error i)).2 last) := by
  have hrun := (run_eq oracle (engine.coordinator.started + 1) (engine.entered, outside)).trans
    (followedBy_of_error h)
  simp only [trigger_of_idle oracle hidle, hrun]

theorem trigger_of_deliberate {dead : List ClassId × List LoaderId}
    (hidle : engine.coordinator.phase = .idle)
    (h : deliberate oracle engine.registry.snapshot (engine.entered, outside) = (.ok dead, last))
    {answer : Except Interruption (CycleReport σ)} {closed : Engine σ × ω}
    (hclose : close oracle (engine.coordinator.started + 1) engine.registry.snapshot.size dead
      last = (answer, closed)) :
    trigger oracle (engine, outside) =
      ((ending (engine.coordinator.started + 1) answer).1,
        conclude (engine.coordinator.started + 1)
          (ending (engine.coordinator.started + 1) answer).2 closed) := by
  have hrun := (run_eq oracle (engine.coordinator.started + 1) (engine.entered, outside)).trans
    ((followedBy_of_ok h).trans hclose)
  simp only [trigger_of_idle oracle hidle, hrun]

end

/-- The conduct of every cycle, in whatever state a run of the registry left it and whatever its
oracle does. Notes taken of the calls follow the agenda that the snapshot sets, in ascending order
of ids. If one of these calls is interrupted it is the last one, the trigger fails, and the class
table, the loaders, the generation and the events are what that call left. Otherwise the oracle is
told the report, and told nothing after it. In the end the coordinator is idle and starts the next
cycle. -/
theorem Oracle.Confined.trigger_conduct {oracle : Oracle σ ω} (horacle : oracle.Confined)
    {bootSources : List σ} {engine : Engine σ}
    (hregistry : Registry.Undergoes (.new bootSources) engine.registry)
    (hidle : engine.coordinator.phase = .idle) (outside : ω) :
    ∃ answer final rest notes last,
      trigger oracle (engine, outside) = (answer, final, rest) ∧
      ((∃ i, Course (agenda engine.registry.snapshot engine.classUnloading) engine.tables notes
            (some i) last ∧
          trigger oracle.noted (engine, outside, []) = (answer, final, rest, notes) ∧
          answer = (Cycle.ending (engine.coordinator.started + 1) (.error i)).1 ∧
          final.tables = last ∧
          ((∀ note ∈ notes, note.after.tables = note.before.tables) →
            final.tables = engine.tables)) ∨
        (∃ note report, Course (agenda engine.registry.snapshot engine.classUnloading)
            engine.tables notes none last ∧
          trigger oracle.noted (engine, outside, []) = (answer, final, rest, notes ++ [note]) ∧
          note.call = .done report)) ∧
      final.coordinator.phase = .idle ∧
      final.coordinator.completed = engine.coordinator.started + 1 ∧
      final.coordinator.enter.1 = .starts (engine.coordinator.started + 2) ∧
      engine.registry.snapshot.classes.Pairwise (fun a b => a.id < b.id) ∧
      engine.registry.snapshot.loaders.Pairwise (fun a b => a.id < b.id) := by
  have hviewed := (hregistry.viewed (Registry.new_viewed bootSources)).1
  -- no call starts another cycle, so that the next one takes the next number
  have hstarted := (Cycle.keeps_run (horacle (engine.coordinator.started + 1)
    engine.classUnloading) (fun _ _ hP => hP) (fun _ _ _ _ _ hP => hP)
    (engine.coordinator.started + 1) (engine.entered, outside) ⟨rfl, rfl⟩).1
  obtain ⟨notes, last, hcases⟩ := Cycle.run_noted horacle (engine.coordinator.started + 1)
    (engine.entered, outside) []
  simp only [trigger_of_idle oracle hidle, trigger_of_idle oracle.noted hidle]
  generalize Cycle.run oracle (engine.coordinator.started + 1) (engine.entered, outside) = result
    at hstarted hcases ⊢
  obtain ⟨answer, final⟩ := result
  refine ⟨_, _, _, notes, last, rfl, ?_, rfl, rfl, ?_, hviewed.ascending, hviewed.roster.ordered⟩
  · rcases hcases with ⟨i, hcourse, hnoted, hanswer, hlast⟩ | ⟨note, report, hcourse, hcall, hnoted⟩
    · left
      obtain rfl : answer = .error i := hanswer
      refine ⟨i, hcourse, ?_, rfl, hlast, fun hstill => hlast.trans (hcourse.tables_eq hstill)⟩
      simp only [hnoted]
      rfl
    · right
      refine ⟨note, report, hcourse, ?_, hcall⟩
      simp only [hnoted]
      rfl
  · simp only [Coordinator.finish, Coordinator.enter, if_true]
    rw [hstarted]

/-- An oracle that finds every class dead until it is asked about an array. -/
def startled : Oracle Unit Unit where
  beginCycle _ state := (.ok (), state)
  query c _ state :=
    if c.isArray then (.error (.panicked "array"), state) else (.ok ⟨false, false, false⟩, state)

theorem startled_confined : startled.Confined := fun _ _ =>
  { beginCycle := fun _ _ hP => hP
    query := by
      intro c _ state hP
      simp only [startled]
      split <;> exact hP
    queryLoader := fun _ _ hP => hP
    endCycle := fun _ _ hP => hP }

theorem startled_evicts_nothing :
    (trigger startled (⟨Registry.reloaded, .new, .empty, true⟩, ())).2.1.registry.registered.map
      (·.name) = ["A", "[LA;"] ∧
    (trigger startled (⟨Registry.reloaded, .new, .empty, true⟩, ())).2.1.coordinator.enter.1 =
      .starts 2 := by
  refine ⟨by decide +kernel, ?_⟩
  let engine : Engine Unit := ⟨Registry.reloaded, .new, .empty, true⟩
  have hregistry : Registry.Undergoes (.new [()]) engine.registry := Registry.develops_reloaded _
  obtain ⟨answer, final, rest, notes, last, heq, -, -, -, hnext, -⟩ :=
    Oracle.Confined.trigger_conduct startled_confined hregistry rfl ()
  rw [heq]
  exact hnext

end Metaspace
