import Metaspace.Proofs.Registry.Stocked
import Metaspace.Proofs.Unload.Eviction

set_option autoImplicit false

namespace Metaspace

variable {σ ω : Type}

structure Oracle.Returns {α ε : Type} (call : EngineCall σ ω ε α) (state : Engine σ × ω)
    (answer : α) (next : Engine σ × ω) : Prop where
  eq : call state = (.ok answer, next)
  undergoes : state.1.registry.Undergoes next.1.registry
  classUnloading : next.1.classUnloading = state.1.classUnloading

namespace Cycle

open Oracle (Returns)

variable {oracle : Oracle σ ω}

/-- What an oracle answers about classes, each asked about in the state the call before it left. -/
inductive ClassAnswers (oracle : Oracle σ ω) (snapshot : Snapshot σ) :
    List ClassDescriptor → Engine σ × ω → List (ClassDescriptor × Liveness) → Engine σ × ω →
    Prop where
  | nil (state : Engine σ × ω) : ClassAnswers oracle snapshot [] state [] state
  | cons {c : ClassDescriptor} {cs : List ClassDescriptor} {state next last : Engine σ × ω}
      {liveness : Liveness} {answers : List (ClassDescriptor × Liveness)} :
      Returns (oracle.query c (snapshot.loader? c.loader)) state liveness next →
      ClassAnswers oracle snapshot cs next answers last →
      ClassAnswers oracle snapshot (c :: cs) state ((c, liveness) :: answers) last

/-- What an oracle answers about loaders. It is not asked about one that could not be dropped. -/
inductive LoaderAnswers (oracle : Oracle σ ω) :
    List (Loader σ) → Engine σ × ω → List (Loader σ × Bool) → Engine σ × ω → Prop where
  | nil (state : Engine σ × ω) : LoaderAnswers oracle [] state [] state
  | skip {l : Loader σ} {ls : List (Loader σ)} {state last : Engine σ × ω}
      {answers : List (Loader σ × Bool)} :
      (l.permanent || state.1.registry.isUnloading l.id) = true →
      LoaderAnswers oracle ls state answers last →
      LoaderAnswers oracle (l :: ls) state answers last
  | cons {l : Loader σ} {ls : List (Loader σ)} {state next last : Engine σ × ω} {alive : Bool}
      {answers : List (Loader σ × Bool)} :
      (l.permanent || state.1.registry.isUnloading l.id) = false →
      Returns (oracle.queryLoader l) state alive next →
      LoaderAnswers oracle ls next answers last →
      LoaderAnswers oracle (l :: ls) state ((l, alive) :: answers) last

/-- The calls of a cycle up to its eviction. All of them succeed. -/
structure Hearing (oracle : Oracle σ ω) (start : Engine σ × ω) where
  begun : Engine σ × ω
  classAnswers : List (ClassDescriptor × Liveness)
  judged : Engine σ × ω
  loaderAnswers : List (Loader σ × Bool)
  last : Engine σ × ω
  begins : Returns (oracle.beginCycle start.1.registry.snapshot) start () begun
  classes : ClassAnswers oracle start.1.registry.snapshot start.1.registry.snapshot.classes
    (setPhase .deciding begun) classAnswers judged
  loaders : LoaderAnswers oracle start.1.registry.snapshot.loaders judged loaderAnswers last

namespace Hearing

variable {start : Engine σ × ω}

def registry (hearing : Hearing oracle start) : Registry σ := hearing.last.1.registry

def Dead (hearing : Hearing oracle start) (id : ClassId) : Prop :=
  ∃ c ∈ start.1.registry.snapshot.classes, c.id = id ∧
    ∃ liveness, (c, liveness) ∈ hearing.classAnswers ∧ liveness.isLive = false

end Hearing

def deadClasses (answers : List (ClassDescriptor × Liveness)) : List ClassId :=
  (answers.filter (!·.2.isLive)).map (·.1.id)

theorem mem_deadClasses_map {verdict : ClassDescriptor → Liveness} {cs : List ClassDescriptor}
    {id : ClassId} :
    id ∈ deadClasses (cs.map fun c => (c, verdict c)) ↔
      ∃ c ∈ cs, c.id = id ∧ (verdict c).isLive = false := by
  simp only [deadClasses, List.filter_map, List.map_map, List.mem_map, List.mem_filter,
    Function.comp_apply, Bool.not_eq_true']
  exact exists_congr fun c => by rw [and_assoc, and_comm (a := _ = false)]

theorem ClassAnswers.askClasses_eq {snapshot : Snapshot σ} {cs : List ClassDescriptor}
    {state last : Engine σ × ω} {answers : List (ClassDescriptor × Liveness)}
    (h : ClassAnswers oracle snapshot cs state answers last) :
    askClasses oracle snapshot cs state = (.ok (deadClasses answers), last) := by
  induction h with
  | nil => rfl
  | @cons c _ _ _ _ liveness answers hcall _ ih =>
    simp only [askClasses, hcall.eq, ih]
    cases hlive : liveness.isLive <;> simp [deadClasses, hlive]

theorem ClassAnswers.mem_asked {snapshot : Snapshot σ} {cs : List ClassDescriptor}
    {state last : Engine σ × ω} {answers : List (ClassDescriptor × Liveness)}
    (h : ClassAnswers oracle snapshot cs state answers last) {c : ClassDescriptor}
    {liveness : Liveness} (hanswer : (c, liveness) ∈ answers) : c ∈ cs := by
  induction h with
  | nil => contradiction
  | cons _ _ ih =>
    rcases List.mem_cons.mp hanswer with heq | htail
    · rw [(Prod.mk.inj heq).1]
      exact List.mem_cons_self
    · exact List.mem_cons_of_mem _ (ih htail)

theorem ClassAnswers.keeps {snapshot : Snapshot σ} {cs : List ClassDescriptor}
    {state last : Engine σ × ω} {answers : List (ClassDescriptor × Liveness)}
    (h : ClassAnswers oracle snapshot cs state answers last) (hstate : state.1.registry.Layered) :
    last.1.registry.Layered ∧ Registry.Outgrows state.1.registry last.1.registry := by
  induction h with
  | nil => exact ⟨hstate, .refl _⟩
  | cons hcall _ ih =>
    obtain ⟨hnext, hgrows⟩ := hcall.undergoes.layered hstate
    obtain ⟨hlast, hgrows'⟩ := ih hnext
    exact ⟨hlast, hgrows.trans hgrows'⟩

def deadLoaders (answers : List (Loader σ × Bool)) : List LoaderId :=
  (answers.filter (!·.2)).map (·.1.id)

theorem mem_deadLoaders_map {verdict : Loader σ → Bool} {ls : List (Loader σ)} {id : LoaderId} :
    id ∈ deadLoaders (ls.map fun l => (l, verdict l)) ↔
      ∃ l ∈ ls, l.id = id ∧ verdict l = false := by
  simp only [deadLoaders, List.filter_map, List.map_map, List.mem_map, List.mem_filter,
    Function.comp_apply, Bool.not_eq_true']
  exact exists_congr fun l => by rw [and_assoc, and_comm (a := _ = false)]

theorem LoaderAnswers.askLoaders_eq {ls : List (Loader σ)} {state last : Engine σ × ω}
    {answers : List (Loader σ × Bool)} (h : LoaderAnswers oracle ls state answers last) :
    askLoaders oracle ls state = (.ok (deadLoaders answers), last) := by
  induction h with
  | nil => rfl
  | skip hskip _ ih => simp only [askLoaders, hskip, if_true, ih]
  | @cons l _ _ _ _ alive answers hask hcall _ ih =>
    simp only [askLoaders, hask, if_false, Bool.false_eq_true, hcall.eq, ih]
    cases alive <;> simp [deadLoaders]

theorem LoaderAnswers.sublist_asked {ls : List (Loader σ)} {state last : Engine σ × ω}
    {answers : List (Loader σ × Bool)} (h : LoaderAnswers oracle ls state answers last) :
    (answers.map (·.1)).Sublist (ls.filter (!·.permanent)) := by
  induction h with
  | nil => exact .slnil
  | @skip l _ _ _ _ _ _ ih =>
    rw [List.filter_cons]
    split
    · exact ih.cons _
    · exact ih
  | cons hask _ _ ih =>
    obtain ⟨hperm, -⟩ := Bool.or_eq_false_iff.mp hask
    rw [List.filter_cons_of_pos (by simp [hperm])]
    exact ih.cons_cons _

theorem LoaderAnswers.keeps {ls : List (Loader σ)} {state last : Engine σ × ω}
    {answers : List (Loader σ × Bool)} (h : LoaderAnswers oracle ls state answers last)
    (hstate : state.1.registry.Layered) :
    last.1.registry.Layered ∧ Registry.Outgrows state.1.registry last.1.registry := by
  induction h with
  | nil => exact ⟨hstate, .refl _⟩
  | skip _ _ ih => exact ih hstate
  | cons _ hcall _ ih =>
    obtain ⟨hnext, hgrows⟩ := hcall.undergoes.layered hstate
    obtain ⟨hlast, hgrows'⟩ := ih hnext
    exact ⟨hlast, hgrows.trans hgrows'⟩

theorem decide_of_answers {snapshot : Snapshot σ} {state judged last : Engine σ × ω}
    {classAnswers : List (ClassDescriptor × Liveness)} {loaderAnswers : List (Loader σ × Bool)}
    (hon : state.1.classUnloading = true)
    (hclasses : ClassAnswers oracle snapshot snapshot.classes state classAnswers judged)
    (hloaders : LoaderAnswers oracle snapshot.loaders judged loaderAnswers last) :
    decide oracle snapshot state =
      (.ok (condemned snapshot (deadClasses classAnswers), deadLoaders loaderAnswers), last) := by
  simp only [decide, hon, if_true, hclasses.askClasses_eq, hloaders.askLoaders_eq]

theorem ClassAnswers.of_still {snapshot : Snapshot σ} {state : Engine σ × ω}
    {verdict : ClassDescriptor → Liveness}
    (h : ∀ c, oracle.query c (snapshot.loader? c.loader) state = (.ok (verdict c), state))
    (cs : List ClassDescriptor) :
    ClassAnswers oracle snapshot cs state (cs.map fun c => (c, verdict c)) state := by
  induction cs with
  | nil => exact .nil state
  | cons c cs ih => exact .cons ⟨h c, .refl _, rfl⟩ ih

theorem LoaderAnswers.of_still {state : Engine σ × ω} {verdict : Loader σ → Bool}
    (h : ∀ l, oracle.queryLoader l state = (.ok (verdict l), state)) (ls : List (Loader σ)) :
    LoaderAnswers oracle ls state
      ((ls.filter fun l => !(l.permanent || state.1.registry.isUnloading l.id)).map
        fun l => (l, verdict l)) state := by
  induction ls with
  | nil => exact .nil state
  | cons l ls ih =>
    cases hskip : l.permanent || state.1.registry.isUnloading l.id with
    | true =>
      rw [List.filter_cons_of_neg (by simp [hskip])]
      exact .skip hskip ih
    | false =>
      rw [List.filter_cons_of_pos (by simp [hskip])]
      exact .cons hskip ⟨h l, .refl _, rfl⟩ ih

/-- An oracle whose answers depend on nothing but the class or loader. -/
def steady (live : ClassDescriptor → Bool) (alive : Loader σ → Bool) : Oracle σ ω where
  beginCycle _ state := (.ok (), state)
  query c _ state := (.ok ⟨false, false, live c⟩, state)
  queryLoader l state := (.ok (alive l), state)

def Hearing.steady (live : ClassDescriptor → Bool) (alive : Loader σ → Bool)
    (start : Engine σ × ω) : Hearing (steady live alive) start where
  begun := start
  classAnswers := start.1.registry.snapshot.classes.map fun c => (c, ⟨false, false, live c⟩)
  judged := setPhase .deciding start
  loaderAnswers := (start.1.registry.snapshot.loaders.filter fun l =>
    !(l.permanent || start.1.registry.isUnloading l.id)).map fun l => (l, alive l)
  last := setPhase .deciding start
  begins := ⟨rfl, .refl _, rfl⟩
  classes := .of_still (fun _ => rfl) _
  loaders := .of_still (fun _ => rfl) _

namespace Hearing

variable {start : Engine σ × ω}

theorem keeps (hearing : Hearing oracle start) (hstart : start.1.registry.Layered) :
    hearing.registry.Layered ∧ Registry.Outgrows start.1.registry hearing.registry := by
  obtain ⟨hbegun, hgrows⟩ := hearing.begins.undergoes.layered hstart
  obtain ⟨hjudged, hgrows'⟩ := hearing.classes.keeps hbegun
  obtain ⟨hlast, hgrows''⟩ := hearing.loaders.keeps hjudged
  exact ⟨hlast, (hgrows.trans hgrows').trans hgrows''⟩

theorem decide_eq (hearing : Hearing oracle start) (hon : start.1.classUnloading = true) :
    decide oracle start.1.registry.snapshot (setPhase .deciding hearing.begun) =
      (.ok (condemned start.1.registry.snapshot (deadClasses hearing.classAnswers),
        deadLoaders hearing.loaderAnswers), hearing.last) := by
  refine decide_of_answers ?_ hearing.classes hearing.loaders
  rw [setPhase_classUnloading, hearing.begins.classUnloading, hon]

theorem mem_deadClasses (hearing : Hearing oracle start) (id : ClassId) :
    id ∈ deadClasses hearing.classAnswers ↔ hearing.Dead id := by
  unfold deadClasses Dead
  rw [List.mem_map]
  constructor
  · rintro ⟨⟨c, liveness⟩, hanswer, rfl⟩
    obtain ⟨hmem, hdead⟩ := List.mem_filter.mp hanswer
    exact ⟨c, hearing.classes.mem_asked hmem, rfl, liveness, hmem, by simpa using hdead⟩
  · rintro ⟨c, _, rfl, liveness, hmem, hdead⟩
    exact ⟨(c, liveness), List.mem_filter.mpr ⟨hmem, by simpa using hdead⟩, rfl⟩

theorem mem_deadLoaders (hearing : Hearing oracle start) (hstart : start.1.registry.Layered)
    {l : Loader σ} (hl : l ∈ hearing.registry.graph) :
    l.id ∈ deadLoaders hearing.loaderAnswers ↔ (l, false) ∈ hearing.loaderAnswers := by
  unfold deadLoaders
  rw [List.mem_map]
  constructor
  · rintro ⟨⟨asked, alive⟩, hanswer, hid⟩
    obtain ⟨hmem, hdead⟩ := List.mem_filter.mp hanswer
    obtain rfl : alive = false := by simpa using hdead
    have hasked : asked ∈ start.1.registry.graph :=
      (List.mem_filter.mp (hearing.loaders.sublist_asked.subset
        (List.mem_map_of_mem (f := Prod.fst) hmem))).1
    have hbefore : l ∈ start.1.registry.graph := by
      refine (hearing.keeps hstart).2.loaders l hl ?_
      rw [← hid]
      exact hstart.roster.numbered asked hasked
    have hsame := hstart.loader?_eq_some.mpr ⟨hasked, hid⟩
    rw [hstart.loader?_eq_some.mpr ⟨hbefore, rfl⟩, Option.some.injEq] at hsame
    rw [hsame]
    exact hmem
  · intro hmem
    exact ⟨(l, false), List.mem_filter.mpr ⟨hmem, rfl⟩, rfl⟩

theorem deadLoaders_ascending (hearing : Hearing oracle start)
    (hstart : start.1.registry.Layered) :
    (deadLoaders hearing.loaderAnswers).Pairwise (· < ·) := by
  have hasked : (hearing.loaderAnswers.map (·.1)).Sublist start.1.registry.graph :=
    hearing.loaders.sublist_asked.trans List.filter_sublist
  have hall := hstart.roster.ordered.sublist hasked
  unfold deadLoaders
  rw [List.pairwise_map] at hall ⊢
  exact hall.sublist List.filter_sublist

end Hearing

/-- A cycle whose calls succeed evicts the least set of the classes registered at its eviction that
holds what was answered not live and every array class over a member. Of the loaders it drops those
that were answered dead, are still there and define no class any more. -/
theorem run_evicts_least_closure {start : Engine σ × ω}
    (hregistry : start.1.registry.Reachable) (hon : start.1.classUnloading = true)
    (hearing : Hearing oracle start) (cycle : Nat) :
    ∃ (report : CycleReport σ) (engine : Engine σ),
      (∀ final, oracle.endCycle report (engine, hearing.last.2) = (.ok (), final) →
        run oracle cycle start = (.ok report, final)) ∧
      (∀ c, c ∈ report.unloaded ↔
        hearing.registry.get? c.id = some c ∧ hearing.registry.Falls hearing.Dead c.id) ∧
      report.unloaded.Nodup ∧
      (∀ id c, engine.registry.get? id = some c ↔
        hearing.registry.get? id = some c ∧ ¬ hearing.registry.Falls hearing.Dead id) ∧
      (∀ l, l ∈ report.unloadedLoaders ↔
        l ∈ start.1.registry.snapshot.loaders ∧ l.permanent = false ∧
          (l, false) ∈ hearing.loaderAnswers ∧ l ∈ hearing.registry.graph ∧
          ∀ c ∈ engine.registry.registered, c.loader ≠ l.id) ∧
      (∀ l, l ∈ engine.registry.graph ↔
        l ∈ hearing.registry.graph ∧ l ∉ report.unloadedLoaders) ∧
      report.unloadedLoaders.Pairwise (fun a b => a.id < b.id) := by
  have hstart := hregistry.layered
  obtain ⟨hlast, hgrows⟩ := hearing.keeps hstart
  have hfalls : ∀ id, hearing.registry.Falls
      (· ∈ condemned start.1.registry.snapshot (deadClasses hearing.classAnswers)) id ↔
        hearing.registry.Falls hearing.Dead id := by
    intro id
    rw [falls_condemned_iff hstart hlast hgrows, funext fun id =>
      propext (hearing.mem_deadClasses id)]
  obtain ⟨hevicted, hsub⟩ := evict_spec (setPhase .evicting hearing.last).1 hlast.toIndexed cycle
    start.1.registry.snapshot.size
    (condemned start.1.registry.snapshot (deadClasses hearing.classAnswers))
    (deadLoaders hearing.loaderAnswers)
  refine ⟨_, _, ?_, ?_, hevicted.nodup, ?_, ?_, hevicted.graph, ?_⟩
  · intro final hend
    unfold run
    simp only [hearing.begins.eq, hearing.decide_eq hon, setPhase_outside, hend]
  · intro c
    rw [hevicted.unloaded]
    exact and_congr_right fun _ => hfalls c.id
  · intro id c
    rw [hevicted.get?_eq_some]
    exact and_congr_right fun _ => not_congr (hfalls id)
  · intro l
    rw [hevicted.unloadedLoaders]
    constructor
    · rintro ⟨hl, hdead, hperm, hclasses⟩
      have hanswer := (hearing.mem_deadLoaders hstart hl).mp hdead
      have hasked := hearing.loaders.sublist_asked.subset
        (List.mem_map_of_mem (f := Prod.fst) hanswer)
      exact ⟨(List.mem_filter.mp hasked).1, hperm, hanswer, hl, hclasses⟩
    · rintro ⟨-, hperm, hanswer, hl, hclasses⟩
      exact ⟨hl, (hearing.mem_deadLoaders hstart hl).mpr hanswer, hperm, hclasses⟩
  · have hascending := (hearing.deadLoaders_ascending hstart).sublist hsub
    rw [List.pairwise_map] at hascending
    exact hascending

/-- The array class goes with its component, though it was answered live itself. -/
theorem run_evicts_live_array :
    Registry.classAndArray.registered.map (·.name) = ["A", "[LA;"] ∧
    ∃ (report : CycleReport Unit) (final : Engine Unit × Unit),
      run (steady (·.isArray) fun _ => true) 1 (⟨Registry.classAndArray, .new, .empty, true⟩, ()) =
        (.ok report, final) ∧
      ∀ c ∈ Registry.classAndArray.registered, c ∈ report.unloaded := by
  refine ⟨rfl, ?_⟩
  have hreachable : Registry.classAndArray.Reachable := ⟨[()], Registry.develops_classAndArray _⟩
  let hearing := Hearing.steady (·.isArray) (fun _ => true)
    ((⟨Registry.classAndArray, .new, .empty, true⟩, ()) : Engine Unit × Unit)
  obtain ⟨report, engine, hrun, hunloaded, -⟩ :=
    run_evicts_least_closure hreachable rfl hearing 1
  refine ⟨report, _, hrun _ rfl, ?_⟩
  have hindexed := hreachable.layered.toIndexed
  have hordinary : ∀ c ∈ Registry.classAndArray.registered, c.isArray = false →
      Registry.classAndArray.Falls hearing.Dead c.id := by
    intro c hc harray
    refine .given ⟨c, hc, rfl, _, List.mem_map_of_mem hc, by simp [Liveness.isLive, harray]⟩ ?_
    exact Option.isSome_iff_exists.mpr ⟨c, hindexed.mem_registered.mp hc⟩
  have hover : ∀ c ∈ Registry.classAndArray.registered, c.isArray = true →
      ∃ component ∈ Registry.classAndArray.registered, component.isArray = false ∧
        c.component? = some component.id := by
    decide +kernel
  intro c hc
  refine (hunloaded c).mpr ⟨hindexed.mem_registered.mp hc, ?_⟩
  cases harray : c.isArray with
  | false => exact hordinary c hc harray
  | true =>
    obtain ⟨component, hcomponent, hplain, hof⟩ := hover c hc harray
    exact .array (hindexed.mem_registered.mp hc) hof (hordinary component hcomponent hplain)

end Cycle
end Metaspace
