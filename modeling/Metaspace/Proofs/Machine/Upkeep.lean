import Metaspace.Proofs.Heap.Roots
import Metaspace.Proofs.Machine.Attempts
import Metaspace.Proofs.Machine.Survival

/-!
What every operation of a machine keeps. Between two operations the objects are linked, the roots
are those that callers hold, and what they hold is marked. An operation may run a collection on its
way, after which the mirrors that it holds still stand for the same classes. While a cycle is
running, there is no other collection and nothing goes away.
-/

set_option autoImplicit false

namespace Metaspace.Machine

open Reachability

variable {σ : Type}

/-- A machine on which no operation is under way, and the roots that are held. A cycle may be
running that has marked the heap. -/
structure Upheld (pending : Option LoaderId) (handles : List Root) (m : Machine σ) : Prop
    extends ObjectHeap.Intact pending m.registry m.objects where
  holds : m.objects.roots.Holds handles
  marked : ∀ root ∈ handles, m.objects.Marked root.ref
  rests : m.engine.coordinator.phase = .idle → m.objects.heap.AllMarked
  classUnloading : m.engine.classUnloading = m.config.classUnloading

structure Sound (pending : Option LoaderId) (handles : List Root) (m : Machine σ) : Prop
    extends Upheld pending handles m where
  idle : m.engine.coordinator.phase = .idle

theorem Upheld.live {pending : Option LoaderId} {handles : List Root} {m : Machine σ}
    (h : m.Upheld pending handles) (root : Root) (hroot : root ∈ handles) :
    ∃ object, m.objects.get? root.ref = some object :=
  (h.marked root hroot).live

theorem get?_new (config : Config) (bootSources : List σ) (r : Ref) :
    (new config bootSources).objects.get? r = none := by
  simp [new, ObjectHeap.new, ObjectHeap.get?, Heap.get?, Heap.cell?, Heap.empty]

theorem new_sound (config : Config) (bootSources : List σ) :
    (new config bootSources).Sound none [] := by
  have hmirror : ∀ id, (new config bootSources).objects.mirror? id = none :=
    fun _ => Std.TreeMap.getElem?_emptyc
  have hholder : ∀ l, (new config bootSources).objects.holder? l = none :=
    fun _ => Std.TreeMap.getElem?_emptyc
  have hlinked : (new config bootSources).objects.Linked none
      (new config bootSources).registry := by
    have hcoherent := Registry.new_coherent bootSources
    have hnone : ∀ id c, (Registry.new bootSources).get? id ≠ some c :=
      fun id c hget => IdTable.empty_not_issued (IdTable.issued_of_get? hget)
    constructor
    case coherent => exact hcoherent
    case kindred =>
      intro id c _ _ hget
      exact absurd hget (hnone id c)
    case fits =>
      intro r object hget
      rw [get?_new] at hget
      contradiction
    case closed =>
      intro r object hget
      rw [get?_new] at hget
      contradiction
    case mirrors =>
      intro id r hget
      rw [hmirror] at hget
      contradiction
    case holders =>
      intro l r hget
      rw [hholder] at hget
      contradiction
    case frozen =>
      intro r
      constructor
      · intro hr
        exact absurd hr List.not_mem_nil
      · rintro ⟨id, c, -, hget, -⟩
        exact absurd hget (hnone id c)
    case held =>
      intro l hl
      obtain rfl : l = ⟨Registry.bootLoader, "bootstrap", true, bootSources⟩ := by
        simpa [registry, new, Engine.new, Registry.new, Registry.graph] using hl
      exact Or.inl rfl
    case pending =>
      intro id hid
      contradiction
  have hmarked : (new config bootSources).objects.heap.AllMarked := Heap.empty_allMarked _
  exact
    { linked := hlinked
      sound := Heap.empty_sound _
      shaded := hlinked.shaded hmarked
      holds := RootTable.empty_holds
      marked := fun root hroot => by contradiction
      rests := fun _ => hmarked
      classUnloading := rfl
      idle := rfl }

theorem Upheld.perm {pending : Option LoaderId} {handles other : List Root} {m : Machine σ}
    (h : m.Upheld pending handles) (hperm : handles.Perm other) : m.Upheld pending other :=
  { h with
    holds := h.holds.perm hperm
    marked := fun root hroot => h.marked root (hperm.mem_iff.mpr hroot) }

/-- A machine that another one can have become while a cycle was running. -/
structure Endures (before after : Machine σ) : Prop where
  found : after.found = before.found
  graph : before.registry.graph ⊆ after.registry.graph
  grows : ObjectHeap.Grows before.objects after.objects

theorem Endures.refl (m : Machine σ) : Endures m m :=
  ⟨rfl, List.Subset.refl _, .refl _⟩

theorem Endures.trans {a b c : Machine σ} (hab : Endures a b) (hbc : Endures b c) :
    Endures a c where
  found := hbc.found.trans hab.found
  graph := List.Subset.trans hab.graph hbc.graph
  grows := hab.grows.trans hbc.grows

/-- A machine that another one can have become while some roots were held. -/
structure Continues (handles : List Root) (before after : Machine σ) : Prop where
  outgrows : Registry.Outgrows before.registry after.registry
  config : after.config = before.config
  mirrors : ∀ root ∈ handles, ∀ id loader component,
    before.objects.get? root.ref = some (.mirrorOf id loader component) →
      after.objects.get? root.ref = some (.mirrorOf id loader component)
  phase : after.engine.coordinator.phase = before.engine.coordinator.phase
  running : before.engine.coordinator.phase ≠ .idle → Endures before after

namespace Continues

theorem refl (handles : List Root) (m : Machine σ) : Continues handles m m :=
  ⟨.refl _, rfl, fun _ _ _ _ _ h => h, rfl, fun _ => .refl m⟩

theorem trans {handles : List Root} {a b c : Machine σ} (hab : Continues handles a b)
    (hbc : Continues handles b c) : Continues handles a c where
  outgrows := hab.outgrows.trans hbc.outgrows
  config := hbc.config.trans hab.config
  mirrors root hroot id loader component hget :=
    hbc.mirrors root hroot id loader component (hab.mirrors root hroot id loader component hget)
  phase := hbc.phase.trans hab.phase
  running hrunning := (hab.running hrunning).trans (hbc.running (hab.phase ▸ hrunning))

theorem mono {handles fewer : List Root} {a b : Machine σ} (h : Continues handles a b)
    (hsub : fewer ⊆ handles) : Continues fewer a b :=
  { h with mirrors := fun root hroot => h.mirrors root (hsub hroot) }

end Continues

/-- What an operation comes to: what it grants is held on success, and nothing more on failure. -/
structure Serves {ε α : Type} (pending settled : Option LoaderId) (handles : List Root)
    (m : Machine σ) (granted : α → List Root) (good : Machine σ → α → Prop)
    (outcome : Except ε α × Machine σ) : Prop where
  continues : Continues handles m outcome.2
  error : ∀ e, outcome.1 = .error e → outcome.2.Upheld pending handles
  ok : ∀ a, outcome.1 = .ok a → outcome.2.Upheld settled (granted a ++ handles) ∧ good outcome.2 a

section Serves

variable {ε α : Type} {pending settled : Option LoaderId} {handles : List Root}
  {m next : Machine σ} {granted : α → List Root} {good : Machine σ → α → Prop}

theorem Serves.of_error (hcontinues : Continues handles m next) (h : next.Upheld pending handles)
    (e : ε) : Serves pending settled handles m granted good (.error e, next) where
  continues := hcontinues
  error _ _ := h
  ok a ha := by contradiction

theorem Serves.of_ok (hcontinues : Continues handles m next) {a : α}
    (h : next.Upheld settled (granted a ++ handles)) (hgood : good next a) :
    Serves (ε := ε) pending settled handles m granted good (.ok a, next) where
  continues := hcontinues
  error e he := by contradiction
  ok b hb := by
    obtain rfl := Except.ok.inj hb
    exact ⟨h, hgood⟩

theorem Serves.after {earlier : Machine σ} {outcome : Except ε α × Machine σ}
    (h : Serves pending settled handles m granted good outcome)
    (hcontinues : Continues handles earlier m) :
    Serves pending settled handles earlier granted good outcome :=
  { h with continues := hcontinues.trans h.continues }

theorem Serves.sound {outcome : Except ε α × Machine σ}
    (h : Serves pending settled handles m granted good outcome) (hm : m.Sound pending handles)
    {a : α} (hok : outcome.1 = .ok a) : outcome.2.Sound settled (granted a ++ handles) :=
  ⟨(h.ok a hok).1, h.continues.phase.trans hm.idle⟩

end Serves

section Roots

variable {pending : Option LoaderId} {handles : List Root} {m : Machine σ}

theorem Upheld.root (h : m.Upheld pending handles) {r : Ref} (hmarked : m.objects.Marked r) :
    Upheld pending ((m.objects.root r).1 :: handles)
      { m with objects := (m.objects.root r).2 } where
  linked := { h.linked with pending := fun id hid => { h.linked.pending id hid with } }
  sound := h.sound
  shaded := { h.shaded with }
  holds := h.holds.add r
  marked root hroot := by
    rcases List.mem_cons.mp hroot with rfl | hroot
    · exact hmarked
    · exact h.marked root hroot
  rests := h.rests
  classUnloading := h.classUnloading

theorem continues_roots (handles : List Root) (m : Machine σ) (roots : RootTable) :
    Continues handles m { m with objects := { m.objects with roots } } where
  outgrows := .refl _
  config := rfl
  mirrors _ _ _ _ _ hget := hget
  phase := rfl
  running _ := ⟨rfl, List.Subset.refl _, { ObjectHeap.Grows.refl m.objects with }⟩

theorem continues_root (handles : List Root) (m : Machine σ) (r : Ref) :
    Continues handles m { m with objects := (m.objects.root r).2 } :=
  continues_roots handles m _

theorem Upheld.drop (h : m.Upheld pending handles) {root : Root} (hroot : root ∈ handles) :
    (m.drop root).Upheld pending (handles.erase root) where
  linked :=
    { h.linked with pending := fun id hid => { h.linked.pending id hid with } }
  sound := h.sound
  shaded := { h.shaded with }
  holds := h.holds.remove hroot
  marked other hother := h.marked other (List.mem_of_mem_erase hother)
  rests := h.rests
  classUnloading := h.classUnloading

theorem continues_drop (handles : List Root) (m : Machine σ) (root : Root) :
    Continues handles m (m.drop root) :=
  continues_roots handles m _

theorem Upheld.dropAll {needed : List Root} (h : m.Upheld pending (needed ++ handles)) :
    (m.dropAll needed).Upheld pending handles ∧ Continues handles m (m.dropAll needed) := by
  induction needed generalizing m with
  | nil => exact ⟨h, .refl _ m⟩
  | cons root needed ih =>
    have hdrop : (m.drop root).Upheld pending ((root :: (needed ++ handles)).erase root) :=
      h.drop List.mem_cons_self
    rw [List.erase_cons_head] at hdrop
    obtain ⟨hupheld, hcontinues⟩ := ih hdrop
    exact ⟨hupheld, (continues_drop handles m root).trans hcontinues⟩

end Roots

section Collections

variable {pending : Option LoaderId} {handles : List Root} {m : Machine σ}

/-- What a full collection reaches from the roots and the frozen references and, for metadata that
is never unloaded, from all mirrors and holders. -/
def Reached (m : Machine σ) : Ref → Prop := reachedBy m.objects (!m.config.classUnloading)

theorem Upheld.reaches_root (h : m.Upheld pending handles) {root : Root} (hroot : root ∈ handles) :
    m.Reached root.ref := by
  obtain ⟨object, hget⟩ := h.live root hroot
  refine .start ?_ (Heap.contains_of_get? hget)
  have hrooted : root.ref ∈ m.objects.roots.refs :=
    h.holds.mem_refs.mpr (List.mem_map_of_mem hroot)
  exact List.mem_append_left _ (List.mem_append_left _ hrooted)

theorem Upheld.reaches_frozen (h : m.Upheld pending handles) {r : Ref}
    (hr : r ∈ m.objects.heap.frozen) : m.Reached r := by
  obtain ⟨object, hget⟩ := h.linked.frozen_live hr
  exact .start (List.mem_append_right _ hr) (Heap.contains_of_get? hget)

/-- A machine is sound again when what is not reached was taken out and freed, if all that is held
is reached. -/
theorem Upheld.swept (h : m.Upheld pending handles) {reached : Ref → Prop}
    (hclosed : m.objects.Closes reached) (hfrozen : ∀ r ∈ m.objects.heap.frozen, reached r)
    (hheld : ∀ root ∈ handles, reached root.ref) {report : CycleReport σ} {next : Machine σ}
    (hculled : m.registry.Culled (m.objects.Keeps reached) report next.registry)
    (hswept : ObjectHeap.Swept m.registry m.objects reached next.objects)
    (hidle : next.engine.coordinator.phase = .idle)
    (hunloading : next.engine.classUnloading = next.config.classUnloading) :
    next.Sound pending handles := by
  have hlinked := h.linked.survives hclosed hfrozen hculled hswept
  exact
    { linked := hlinked
      sound := hswept.tidy.toSound
      shaded := hlinked.shaded hswept.tidy.marked
      holds := by
        rw [hswept.roots]
        exact h.holds
      marked := by
        intro root hroot
        obtain ⟨object, hget⟩ := h.live root hroot
        exact hswept.tidy.marked.isMarked
          (Heap.contains_of_get? ((hswept.get?_eq_some _ _).mpr ⟨hheld root hroot, hget⟩))
      rests := fun _ => hswept.tidy.marked
      classUnloading := hunloading
      idle := hidle }

/-- A full collection succeeds. It takes out the loaders that are not kept, with their classes, and
frees what cannot be reached. -/
theorem Sound.collect (h : m.Sound pending handles) :
    ∃ report next, m.collect = (.ok report, next) ∧ next.Sound pending handles ∧
      Continues handles m next ∧
      m.registry.Culled (m.objects.Keeps m.Reached) report next.registry ∧
      ObjectHeap.Swept m.registry m.objects m.Reached next.objects := by
  have hunloading : m.entered.classUnloading = m.config.classUnloading := h.classUnloading
  obtain ⟨report, next, hrun, hsame, hout⟩ := run_heapOracle m.entered h.linked
    h.sound (m.engine.coordinator.started + 1) m.found
  rw [hunloading] at hrun hsame hout
  have hculled : m.registry.Culled (m.objects.Keeps m.Reached) report next.registry := hout
  have hswept := h.linked.swept_mark_of_culled h.sound hculled
  let after : Machine σ :=
    { m with
      engine :=
        { next with
          coordinator := next.coordinator.finish (m.engine.coordinator.started + 1) (.ok report) }
      objects := (m.objects.mark (!m.config.classUnloading)).sweep (report.unloaded.map (·.id))
        (report.unloadedLoaders.map (·.id))
      found := foundBy m.objects m.registry (!m.config.classUnloading) }
  have hafter : after.Sound pending handles :=
    h.swept (h.linked.closes_reaches _) (fun _ => h.reaches_frozen) (fun _ => h.reaches_root)
      hculled hswept rfl hsame
  refine ⟨report, after, collect_of_run h.idle hrun, hafter,
    ⟨hculled.outgrows, rfl, ?_, h.idle.symm, fun hrunning => absurd h.idle hrunning⟩, hculled,
    hswept⟩
  intro root hroot id loader component hget
  exact (hswept.get?_eq_some _ _).mpr ⟨h.reaches_root hroot, hget⟩

theorem Sound.collected (h : m.Sound pending handles) {report : CycleReport σ} {next : Machine σ}
    (hcollect : m.collect = (.ok report, next)) :
    next.Sound pending handles ∧ Continues handles m next ∧
      m.registry.Culled (m.objects.Keeps m.Reached) report next.registry ∧
      ObjectHeap.Swept m.registry m.objects m.Reached next.objects := by
  obtain ⟨report', next', hcollect', hnext⟩ := h.collect
  rw [hcollect, Prod.mk.injEq, Except.ok.injEq] at hcollect'
  obtain ⟨rfl, rfl⟩ := hcollect'
  exact hnext

theorem Upheld.collect (h : m.Upheld pending handles) :
    m.collect.2.Upheld pending handles ∧ Continues handles m m.collect.2 := by
  by_cases hidle : m.engine.coordinator.phase = .idle
  · obtain ⟨report, next, hcollect, hnext, hcontinues, -, -⟩ := Sound.collect ⟨h, hidle⟩
    rw [hcollect]
    exact ⟨hnext.toUpheld, hcontinues⟩
  · unfold Machine.collect trigger Coordinator.enter
    simp only [hidle, if_false]
    refine ⟨{ h with rests := fun h' => absurd h' hidle },
      ⟨.refl _, rfl, fun _ _ _ _ _ hget => hget, rfl, fun _ => ?_⟩⟩
    exact ⟨rfl, List.Subset.refl _, .refl _⟩

end Collections

section Attempts

variable {pending settled : Option LoaderId} {handles : List Root} {m : Machine σ}
  {make : Attempt σ} {made : Object → Prop}

def Names (made : Object → Prop) (m : Machine σ) (root : Root) : Prop :=
  ∃ object, m.objects.get? root.ref = some object ∧ made object

theorem Upheld.grown (h : m.Upheld pending handles) {objects : ObjectHeap}
    (hgrows : ObjectHeap.Grows m.objects objects) (hroots : objects.roots = m.objects.roots)
    (hintact : objects.Intact settled m.registry) : Upheld settled handles { m with objects } where
  toIntact := hintact
  holds := by
    rw [hroots]
    exact h.holds
  marked root hroot := hgrows.marked_of_marked (h.marked root hroot)
  rests hidle := hgrows.allMarked (h.rests hidle)
  classUnloading := h.classUnloading

theorem continues_grown (handles : List Root) {objects : ObjectHeap}
    (hgrows : ObjectHeap.Grows m.objects objects) : Continues handles m { m with objects } where
  outgrows := .refl _
  config := rfl
  mirrors _ _ id loader component hget := hgrows.mirrors _ id loader component hget
  phase := rfl
  running _ := ⟨rfl, List.Subset.refl _, hgrows⟩

theorem Upheld.attempt (h : m.Upheld pending handles)
    (hmake : ObjectHeap.Lands pending settled m.registry m.objects made
      (make m.registry m.objects)) :
    Serves pending settled handles m (fun root => [root]) (Names made) (m.attempt make) := by
  unfold Machine.attempt
  generalize make m.registry m.objects = outcome at hmake ⊢
  obtain ⟨result, objects⟩ := outcome
  have hcontinues := continues_grown handles hmake.grows
  cases result with
  | error cause =>
    exact .of_error hcontinues (h.grown hmake.grows hmake.roots (hmake.error cause rfl)) cause
  | ok r =>
    obtain ⟨hintact, object, hget, hmade, hmarked⟩ := hmake.ok r rfl
    have hgrown := h.grown hmake.grows hmake.roots hintact
    exact .of_ok (hcontinues.trans (continues_root handles _ r)) (hgrown.root hmarked)
      ⟨object, hget, hmade⟩

theorem Upheld.allocateRooted (h : m.Upheld pending handles) (make : Attempt σ)
    (hmake : ∀ next : Machine σ, next.Upheld pending handles → Continues handles m next →
      ObjectHeap.Lands pending settled next.registry next.objects made
        (make next.registry next.objects)) :
    Serves pending settled handles m (fun root => [root]) (Names made) (m.allocateRooted make) := by
  have hfirst := h.attempt (hmake m h (.refl handles m))
  unfold Machine.allocateRooted
  generalize m.attempt make = outcome at hfirst ⊢
  obtain ⟨result, failed⟩ := outcome
  cases result with
  | ok root =>
    obtain ⟨hupheld, hnames⟩ := hfirst.ok root rfl
    exact .of_ok hfirst.continues hupheld hnames
  | error cause =>
    have hfailed := hfirst.error cause rfl
    by_cases hretry : cause = .allocation .outOfHeap ∧ failed.config.retryAllocation = true
    · obtain ⟨hnext, hcontinues⟩ := hfailed.collect
      simp only [hretry]
      generalize failed.collect = outcome at hnext hcontinues ⊢
      obtain ⟨collected, next⟩ := outcome
      have hsince := hfirst.continues.trans hcontinues
      cases collected with
      | error failure => exact .of_error hsince hnext _
      | ok report =>
        have hsecond := (hnext.attempt (hmake next hnext hsince)).after hsince
        dsimp only
        generalize next.attempt make = outcome at hsecond ⊢
        obtain ⟨result, last⟩ := outcome
        cases result with
        | ok root =>
          obtain ⟨hupheld, hnames⟩ := hsecond.ok root rfl
          exact .of_ok hsecond.continues hupheld hnames
        | error cause' => exact .of_error hsecond.continues (hsecond.error cause' rfl) _
    · simp only [hretry, if_false]
      exact .of_error hfirst.continues hfailed _

theorem allocateRooted_of_retry {failed mid : Machine σ} {report : CycleReport σ}
    (hattempt : m.attempt make = (.error (.allocation .outOfHeap), failed))
    (hretry : failed.config.retryAllocation = true) (hcollect : failed.collect = (.ok report, mid)) :
    m.allocateRooted make = ((mid.attempt make).1.mapError .of, (mid.attempt make).2) := by
  unfold Machine.allocateRooted
  rw [hattempt]
  simp only [hretry, hcollect, and_self, if_true]
  generalize mid.attempt make = outcome
  obtain ⟨_ | _, last⟩ := outcome <;> rfl

theorem allocateRooted_once (h : ∀ failed, m.attempt make = (.error (.allocation .outOfHeap), failed) →
      failed.config.retryAllocation = false) :
    m.allocateRooted make = ((m.attempt make).1.mapError .of, (m.attempt make).2) := by
  unfold Machine.allocateRooted
  cases hattempt : m.attempt make with
  | mk result failed =>
    cases result with
    | ok root => rfl
    | error cause =>
      have hstop : ¬ (cause = .allocation .outOfHeap ∧ failed.config.retryAllocation = true) := by
        rintro ⟨rfl, hretry⟩
        rw [h failed hattempt] at hretry
        contradiction
      simp only [hstop, if_false]
      rfl

/-- While no cycle is running, this is one attempt or, if that one fails, another one after a full
collection. -/
theorem Sound.allocateRooted_cases (h : m.Sound pending handles) (make : Attempt σ)
    (hmake : ∀ next : Machine σ, next.Upheld pending handles → Continues handles m next →
      ObjectHeap.Lands pending settled next.registry next.objects made
        (make next.registry next.objects)) :
    m.allocateRooted make = ((m.attempt make).1.mapError .of, (m.attempt make).2) ∨
    ∃ cause failed report next, m.attempt make = (.error cause, failed) ∧
      failed.Sound pending handles ∧ failed.collect = (.ok report, next) ∧
      next.Sound pending handles ∧ Continues handles m next ∧
      m.allocateRooted make = ((next.attempt make).1.mapError .of, (next.attempt make).2) := by
  have hfirst := h.toUpheld.attempt (hmake m h.toUpheld (.refl handles m))
  by_cases hretry : ∃ failed, m.attempt make = (.error (.allocation .outOfHeap), failed) ∧
      failed.config.retryAllocation = true
  · right
    obtain ⟨failed, hattempt, hretry⟩ := hretry
    rw [hattempt] at hfirst
    have hfailed : failed.Sound pending handles :=
      ⟨hfirst.error _ rfl, hfirst.continues.phase.trans h.idle⟩
    obtain ⟨report, next, hcollect, hnext, hcontinues, -⟩ := hfailed.collect
    exact ⟨_, failed, report, next, hattempt, hfailed, hcollect, hnext,
      hfirst.continues.trans hcontinues, allocateRooted_of_retry hattempt hretry hcollect⟩
  · left
    refine allocateRooted_once fun failed hattempt => ?_
    rw [Bool.eq_false_iff]
    exact fun hon => hretry ⟨failed, hattempt, hon⟩

end Attempts

end Metaspace.Machine
