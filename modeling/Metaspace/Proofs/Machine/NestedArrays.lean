import Metaspace.Proofs.Machine.ArrayTrees
import Metaspace.Proofs.Machine.Exhaustion
import Metaspace.Proofs.Machine.Hosting

set_option autoImplicit false

namespace Metaspace

variable {σ : Type}

/-- The levels of nested arrays whose classes are held, the outermost first. -/
def arrayLevels (classes : List HeldClass) (lengths : List Nat) : List ArrayLevel :=
  classes.zipWith (fun c length => ⟨c.descriptor.id, c.mirror.ref, length⟩) lengths

theorem length_of_arrayLevels {classes : List HeldClass} {lengths : List Nat}
    (h : classes.length = lengths.length) :
    (arrayLevels classes lengths).map (·.length) = lengths := by
  unfold arrayLevels
  induction classes generalizing lengths with
  | nil => exact (List.eq_nil_of_length_eq_zero h.symm).symm
  | cons c classes ih =>
    cases lengths with
    | nil => contradiction
    | cons length lengths => exact congrArg (length :: ·) (ih (Nat.succ.inj h))

theorem eq_ok_of_mapError {ε ε' α : Type} {f : ε → ε'} {result : Except ε α} {a : α}
    (h : result.mapError f = .ok a) : result = .ok a := by
  cases result with
  | error e => contradiction
  | ok b => exact congrArg Except.ok (Except.ok.inj h)

theorem eq_error_of_mapError {ε ε' α : Type} {f : ε → ε'} {result : Except ε α} {e' : ε'}
    (h : result.mapError f = .error e') : ∃ e, result = .error e ∧ f e = e' := by
  cases result with
  | error e => exact ⟨e, rfl, Except.error.inj h⟩
  | ok b => contradiction

namespace Machine

open ObjectHeap

variable {handles : List Root} {m next : Machine σ}

theorem Upheld.derives_later (h : m.Upheld none handles) {component : ClassDescriptor} {n : Nat}
    {held : HeldClass} (hderived : m.deriveArray component n = (.ok held, next))
    {later : Registry σ} (hsheds : next.registry.Sheds later)
    (hthere : ∃ d, later.get? held.descriptor.id = some d) :
    later.deriveArray component n = (.ok held.descriptor, later) := by
  have hcoherent := (h.begins_derived component n).upheld.linked.coherent
  have hall := (h.collects_deriveArray component n).sheds hcoherent
  rw [hderived] at hall
  replace hall := hall.trans hsheds
  have hok := registry_deriveArray_of_deriveArray hderived
  have hget := (h.begins_deriveArray component n).2 _ (congrArg Prod.fst hok)
  rw [hok] at hget
  refine h.linked.coherent.toIndexed.deriveArray_later hok hall.coherent.toIndexed ?_
  intro e he hloader
  obtain ⟨d, hd⟩ := hthere
  obtain ⟨hbefore, l, hl, hid⟩ := (hall.get?_eq_some _ _).mp hd
  obtain rfl : held.descriptor = d := Option.some.inj (hget.symm.trans hbefore)
  exact (hall.get?_eq_some _ _).mpr ⟨he, l, hl, hid.trans hloader.symm⟩

theorem Upheld.derivesNested_later (h : m.Upheld none handles) {component : ClassDescriptor}
    {n : Nat} {classes : List HeldClass}
    (hderived : m.deriveNested component n = (.ok classes, next))
    {later : Registry σ} (hsheds : next.registry.Sheds later)
    (hthere : ∀ c ∈ classes, ∃ d, later.get? c.descriptor.id = some d) {k : Nat} {c : HeldClass}
    (hc : classes[k]? = some c) :
    later.deriveArray component (n - k) = (.ok c.descriptor, later) := by
  induction n generalizing m handles classes k with
  | zero =>
    obtain ⟨hclasses, -⟩ := Prod.mk.inj hderived
    rw [← Except.ok.inj hclasses] at hc
    contradiction
  | succ n ih =>
    unfold Machine.deriveNested at hderived
    cases houter : m.deriveArray component (n + 1) with
    | mk result middle =>
      have hserves := h.deriveArray component (n + 1)
      rw [houter] at hderived hserves
      cases result with
      | error failure =>
        obtain ⟨hfailed, -⟩ := Prod.mk.inj hderived
        contradiction
      | ok held =>
        obtain ⟨hmiddle, -⟩ := hserves.ok held rfl
        have hcollects := hmiddle.collects_deriveNested component n
        rw [h.derived_again houter n.le_succ] at hcollects
        have hinner := hcollects.sheds hmiddle.linked.coherent
        dsimp only at hderived
        cases hbelow : Machine.deriveNested middle component n with
        | mk result last =>
          rw [hbelow] at hderived hinner
          cases result with
          | error failure =>
            obtain ⟨hfailed, -⟩ := Prod.mk.inj hderived
            contradiction
          | ok inner =>
            obtain ⟨hclasses, rfl⟩ := Prod.mk.inj hderived
            obtain rfl := Except.ok.inj hclasses
            cases k with
            | zero =>
              obtain rfl := Option.some.inj hc
              exact h.derives_later houter (hinner.trans hsheds) (hthere _ List.mem_cons_self)
            | succ k =>
              rw [Nat.add_sub_add_right]
              exact ih hmiddle hbelow (fun c hc => hthere c (List.mem_cons_of_mem _ hc)) hc

def makeArrays (level : ArrayLevel) (inner : List ArrayLevel) : Attempt σ :=
  fun _ objects => objects.allocNested level inner

section Tree

variable {level : ArrayLevel} {inner : List ArrayLevel}

theorem attempt_plants (level : ArrayLevel) (inner : List ArrayLevel) (h : m.objects.heap.Sound) :
    m.objects.heap.Extends (m.attempt (makeArrays level inner)).2.objects.heap ∧
    ∀ root, (m.attempt (makeArrays level inner)).1 = .ok root → ∃ refs,
      m.objects.Plants (level :: inner) root.ref refs
        (m.attempt (makeArrays level inner)).2.objects := by
  have hextends := extends_allocNested level inner h
  have hplants : ∀ r next, allocNested level inner m.objects = (.ok r, next) →
      ∃ refs, m.objects.Plants (level :: inner) r refs next := fun r next => allocNested_plants h
  have hmake : makeArrays level inner m.registry m.objects =
      allocNested level inner m.objects := rfl
  unfold Machine.attempt
  rw [hmake]
  generalize allocNested level inner m.objects = outcome at hextends hplants ⊢
  obtain ⟨cause | r, objects⟩ := outcome
  · exact ⟨hextends, fun _ hok => by contradiction⟩
  · refine ⟨{ hextends with }, fun root hok => ?_⟩
    obtain rfl := Except.ok.inj hok
    obtain ⟨refs, hplanted⟩ := hplants r objects rfl
    exact ⟨refs, { hplanted with tree := hplanted.tree.mono fun _ _ hget => hget }⟩

theorem get?_of_collected {mid : Machine σ} {report : CycleReport σ}
    (hidle : m.engine.coordinator.phase = .idle) (hcollect : m.collect = (.ok report, mid))
    (hextends : mid.objects.heap.Extends next.objects.heap) {r : Ref} {object : Object}
    (hlive : m.objects.get? r = some object) (hgone : mid.objects.get? r = none) :
    next.objects.get? r = none := by
  obtain ⟨_, _, classes, loaders, hcollect', -, hobjects, -⟩ := collect_of_idle hidle
  rw [hcollect, Prod.mk.injEq] at hcollect'
  rw [← hcollect'.2] at hobjects
  have hheap : mid.objects.heap =
      (m.objects.mark (!m.config.classUnloading)).heap.sweep.2 := congrArg (·.heap) hobjects
  have hmarked : (m.objects.mark (!m.config.classUnloading)).heap.get? r = some object :=
    (congrFun (get?_mark m.objects _) r).trans hlive
  have hswept : mid.objects.heap.get? r = none := hgone
  rw [hheap] at hextends hswept
  exact hextends.get?_of_swept hmarked hswept

theorem Sound.plants (h : m.Sound none handles)
    (hready : ∀ later : Machine σ, later.Upheld none handles → Continues handles m later →
      Ready (level :: inner) later.objects) {root : Root}
    (hmade : m.allocateRooted (makeArrays level inner) = (.ok root, next)) :
    ∃ refs, m.objects.Plants (level :: inner) root.ref refs next.objects := by
  obtain ⟨hfirst, hplants⟩ := attempt_plants level inner h.sound
  rcases h.allocateRooted_cases (makeArrays level inner)
      fun later hlater hsince => allocNested_lands level inner hlater.toIntact
        (hready later hlater hsince) with
    heq | ⟨cause, failed, report, mid, hattempt, hfailed, hcollect, hmid, -, heq⟩
  · obtain ⟨hok, rfl⟩ := Prod.mk.inj (heq.symm.trans hmade)
    exact hplants root (eq_ok_of_mapError hok)
  · obtain ⟨hok, rfl⟩ := Prod.mk.inj (heq.symm.trans hmade)
    obtain ⟨hsecond, hagain⟩ := attempt_plants level inner hmid.sound
    obtain ⟨refs, hplanted⟩ := hagain root (eq_ok_of_mapError hok)
    refine ⟨refs, { hplanted with fresh := fun x hx => ?_ }⟩
    rw [Option.eq_none_iff_forall_not_mem]
    intro object hold
    -- what was there outlived the attempt that failed, and if the collection freed it, then its
    -- reference is not given out again
    have hgrown := hfirst.keeps x object hold
    rw [hattempt] at hgrown
    have hnone := get?_of_collected hfailed.idle hcollect hsecond hgrown (hplanted.fresh x hx)
    obtain ⟨other, hlive⟩ := hplanted.tree.live x hx
    rw [hlive] at hnone
    contradiction

theorem Upheld.classes_of_arrays {before : Machine σ} (h : before.Upheld none handles)
    {component : ClassDescriptor} {n : Nat} {classes : List HeldClass}
    (hderived : before.deriveNested component n = (.ok classes, m))
    (hready : ∀ later : Machine σ, later.Upheld none (classes.map (·.mirror) ++ handles) →
      Continues (classes.map (·.mirror) ++ handles) m later → Ready (level :: inner) later.objects)
    {root : Root} (hmade : m.allocateRooted (makeArrays level inner) = (.ok root, next)) {k : Nat}
    {c : HeldClass} (hc : classes[k]? = some c) :
    next.registry.deriveArray component (n - k) = (.ok c.descriptor, next.registry) := by
  have hserves := h.deriveNested component n
  rw [hderived] at hserves
  obtain ⟨hm, -, hclasses⟩ := hserves.ok classes rfl
  have hlands := fun later hlater hsince =>
    allocNested_lands level inner (Upheld.toIntact hlater) (hready later hlater hsince)
  have hallocated := hm.allocateRooted (makeArrays level inner) hlands
  have hsheds := (hm.collects_allocateRooted (makeArrays level inner) hlands).sheds
    hm.linked.coherent
  rw [hmade] at hallocated hsheds
  obtain ⟨hnext, -⟩ := hallocated.ok root rfl
  refine h.derivesNested_later hderived hsheds (fun e he => ?_) hc
  exact hnext.registered_of_holding (hallocated.continues.holding hclasses e he)

theorem allocateRooted_of_oversized
    (hbig : Oversized m.objects.heap.capacity.toNat ((level :: inner).map (·.length))) :
    m.allocateRooted (makeArrays level inner) =
      (.error (.of (.allocation .objectTooBig)), m) := by
  have hmake : makeArrays level inner m.registry m.objects =
      (.error (.allocation .objectTooBig), m.objects) := allocNested_of_oversized level inner hbig
  unfold Machine.allocateRooted Machine.attempt
  rw [hmake]
  rfl

theorem attempt_not_tooBig (h : m.objects.heap.Sound)
    (hfits : ¬ Oversized m.objects.heap.capacity.toNat ((level :: inner).map (·.length)))
    {cause : Cause} (hfailed : (m.attempt (makeArrays level inner)).1 = .error cause) :
    cause ≠ .allocation .objectTooBig := by
  have hmake : makeArrays level inner m.registry m.objects =
      allocNested level inner m.objects := rfl
  have hcause : (allocNested level inner m.objects).1 = .error cause → _ :=
    allocNested_not_tooBig h hfits
  unfold Machine.attempt at hfailed
  rw [hmake] at hfailed
  generalize allocNested level inner m.objects = outcome at hfailed hcause
  obtain ⟨cause' | r, objects⟩ := outcome
  · exact hcause (congrArg Except.error (Except.error.inj hfailed))
  · contradiction

theorem Sound.oversized_of_error (h : m.Sound none handles) (hsolvent : m.Solvent)
    (hready : ∀ later : Machine σ, later.Upheld none handles → Continues handles m later →
      Ready (level :: inner) later.objects) {failure : Failure}
    (hfailed : (m.allocateRooted (makeArrays level inner)).1 = .error failure)
    (hcause : failure.cause = .allocation .objectTooBig) :
    Oversized m.config.heapSize.toNat ((level :: inner).map (·.length)) := by
  by_contra hfits
  rcases h.allocateRooted_cases (makeArrays level inner)
      fun later hlater hsince => allocNested_lands level inner hlater.toIntact
        (hready later hlater hsince) with
    heq | ⟨cause, failed, report, mid, hattempt, -, hcollect, hmid, hcontinues, heq⟩
  · rw [heq] at hfailed
    obtain ⟨cause, hfirst, rfl⟩ := eq_error_of_mapError hfailed
    rw [← hsolvent.paid.capacity_eq] at hfits
    exact attempt_not_tooBig h.sound hfits hfirst hcause
  · rw [heq] at hfailed
    obtain ⟨cause, hsecond, rfl⟩ := eq_error_of_mapError hfailed
    obtain ⟨hpaying, -⟩ := (m.moves_attempt (makeArrays level inner)
      fun _ objects => deals_allocNested level inner objects).solvent hsolvent
    rw [hattempt] at hpaying
    obtain ⟨hpaid, -⟩ := hpaying.collect
    rw [hcollect] at hpaid
    rw [← hcontinues.config, ← hpaid.paid.capacity_eq] at hfits
    exact attempt_not_tooBig hmid.sound hfits hsecond hcause

end Tree

theorem allocateWith_eq (m : Machine σ) (needed : List Root) (context : Context)
    (make : Attempt σ) :
    m.allocateWith needed context make =
      ((m.allocateRooted make).1.mapError (·.within context),
        (m.allocateRooted make).2.dropAll needed) := by
  unfold Machine.allocateWith
  generalize m.allocateRooted make = outcome
  obtain ⟨_ | root, next⟩ := outcome <;> rfl

theorem dropAll_same (m : Machine σ) (roots : List Root) :
    (m.dropAll roots).objects.heap = m.objects.heap ∧ (m.dropAll roots).engine = m.engine := by
  induction roots generalizing m with
  | nil => exact ⟨rfl, rfl⟩
  | cons root roots ih => exact ih (m.drop root)

/-- What making nested arrays comes to on a machine on which their classes are held. -/
structure BuildsArrays (capacity : Nat) (component : ClassDescriptor) (lengths : List Nat)
    (classes : List HeldClass) (m : Machine σ) (outcome : Except Failure Root × Machine σ) :
    Prop where
  levels : classes.length = lengths.length
  tree : ∀ root, outcome.1 = .ok root → ∃ refs : List Ref,
    outcome.2.objects.Nested (arrayLevels classes lengths) root.ref refs ∧ refs.Nodup ∧
      (∀ r ∈ refs, m.objects.get? r = none) ∧
      refs.length = ((List.range lengths.length).map fun k => (lengths.take k).prod).sum
  /-- The class of a level is the one with as many dimensions as there are levels from it on. -/
  classes : ∀ root, outcome.1 = .ok root → ∀ k c, classes[k]? = some c →
    outcome.2.registry.deriveArray component (lengths.length - k) =
      (.ok c.descriptor, outcome.2.registry)
  tooBig : (∃ failure, outcome.1 = .error failure ∧
      failure.cause = .allocation .objectTooBig) ↔ Oversized capacity lengths
  untouched : Oversized capacity lengths →
    outcome.2.objects.heap = m.objects.heap ∧ outcome.2.engine = m.engine

theorem newArrays_of_derived {before : Machine σ} {component : ClassDescriptor} {length : Nat}
    {lengths : List Nat} {c : HeldClass} {classes : List HeldClass}
    (hderived : before.deriveNested component (length :: lengths).length =
      (.ok (c :: classes), m)) :
    before.newArrays component (length :: lengths) =
      m.allocateWith ((c :: classes).map (·.mirror))
        (.allocatingArrays c.descriptor.name (length :: lengths))
        (makeArrays ⟨c.descriptor.id, c.mirror.ref, length⟩ (arrayLevels classes lengths)) := by
  unfold Machine.newArrays
  rw [hderived]
  rfl

theorem Sound.builds_arrays {before : Machine σ} (h : before.Sound none handles)
    (hsolvent : before.Solvent) {component : ClassDescriptor} {length : Nat} {lengths : List Nat}
    {c : HeldClass} {classes : List HeldClass}
    (hderived : before.deriveNested component (length :: lengths).length =
      (.ok (c :: classes), m)) :
    m.BuildsArrays before.config.heapSize.toNat component (length :: lengths) (c :: classes)
      (before.newArrays component (length :: lengths)) := by
  have hserves := h.toUpheld.deriveNested component (length :: lengths).length
  have hm := hserves.sound h (congrArg Prod.fst hderived)
  have hheld := hserves.ok (c :: classes) (congrArg Prod.fst hderived)
  obtain ⟨hpaying, hsame⟩ :=
    (before.moves_deriveNested component (length :: lengths).length).solvent hsolvent
  rw [hderived] at hm hheld hpaying hsame
  obtain ⟨-, hlength, hclasses⟩ := hheld
  have hlevels := length_of_arrayLevels hlength
  have hready : ∀ later : Machine σ,
      later.Upheld none ((c :: classes).map (·.mirror) ++ handles) →
      Continues ((c :: classes).map (·.mirror) ++ handles) m later →
        Ready (arrayLevels (c :: classes) (length :: lengths)) later.objects :=
    fun later hlater hsince => ready_of_holding hlater _ (hsince.holding hclasses)
  have hrefused : Oversized before.config.heapSize.toNat (length :: lengths) →
      m.allocateRooted (makeArrays ⟨c.descriptor.id, c.mirror.ref, length⟩
        (arrayLevels classes lengths)) = (.error (.of (.allocation .objectTooBig)), m) := by
    intro hbig
    rw [← hsame, ← hpaying.paid.capacity_eq, ← hlevels] at hbig
    exact allocateRooted_of_oversized hbig
  rw [newArrays_of_derived hderived, allocateWith_eq]
  constructor
  case levels => exact hlength
  case tree =>
    intro root hok
    obtain ⟨refs, hplanted⟩ := hm.plants hready (Prod.ext (eq_ok_of_mapError hok) rfl)
    refine ⟨refs, ?_, hplanted.nodup, hplanted.fresh, ?_⟩
    · exact hplanted.tree.mono fun r _ hget => (get?_dropAll _ _ r).trans hget
    · rw [hplanted.count, ← arrayCount_eq]
      exact congrArg arrayCount hlevels
  case classes =>
    intro root hok k d hd
    rw [registry_dropAll]
    exact h.toUpheld.classes_of_arrays hderived hready (Prod.ext (eq_ok_of_mapError hok) rfl) hd
  case tooBig =>
    constructor
    · rintro ⟨_, hfailed, hcause⟩
      obtain ⟨failure, hfirst, rfl⟩ := eq_error_of_mapError hfailed
      have hbig := hm.oversized_of_error hpaying hready hfirst hcause
      rw [hsame] at hbig
      exact hlevels ▸ hbig
    · intro hbig
      rw [hrefused hbig]
      exact ⟨_, rfl, rfl⟩
  case untouched =>
    intro hbig
    rw [hrefused hbig]
    exact dropAll_same m _

end Machine

namespace Session

variable {s : Session σ}

/-- In every session, once the classes of nested arrays are held, the arrays are built exactly as
the lengths say, and lengths that are too big leave nothing behind. -/
theorem Reached.builds_nested_arrays {config : Config} {bootSources : List σ}
    (h : Reached config bootSources s) {component : ClassDescriptor} {lengths : List Nat}
    (hlengths : lengths ≠ []) {classes : List HeldClass} {m : Machine σ}
    (hderived : s.machine.deriveNested component lengths.length = (.ok classes, m)) :
    m.BuildsArrays config.heapSize.toNat component lengths classes
      (s.machine.newArrays component lengths) := by
  obtain ⟨hsession, hconfig⟩ := h.sound
  have hheld := (hsession.machine.toUpheld.deriveNested component lengths.length).ok classes
    (congrArg Prod.fst hderived)
  obtain ⟨-, hlength, -⟩ := hheld
  rw [← hconfig]
  cases lengths with
  | nil => exact absurd rfl hlengths
  | cons length lengths =>
    cases classes with
    | nil => contradiction
    | cons c classes => exact hsession.machine.builds_arrays h.solvent hderived

/-- A class is loaded on a heap on which arrays of fifty elements are too big. -/
def shelf : Session Unit := withA 2 (withLoader (new { heapSize := 400 } []))

theorem shelf_reached : Reached { heapSize := 400 } [] shelf := Reached.start.withLoader.withA 2

/-- Two arrays of one element make three arrays with the one that holds them. Two arrays of fifty
elements are too big, and none of them are not. -/
theorem shelf_builds_arrays :
    ∃ classes m, shelf.machine.deriveNested (Registry.classA (Registry.loaderId 2) 1) 2 =
        (.ok classes, m) ∧
      (∃ root next refs,
        shelf.machine.newArrays (Registry.classA (Registry.loaderId 2) 1) [2, 1] = (.ok root, next) ∧
        next.objects.Nested (arrayLevels classes [2, 1]) root.ref refs ∧ refs.length = 3) ∧
      (∃ failure next,
        shelf.machine.newArrays (Registry.classA (Registry.loaderId 2) 1) [2, 50] =
          (.error failure, next) ∧
        failure.cause = .allocation .objectTooBig ∧ next.objects.heap = m.objects.heap) ∧
      ∃ root next, shelf.machine.newArrays (Registry.classA (Registry.loaderId 2) 1) [0, 50] =
        (.ok root, next) := by
  have hok : ∀ {α ε : Type} (outcome : Except ε α × Machine Unit),
      outcome.1.toOption.isSome = true → ∃ a m, outcome = (.ok a, m) := by
    rintro α ε ⟨_ | a, m⟩ hsome
    · contradiction
    · exact ⟨a, m, rfl⟩
  obtain ⟨classes, m, hderived⟩ := hok
    (shelf.machine.deriveNested (Registry.classA (Registry.loaderId 2) 1) 2) (by decide +kernel)
  have hbuilt : m.BuildsArrays 400 _ [2, 1] classes _ :=
    shelf_reached.builds_nested_arrays (by decide) hderived
  have hbig : m.BuildsArrays 400 _ [2, 50] classes _ :=
    shelf_reached.builds_nested_arrays (by decide) hderived
  obtain ⟨root, next, hmade⟩ := hok
    (shelf.machine.newArrays (Registry.classA (Registry.loaderId 2) 1) [2, 1]) (by decide +kernel)
  obtain ⟨refs, htree, -, -, hcount⟩ := hbuilt.tree root (congrArg Prod.fst hmade)
  have hoversized : Oversized 400 [2, 50] := ⟨1, 50, rfl, by decide, by decide⟩
  obtain ⟨failure, hfailed, hcause⟩ := hbig.tooBig.mpr hoversized
  refine ⟨classes, m, hderived, ⟨root, next, refs, hmade, ?_, hcount⟩,
    ⟨failure, _, Prod.ext hfailed rfl, hcause, (hbig.untouched hoversized).1⟩,
    hok _ (by decide +kernel)⟩
  rw [hmade] at htree
  exact htree

end Session
end Metaspace
