import Metaspace.Proofs.Registry.Derivation
import Metaspace.Proofs.Registry.Views

set_option autoImplicit false

namespace Metaspace.Registry

variable {σ ω : Type} {registry : Registry σ}

/-- A call of one of the operations that define classes. -/
inductive Call where
  | insert (d : ClassDefinition)
  | load (loader : LoaderId) (name : String)
  | derive (component : ClassDescriptor) (dimensions : Nat)

def Call.run (ask : Asking σ ω) (state : Registry σ × ω) :
    Call → Except Failure ClassDescriptor × (Registry σ × ω)
  | .insert d =>
    match state.1.insert d with
    | .ok (definition, next) => (.ok definition.descriptor, next, state.2)
    | .error e => (.error (.of (.classError e)), state)
  | .load loader name => Registry.load ask loader name state
  | .derive component dimensions =>
    match state.1.deriveArray component dimensions with
    | (.ok c, next) => (.ok c, next, state.2)
    | (.error e, next) => (.error (.of (.classError e)), next, state.2)

theorem Undergoes.run {before : Registry σ} (h : Undergoes before registry) {ask : Asking σ ω}
    (hask : ∀ source name state, Undergoes state.1 (ask source name state).2.1) (outside : ω)
    (call : Call) : Undergoes before (call.run ask (registry, outside)).2.1 := by
  cases call with
  | insert d =>
    unfold Call.run
    cases hinsert : registry.insert d with
    | error e =>
      simp only [hinsert]
      exact h
    | ok made =>
      simp only [hinsert]
      exact h.insert trivial hinsert
  | load loader name => exact h.load ask outside loader name hask
  | derive component dimensions =>
    have hderived := h.derive component dimensions
    unfold Call.run
    dsimp only
    generalize registry.deriveArray component dimensions = outcome at hderived ⊢
    obtain ⟨_ | _, next⟩ := outcome <;> exact hderived

/-- Whether a call has to define other classes before the one that it is for: the array class of
fewer dimensions can be derived and is not there yet. -/
def Call.Halfway (registry : Registry σ) : Call → Prop
  | .derive component dimensions =>
    dimensions ≤ FieldType.maxDimensions - component.dimensions ∧
      ∃ k c, 0 < k ∧ k < dimensions ∧ (registry.deriveArray component k).1 = .ok c ∧
        registry.get? c.id = none
  | _ => False

/-- Steps that find each class registered change nothing, so the first class that is new tells
whether anything was changed. -/
theorem Indexed.deriveSteps_unchanged (h : registry.Indexed) {component : ClassDescriptor} {n : Nat}
    {e : ClassError} (hrefused : (registry.deriveSteps component n).1 = .error e)
    (hold : ∀ k c, 0 < k → k < n → (registry.deriveSteps component k).1 = .ok c →
      registry.get? c.id ≠ none) :
    (registry.deriveSteps component n).2 = registry := by
  induction n generalizing component with
  | zero => rfl
  | succ n ih =>
    rcases deriveOne_cases h component with ⟨e', heq⟩ | ⟨c, heq, -⟩ | ⟨c, _, heq, hc⟩
    · rw [deriveSteps_of_error heq]
    · rw [deriveSteps_of_ok heq] at hrefused ⊢
      refine ih hrefused fun k d _ hk hok => ?_
      exact hold (k + 1) d (Nat.succ_pos k) (Nat.succ_lt_succ hk) (deriveSteps_of_ok heq k ▸ hok)
    · -- the new class is not the one that was asked for, since deriving it succeeds
      rcases Nat.eq_zero_or_pos n with rfl | hpos
      · rw [deriveSteps_of_ok heq] at hrefused
        contradiction
      · refine absurd hc.toFresh.get?_eq_none (hold 1 c Nat.one_pos (Nat.succ_lt_succ hpos) ?_)
        rw [deriveSteps_of_ok heq]
        rfl

theorem Indexed.deriveArray_unchanged (h : registry.Indexed) {component : ClassDescriptor} {n : Nat}
    {e : ClassError} (hrefused : (registry.deriveArray component n).1 = .error e)
    (hwhole : ¬ (Call.derive component n).Halfway registry) :
    (registry.deriveArray component n).2 = registry := by
  rcases registry.deriveArray_cases component n with ⟨e', heq⟩ | ⟨c, hget, -, hle, heq⟩
  · rw [heq]
  · rw [heq] at hrefused ⊢
    refine h.deriveSteps_unchanged hrefused fun k d hpos hk hok hnew => hwhole ?_
    refine ⟨hle, k, d, hpos, hk, ?_, hnew⟩
    rw [deriveArray_of_get? hget hpos (Nat.le_trans (Nat.le_of_lt hk) hle)]
    exact hok

theorem Indexed.deriveArray_leaves (h : registry.Indexed) {component : ClassDescriptor} {n : Nat}
    (hhalfway : (Call.derive component n).Halfway registry) :
    ∃ c, (registry.deriveArray component n).2.get? c.id = some c ∧ registry.get? c.id = none := by
  obtain ⟨hle, k, d, hpos, hk, hok, hnew⟩ := hhalfway
  obtain ⟨c, hget, heq⟩ := deriveArray_of_ok hok
  rw [heq] at hok
  rw [deriveArray_of_get? hget (Nat.lt_trans hpos hk) hle]
  exact ⟨d, h.deriveSteps_stays (h.get?_self hget) (Nat.le_of_lt hk) hok, hnew⟩

/-- A call that is refused changes nothing, unless it is halfway: then a class stays that was not
registered before. -/
theorem Undergoes.refused_exactly {bootSources : List σ} (h : Undergoes (new bootSources) registry)
    (ask : Asking σ ω) (hask : ∀ source name state, (ask source name state).2.1 = state.1)
    (outside : ω) (call : Call) (failure : Failure)
    (hrefused : (call.run ask (registry, outside)).1 = .error failure) :
    (¬ call.Halfway registry → (call.run ask (registry, outside)).2.1 = registry) ∧
    (call.Halfway registry → ∃ c ∈ (call.run ask (registry, outside)).2.1.registered,
      registry.get? c.id = none) := by
  have hindexed := (h.viewed (new_viewed bootSources)).1.toIndexed
  cases call with
  | insert d =>
    refine ⟨fun _ => ?_, False.elim⟩
    unfold Call.run at hrefused ⊢
    cases hinsert : registry.insert d with
    | error e => simp only [hinsert]
    | ok made => simp [hinsert] at hrefused
  | load loader name =>
    refine ⟨fun _ => ?_, False.elim⟩
    have hasked := asked_of_quiet hask loader name (registry, outside)
    have hloaded : (Registry.load ask loader name (registry, outside)).1 = .error failure := hrefused
    rcases load_cases ask loader name (registry, outside) (hasked.symm ▸ hindexed) with
      ⟨-, -, heq⟩ | ⟨c, hok, -⟩ | ⟨c, -, hok, -⟩
    · exact heq.trans hasked
    · rw [hok] at hloaded
      contradiction
    · rw [hok] at hloaded
      contradiction
  | derive component dimensions =>
    have hafter := ((h.derive component dimensions).viewed (new_viewed bootSources)).1
    have hunchanged : ∀ e, (registry.deriveArray component dimensions).1 = .error e →
        ¬ (Call.derive component dimensions).Halfway registry →
          (registry.deriveArray component dimensions).2 = registry :=
      fun _ => hindexed.deriveArray_unchanged
    have hleaves : (Call.derive component dimensions).Halfway registry →
        ∃ c, (registry.deriveArray component dimensions).2.get? c.id = some c ∧
          registry.get? c.id = none := hindexed.deriveArray_leaves
    unfold Call.run at hrefused ⊢
    dsimp only at hrefused ⊢
    generalize registry.deriveArray component dimensions = outcome at *
    obtain ⟨e | c, next⟩ := outcome
    · refine ⟨hunchanged e rfl, fun hhalfway => ?_⟩
      obtain ⟨c, hget, hnew⟩ := hleaves hhalfway
      exact ⟨c, hafter.mem_registered_of_get? hget, hnew⟩
    · contradiction

/-- A registry with a class `A` and a class that has the name of its nested arrays. -/
def squatted : Registry Unit :=
  let loaded := ((Call.load bootLoader "A").run stocked (new [()], ())).2.1
  ((Call.insert (.ordinary (.object "[[LA;") bootLoader 0)).run stocked (loaded, ())).2.1

theorem undergoes_squatted : Undergoes (new [()]) squatted :=
  .run (.run (Develops.refl _) (fun _ _ _ => .refl _) () _) (fun _ _ _ => .refl _) () _

/-- The array class of one dimension is derived, the next one is refused, and the first stays. -/
theorem squatted_keeps_half :
    Undergoes (new [()]) squatted ∧
    (squatted.deriveArray (classA bootLoader 1) 2).1 = .error (.duplicateClass "[[LA;" bootLoader) ∧
    squatted.registered.map (·.name) = ["A", "[[LA;"] ∧
    (squatted.deriveArray (classA bootLoader 1) 2).2.registered.map (·.name) = ["A", "[[LA;", "[LA;"] ∧
    (squatted.deriveArray (classA bootLoader 1) 2).2.generation = 3 ∧ squatted.generation = 2 :=
  ⟨undergoes_squatted, by decide +kernel, by decide +kernel, by decide +kernel, by decide +kernel,
    by decide +kernel⟩

theorem squatted_refusals :
    (((Call.load bootLoader "[[LA;").run stocked (squatted, ())).2.1 = squatted) ∧
    ∃ c ∈ ((Call.derive (classA bootLoader 1) 2).run stocked (squatted, ())).2.1.registered,
      squatted.get? c.id = none := by
  have hloaded := Undergoes.refused_exactly undergoes_squatted stocked (fun _ _ _ => rfl) ()
    (.load bootLoader "[[LA;") (.of (.classError (.invalidName "[[LA;"))) (by rfl)
  have hderived := Undergoes.refused_exactly undergoes_squatted stocked (fun _ _ _ => rfl) ()
    (.derive (classA bootLoader 1) 2) (.of (.classError (.duplicateClass "[[LA;" bootLoader))) (by rfl)
  refine ⟨hloaded.1 id, hderived.2 ⟨by decide, 1, _, by decide, by decide, by rfl, ?_⟩⟩
  decide +kernel

end Metaspace.Registry
