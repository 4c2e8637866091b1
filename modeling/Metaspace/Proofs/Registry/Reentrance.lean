import Metaspace.Proofs.Registry.Composition
import Metaspace.Proofs.Registry.Views

/-!
Loading while the sources are at work on the same registry. A source may load the very class it is
asked for, derive arrays of it, remove it or unload its loader before it answers, and its own loads
ask sources again. The loader then defines the class unless the name got taken meanwhile.
-/

set_option autoImplicit false

namespace Metaspace.Registry

variable {σ ω : Type} {registry : Registry σ} {loader : LoaderId} {name : String}
  {c : ClassDescriptor}

theorem Indexed.insert_of_taken (h : registry.Indexed)
    (hlookup : registry.lookupIn? loader name = some c) (size : Nat) :
    registry.insert (.ordinary (.object name) loader size) =
      .error (.duplicateClass name loader) := by
  obtain ⟨hget, hloader, -⟩ := h.lookupIn?_eq_some.mp hlookup
  obtain ⟨l, hl, hid⟩ := h.loader_of_get? hget
  obtain ⟨e, he, -⟩ := h.entry?_of_mem_graph hl
  have hunloading := h.isUnloading_eq_false hl
  rw [hid, hloader] at he hunloading
  obtain ⟨id, hindex, hvalue⟩ := Option.bind_eq_some_iff.mp hlookup
  have htaken : registry.classes.insertWith ⟨loader, name⟩
      (.ofDefinition · (.ordinary (.object name) loader size)) = (.taken id, registry.classes) := by
    simp only [IdTable.insertWith, hindex]
  -- only an array class is found again, and what is defined here is none
  have hkind : ¬ (c.isArray = true ∧ c.kind = .ordinary) := by
    rintro ⟨harray, hkind⟩
    simp [ClassDescriptor.isArray, ClassDescriptor.array?, hkind] at harray
  simp only [insert, ClassDefinition.ordinary, he, hunloading, admits, FieldType.isArray,
    FieldType.name, Registry.get?] at htaken ⊢
  simp [htaken, hvalue, hkind]

theorem Indexed.define_of_taken (h : registry.Indexed)
    (hlookup : registry.lookupIn? loader name = some c) (size : Nat) :
    registry.define loader name size = (.ok c, registry) := by
  simp only [define, h.insert_of_taken hlookup, hlookup]

theorem Indexed.insert_of_free (h : registry.Indexed) {d : ClassDefinition}
    (hlookup : registry.lookupIn? d.loader d.type.name = none) :
    (∃ e, registry.insert d = .error e ∧ ∀ n l, e ≠ .duplicateClass n l) ∨
    (∃ c, registry.insert d = .ok (.defined c, registry.adding c) ∧ registry.Entered d c) := by
  cases hentry : registry.entry? d.loader with
  | none => exact Or.inl ⟨.unknownLoader d.loader, by simp [insert, hentry], by simp⟩
  | some e =>
    obtain ⟨hmem, hid⟩ := h.entry?_eq_some.mp hentry
    have hhoused : e.loader ∈ registry.graph := Indexed.mem_graph.mpr ⟨e, hmem, rfl⟩
    have hunloading := h.isUnloading_eq_false hhoused
    rw [hid] at hunloading
    cases hadmits : registry.admits d with
    | error refusal =>
      refine Or.inl ⟨refusal, by simp [insert, hentry, hunloading, hadmits], ?_⟩
      unfold admits at hadmits
      split at hadmits <;> split at hadmits <;> cases hadmits <;> simp
    | ok =>
      by_cases hids : registry.classes.entries.size < classIds.bound
      · exact Or.inr (h.insert_of_unnamed ⟨e.loader, hhoused, hid⟩ hadmits hlookup hids)
      · rcases registry.classes.insertWith_cases ⟨d.loader, d.type.name⟩ (.ofDefinition · d) with
          ⟨id, htaken, -⟩ | ⟨-, -, heq⟩ | ⟨id, -, hnext, -⟩
        · rw [h.idOf?_eq_none hlookup] at htaken
          contradiction
        · exact Or.inl ⟨.idsExhausted, by simp [insert, hentry, hunloading, hadmits, heq], by simp⟩
        · have hbound := id.number_le
          omega

/-- A name that is free is defined, or the definition fails for a reason of the registry's own. The
class cannot vanish. -/
theorem Indexed.define_of_free (h : registry.Indexed)
    (hlookup : registry.lookupIn? loader name = none) (size : Nat) :
    (∃ e, registry.define loader name size = (.error (.of (.classError e)), registry)) ∨
    (∃ c, registry.define loader name size = (.ok c, registry.adding c) ∧
      registry.Entered (.ordinary (.object name) loader size) c) := by
  unfold define
  rcases h.insert_of_free (d := .ordinary (.object name) loader size) hlookup with
    ⟨e, heq, hother⟩ | ⟨c, heq, hc⟩
  · rw [heq]
    cases e with
    | duplicateClass n l => exact absurd rfl (hother n l)
    | _ => exact Or.inl ⟨_, rfl⟩
  · rw [heq]
    exact Or.inr ⟨c, rfl, hc⟩

/-- The bytes that the sources come up with, if it comes to asking them. -/
def found? (ask : Asking σ ω) (loader : LoaderId) (name : String) (state : Registry σ × ω) :
    Option ByteArray :=
  match FieldType.ofName? name, state.1.lookupIn? loader name, state.1.loader? loader with
  | some (.object _), none, some l =>
    if state.1.isUnloading loader then none
    else (findClass ask name l.sources state).1.toOption.join
  | _, _, _ => none

theorem findClass_error {ask : Asking σ ω} {sources : List σ} {state : Registry σ × ω}
    {failure : Failure} (h : (findClass ask name sources state).1 = .error failure) :
    ∃ source before reason, (ask source name before).1 = .error reason ∧
      failure = reason.within (.askingSource name) := by
  induction sources generalizing state with
  | nil => contradiction
  | cons source sources ih =>
    unfold findClass at h
    split at h
    · contradiction
    · exact ih h
    · rename_i reason _ heq
      exact ⟨source, state, reason, by rw [heq], (Except.error.inj h).symm⟩

/-- How a call goes: the class is there, the registry refuses, a source fails, or the class is
defined with the bytes that were found. -/
theorem load_outcomes (ask : Asking σ ω) (loader : LoaderId) (name : String)
    (state : Registry σ × ω) :
    (∃ c, state.1.lookupIn? loader name = some c ∧ asked ask loader name state = state ∧
      found? ask loader name state = none ∧ load ask loader name state = (.ok c, state)) ∨
    (∃ e, found? ask loader name state = none ∧
      load ask loader name state =
        (.error (.of (.classError e)), asked ask loader name state)) ∨
    (∃ source before reason, (ask source name before).1 = .error reason ∧
      found? ask loader name state = none ∧
      load ask loader name state =
        (.error ((reason.within (.askingSource name)).within (.loading name)),
          asked ask loader name state)) ∨
    (∃ bytes, found? ask loader name state = some bytes ∧
      load ask loader name state =
        (((asked ask loader name state).1.define loader name bytes.size).1,
          ((asked ask loader name state).1.define loader name bytes.size).2,
          (asked ask loader name state).2)) := by
  unfold load asked found?
  cases hname : FieldType.ofName? name with
  | none => exact Or.inr (Or.inl ⟨.invalidName name, rfl, rfl⟩)
  | some type =>
    cases type with
    | primitive _ => exact Or.inr (Or.inl ⟨.invalidName name, rfl, rfl⟩)
    | array _ => exact Or.inr (Or.inl ⟨.invalidName name, rfl, rfl⟩)
    | object _ =>
      cases hlookup : state.1.lookupIn? loader name with
      | some c => exact Or.inl ⟨c, rfl, rfl, rfl, rfl⟩
      | none =>
        right
        cases hloader : state.1.loader? loader with
        | none => exact Or.inl ⟨_, rfl, rfl⟩
        | some l =>
          by_cases hunloading : state.1.isUnloading loader = true
          · exact Or.inl ⟨.loaderUnloading loader, by simp [hunloading], by simp [hunloading]⟩
          · simp only [hunloading, Bool.false_eq_true, if_false]
            cases hfind : findClass ask name l.sources state with
            | mk outcome after =>
              match outcome with
              | .error failure =>
                obtain ⟨source, before, reason, hreason, rfl⟩ :=
                  findClass_error (congrArg Prod.fst hfind)
                exact Or.inr (Or.inl ⟨source, before, reason, hreason, rfl, rfl⟩)
              | .ok none => exact Or.inl ⟨_, rfl, rfl⟩
              | .ok (some bytes) => exact Or.inr (Or.inr ⟨bytes, rfl, rfl⟩)

def Conducted (ask : Asking σ ω) : Prop :=
  ∀ source name state, Undergoes state.1 (ask source name state).2.1

theorem Indexed.eq_of_lookupIn? (h : registry.Indexed)
    (hlookup : registry.lookupIn? loader name = some c) {d : ClassDescriptor}
    (hd : d ∈ registry.registered) (hloader : d.loader = loader) (hname : d.name = name) :
    d = c := by
  have hfound := h.lookupIn?_eq_some.mpr ⟨h.mem_registered.mp hd, hloader, hname⟩
  exact Option.some.inj (hfound.symm.trans hlookup)

/-- What a call of `load` does, whatever the sources do meanwhile: it defines one class at most, and
only if the name is free once the sources have answered. -/
structure LoadsOnce (ask : Asking σ ω) (loader : LoaderId) (name : String)
    (before : Registry σ × ω) : Prop where
  answer : ∀ c, (load ask loader name before).1 = .ok c →
    c ∈ (load ask loader name before).2.1.registered ∧ c.loader = loader ∧ c.name = name ∧
      ∀ d ∈ (load ask loader name before).2.1.registered,
        d.loader = loader → d.name = name → d = c
  /-- No source is asked for a class that is there, whatever the sources would do. -/
  known : ∀ c, before.1.lookupIn? loader name = some c →
    (∀ d, (load ask loader name before).1 = .ok d → d = c) ∧
      (load ask loader name before).2 = before ∧
      ∀ other : Asking σ ω, load other loader name before = load ask loader name before
  taken : ∀ c, (asked ask loader name before).1.lookupIn? loader name = some c →
    (load ask loader name before).2 = asked ask loader name before ∧
      (∀ d, (load ask loader name before).1 = .ok d → d = c) ∧
      ((found? ask loader name before).isSome → (load ask loader name before).1 = .ok c)
  free : (asked ask loader name before).1.lookupIn? loader name = none →
    ∀ c, (load ask loader name before).1 = .ok c →
      (load ask loader name before).2.1.registered =
        (asked ask loader name before).1.registered ++ [c]
  /-- That the class vanished is only reported if a source reports it. -/
  vanished : ∀ failure n, (load ask loader name before).1 = .error failure →
    failure.cause = .vanished n →
      ∃ source state reason, (ask source name state).1 = .error reason ∧ reason.cause = .vanished n
  failed : ∀ failure, (load ask loader name before).1 = .error failure →
    (load ask loader name before).2 = asked ask loader name before

theorem known_of_lookupIn? (ask : Asking σ ω) {before : Registry σ × ω}
    (hlookup : before.1.lookupIn? loader name = some c) :
    (∀ d, (load ask loader name before).1 = .ok d → d = c) ∧
      (load ask loader name before).2 = before ∧
      ∀ other : Asking σ ω, load other loader name before = load ask loader name before := by
  unfold load
  rw [hlookup]
  split
  · exact ⟨fun d hd => (Except.ok.inj hd).symm, rfl, fun _ => rfl⟩
  · exact ⟨fun d hd => by contradiction, rfl, fun _ => rfl⟩

/-- The call leaves what the sources made of the registry as it is, or adds the one class that is
not there yet. -/
theorem load_defines (ask : Asking σ ω) (loader : LoaderId) (name : String)
    (before : Registry σ × ω) (h : (asked ask loader name before).1.Indexed) :
    (∃ failure, load ask loader name before = (.error failure, asked ask loader name before) ∧
      (((asked ask loader name before).1.lookupIn? loader name).isSome →
        found? ask loader name before = none) ∧
      ∀ n, failure.cause = .vanished n → ∃ source state reason,
        (ask source name state).1 = .error reason ∧ reason.cause = .vanished n) ∨
    (∃ c, load ask loader name before = (.ok c, asked ask loader name before) ∧
      (asked ask loader name before).1.lookupIn? loader name = some c) ∨
    (∃ c, load ask loader name before =
        (.ok c, (asked ask loader name before).1.adding c, (asked ask loader name before).2) ∧
      (asked ask loader name before).1.lookupIn? loader name = none ∧
      ((asked ask loader name before).1.adding c).lookupIn? loader name = some c ∧
      (asked ask loader name before).1.Fresh c) := by
  rcases load_outcomes ask loader name before with
    ⟨c, hlookup, hsame, -, hload⟩ | ⟨e, hfound, hload⟩ |
    ⟨source, state, reason, hreason, hfound, hload⟩ | ⟨bytes, -, hload⟩
  · rw [hsame]
    exact Or.inr (Or.inl ⟨c, hload, hlookup⟩)
  · exact Or.inl ⟨_, hload, fun _ => hfound, by simp [Failure.of]⟩
  · exact Or.inl ⟨_, hload, fun _ => hfound, fun n hn => ⟨source, state, reason, hreason, hn⟩⟩
  · cases hlookup : (asked ask loader name before).1.lookupIn? loader name with
    | some c =>
      rw [h.define_of_taken hlookup] at hload
      exact Or.inr (Or.inl ⟨c, hload, rfl⟩)
    | none =>
      rcases h.define_of_free hlookup bytes.size with ⟨e, hdefine⟩ | ⟨c, hdefine, hc⟩
      · rw [hdefine] at hload
        exact Or.inl ⟨_, hload, by simp, by simp [Failure.of]⟩
      · rw [hdefine] at hload
        refine Or.inr (Or.inr ⟨c, hload, rfl, ?_, hc.toFresh⟩)
        rw [(h.adding hc.toFresh).lookupIn?_eq_some, hc.toFresh.get?_adding, if_pos rfl]
        have hshape := hc.eq_ofDefinition
        exact ⟨rfl, by rw [hshape]; rfl, by rw [hshape]; rfl⟩

/-- Loading defines a class at most once in whatever registry a run leads to, also if the sources
change the registry while they are asked. -/
theorem loads_once {bootSources : List σ} {before : Registry σ × ω}
    (h : Undergoes (new bootSources) before.1) {ask : Asking σ ω} (hask : Conducted ask)
    (loader : LoaderId) (name : String) : LoadsOnce ask loader name before := by
  have hasked : Undergoes (new bootSources) (asked ask loader name before).1 :=
    asked_keeps (fun source name state hstate => hstate.trans (hask source name state)) loader
      name h
  have hindexed := (hasked.viewed (new_viewed bootSources)).1.toIndexed
  have hcases := load_defines ask loader name before hindexed
  refine ⟨fun c hc => ?_, fun c hlookup => ?_, fun c hlookup => ?_, fun hlookup c hc => ?_,
    fun failure n hfailure hvanished => ?_, fun failure hfailure => ?_⟩
  · have hregistered : (load ask loader name before).2.1.Indexed ∧
        (load ask loader name before).2.1.lookupIn? loader name = some c := by
      rcases hcases with ⟨failure, hload, -⟩ | ⟨d, hload, hlookup⟩ | ⟨d, hload, -, hlookup, hd⟩ <;>
        rw [hload] at hc ⊢
      · contradiction
      · obtain rfl := Except.ok.inj hc
        exact ⟨hindexed, hlookup⟩
      · obtain rfl := Except.ok.inj hc
        exact ⟨hindexed.adding hd, hlookup⟩
    obtain ⟨hafter, hlookup⟩ := hregistered
    obtain ⟨hget, hloader, hname⟩ := hafter.lookupIn?_eq_some.mp hlookup
    exact ⟨hafter.mem_registered.mpr hget, hloader, hname, fun d => hafter.eq_of_lookupIn? hlookup⟩
  · exact known_of_lookupIn? ask hlookup
  · rcases hcases with ⟨failure, hload, hfound, -⟩ | ⟨d, hload, hd⟩ | ⟨d, hload, hd, -⟩
    · rw [hlookup] at hfound
      simp [hload, hfound]
    · obtain rfl := Option.some.inj (hd.symm.trans hlookup)
      simp [hload]
    · rw [hd] at hlookup
      contradiction
  · rcases hcases with ⟨failure, hload, -⟩ | ⟨d, -, hd⟩ | ⟨d, hload, -⟩
    · rw [hload] at hc
      contradiction
    · rw [hd] at hlookup
      contradiction
    · rw [hload] at hc ⊢
      obtain rfl := Except.ok.inj hc
      exact adding_registered _ _
  · rcases hcases with ⟨reason, hload, -, hsource⟩ | ⟨d, hload, -⟩ | ⟨d, hload, -⟩ <;>
      rw [hload] at hfailure
    · obtain rfl := Except.error.inj hfailure
      exact hsource n hvanished
    · contradiction
    · contradiction
  · rcases hcases with ⟨reason, hload, -⟩ | ⟨d, hload, -⟩ | ⟨d, hload, -⟩
    · rw [hload]
    · rw [hload] at hfailure
      contradiction
    · rw [hload] at hfailure
      contradiction

def hosted : Registry Unit :=
  ((new []).newLoader? "app" [()]).elim (new []) (·.2)

theorem undergoes_hosted : Undergoes (new []) hosted :=
  .newLoader (.refl _) rfl

/-- A source that loads the class it is asked for through the same loader, before it answers. -/
def reentrant (loader : LoaderId) : Asking Unit Unit := fun _ name state =>
  (.ok (some .empty), (load stocked loader name state).2)

theorem conducted_reentrant (loader : LoaderId) : Conducted (reentrant loader) :=
  fun _ name _ => .load stocked () loader name (.refl _) fun _ _ _ => .refl _

/-- The class that the inner call defined is what the outer call answers with. -/
theorem reentrant_loads_once :
    (load (reentrant (loaderId 2)) (loaderId 2) "A" (hosted, ())).1 =
      (load stocked (loaderId 2) "A" (hosted, ())).1 ∧
    (load (reentrant (loaderId 2)) (loaderId 2) "A" (hosted, ())).2.1.registered.length = 1 ∧
    LoadsOnce (reentrant (loaderId 2)) (loaderId 2) "A" (hosted, ()) :=
  ⟨by decide +kernel, by decide +kernel,
    loads_once undergoes_hosted (conducted_reentrant _) (loaderId 2) "A"⟩

/-- A source that defines the class it is asked for, and then answers that it has none. -/
def withholding (loader : LoaderId) : Asking Unit Unit := fun _ name state =>
  match state.1.insert (.ordinary (.object name) loader 0) with
  | .ok (_, next) => (.ok none, next, state.2)
  | .error _ => (.ok none, state)

theorem conducted_withholding (loader : LoaderId) : Conducted (withholding loader) := by
  intro source name state
  unfold withholding
  split
  · rename_i heq
    exact .insert (.refl _) trivial heq
  · exact .refl _

/-- A class that the source defined is not what the call answers with, if no source comes up with
the class. -/
theorem withholding_not_found :
    Undergoes (new []) hosted ∧ Conducted (withholding (loaderId 2)) ∧
    hosted.registered = [] ∧
    (asked (withholding (loaderId 2)) (loaderId 2) "A" (hosted, ())).1.registered =
      [⟨classId 1, .object "A", loaderId 2, .ordinary, 0⟩] ∧
    (load (withholding (loaderId 2)) (loaderId 2) "A" (hosted, ())).2.1.registered =
      [⟨classId 1, .object "A", loaderId 2, .ordinary, 0⟩] ∧
    (load (withholding (loaderId 2)) (loaderId 2) "A" (hosted, ())).1 =
      .error (.of (.classError (.classNotFound "A" (loaderId 2)))) :=
  ⟨undergoes_hosted, conducted_withholding _, by decide +kernel, by decide +kernel,
    by decide +kernel, by decide +kernel⟩

end Metaspace.Registry
