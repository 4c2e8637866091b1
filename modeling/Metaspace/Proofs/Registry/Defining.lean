import Metaspace.Proofs.Registry.Growth
import Metaspace.Registry.Derivation
import Metaspace.Registry.Loading

set_option autoImplicit false

namespace Metaspace.Registry

variable {σ ω : Type} {registry : Registry σ}

theorem Indexed.lookupIn?_eq_some (h : registry.Indexed) {loader : LoaderId} {name : String}
    {c : ClassDescriptor} :
    registry.lookupIn? loader name = some c ↔
      registry.get? c.id = some c ∧ c.loader = loader ∧ c.name = name := by
  unfold lookupIn? IdTable.getKeyed?
  rw [Option.bind_eq_some_iff]
  constructor
  · rintro ⟨id, hid, hget⟩
    obtain ⟨value, hentry⟩ := (h.table.idOf?_iff _ id).mp hid
    have hvalue : registry.classes.get? id = some value := IdTable.get?_eq_some.mpr ⟨_, hentry⟩
    rw [hget, Option.some.injEq] at hvalue
    subst hvalue
    obtain ⟨rfl, rfl⟩ := ClassKey.mk.inj (h.keyed id _ c hentry)
    exact ⟨h.get?_self hget, rfl, rfl⟩
  · rintro ⟨hget, rfl, rfl⟩
    obtain ⟨key, hentry⟩ := IdTable.get?_eq_some.mp hget
    have hkey := h.keyed c.id key c hentry
    subst hkey
    exact ⟨c.id, (h.table.idOf?_iff _ c.id).mpr ⟨c, hentry⟩, hget⟩

structure Entered (registry : Registry σ) (d : ClassDefinition) (c : ClassDescriptor) : Prop
    extends Fresh registry c where
  eq_ofDefinition : c = .ofDefinition c.id d
  admitted : registry.admits d = .ok ()

theorem insert_cases (h : registry.Indexed) (d : ClassDefinition) :
    (∃ e, registry.insert d = .error e) ∨
    (∃ c, registry.insert d = .ok (.existing c, registry) ∧ registry.get? c.id = some c) ∨
    (∃ c, registry.insert d = .ok (.defined c, registry.adding c) ∧ registry.Entered d c) := by
  unfold insert
  cases hentry : registry.entry? d.loader with
  | none => exact Or.inl ⟨_, rfl⟩
  | some e =>
    cases hunloading : registry.isUnloading d.loader with
    | true => exact Or.inl ⟨_, rfl⟩
    | false =>
      cases hadmits : registry.admits d with
      | error e => exact Or.inl ⟨_, rfl⟩
      | ok u =>
        rcases registry.classes.insertWith_cases ⟨d.loader, d.type.name⟩ (.ofDefinition · d) with
          ⟨id, -, heq⟩ | ⟨-, -, heq⟩ | ⟨id, hkey, hid, heq⟩
        · cases hget : registry.get? id with
          | none => simp [heq, hget]
          | some c =>
            by_cases hsame : c.isArray ∧ c.kind = d.kind
            · right
              left
              refine ⟨c, ?_, h.get?_self hget⟩
              simp [heq, hget, hsame]
            · left
              simp [heq, hget, hsame]
        · simp [heq]
        · right
          right
          obtain ⟨hmem, hloader⟩ := h.entry?_eq_some.mp hentry
          have hhoused : ∃ l ∈ registry.graph, l.id = d.loader :=
            ⟨e.loader, Indexed.mem_graph.mpr ⟨e, hmem, rfl⟩, hloader⟩
          refine ⟨.ofDefinition id d, ?_, ⟨⟨hid, hkey, hhoused⟩, rfl, hadmits⟩⟩
          simp only [heq]
          rfl

theorem kind_of_array? {c : ClassDescriptor} {a : ArrayClass} (h : c.array? = some a) :
    c.kind = .array a := by
  unfold ClassDescriptor.array? at h
  split at h
  · contradiction
  · rename_i hkind
    rw [hkind, Option.some.inj h]

theorem Entered.kind_eq {d : ClassDefinition} {c : ClassDescriptor} (hc : registry.Entered d c) :
    c.kind = d.kind := by
  rw [hc.eq_ofDefinition]
  rfl

theorem Entered.component {d : ClassDefinition} {c : ClassDescriptor} (hc : registry.Entered d c)
    {a : ArrayClass} (harray : c.array? = some a) :
    ∃ component, registry.get? a.component.id = some component := by
  have hadmits := hc.admitted
  simp only [admits, ← hc.kind_eq, kind_of_array? harray] at hadmits
  split at hadmits
  · rename_i hcontains
    exact Option.isSome_iff_exists.mp hcontains
  · contradiction

theorem Entered.layered {d : ClassDefinition} {c : ClassDescriptor} (h : registry.Layered)
    (hc : registry.Entered d c) : (registry.adding c).Layered :=
  h.adding hc.toFresh fun _ => hc.component

theorem Entered.coherent {d : ClassDefinition} {c : ClassDescriptor} (h : registry.Coherent)
    (hc : registry.Entered d c) (hkind : registry.Genuine d.kind) :
    (registry.adding c).Coherent := by
  refine h.adding hc.toFresh fun a harray => ?_
  obtain ⟨component, hget⟩ := hc.component harray
  rw [← hc.kind_eq, kind_of_array? harray] at hkind
  exact ⟨component, hget, hkind.2 component hget⟩

theorem genuine_arrayOver {component : ClassDescriptor}
    (hget : registry.get? component.id = some component)
    (hdimensions : component.dimensions < FieldType.maxDimensions) :
    registry.Genuine (ClassDefinition.arrayOver component hdimensions).kind := by
  refine ⟨IdTable.issued_of_get? hget, ?_⟩
  intro other hother
  have heq : some component = some other := hget.symm.trans hother
  obtain rfl := Option.some.inj heq
  exact ⟨rfl, rfl⟩

theorem deriveOne_cases (h : registry.Indexed) (component : ClassDescriptor) :
    (∃ e, registry.deriveOne component = .error e) ∨
    (∃ c, registry.deriveOne component = .ok (c, registry) ∧ registry.get? c.id = some c) ∨
    (∃ c hdimensions, registry.deriveOne component = .ok (c, registry.adding c) ∧
      registry.Entered (.arrayOver component hdimensions) c) := by
  unfold deriveOne
  by_cases hdimensions : component.dimensions < FieldType.maxDimensions
  · simp only [hdimensions, dif_pos]
    split
    · rename_i c hfound
      obtain ⟨hlookup, -⟩ := Option.filter_eq_some_iff.mp hfound
      exact Or.inr (Or.inl ⟨c, rfl, (h.lookupIn?_eq_some.mp hlookup).1⟩)
    · rcases insert_cases h (.arrayOver component hdimensions) with
        ⟨e, heq⟩ | ⟨c, heq, hget⟩ | ⟨c, heq, hc⟩
      · rw [heq]
        exact Or.inl ⟨e, rfl⟩
      · rw [heq]
        exact Or.inr (Or.inl ⟨c, rfl, hget⟩)
      · rw [heq]
        exact Or.inr (Or.inr ⟨c, trivial, rfl, hc⟩)
  · rw [dif_neg hdimensions]
    exact Or.inl ⟨_, rfl⟩

theorem deriveSteps_keeps {P : Registry σ → Prop} (hindexed : ∀ r, P r → r.Indexed)
    (hstep : ∀ {r : Registry σ} {component c : ClassDescriptor} {hdimensions}, P r →
      r.get? component.id = some component → r.Entered (.arrayOver component hdimensions) c →
      P (r.adding c))
    (hP : P registry) {component : ClassDescriptor}
    (hget : registry.get? component.id = some component) (n : Nat) :
    P (registry.deriveSteps component n).2 ∧
      ∀ c, (registry.deriveSteps component n).1 = .ok c →
        (registry.deriveSteps component n).2.get? c.id = some c := by
  induction n generalizing registry component with
  | zero =>
    refine ⟨hP, ?_⟩
    intro c hc
    obtain rfl := Except.ok.inj hc
    exact hget
  | succ n ih =>
    unfold deriveSteps
    rcases deriveOne_cases (hindexed _ hP) component with ⟨e, heq⟩ | ⟨c, heq, hc⟩ | ⟨c, _, heq, hc⟩
    · simp only [heq]
      exact ⟨hP, fun c hc => by contradiction⟩
    · simp only [heq]
      exact ih hP hc
    · simp only [heq]
      refine ih (hstep hP hget hc) ?_
      rw [hc.toFresh.get?_adding, if_pos rfl]

theorem deriveArray_keeps {P : Registry σ → Prop} (hindexed : ∀ r, P r → r.Indexed)
    (hstep : ∀ {r : Registry σ} {component c : ClassDescriptor} {hdimensions}, P r →
      r.get? component.id = some component → r.Entered (.arrayOver component hdimensions) c →
      P (r.adding c))
    (hP : P registry) (component : ClassDescriptor) (n : Nat) :
    P (registry.deriveArray component n).2 ∧
      ∀ c, (registry.deriveArray component n).1 = .ok c →
        (registry.deriveArray component n).2.get? c.id = some c := by
  simp only [deriveArray]
  split
  · exact ⟨hP, fun c hc => by contradiction⟩
  · split
    · exact ⟨hP, fun c hc => by contradiction⟩
    · rename_i c hget
      exact deriveSteps_keeps hindexed hstep hP ((hindexed _ hP).get?_self hget) n

theorem define_cases (h : registry.Indexed) (loader : LoaderId) (name : String) (size : Nat) :
    (∃ failure, registry.define loader name size = (.error failure, registry)) ∨
    (∃ c, registry.define loader name size = (.ok c, registry) ∧ registry.get? c.id = some c) ∨
    (∃ c, registry.define loader name size = (.ok c, registry.adding c) ∧
      registry.Entered (.ordinary (.object name) loader size) c) := by
  unfold define
  rcases insert_cases h (.ordinary (.object name) loader size) with
    ⟨e, heq⟩ | ⟨c, heq, hget⟩ | ⟨c, heq, hc⟩
  · rw [heq]
    cases e with
    | duplicateClass _ _ =>
      cases hlookup : registry.lookupIn? loader name with
      | none => exact Or.inl ⟨_, rfl⟩
      | some c => exact Or.inr (Or.inl ⟨c, rfl, (h.lookupIn?_eq_some.mp hlookup).1⟩)
    | _ => exact Or.inl ⟨_, rfl⟩
  · rw [heq]
    exact Or.inr (Or.inl ⟨c, rfl, hget⟩)
  · rw [heq]
    exact Or.inr (Or.inr ⟨c, rfl, hc⟩)

theorem findClass_keeps {P : Registry σ → Prop} {ask : Asking σ ω}
    (hask : ∀ source name state, P state.1 → P (ask source name state).2.1) (name : String)
    (sources : List σ) {state : Registry σ × ω} (hP : P state.1) :
    P (findClass ask name sources state).2.1 := by
  induction sources generalizing state with
  | nil => exact hP
  | cons source sources ih =>
    have hnext := hask source name state hP
    unfold findClass
    split
    · rename_i heq
      rw [heq] at hnext
      exact hnext
    · rename_i heq
      rw [heq] at hnext
      exact ih hnext
    · rename_i heq
      rw [heq] at hnext
      exact hnext

/-- The state after the sources were asked for a class, if it comes to that. -/
def asked (ask : Asking σ ω) (loader : LoaderId) (name : String) (state : Registry σ × ω) :
    Registry σ × ω :=
  match FieldType.ofName? name, state.1.lookupIn? loader name, state.1.loader? loader with
  | some (.object _), none, some l =>
    if state.1.isUnloading loader then state else (findClass ask name l.sources state).2
  | _, _, _ => state

theorem asked_keeps {P : Registry σ → Prop} {ask : Asking σ ω}
    (hask : ∀ source name state, P state.1 → P (ask source name state).2.1) (loader : LoaderId)
    (name : String) {state : Registry σ × ω} (hP : P state.1) :
    P (asked ask loader name state).1 := by
  unfold asked
  split
  · split
    · exact hP
    · exact findClass_keeps hask name _ hP
  · exact hP

theorem asked_of_quiet {ask : Asking σ ω}
    (hask : ∀ source name state, (ask source name state).2.1 = state.1) (loader : LoaderId)
    (name : String) (state : Registry σ × ω) : (asked ask loader name state).1 = state.1 :=
  asked_keeps (P := (· = state.1)) (fun source name later hlater =>
    (hask source name later).trans hlater) loader name rfl

theorem load_cases (ask : Asking σ ω) (loader : LoaderId) (name : String)
    (state : Registry σ × ω) (hasked : (asked ask loader name state).1.Indexed) :
    (∃ failure, (load ask loader name state).1 = .error failure ∧
      (load ask loader name state).2.1 = (asked ask loader name state).1) ∨
    (∃ c, (load ask loader name state).1 = .ok c ∧
      (load ask loader name state).2.1 = (asked ask loader name state).1 ∧
      (asked ask loader name state).1.get? c.id = some c) ∨
    (∃ c size, (load ask loader name state).1 = .ok c ∧
      (load ask loader name state).2.1 = (asked ask loader name state).1.adding c ∧
      (asked ask loader name state).1.Entered (.ordinary (.object name) loader size) c) := by
  unfold asked at hasked ⊢
  unfold load
  split
  · rename_i htype
    rw [htype] at hasked
    simp only [htype]
    cases hlookup : state.1.lookupIn? loader name with
    | some c =>
      simp only [hlookup] at hasked ⊢
      exact Or.inr (Or.inl ⟨c, rfl, trivial, (hasked.lookupIn?_eq_some.mp hlookup).1⟩)
    | none =>
      cases hloader : state.1.loader? loader with
      | none => simp
      | some l =>
        simp only [hlookup, hloader] at hasked ⊢
        split
        · exact Or.inl ⟨_, rfl, rfl⟩
        · rename_i hunloading
          rw [if_neg hunloading] at hasked
          split
          · rename_i heq
            simp [heq]
          · rename_i heq
            simp [heq]
          · rename_i bytes r outside heq
            rw [heq] at hasked ⊢
            rcases define_cases hasked loader name bytes.size with
              ⟨failure, hdef⟩ | ⟨c, hdef, hget⟩ | ⟨c, hdef, hc⟩
            · exact Or.inl ⟨failure, by simp [hdef], by simp [hdef]⟩
            · exact Or.inr (Or.inl ⟨c, by simp [hdef], by simp [hdef], hget⟩)
            · exact Or.inr (Or.inr ⟨c, bytes.size, by simp [hdef], by simp [hdef], hc⟩)
  · rename_i hname
    left
    refine ⟨_, rfl, ?_⟩
    split
    · rename_i htype _ _
      exact absurd htype (hname _)
    · rfl

theorem load_of_unnamed {name : String}
    (hname : ∀ other, FieldType.ofName? name ≠ some (.object other)) (ask : Asking σ ω)
    (loader : LoaderId) (state : Registry σ × ω) : (load ask loader name state).2 = state := by
  unfold load
  split
  · rename_i other htype
    exact absurd htype (hname other)
  · rfl

theorem load_keeps {P : Registry σ → Prop} (ask : Asking σ ω)
    (hindexed : ∀ r, P r → r.Indexed)
    (hask : ∀ source name state, P state.1 → P (ask source name state).2.1)
    (loader : LoaderId) (name : String)
    (hdefine : ∀ (r : Registry σ) (size : Nat) (c : ClassDescriptor), P r →
      r.Entered (.ordinary (.object name) loader size) c → P (r.adding c))
    (state : Registry σ × ω) (hP : P state.1) :
    P (load ask loader name state).2.1 ∧
      ∀ c, (load ask loader name state).1 = .ok c →
        (load ask loader name state).2.1.get? c.id = some c := by
  have hasked := asked_keeps hask loader name hP
  rcases load_cases ask loader name state (hindexed _ hasked) with
    ⟨failure, hfail, heq⟩ | ⟨c, hok, heq, hget⟩ | ⟨c, size, hok, heq, hc⟩
  · rw [heq, hfail]
    exact ⟨hasked, fun c hc => by contradiction⟩
  · rw [heq, hok]
    refine ⟨hasked, fun c' hc' => ?_⟩
    obtain rfl := Except.ok.inj hc'
    exact hget
  · rw [heq, hok]
    refine ⟨hdefine _ size c hasked hc, fun c' hc' => ?_⟩
    obtain rfl := Except.ok.inj hc'
    rw [hc.toFresh.get?_adding, if_pos rfl]

theorem isArray_eq_isSome_component? (c : ClassDescriptor) : c.isArray = c.component?.isSome := by
  rw [ClassDescriptor.isArray, ClassDescriptor.component?, Option.isSome_map]

/-- The registered components of a class, from its own down to one that is no array class. -/
def Chain (registry : Registry σ) : ClassDescriptor → List ClassDescriptor → Prop
  | c, [] => c.component? = none
  | c, d :: ds => c.component? = some d.id ∧ registry.get? d.id = some d ∧ d.id < c.id ∧
      Chain registry d ds

theorem Coherent.chain_components (h : registry.Coherent) {c : ClassDescriptor}
    (hget : registry.get? c.id = some c) : registry.Chain c (registry.components c) := by
  unfold Registry.components
  generalize hn : c.dimensions = n
  induction n generalizing c with
  | zero =>
    cases harray : c.array? with
    | none => simp [componentsWithin, Chain, ClassDescriptor.component?, harray]
    | some a =>
      obtain ⟨component, -, hover⟩ := h.components c.id c a hget harray
      have hdim := hover.dimensions_eq
      rw [ClassDescriptor.dimensions, harray, Option.elim_some] at hn
      omega
  | succ n ih =>
    cases harray : c.array? with
    | none =>
      rw [ClassDescriptor.dimensions, harray, Option.elim_none] at hn
      omega
    | some a =>
      obtain ⟨component, hcomponent, hover⟩ := h.components c.id c a hget harray
      have hdim := hover.dimensions_eq
      rw [ClassDescriptor.dimensions, harray, Option.elim_some] at hn
      have hid := h.id_of_get? hcomponent
      have hof : c.component? = some component.id := by
        rw [ClassDescriptor.component?, harray, Option.map_some, hid]
      have hself := h.get?_self hcomponent
      simp only [componentsWithin, hof, Option.bind_some, hself]
      exact ⟨hof, hself, hover.older, ih hself (by omega)⟩

end Metaspace.Registry
