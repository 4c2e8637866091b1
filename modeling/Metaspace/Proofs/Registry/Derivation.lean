import Metaspace.Proofs.Registry.Defining

set_option autoImplicit false

namespace Metaspace.Registry

variable {σ : Type} {registry : Registry σ}

theorem deriveSteps_of_ok {component c : ClassDescriptor} {next : Registry σ}
    (h : registry.deriveOne component = .ok (c, next)) (n : Nat) :
    registry.deriveSteps component (n + 1) = next.deriveSteps c n := by
  simp only [deriveSteps, h]

theorem deriveSteps_of_error {component : ClassDescriptor} {e : ClassError}
    (h : registry.deriveOne component = .error e) (n : Nat) :
    registry.deriveSteps component (n + 1) = (.error e, registry) := by
  simp only [deriveSteps, h]

theorem deriveSteps_add {component c : ClassDescriptor} {k : Nat} {middle : Registry σ}
    (h : registry.deriveSteps component k = (.ok c, middle)) (m : Nat) :
    registry.deriveSteps component (k + m) = middle.deriveSteps c m := by
  induction k generalizing registry component with
  | zero =>
    obtain ⟨hc, rfl⟩ := Prod.mk.inj h
    obtain rfl := Except.ok.inj hc
    rw [Nat.zero_add]
  | succ k ih =>
    rw [Nat.add_right_comm]
    cases heq : registry.deriveOne component with
    | error e =>
      rw [deriveSteps_of_error heq] at h
      simp at h
    | ok derived =>
      rw [deriveSteps_of_ok heq] at h ⊢
      exact ih h

theorem Indexed.deriveSteps_get? (h : registry.Indexed) {component c : ClassDescriptor}
    (hget : registry.get? component.id = some component) (hc : registry.get? c.id = some c)
    (n : Nat) :
    (registry.deriveSteps component n).2.Indexed ∧
      (registry.deriveSteps component n).2.get? c.id = some c :=
  (deriveSteps_keeps (P := fun r => r.Indexed ∧ r.get? c.id = some c) (fun _ hr => hr.1)
    (fun hr _ hd => ⟨hr.1.adding hd.toFresh, hd.toFresh.get?_adding_of_get? hr.2⟩)
    ⟨h, hc⟩ hget n).1

theorem Indexed.deriveSteps_stays (h : registry.Indexed) {component c : ClassDescriptor}
    (hget : registry.get? component.id = some component) {k n : Nat} (hk : k ≤ n)
    (hok : (registry.deriveSteps component k).1 = .ok c) :
    (registry.deriveSteps component n).2.get? c.id = some c := by
  obtain ⟨m, rfl⟩ := Nat.exists_eq_add_of_le hk
  obtain ⟨hindexed, hmade⟩ := deriveSteps_keeps (P := Indexed) (fun _ hr => hr)
    (fun hr _ hc => hr.adding hc.toFresh) h hget k
  rw [deriveSteps_add (Prod.ext hok rfl) m]
  exact (hindexed.deriveSteps_get? (hmade c hok) (hmade c hok) m).2

theorem deriveArray_of_get? {component c : ClassDescriptor} {n : Nat}
    (hget : registry.get? component.id = some c) (hpos : 0 < n)
    (hle : n ≤ FieldType.maxDimensions - component.dimensions) :
    registry.deriveArray component n = registry.deriveSteps c n := by
  unfold deriveArray
  rw [if_neg (by omega), hget]

theorem deriveArray_cases (registry : Registry σ) (component : ClassDescriptor) (n : Nat) :
    (∃ e, registry.deriveArray component n = (.error e, registry)) ∨
    ∃ c, registry.get? component.id = some c ∧ 0 < n ∧
      n ≤ FieldType.maxDimensions - component.dimensions ∧
      registry.deriveArray component n = registry.deriveSteps c n := by
  by_cases hrange : n = 0 ∨ FieldType.maxDimensions - component.dimensions < n
  · left
    unfold deriveArray
    rw [if_pos hrange]
    exact ⟨_, rfl⟩
  · have hpos : 0 < n := by omega
    have hle : n ≤ FieldType.maxDimensions - component.dimensions := by omega
    cases hget : registry.get? component.id with
    | none =>
      left
      unfold deriveArray
      rw [if_neg hrange, hget]
      exact ⟨_, rfl⟩
    | some c => exact Or.inr ⟨c, rfl, hpos, hle, deriveArray_of_get? hget hpos hle⟩

theorem deriveArray_of_ok {component d : ClassDescriptor} {n : Nat}
    (hok : (registry.deriveArray component n).1 = .ok d) :
    ∃ c, registry.get? component.id = some c ∧
      registry.deriveArray component n = registry.deriveSteps c n := by
  rcases registry.deriveArray_cases component n with ⟨e, heq⟩ | ⟨c, hget, -, -, heq⟩
  · rw [heq] at hok
    contradiction
  · exact ⟨c, hget, heq⟩

/-- A class that is found instead of being defined has the loader, the name and the kind that were
asked for. -/
theorem found_of_existing {d : ClassDefinition} {c : ClassDescriptor} {next : Registry σ}
    (h : registry.insert d = .ok (.existing c, next)) :
    registry.lookupIn? d.loader d.type.name = some c ∧ c.kind = d.kind := by
  unfold insert at h
  split at h
  · contradiction
  · split at h
    · contradiction
    · split at h
      · contradiction
      · rcases registry.classes.insertWith_cases ⟨d.loader, d.type.name⟩ (.ofDefinition · d) with
          ⟨id, hkey, heq⟩ | ⟨-, -, heq⟩ | ⟨id, -, -, heq⟩
        · simp only [heq] at h
          split at h
          · rename_i found hget
            split at h
            · rename_i hsame
              obtain rfl := Definition.existing.inj (Prod.mk.inj (Except.ok.inj h)).1
              refine ⟨?_, hsame.2⟩
              unfold lookupIn? IdTable.getKeyed?
              rw [hkey, Option.bind_some]
              exact hget
            · contradiction
          · contradiction
        · simp [heq] at h
        · simp [heq] at h

/-- The array classes over a class are registered, up to a number of dimensions. -/
def Arrayed (registry : Registry σ) : ClassDescriptor → Nat → Prop
  | _, 0 => True
  | c, n + 1 => ∃ hdimensions d,
      registry.lookupIn? c.loader (ClassDefinition.arrayOver c hdimensions).type.name = some d ∧
      d.kind = (ClassDefinition.arrayOver c hdimensions).kind ∧ Arrayed registry d n

theorem deriveOne_of_found {c d : ClassDescriptor} {hdimensions}
    (h : registry.lookupIn? c.loader (ClassDefinition.arrayOver c hdimensions).type.name = some d)
    (hkind : d.kind = (ClassDefinition.arrayOver c hdimensions).kind) :
    registry.deriveOne c = .ok (d, registry) := by
  unfold deriveOne
  rw [dif_pos hdimensions]
  dsimp only
  rw [h, Option.filter_some, if_pos (decide_eq_true hkind)]

theorem Arrayed.deriveSteps {c : ClassDescriptor} {n k : Nat} (h : registry.Arrayed c n)
    (hk : k ≤ n) : ∃ d, registry.deriveSteps c k = (.ok d, registry) := by
  induction k generalizing c n with
  | zero => exact ⟨c, rfl⟩
  | succ k ih =>
    obtain ⟨n, rfl⟩ := Nat.exists_eq_succ_of_ne_zero (Nat.ne_of_gt (Nat.lt_of_lt_of_le k.succ_pos hk))
    obtain ⟨_, d, hfound, hkind, hrest⟩ := h
    rw [deriveSteps_of_ok (deriveOne_of_found hfound hkind)]
    exact ih hrest (Nat.le_of_succ_le_succ hk)

theorem Arrayed.stays (h : registry.Indexed) {after : Registry σ} (hafter : after.Indexed)
    {c : ClassDescriptor} {n : Nat} (harrayed : registry.Arrayed c n)
    (hstays : ∀ d, registry.get? d.id = some d → d.loader = c.loader → after.get? d.id = some d) :
    after.Arrayed c n := by
  induction n generalizing c with
  | zero => trivial
  | succ n ih =>
    obtain ⟨hdimensions, d, hfound, hkind, hrest⟩ := harrayed
    obtain ⟨hget, hloader, hname⟩ := h.lookupIn?_eq_some.mp hfound
    refine ⟨hdimensions, d,
      hafter.lookupIn?_eq_some.mpr ⟨hstays d hget hloader, hloader, hname⟩, hkind, ?_⟩
    exact ih hrest fun e he hsame => hstays e he (hsame.trans hloader)

theorem Indexed.found_of_deriveOne (h : registry.Indexed) {c d : ClassDescriptor}
    {next : Registry σ} (hok : registry.deriveOne c = .ok (d, next)) :
    next.Indexed ∧ ∃ hdimensions,
      next.lookupIn? c.loader (ClassDefinition.arrayOver c hdimensions).type.name = some d ∧
        d.kind = (ClassDefinition.arrayOver c hdimensions).kind := by
  unfold deriveOne at hok
  split at hok
  · rename_i hdimensions
    dsimp only at hok
    split at hok
    · rename_i found hfound
      obtain ⟨hlookup, hkind⟩ := Option.filter_eq_some_iff.mp hfound
      obtain ⟨rfl, rfl⟩ := Prod.mk.inj (Except.ok.inj hok)
      exact ⟨h, hdimensions, hlookup, of_decide_eq_true hkind⟩
    · rcases insert_cases h (.arrayOver c hdimensions) with
        ⟨e, heq⟩ | ⟨e, heq, -⟩ | ⟨e, heq, he⟩
      · rw [heq] at hok
        contradiction
      · have hexisting := found_of_existing heq
        rw [heq] at hok
        obtain ⟨rfl, rfl⟩ := Prod.mk.inj (Except.ok.inj hok)
        exact ⟨h, hdimensions, hexisting⟩
      · rw [heq] at hok
        obtain ⟨rfl, rfl⟩ := Prod.mk.inj (Except.ok.inj hok)
        have hself : (registry.adding e).get? e.id = some e := by
          rw [he.toFresh.get?_adding, if_pos rfl]
        have hshape : e.loader = c.loader ∧
            e.name = (ClassDefinition.arrayOver c hdimensions).type.name := by
          rw [he.eq_ofDefinition]
          exact ⟨rfl, rfl⟩
        have hindexed := h.adding he.toFresh
        exact ⟨hindexed, hdimensions,
          hindexed.lookupIn?_eq_some.mpr ⟨hself, hshape⟩, he.kind_eq⟩
  · contradiction

theorem Indexed.deriveSteps_arrayed (h : registry.Indexed) {c d : ClassDescriptor} {n : Nat}
    (hok : (registry.deriveSteps c n).1 = .ok d) : (registry.deriveSteps c n).2.Arrayed c n := by
  induction n generalizing registry c with
  | zero => trivial
  | succ n ih =>
    cases heq : registry.deriveOne c with
    | error e =>
      rw [deriveSteps_of_error heq] at hok
      contradiction
    | ok derived =>
      obtain ⟨e, next⟩ := derived
      obtain ⟨hnext, hdimensions, hfound, hkind⟩ := h.found_of_deriveOne heq
      rw [deriveSteps_of_ok heq] at hok ⊢
      obtain ⟨hget, hloader, hname⟩ := hnext.lookupIn?_eq_some.mp hfound
      obtain ⟨hlast, hstays⟩ := hnext.deriveSteps_get? hget hget n
      exact ⟨hdimensions, e, hlast.lookupIn?_eq_some.mpr ⟨hstays, hloader, hname⟩, hkind,
        ih hnext hok⟩

/-- Once an array class was derived, deriving fewer dimensions changes nothing, be it later, as long
as the classes of the loader are still there or the component is gone. -/
theorem Indexed.deriveArray_again (h : registry.Indexed) {component d : ClassDescriptor} {n : Nat}
    (hok : (registry.deriveArray component n).1 = .ok d) {later : Registry σ}
    (hlater : later.Indexed)
    (hstays : ∀ c, registry.get? component.id = some c → later.get? component.id = none ∨
      ∀ e, (registry.deriveArray component n).2.get? e.id = some e → e.loader = c.loader →
        later.get? e.id = some e) {k : Nat} (hk : k ≤ n) :
    (later.deriveArray component k).2 = later := by
  rcases later.deriveArray_cases component k with ⟨e, heq⟩ | ⟨c', hget', -, -, heq⟩
  · rw [heq]
  · obtain ⟨c, hget, hsteps⟩ := deriveArray_of_ok hok
    rw [hsteps] at hok hstays
    have hself := h.get?_self hget
    obtain ⟨hnext, hc⟩ := h.deriveSteps_get? hself hself n
    have hkept := (hstays c hget).resolve_left (by simp [hget'])
    obtain rfl : c = c' := by
      have hcomponent := hkept c hc rfl
      rw [h.id_of_get? hget, hget', Option.some.injEq] at hcomponent
      exact hcomponent.symm
    obtain ⟨e, hagain⟩ := ((h.deriveSteps_arrayed hok).stays hnext hlater hkept).deriveSteps hk
    rw [heq, hagain]

/-- Array classes have the loader of their component, and deriving them later comes to the same
ones, as long as the classes of that loader are still there. -/
theorem Indexed.deriveSteps_later (h : registry.Indexed) {c d : ClassDescriptor} {n : Nat}
    {next later : Registry σ} (hok : registry.deriveSteps c n = (.ok d, next))
    (hlater : later.Indexed)
    (hstays : ∀ e, next.get? e.id = some e → e.loader = c.loader → later.get? e.id = some e) :
    d.loader = c.loader ∧ later.deriveSteps c n = (.ok d, later) := by
  induction n generalizing registry c with
  | zero =>
    obtain ⟨hd, -⟩ := Prod.mk.inj hok
    obtain rfl := Except.ok.inj hd
    exact ⟨rfl, rfl⟩
  | succ n ih =>
    cases heq : registry.deriveOne c with
    | error e =>
      rw [deriveSteps_of_error heq] at hok
      obtain ⟨hfailed, -⟩ := Prod.mk.inj hok
      contradiction
    | ok derived =>
      obtain ⟨e, middle⟩ := derived
      obtain ⟨hmiddle, hdimensions, hfound, hkind⟩ := h.found_of_deriveOne heq
      obtain ⟨hget, hloader, hname⟩ := hmiddle.lookupIn?_eq_some.mp hfound
      rw [deriveSteps_of_ok heq] at hok
      have hkept := (hmiddle.deriveSteps_get? hget hget n).2
      rw [hok] at hkept
      have hagain : later.lookupIn? c.loader
          (ClassDefinition.arrayOver c hdimensions).type.name = some e :=
        hlater.lookupIn?_eq_some.mpr ⟨hstays e hkept hloader, hloader, hname⟩
      obtain ⟨hsame, hsteps⟩ := ih hmiddle hok fun x hx hxe => hstays x hx (hxe.trans hloader)
      rw [deriveSteps_of_ok (deriveOne_of_found hagain hkind)]
      exact ⟨hsame.trans hloader, hsteps⟩

theorem Indexed.deriveArray_later (h : registry.Indexed) {component d : ClassDescriptor} {n : Nat}
    {next later : Registry σ} (hok : registry.deriveArray component n = (.ok d, next))
    (hlater : later.Indexed)
    (hstays : ∀ e, next.get? e.id = some e → e.loader = d.loader → later.get? e.id = some e) :
    later.deriveArray component n = (.ok d, later) := by
  rcases registry.deriveArray_cases component n with ⟨e, heq⟩ | ⟨c, hget, hpos, hle, heq⟩
  · rw [heq] at hok
    obtain ⟨hfailed, -⟩ := Prod.mk.inj hok
    contradiction
  · rw [heq] at hok
    have hself := h.get?_self hget
    obtain ⟨hnext, hc⟩ := h.deriveSteps_get? hself hself n
    rw [hok] at hnext hc
    obtain ⟨hloader, -⟩ := h.deriveSteps_later hok hnext fun e he _ => he
    obtain ⟨-, hsteps⟩ := h.deriveSteps_later hok hlater fun e he hsame =>
      hstays e he (hsame.trans hloader.symm)
    have hthere := hstays c hc hloader.symm
    rw [h.id_of_get? hget] at hthere
    rw [deriveArray_of_get? hthere hpos hle, hsteps]

end Metaspace.Registry
