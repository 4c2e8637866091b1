import Metaspace.Proofs.FieldType.Descriptors
import Metaspace.Proofs.Registry.Canonical
import Metaspace.Proofs.Registry.Derivation

/-!
Deriving in a registry of which callers only load and derive. Its classes bear accepted names, so a
name tells the type, and the name of an array class can only be taken by that array class. Deriving
therefore comes to the class asked for whenever the dimensions are in range, adds the array classes
that are missing on the way and no others, and may be done in stages.
-/

set_option autoImplicit false

namespace Metaspace.Registry

variable {σ : Type} {registry after : Registry σ} {c d : ClassDescriptor} {n : Nat}

/-- Array classes are canonical, and every class is one that was loaded under an accepted name or an
array class over such a one. -/
structure Regular (registry : Registry σ) : Prop extends Coherent registry where
  canonical : registry.Canonical
  typed : ∀ c ∈ registry.registered, ∃ name, FieldType.ofName? name = some (.object name) ∧
    c.type = (FieldType.object name).wrap c.dimensions

theorem Regular.ofName?_wrap (h : registry.Regular) (hc : c ∈ registry.registered)
    (hn : c.dimensions + n ≤ FieldType.maxDimensions) :
    FieldType.ofName? (c.type.wrap n).name = some (c.type.wrap n) := by
  obtain ⟨name, hname, htype⟩ := h.typed c hc
  rw [htype, FieldType.wrap_wrap]
  exact FieldType.ofName?_wrap hname hn

theorem Regular.ofName?_name (h : registry.Regular) (hc : c ∈ registry.registered) :
    FieldType.ofName? c.name = some c.type :=
  h.ofName?_wrap (n := 0) hc c.dimensions_le

theorem Regular.depth_type (h : registry.Regular) (hc : c ∈ registry.registered) :
    c.type.depth = c.dimensions := by
  obtain ⟨name, -, htype⟩ := h.typed c hc
  rw [htype, FieldType.depth_wrap]
  exact Nat.zero_add _

theorem Regular.type_of_name (h : registry.Regular) (hc : c ∈ registry.registered)
    (hd : d ∈ registry.registered) (hn : c.dimensions + n ≤ FieldType.maxDimensions)
    (hname : d.name = (c.type.wrap n).name) : d.type = c.type.wrap n := by
  have hread := h.ofName?_name hd
  rw [hname, h.ofName?_wrap hc hn, Option.some.injEq] at hread
  exact hread.symm

theorem Regular.component_of_type (h : registry.Regular) (hd : d ∈ registry.registered)
    {type : FieldType} (htype : d.type = .array type) :
    ∃ e ∈ registry.registered, e.type = type ∧ e.loader = d.loader ∧
      ∃ hdimensions, d.kind = (ClassDefinition.arrayOver e hdimensions).kind := by
  have harray : d.isArray = true := by
    rw [h.canonical.kinds d hd, htype]
    rfl
  obtain ⟨a, hkind⟩ := eq_array_of_isArray harray
  obtain ⟨e, he, hid, hover, hloader⟩ := h.canonical.components d hd a hkind
  obtain ⟨e', he', hstands⟩ := h.components d.id d a (h.mem_registered.mp hd)
    (by rw [ClassDescriptor.array?, hkind])
  obtain rfl : e = e' := by
    have hget := h.mem_registered.mp he
    rw [hid, he', Option.some.injEq] at hget
    exact hget.symm
  refine ⟨e, he, ?_, hloader.symm, ?_⟩
  · rw [htype] at hover
    exact (FieldType.array.inj hover).symm
  · obtain ⟨⟨id, name⟩, dimensions, hpos, hle⟩ := a
    obtain rfl : e.id = id := hid
    obtain rfl : name = e.name := hstands.name_eq
    obtain rfl : dimensions = e.dimensions + 1 := hstands.dimensions_eq
    exact ⟨hle, hkind⟩

theorem Regular.kind_of_name (h : registry.Regular) (hc : c ∈ registry.registered)
    (hd : d ∈ registry.registered) (hn : c.dimensions < FieldType.maxDimensions)
    (hloader : d.loader = c.loader) (hname : d.name = (ClassDefinition.arrayOver c hn).type.name) :
    d.type = .array c.type ∧ d.kind = (ClassDefinition.arrayOver c hn).kind := by
  have htype : d.type = .array c.type := h.type_of_name (n := 1) hc hd hn hname
  obtain ⟨e, he, hsame, heloader, _, hkind⟩ := h.component_of_type hd htype
  obtain rfl := h.eq_of_type he hc hsame (heloader.trans hloader)
  exact ⟨htype, hkind⟩

theorem Indexed.idOf?_eq_none (h : registry.Indexed) {loader : LoaderId} {name : String}
    (hnone : registry.lookupIn? loader name = none) :
    registry.classes.idOf? ⟨loader, name⟩ = none := by
  rw [Option.eq_none_iff_forall_ne_some]
  intro id hid
  obtain ⟨value, hentry⟩ := (h.table.idOf?_iff _ id).mp hid
  have hget : registry.classes.get? id = some value := IdTable.get?_eq_some.mpr ⟨_, hentry⟩
  unfold lookupIn? IdTable.getKeyed? at hnone
  rw [hid, Option.bind_some, hget] at hnone
  contradiction

theorem Indexed.insert_of_unnamed (h : registry.Indexed) {definition : ClassDefinition}
    (hhoused : ∃ l ∈ registry.graph, l.id = definition.loader)
    (hadmits : registry.admits definition = .ok ())
    (hnone : registry.lookupIn? definition.loader definition.type.name = none)
    (hids : registry.classes.entries.size < classIds.bound) :
    ∃ c, registry.insert definition = .ok (.defined c, registry.adding c) ∧
      registry.Entered definition c := by
  obtain ⟨l, hl, hid⟩ := hhoused
  obtain ⟨e, he, -⟩ := h.entry?_of_mem_graph hl
  have hunloading := h.isUnloading_eq_false hl
  rw [hid] at he hunloading
  have hkey := h.idOf?_eq_none hnone
  rcases registry.classes.insertWith_cases ⟨definition.loader, definition.type.name⟩
      (.ofDefinition · definition) with ⟨id, htaken, -⟩ | ⟨-, hfull, -⟩ | ⟨id, -, hnext, heq⟩
  · rw [hkey] at htaken
    contradiction
  · omega
  · refine ⟨.ofDefinition id definition, ?_, ⟨⟨hnext, hkey, l, hl, hid⟩, rfl, hadmits⟩⟩
    simp only [insert, he, hunloading, hadmits, heq]
    rfl

theorem admits_arrayOver (hget : registry.get? c.id = some c) (hdimensions) :
    registry.admits (.arrayOver c hdimensions) = .ok () := by
  have hcontains : registry.contains c.id = true :=
    Option.isSome_iff_exists.mpr ⟨c, hget⟩
  simp [admits, ClassDefinition.arrayOver, hcontains]

theorem Regular.adding (h : registry.Regular) {definition : ClassDefinition}
    (hentered : registry.Entered definition d) (hfits : registry.Fitting definition)
    (htyped : ∃ name, FieldType.ofName? name = some (.object name) ∧
      d.type = (FieldType.object name).wrap d.dimensions) : (registry.adding d).Regular where
  toCoherent := hentered.coherent h.toCoherent hfits.1
  canonical := (hentered.canonical_iff h.toCoherent h.canonical hfits.1).mpr hfits.2
  typed e he := by
    rw [adding_registered, List.mem_append, List.mem_singleton] at he
    rcases he with he | rfl
    · exact h.typed e he
    · exact htyped

theorem Regular.adding_array (h : registry.Regular) (hc : c ∈ registry.registered) {hdimensions}
    (hentered : registry.Entered (.arrayOver c hdimensions) d) :
    (registry.adding d).Regular ∧ d.loader = c.loader ∧ d.type = .array c.type := by
  have hshape : d.loader = c.loader ∧ d.type = .array c.type ∧
      d.dimensions = c.dimensions + 1 := by
    rw [hentered.eq_ofDefinition]
    exact ⟨rfl, rfl, rfl⟩
  obtain ⟨hloader, htype, hdim⟩ := hshape
  obtain ⟨name, hname, hover⟩ := h.typed c hc
  refine ⟨h.adding hentered (fitting_arrayOver (h.mem_registered.mp hc) _) ⟨name, hname, ?_⟩,
    hloader, htype⟩
  rw [htype, hdim, FieldType.wrap_succ, ← hover]

theorem Regular.deriveOne (h : registry.Regular) (hc : c ∈ registry.registered)
    (hn : c.dimensions < FieldType.maxDimensions) :
    (∃ d ∈ registry.registered, registry.deriveOne c = .ok (d, registry) ∧
      d.loader = c.loader ∧ d.type = .array c.type) ∨
    ((∀ d ∈ registry.registered, ¬ (d.loader = c.loader ∧ d.type = .array c.type)) ∧
      (registry.classes.entries.size < classIds.bound →
        ∃ d, registry.deriveOne c = .ok (d, registry.adding d) ∧
          registry.Entered (.arrayOver c hn) d)) := by
  cases hlookup : registry.lookupIn? c.loader (ClassDefinition.arrayOver c hn).type.name with
  | some d =>
    obtain ⟨hget, hloader, hname⟩ := h.lookupIn?_eq_some.mp hlookup
    have hd := h.mem_registered.mpr hget
    obtain ⟨htype, hkind⟩ := h.kind_of_name hc hd hn hloader hname
    exact Or.inl ⟨d, hd, deriveOne_of_found hlookup hkind, hloader, htype⟩
  | none =>
    refine Or.inr ⟨?_, fun hids => ?_⟩
    · rintro d hd ⟨hloader, htype⟩
      have hname : d.name = (ClassDefinition.arrayOver c hn).type.name :=
        congrArg FieldType.name htype
      rw [h.lookupIn?_eq_some.mpr ⟨h.mem_registered.mp hd, hloader, hname⟩] at hlookup
      contradiction
    · have hget := h.mem_registered.mp hc
      obtain ⟨d, hinsert, hentered⟩ := h.insert_of_unnamed (h.housed c hc)
        (admits_arrayOver hget hn) hlookup hids
      refine ⟨d, ?_, hentered⟩
      unfold Registry.deriveOne
      rw [dif_pos hn]
      dsimp only
      rw [hlookup, Option.filter_none, hinsert]
      rfl

/-- The numbers of dimensions, up to some number, for which a loader has no array class over its
class. -/
def missing (registry : Registry σ) (c : ClassDescriptor) (n : Nat) : List Nat :=
  (List.range' 1 n).filter fun k =>
    !registry.registered.any fun d => d.loader = c.loader ∧ d.type = c.type.wrap k

theorem mem_missing {k : Nat} : k ∈ registry.missing c n ↔ (1 ≤ k ∧ k ≤ n) ∧
    ∀ d ∈ registry.registered, ¬ (d.loader = c.loader ∧ d.type = c.type.wrap k) := by
  simp only [missing, List.mem_filter, List.mem_range'_1, Nat.lt_one_add_iff, Bool.not_eq_true',
    List.any_eq_false, decide_eq_true_eq]

theorem missing_succ_of_mem (hd : d ∈ registry.registered) (hloader : d.loader = c.loader)
    (htype : d.type = c.type.wrap (n + 1)) : registry.missing c (n + 1) = registry.missing c n := by
  rw [Nat.add_comm] at htype
  unfold missing
  rw [List.range'_1_concat, List.filter_append, List.filter_cons_of_neg, List.filter_nil,
    List.append_nil]
  simpa using ⟨d, hd, hloader, htype⟩

theorem missing_succ_of_not_mem (hnone : ∀ d ∈ registry.registered,
    ¬ (d.loader = c.loader ∧ d.type = c.type.wrap (n + 1))) :
    registry.missing c (n + 1) = registry.missing c n ++ [n + 1] := by
  rw [Nat.add_comm] at hnone
  unfold missing
  rw [List.range'_1_concat, List.filter_append, List.filter_cons_of_pos, List.filter_nil,
    Nat.add_comm]
  simpa using hnone

theorem length_missing_le {m : Nat} (hm : m ≤ n) :
    (registry.missing c m).length ≤ (registry.missing c n).length := by
  obtain ⟨k, rfl⟩ := Nat.exists_eq_add_of_le hm
  unfold missing
  rw [← List.range'_append_1, List.filter_append, List.length_append]
  exact Nat.le_add_right _ _

/-- What deriving in steps comes to: the array class of `n` dimensions over a class, with those
array classes added that were missing. -/
structure Derives (before : Registry σ) (c : ClassDescriptor) (n : Nat) (d : ClassDescriptor)
    (after : Registry σ) : Prop where
  regular : after.Regular
  mem : d ∈ after.registered
  loader_eq : d.loader = c.loader
  type_eq : d.type = c.type.wrap n
  added : ∃ added, after.registered = before.registered ++ added ∧
    added.map (·.type) = (before.missing c n).map c.type.wrap ∧ ∀ e ∈ added, e.loader = c.loader
  size_eq : after.classes.entries.size = before.classes.entries.size + (before.missing c n).length
  stays : before.missing c n = [] → after = before

theorem Derives.subset (h : registry.Derives c n d after) :
    registry.registered ⊆ after.registered := by
  obtain ⟨added, heq, -⟩ := h.added
  rw [heq]
  exact List.subset_append_left _ _

theorem Derives.dimensions_eq (h : registry.Derives c n d after) (hc : c ∈ registry.registered) :
    d.dimensions = c.dimensions + n := by
  rw [← h.regular.depth_type h.mem, h.type_eq, FieldType.depth_wrap,
    h.regular.depth_type (h.subset hc)]

theorem Derives.mem_before (h : registry.Derives c n d after) {e : ClassDescriptor}
    (he : e ∈ after.registered) {k : Nat} (hk : n < k) (htype : e.type = c.type.wrap k) :
    e ∈ registry.registered := by
  obtain ⟨added, heq, htypes, -⟩ := h.added
  rw [heq, List.mem_append] at he
  refine he.resolve_right fun hadded => ?_
  have hmem : e.type ∈ added.map (·.type) := List.mem_map_of_mem hadded
  rw [htypes, List.mem_map] at hmem
  obtain ⟨j, hj, hwrap⟩ := hmem
  have hle := (mem_missing.mp hj).1.2
  have hdepth := congrArg FieldType.depth (hwrap.trans htype)
  rw [FieldType.depth_wrap, FieldType.depth_wrap] at hdepth
  omega

theorem Regular.derives_zero (h : registry.Regular) (hc : c ∈ registry.registered) :
    registry.Derives c 0 c registry where
  regular := h
  mem := hc
  loader_eq := rfl
  type_eq := rfl
  added := ⟨[], by simp [missing]⟩
  size_eq := rfl
  stays _ := rfl

theorem Derives.found {middle : Registry σ} {e : ClassDescriptor}
    (h : registry.Derives c n e middle) (hd : d ∈ middle.registered)
    (hloader : d.loader = e.loader) (htype : d.type = .array e.type) :
    registry.Derives c (n + 1) d middle := by
  have hloader' := hloader.trans h.loader_eq
  have htype' : d.type = c.type.wrap (n + 1) := by rw [htype, h.type_eq, FieldType.wrap_succ]
  have hsame := missing_succ_of_mem (h.mem_before hd (Nat.lt_succ_self n) htype') hloader' htype'
  exact
    { regular := h.regular
      mem := hd
      loader_eq := hloader'
      type_eq := htype'
      added := hsame ▸ h.added
      size_eq := hsame ▸ h.size_eq
      stays := hsame ▸ h.stays }

theorem Derives.defined {middle : Registry σ} {e : ClassDescriptor}
    (h : registry.Derives c n e middle)
    (hnone : ∀ d ∈ middle.registered, ¬ (d.loader = e.loader ∧ d.type = .array e.type))
    {hdimensions} (hentered : middle.Entered (.arrayOver e hdimensions) d) :
    registry.Derives c (n + 1) d (middle.adding d) := by
  obtain ⟨hregular, hloader, htype⟩ := h.regular.adding_array h.mem hentered
  rw [h.loader_eq, h.type_eq] at hnone
  rw [h.loader_eq] at hloader
  rw [h.type_eq] at htype
  have hmissing : registry.missing c (n + 1) = registry.missing c n ++ [n + 1] :=
    missing_succ_of_not_mem fun d hd => hnone d (h.subset hd)
  obtain ⟨added, heq, htypes, hloaders⟩ := h.added
  exact
    { regular := hregular
      mem := by simp
      loader_eq := hloader
      type_eq := htype
      added := by
        refine ⟨added ++ [d], ?_, ?_, ?_⟩
        · rw [adding_registered, heq, List.append_assoc]
        · rw [hmissing, List.map_append, List.map_append, htypes, List.map_singleton,
            List.map_singleton, htype, FieldType.wrap_succ]
        · intro e' he'
          rcases List.mem_append.mp he' with hold | hnew
          · exact hloaders e' hold
          · rw [List.mem_singleton.mp hnew, hloader]
      size_eq := by
        have hpushed :
            (middle.adding d).classes.entries.size = middle.classes.entries.size + 1 := by
          simp [IdTable.push]
        rw [hpushed, h.size_eq, hmissing, List.length_append, List.length_singleton,
          Nat.add_assoc]
      stays := by
        rw [hmissing]
        simp }

theorem Regular.deriveSteps (h : registry.Regular) (hc : c ∈ registry.registered)
    (hn : c.dimensions + n ≤ FieldType.maxDimensions)
    (hids : registry.classes.entries.size + (registry.missing c n).length ≤ classIds.bound) :
    ∃ d after, registry.deriveSteps c n = (.ok d, after) ∧ registry.Derives c n d after := by
  induction n with
  | zero => exact ⟨c, registry, rfl, h.derives_zero hc⟩
  | succ n ih =>
    have hfewer : (registry.missing c n).length ≤ (registry.missing c (n + 1)).length :=
      length_missing_le n.le_succ
    obtain ⟨e, middle, hsteps, hderives⟩ := ih (by omega) (by omega)
    have hdim := hderives.dimensions_eq hc
    rw [deriveSteps_add hsteps 1]
    rcases hderives.regular.deriveOne hderives.mem (by omega) with
      ⟨d, hd, heq, hloader, htype⟩ | ⟨hnone, hdefine⟩
    · rw [deriveSteps_of_ok heq]
      exact ⟨d, middle, rfl, hderives.found hd hloader htype⟩
    · have hroom : middle.classes.entries.size < classIds.bound := by
        have hmissing : registry.missing c (n + 1) = registry.missing c n ++ [n + 1] := by
          rw [hderives.loader_eq, hderives.type_eq] at hnone
          exact missing_succ_of_not_mem fun d hd => hnone d (hderives.subset hd)
        rw [hderives.size_eq]
        rw [hmissing, List.length_append, List.length_singleton] at hids
        omega
      obtain ⟨d, heq, hentered⟩ := hdefine hroom
      rw [deriveSteps_of_ok heq]
      exact ⟨d, middle.adding d, rfl, hderives.defined hnone hentered⟩

theorem Regular.componentsWithin (h : registry.Regular) (hc : c ∈ registry.registered)
    (hd : d ∈ registry.registered) (hloader : d.loader = c.loader)
    (htype : d.type = c.type.wrap n) :
    (registry.componentsWithin n d).length = n ∧
      (∀ e ∈ registry.componentsWithin n d, e ∈ registry.registered) ∧
      (d :: registry.componentsWithin n d).getLast? = some c := by
  induction n generalizing d with
  | zero =>
    obtain rfl := h.eq_of_type hd hc htype hloader
    simp [Registry.componentsWithin]
  | succ n ih =>
    obtain ⟨e, he, hover, heloader, _, hkind⟩ := h.component_of_type hd htype
    obtain ⟨hlength, hmem, hlast⟩ := ih he (heloader.trans hloader) hover
    have hcomponent : d.component?.bind registry.get? = some e := by
      simp [ClassDescriptor.component?, ClassDescriptor.array?, hkind, ClassDefinition.arrayOver,
        h.mem_registered.mp he]
    simp only [Registry.componentsWithin, hcomponent]
    refine ⟨by rw [List.length_cons, hlength], ?_, ?_⟩
    · exact List.forall_mem_cons.mpr ⟨he, hmem⟩
    · rw [List.getLast?_cons_cons]
      exact hlast

theorem Regular.deriveArray (h : registry.Regular) (hc : c ∈ registry.registered) (hpos : 0 < n)
    (hn : c.dimensions + n ≤ FieldType.maxDimensions)
    (hids : registry.classes.entries.size + (registry.missing c n).length ≤ classIds.bound) :
    ∃ d after, registry.deriveArray c n = (.ok d, after) ∧ registry.Derives c n d after := by
  rw [deriveArray_of_get? (h.mem_registered.mp hc) hpos (by omega)]
  exact h.deriveSteps hc hn hids

theorem Derives.again (h : registry.Derives c n d after) (hc : c ∈ registry.registered)
    (hn : c.dimensions + n ≤ FieldType.maxDimensions) {m : Nat} (hpos : 0 < m) (hm : m ≤ n) :
    ∃ e, after.deriveArray c m = (.ok e, after) ∧ after.Derives c m e after := by
  have hnone : after.missing c m = [] := by
    rw [List.eq_nil_iff_forall_not_mem]
    intro k hk
    obtain ⟨⟨hone, hle⟩, hgone⟩ := mem_missing.mp hk
    obtain ⟨added, heq, htypes, hloaders⟩ := h.added
    -- it was there before, or it was missing and has been added
    have hbefore : k ∈ registry.missing c n := by
      refine mem_missing.mpr ⟨⟨hone, by omega⟩, fun e he => ?_⟩
      exact hgone e (h.subset he)
    have hadded : c.type.wrap k ∈ added.map (·.type) := by
      rw [htypes]
      exact List.mem_map_of_mem hbefore
    obtain ⟨e, he, htype⟩ := List.mem_map.mp hadded
    refine hgone e ?_ ⟨hloaders e he, htype⟩
    rw [heq]
    exact List.mem_append_right _ he
  obtain ⟨e, later, heq, hderives⟩ := h.regular.deriveArray (h.subset hc) hpos (by omega)
    (by rw [hnone]; exact h.regular.table.size_le)
  obtain rfl := hderives.stays hnone
  exact ⟨e, heq, hderives⟩

theorem Derives.unique (h : registry.Derives c n d after) {e : ClassDescriptor}
    (he : e ∈ after.registered) (hloader : e.loader = c.loader) (htype : e.type = c.type.wrap n) :
    e = d :=
  h.regular.eq_of_type he h.mem (htype.trans h.type_eq.symm) (hloader.trans h.loader_eq.symm)

theorem Derives.deriveArray_add {middle : Registry σ} {e : ClassDescriptor} {m k : Nat}
    (h : registry.Derives c m e middle) (hderive : registry.deriveArray c m = (.ok e, middle))
    (hregular : registry.Regular) (hc : c ∈ registry.registered) (hm : 0 < m) (hk : 0 < k)
    (hn : c.dimensions + (m + k) ≤ FieldType.maxDimensions) :
    middle.deriveArray e k = registry.deriveArray c (m + k) := by
  have hget := hregular.mem_registered.mp hc
  have hdim := h.dimensions_eq hc
  rw [deriveArray_of_get? hget hm (by omega)] at hderive
  rw [deriveArray_of_get? (h.regular.mem_registered.mp h.mem) hk (by omega),
    deriveArray_of_get? hget (by omega) (by omega), deriveSteps_add hderive]

/-- What deriving an array class of `n` dimensions over a class comes to. -/
structure Derived (before : Registry σ) (c : ClassDescriptor) (n : Nat) (d : ClassDescriptor)
    (after : Registry σ) : Prop where
  found : after.lookupIn? c.loader (c.type.wrap n).name = some d
  loader_eq : d.loader = c.loader
  type_eq : d.type = c.type.wrap n
  dimensions_eq : d.dimensions = c.dimensions + n
  unique : ∀ e ∈ after.registered, e.loader = c.loader → e.type = c.type.wrap n → e = d
  read : FieldType.ofName? d.name = some d.type
  chain : (after.componentsWithin n d).length = n ∧
    (∀ e ∈ d :: after.componentsWithin n d, e ∈ after.registered) ∧
    (d :: after.componentsWithin n d).getLast? = some c
  added : ∃ added, after.registered = before.registered ++ added ∧
    added.map (·.type) = (before.missing c n).map c.type.wrap ∧ ∀ e ∈ added, e.loader = c.loader
  again : after.deriveArray c n = (.ok d, after)

theorem Derives.derived (h : registry.Derives c n d after) (hc : c ∈ registry.registered)
    (hpos : 0 < n) (hn : c.dimensions + n ≤ FieldType.maxDimensions) :
    registry.Derived c n d after := by
  have hchain := h.regular.componentsWithin (h.subset hc) h.mem h.loader_eq h.type_eq
  exact
    { found := by
        refine h.regular.lookupIn?_eq_some.mpr
          ⟨h.regular.mem_registered.mp h.mem, h.loader_eq, ?_⟩
        rw [ClassDescriptor.name, h.type_eq]
      loader_eq := h.loader_eq
      type_eq := h.type_eq
      dimensions_eq := h.dimensions_eq hc
      unique := fun e he => h.unique he
      read := h.regular.ofName?_name h.mem
      chain := ⟨hchain.1, List.forall_mem_cons.mpr ⟨h.mem, hchain.2.1⟩, hchain.2.2⟩
      added := h.added
      again := by
        obtain ⟨e, heq, hagain⟩ := h.again hc hn hpos (Nat.le_refl n)
        rw [heq, h.unique hagain.mem hagain.loader_eq hagain.type_eq] }

/-- Two derivations after one another come to what one with all dimensions comes to, whichever is
done first. -/
def Composes (registry : Registry σ) (c : ClassDescriptor) (m k : Nat) (d : ClassDescriptor)
    (after : Registry σ) : Prop :=
  ∃ e middle, registry.deriveArray c m = (.ok e, middle) ∧ middle.deriveArray e k = (.ok d, after) ∧
    after.deriveArray c m = (.ok e, after) ∧ after.deriveArray e k = (.ok d, after)

theorem Regular.composes (h : registry.Regular) (hc : c ∈ registry.registered) {m k : Nat}
    (hm : 0 < m) (hk : 0 < k) (hn : c.dimensions + (m + k) ≤ FieldType.maxDimensions)
    (hids : registry.classes.entries.size + (registry.missing c (m + k)).length ≤ classIds.bound)
    (hd : registry.deriveArray c (m + k) = (.ok d, after)) :
    registry.Composes c m k d after := by
  have hfewer : (registry.missing c m).length ≤ (registry.missing c (m + k)).length :=
    length_missing_le (Nat.le_add_right m k)
  obtain ⟨e, middle, he, hmiddle⟩ := h.deriveArray hc hm (by omega) (by omega)
  have hrest := hmiddle.deriveArray_add he h hc hm hk hn
  rw [hd] at hrest
  obtain ⟨d', after', hd', hafter⟩ := h.deriveArray hc (Nat.add_pos_left hm k) hn hids
  obtain ⟨hsame, rfl⟩ := Prod.mk.inj (hd'.symm.trans hd)
  obtain rfl := Except.ok.inj hsame
  obtain ⟨e', he', hagain⟩ := hafter.again hc hn hm (Nat.le_add_right m k)
  obtain rfl : e = e' := by
    have hdim := hmiddle.dimensions_eq hc
    have hget := hmiddle.regular.mem_registered.mp hmiddle.mem
    have hstays := (hmiddle.regular.deriveSteps_get? hget hget k).2
    rw [← deriveArray_of_get? hget hk (by omega), hrest] at hstays
    exact hagain.unique (hafter.regular.mem_registered.mpr hstays) hmiddle.loader_eq
      hmiddle.type_eq
  have hwhole := (hafter.derived hc (Nat.add_pos_left hm k) hn).again
  refine ⟨e, middle, he, hrest, he', ?_⟩
  exact (hagain.deriveArray_add he' hafter.regular (hafter.subset hc) hm hk hn).trans hwhole

theorem new_regular (bootSources : List σ) : (new bootSources).Regular := by
  have hnone := registered_new bootSources
  exact
    { toCoherent := new_coherent bootSources
      canonical := ⟨by simp [hnone], by simp [hnone], by simp [hnone]⟩
      typed := by simp [hnone] }

theorem Regular.fewer (h : registry.Regular) (hafter : after.Coherent)
    (hgrows : Outgrows registry after) (hsub : after.registered ⊆ registry.registered) :
    after.Regular where
  toCoherent := hafter
  canonical := h.canonical.outgrows h.toCoherent hafter hgrows fun _ hc => Or.inl (hsub hc)
  typed c hc := h.typed c (hsub hc)

theorem Regular.adding_loaded (h : registry.Regular) {name : String}
    (hname : FieldType.ofName? name = some (.object name)) {loader : LoaderId} {size : Nat}
    (hentered : registry.Entered (.ordinary (.object name) loader size) c) :
    (registry.adding c).Regular := by
  refine h.adding hentered ⟨trivial, rfl⟩ ⟨name, hname, ?_⟩
  rw [hentered.eq_ofDefinition]
  rfl

theorem regular_invariant : Invariant (fun (_ : Registry σ) _ => False) Regular where
  indexed h := h.toIndexed
  newLoader h hnew := h.fewer (h.toCoherent.newLoader? hnew) (outgrows_newLoader? hnew)
    fun _ hc => newLoader?_registered hnew ▸ hc
  insert _ hnone _ := hnone.elim
  derive h hget hc := (h.adding_array (h.mem_registered.mpr hget) hc).1
  load h hname hc := h.adding_loaded hname hc
  removeBatch ids h :=
    have hevicts := h.toIndexed.removeBatch ids
    h.fewer (hevicts.coherent h.toCoherent) hevicts.outgrows
      (hevicts.registered_subset h.toIndexed)
  unloadLoaders ids h :=
    have hdrops := h.toIndexed.unloadLoaders ids
    h.fewer (hdrops.coherent h.toCoherent) hdrops.outgrows hdrops.registered_subset

/-- Over every registered class every number of dimensions can be derived that stays in range, as
long as there are ids for the array classes that are missing. What comes of it is the array class of
that type and of the class's loader, and it makes no difference whether it is derived at once or in
two parts. -/
theorem Builds.derives_in_range {bootSources : List σ} (h : Builds (new bootSources) registry)
    (hget : registry.get? c.id = some c) (hpos : 0 < n)
    (hids : registry.classes.entries.size + (registry.missing c n).length ≤ classIds.bound) :
    ((∃ d, (registry.deriveArray c n).1 = .ok d) ↔ n + c.dimensions ≤ 255) ∧
      (255 < n + c.dimensions → registry.deriveArray c n =
        (.error (.invalidDimensions n (255 - c.dimensions)), registry)) ∧
      ∀ d after, registry.deriveArray c n = (.ok d, after) →
        registry.Derived c n d after ∧
          ∀ m k, 0 < m → 0 < k → m + k = n → registry.Composes c m k d after := by
  have hregular := regular_invariant.develops h (new_regular bootSources)
  have hc := hregular.mem_registered.mpr hget
  have hmax : FieldType.maxDimensions = 255 := rfl
  have hdim := c.dimensions_le
  have hbeyond : 255 < n + c.dimensions → registry.deriveArray c n =
      (.error (.invalidDimensions n (255 - c.dimensions)), registry) := by
    intro hfar
    unfold Registry.deriveArray
    exact if_pos (Or.inr (by omega))
  have hwithin : ∀ d, (registry.deriveArray c n).1 = .ok d → n + c.dimensions ≤ 255 := by
    intro d hd
    by_contra hfar
    rw [hbeyond (by omega)] at hd
    contradiction
  refine ⟨⟨fun ⟨d, hd⟩ => hwithin d hd, fun hin => ?_⟩, hbeyond, fun d after hd => ?_⟩
  · obtain ⟨d, after, heq, -⟩ := hregular.deriveArray hc hpos (by omega) hids
    exact ⟨d, congrArg Prod.fst heq⟩
  · have hin := hwithin d (congrArg Prod.fst hd)
    obtain ⟨d', after', heq, hderives⟩ := hregular.deriveArray hc hpos (by omega) hids
    obtain ⟨hsame, rfl⟩ := Prod.mk.inj (heq.symm.trans hd)
    obtain rfl := Except.ok.inj hsame
    refine ⟨hderives.derived hc hpos (by omega), ?_⟩
    rintro m k hm hk rfl
    exact hregular.composes hc hm hk (by omega) hids hd

theorem builds_reloaded : Builds (new [()]) reloaded := develops_reloaded _

/-- The class that was loaded again has an array class already. Two more dimensions can be derived
over it, and up to 255 in all. -/
theorem reloaded_derives_in_range :
    reloaded.missing (classA bootLoader 4) 3 = [2, 3] ∧
      (∃ d after, reloaded.deriveArray (classA bootLoader 4) 3 = (.ok d, after) ∧
        reloaded.Derived (classA bootLoader 4) 3 d after ∧ reloaded.Composes (classA bootLoader 4) 1 2 d after) ∧
      reloaded.deriveArray (classA bootLoader 4) 256 = (.error (.invalidDimensions 256 255), reloaded) := by
  have hget : reloaded.get? (classA bootLoader 4).id = some (classA bootLoader 4) := by decide +kernel
  have hmissing : reloaded.missing (classA bootLoader 4) 3 = [2, 3] := by decide +kernel
  have hsize : reloaded.classes.entries.size = 5 := by decide +kernel
  have hids : reloaded.classes.entries.size + (reloaded.missing (classA bootLoader 4) 3).length ≤
      classIds.bound := by
    rw [hsize, hmissing]
    decide
  obtain ⟨hrange, -, hderived⟩ := builds_reloaded.derives_in_range hget (n := 3) (by decide) hids
  obtain ⟨d, hd⟩ := hrange.mpr (by decide)
  obtain ⟨hspec, hparts⟩ := hderived d _ (Prod.ext hd rfl)
  refine ⟨hmissing, ⟨d, _, Prod.ext hd rfl, hspec, hparts 1 2 (by decide) (by decide) rfl⟩, ?_⟩
  have hmany : reloaded.classes.entries.size + (reloaded.missing (classA bootLoader 4) 256).length ≤
      classIds.bound := by
    have hle : (reloaded.missing (classA bootLoader 4) 256).length ≤ 256 :=
      (List.length_filter_le _ _).trans_eq List.length_range'
    rw [hsize]
    exact Nat.le_trans (Nat.add_le_add_left hle 5) (by decide)
  exact (builds_reloaded.derives_in_range hget (by decide) hmany).2.1 (by decide)

end Metaspace.Registry
