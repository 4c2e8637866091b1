import Metaspace.Proofs.FieldType.Grammar

/-!
Printing and reading back. The descriptor of a type reads as that type if no more than 255 brackets
are in it and the name of its element class can be told from what surrounds it, and so does the form
of it that class files have. Descriptors that are accepted are printed as they were read but for
slashes, and binary names that are accepted read as what they name, wrapped in arrays or not.
-/

set_option autoImplicit false

namespace Metaspace.FieldType

open Descriptor

theorem toList_descriptor_wrap (type : FieldType) (n : Nat) :
    (type.wrap n).descriptor.toList = List.replicate n '[' ++ type.descriptor.toList := by
  induction n with
  | zero => rfl
  | succ n ih => simp [descriptor, ih, List.replicate_succ]

theorem toList_descriptor_primitive (p : Primitive) :
    (primitive p).descriptor.toList = [p.letter] := by
  cases p <;> rfl

theorem toList_descriptor_object (name : String) :
    (object name).descriptor.toList = 'L' :: (name.toList ++ [';']) := by
  simp [descriptor]

theorem wrap_element_depth (type : FieldType) : type.element.wrap type.depth = type := by
  induction type with
  | primitive | object => rfl
  | array component ih => rw [element, depth, wrap_succ, ih]

/-- An element type whose descriptor says what it is: the name of a class is not empty, does not end
early and has no slash that would be read as a dot. -/
def Legible : FieldType → Prop
  | .primitive _ => True
  | .object name => name.toList ≠ [] ∧ ∀ c ∈ name.toList, c ≠ ';' ∧ c ≠ '/'
  | .array _ => False

def internal : FieldType → FieldType
  | .primitive p => .primitive p
  | .object name => .object (internalName name)
  | .array component => .array component.internal

theorem internal_wrap (type : FieldType) (n : Nat) :
    (type.wrap n).internal = type.internal.wrap n := by
  induction n with
  | zero => rfl
  | succ n ih => rw [wrap_succ, internal, ih, wrap_succ]

theorem elementText_object {name : String} {body : List Char} (hne : body ≠ []) (hbody : ';' ∉ body)
    (hname : body.map dotted = name.toList) :
    ElementText ('L' :: (body ++ [';'])) (.object name) := by
  have htext := ElementText.object hne hbody
  rwa [hname, String.ofList_toList] at htext

theorem Legible.elementText {type : FieldType} (h : type.Legible) :
    ElementText type.descriptor.toList type := by
  cases type with
  | primitive p => exact toList_descriptor_primitive p ▸ .primitive p
  | object name =>
    obtain ⟨hne, hplain⟩ := h
    rw [toList_descriptor_object]
    exact elementText_object hne (fun hc => (hplain _ hc).1 rfl)
      (map_dotted_eq_self fun hc => (hplain _ hc).2 rfl)
  | array component => exact h.elim

theorem Legible.elementText_internal {type : FieldType} (h : type.Legible) :
    ElementText type.internal.descriptor.toList type := by
  cases type with
  | primitive p => exact toList_descriptor_primitive p ▸ .primitive p
  | object name =>
    obtain ⟨hne, hplain⟩ := h
    rw [internal, toList_descriptor_object, internalName, String.toList_map]
    refine elementText_object (by simpa using hne) ?_ ?_
    · rw [List.mem_map]
      rintro ⟨c, hc, hslash⟩
      split at hslash
      · contradiction
      · exact (hplain c hc).1 hslash
    · rw [List.map_map]
      refine (List.map_congr_left fun c hc => ?_).trans (List.map_id' name.toList)
      have hslash := (hplain c hc).2
      by_cases hdot : c = '.'
      · simp [hdot, dotted]
      · simp [hdot, dotted, hslash]
  | array component => exact h.elim

theorem Legible.describes {type : FieldType} (h : type.Legible) {n : Nat} (hn : n ≤ maxDimensions) :
    Describes (type.wrap n).descriptor.toList (type.wrap n) := by
  rw [toList_descriptor_wrap]
  exact .brackets h.elementText hn

theorem Legible.describes_internal {type : FieldType} (h : type.Legible) {n : Nat}
    (hn : n ≤ maxDimensions) : Describes (type.wrap n).internal.descriptor.toList (type.wrap n) := by
  rw [internal_wrap, toList_descriptor_wrap]
  exact .brackets h.elementText_internal hn

theorem legible_of_elementText {text : List Char} {type : FieldType} (h : ElementText text type) :
    type.Legible := by
  cases h with
  | primitive => trivial
  | @object body hne hbody =>
    refine ⟨by simpa using hne, ?_⟩
    rw [String.toList_ofList, List.forall_mem_map]
    intro c hc
    have hend := ne_of_mem_of_not_mem hc hbody
    unfold dotted
    split
    · decide
    · exact ⟨hend, ‹_›⟩

theorem legible_of_describes {text : List Char} {type : FieldType} (h : Describes text type) :
    type.element.Legible ∧ type.depth ≤ maxDimensions := by
  obtain @⟨text, type, n, hitem, hn⟩ := h
  have hlegible := legible_of_elementText hitem
  have helement : type.element = type := by cases hitem <;> rfl
  rw [element_wrap, helement, depth_wrap, hitem.depth, Nat.zero_add]
  exact ⟨hlegible, hn⟩

theorem toList_descriptor_of_describes {text : List Char} {type : FieldType}
    (h : Describes text type) : type.descriptor.toList = text.map dotted := by
  obtain @⟨text, type, n, hitem, -⟩ := h
  rw [toList_descriptor_wrap, List.map_append, List.map_replicate]
  congr 1
  cases hitem with
  | primitive p => cases p <;> rfl
  | object =>
    rw [toList_descriptor_object, String.toList_ofList, List.map_cons, List.map_append]
    rfl

theorem brackets_le_of_describes {n : Nat} {rest : List Char} {type : FieldType}
    (h : Describes (List.replicate n '[' ++ rest) type) : n ≤ maxDimensions := by
  generalize htext : List.replicate n '[' ++ rest = text at h
  obtain @⟨text, type, k, hitem, hk⟩ := h
  refine Nat.not_lt.mp fun hn => ?_
  obtain ⟨more, rfl⟩ := Nat.exists_eq_add_of_lt (Nat.lt_of_le_of_lt hk hn)
  rw [Nat.add_assoc, ← List.replicate_append_replicate, List.append_assoc] at htext
  exact hitem.ne_bracket _ (List.append_cancel_left htext).symm

theorem isArray_of_ofDescriptor? {text : String} {cs : List Char} (htext : text.toList = '[' :: cs)
    {type : FieldType} (h : ofDescriptor? text = some type) : type.isArray = true := by
  have hdescribes := ofDescriptor?_iff.mp h
  rw [htext] at hdescribes
  generalize hfront : '[' :: cs = front at hdescribes
  obtain @⟨text, type, n, hitem, -⟩ := hdescribes
  cases n with
  | zero => exact absurd hfront.symm (hitem.ne_bracket cs)
  | succ n => rfl

theorem legible_of_ofName? {name other : String} (h : ofName? name = some (.object other)) :
    other = name ∧ (object name).Legible := by
  unfold ofName? at h
  split at h
  · contradiction
  · rename_i cs htext
    have harray := isArray_of_ofDescriptor? htext h
    contradiction
  · rename_i hne _
    split at h
    · simp at h
    · obtain ⟨hclear, hobject⟩ := Option.ite_none_left_eq_some.mp h
      refine ⟨(FieldType.object.inj (Option.some.inj hobject)).symm, hne, ?_⟩
      intro c hc
      simp only [List.any_eq_true, not_exists, not_and] at hclear
      have hother := hclear c hc
      simp only [Bool.or_eq_true, decide_eq_true_eq, not_or] at hother
      exact ⟨hother.1.2, hother.2⟩

theorem ofName?_array (component : FieldType) :
    ofName? (array component).name = ofDescriptor? (array component).descriptor := by
  have htext : (array component).descriptor.toList = '[' :: component.descriptor.toList := by
    simp [descriptor]
  change ofName? (array component).descriptor = _
  simp only [ofName?, htext]

theorem ofDescriptor?_of_ofName? {text : String} {component : FieldType}
    (h : ofName? text = some (.array component)) :
    ofDescriptor? text = some (.array component) := by
  unfold ofName? at h
  split at h
  · contradiction
  · exact h
  · split at h <;> simp at h

theorem ofName?_wrap {name : String} (h : ofName? name = some (.object name)) {n : Nat}
    (hn : n ≤ maxDimensions) :
    ofName? ((object name).wrap n).name = some ((object name).wrap n) := by
  cases n with
  | zero => exact h
  | succ n =>
    exact (ofName?_array _).trans (ofDescriptor?_iff.mpr ((legible_of_ofName? h).2.describes hn))

theorem ofName?_name {text : String} {type : FieldType} (h : ofName? text = some type) :
    ofName? type.name = some type := by
  cases type with
  | primitive p => cases p <;> rfl
  | object name =>
    obtain ⟨rfl, -⟩ := legible_of_ofName? h
    exact h
  | array component =>
    have hdescribes := ofDescriptor?_iff.mp (ofDescriptor?_of_ofName? h)
    obtain ⟨hlegible, hdepth⟩ := legible_of_describes hdescribes
    have hread := hlegible.describes hdepth
    rw [wrap_element_depth] at hread
    exact (ofName?_array component).trans (ofDescriptor?_iff.mpr hread)

/-- What reading makes of the texts of a type, and printing of the texts that read as it. -/
structure ReadsBack (type : FieldType) : Prop where
  printed : type.depth ≤ maxDimensions → type.element.Legible →
    ofDescriptor? type.descriptor = some type ∧
    ofDescriptor? type.internal.descriptor = some type
  reprinted : ∀ text, ofDescriptor? text = some type → type.descriptor = text.map dotted
  named : ∀ text, ofName? text = some type → ofName? type.name = some type
  nameable : ∀ text other otherType, ofName? text = some type → ofName? other = some otherType →
    otherType.name = type.name → otherType = type
  /-- With too many dimensions nothing reads as the type, and its own texts are not accepted. -/
  overlong : maxDimensions < type.depth →
    (∀ text, ofDescriptor? text ≠ some type ∧ ofName? text ≠ some type) ∧
    ofDescriptor? type.descriptor = none ∧ ofName? type.name = none

theorem not_described_of_overlong {type : FieldType} (h : maxDimensions < type.depth) (text : String) :
    ofDescriptor? text ≠ some type := fun hread =>
  Nat.not_le.mpr h (legible_of_describes (ofDescriptor?_iff.mp hread)).2

theorem ofDescriptor?_overlong {type : FieldType} (h : maxDimensions < type.depth) :
    ofDescriptor? type.descriptor = none := by
  rw [Option.eq_none_iff_forall_ne_some]
  intro other hread
  have hdescribes := ofDescriptor?_iff.mp hread
  rw [← wrap_element_depth type, toList_descriptor_wrap] at hdescribes
  exact Nat.not_le.mpr h (brackets_le_of_describes hdescribes)

/-- Printing and reading types are inverse as far as types and texts can be told from each other. -/
theorem readsBack (type : FieldType) : type.ReadsBack where
  printed hdepth hlegible := by
    have hplain := ofDescriptor?_iff.mpr (hlegible.describes hdepth)
    have hinternal := ofDescriptor?_iff.mpr (hlegible.describes_internal hdepth)
    rw [wrap_element_depth] at hplain hinternal
    exact ⟨hplain, hinternal⟩
  reprinted text hread := by
    rw [← String.toList_inj, String.toList_map]
    exact toList_descriptor_of_describes (ofDescriptor?_iff.mp hread)
  named _ := ofName?_name
  nameable text other otherType hread hother hname := by
    have hself := ofName?_name hother
    rw [hname, ofName?_name hread, Option.some.injEq] at hself
    exact hself.symm
  overlong hdepth := by
    have hnone := not_described_of_overlong hdepth
    cases type with
    | primitive | object => contradiction
    | array component =>
      have hown := ofDescriptor?_overlong hdepth
      exact ⟨fun text => ⟨hnone text, fun h => hnone text (ofDescriptor?_of_ofName? h)⟩, hown,
        (ofName?_array component).trans hown⟩

/-- Inside an array a class may be named like a primitive type, and its package may be written with
slashes. With 256 dimensions it is refused. -/
theorem keyword_arrays_read_back :
    ofDescriptor? "[[Llang.int;" = some ((object "lang.int").wrap 2) ∧
    ofDescriptor? "[[Llang/int;" = some ((object "lang.int").wrap 2) ∧
    ((object "lang.int").wrap 2).descriptor = "[[Llang/int;".map dotted ∧
    ofName? ((object "int").wrap 1).name = some ((object "int").wrap 1) ∧
    ofName? ((object "int").wrap 256).name = none := by
  have hplain : "[[Llang.int;" = ((object "lang.int").wrap 2).descriptor := by decide
  have hinternal : "[[Llang/int;" = ((object "lang.int").wrap 2).internal.descriptor :=
    String.toList_inj.mp (by simp [internal, internalName, descriptor])
  have hclass : ofName? "lang.int" = some (object "lang.int") := by decide
  obtain ⟨hread, hslashed⟩ :=
    (readsBack ((object "lang.int").wrap 2)).printed (by decide) (legible_of_ofName? hclass).2
  have hnamed : ofName? "[Lint;" = some ((object "int").wrap 1) := by decide
  have hlong : maxDimensions < ((object "int").wrap 256).depth := by
    rw [depth_wrap]
    decide
  rw [← hplain] at hread
  rw [← hinternal] at hslashed
  exact ⟨hread, hslashed, (readsBack _).reprinted _ hslashed, (readsBack _).named _ hnamed,
    ((readsBack _).overlong hlong).2.2⟩

end Metaspace.FieldType
