import Metaspace.Proofs.FieldType.Descriptors

/-!
The names of components. A component of an accepted array type that is an array itself, or a
primitive type, is accepted under its own name. The class at the bottom is if its name is no keyword
and has no bracket: inside a descriptor such names pass, alone they do not name the class.
-/

set_option autoImplicit false

namespace Metaspace.FieldType

open Descriptor

/-- The types that an array type is made over, from its component down to its element. -/
def components : FieldType → List FieldType
  | .array component => component :: component.components
  | _ => []

theorem mem_components {type component : FieldType} :
    component ∈ type.components ↔ ∃ n < type.depth, component = type.element.wrap n := by
  induction type with
  | primitive | object => simp [components, depth]
  | array inner ih =>
    simp only [components, List.mem_cons, ih, depth, element, Nat.lt_succ_iff_lt_or_eq]
    constructor
    · rintro (rfl | ⟨n, hn, rfl⟩)
      · exact ⟨component.depth, Or.inr rfl, (wrap_element_depth component).symm⟩
      · exact ⟨n, Or.inl hn, rfl⟩
    · rintro ⟨n, hn | rfl, rfl⟩
      · exact Or.inr ⟨n, hn, rfl⟩
      · exact Or.inl (wrap_element_depth inner)

theorem element_mem_components (component : FieldType) :
    component.element ∈ (array component).components :=
  mem_components.mpr ⟨0, Nat.succ_pos _, rfl⟩

/-- A type that its name alone tells: the name of a class is no keyword and has no bracket. -/
def Plain : FieldType → Prop
  | .object name => Primitive.ofKeyword? name = none ∧ '[' ∉ name.toList
  | _ => True

theorem keyword_eq_of_ofKeyword? {name : String} {p : Primitive}
    (h : Primitive.ofKeyword? name = some p) : p.keyword = name := by
  simpa using List.find?_some h

theorem ofName?_of_keyword {name : String} {p : Primitive}
    (h : Primitive.ofKeyword? name = some p) : ofName? name = some (.primitive p) := by
  rw [← keyword_eq_of_ofKeyword? h]
  cases p <;> rfl

theorem ofName?_of_bracket {name : String} (h : '[' ∈ name.toList) :
    ofName? name = if name.toList.head? = some '[' then ofDescriptor? name else none := by
  unfold ofName?
  split
  · rename_i hnil
    rw [hnil] at h
    contradiction
  · rename_i cs htext
    rw [htext, List.head?_cons, if_pos rfl]
  · rename_i hfront
    have hhead : name.toList.head? ≠ some '[' := by
      intro hhead
      obtain ⟨cs, hcs⟩ := List.head?_eq_some_iff.mp hhead
      exact hfront cs hcs
    have hany : (name.toList.any fun c => c = '[' || c = ';' || c = '/') = true :=
      List.any_eq_true.mpr ⟨'[', h, by decide⟩
    rw [if_neg hhead]
    split
    · -- no keyword has a bracket in it
      rename_i p hkeyword
      rw [← keyword_eq_of_ofKeyword? hkeyword] at h
      exact absurd h (by cases p <;> decide)
    · rw [if_pos hany]

theorem Legible.ofName?_iff {name : String} (h : (object name).Legible) :
    ofName? name = some (.object name) ↔ (object name).Plain := by
  constructor
  · intro hread
    refine ⟨?_, fun hbracket => ?_⟩
    · cases hkeyword : Primitive.ofKeyword? name with
      | none => rfl
      | some p =>
        rw [ofName?_of_keyword hkeyword] at hread
        cases hread
    · rw [ofName?_of_bracket hbracket] at hread
      obtain ⟨hhead, hdescriptor⟩ := Option.ite_none_right_eq_some.mp hread
      obtain ⟨cs, hcs⟩ := List.head?_eq_some_iff.mp hhead
      have harray := isArray_of_ofDescriptor? hcs hdescriptor
      contradiction
  · rintro ⟨hkeyword, hbracket⟩
    obtain ⟨hne, hclear⟩ := h
    have hany : (name.toList.any fun c => c = '[' || c = ';' || c = '/') = false := by
      rw [List.any_eq_false]
      intro c hc
      have hopen := ne_of_mem_of_not_mem hc hbracket
      simp [hopen, (hclear c hc).1, (hclear c hc).2]
    unfold ofName?
    split
    · contradiction
    · rename_i cs htext
      rw [htext] at hbracket
      exact absurd List.mem_cons_self hbracket
    · rw [hkeyword, hany]
      rfl

/-- What the names of the components of an array type are taken for. -/
structure NamesComponents (type : FieldType) : Prop where
  /-- Arrays and primitive types are found under their names, a class if its name is plain. -/
  each : ∀ component ∈ type.components,
    ofName? component.name = some component ↔ component.Plain
  all : (∀ component ∈ type.components, ofName? component.name = some component) ↔
    type.element.Plain
  keyword : ∀ name p, type.element = .object name → Primitive.ofKeyword? name = some p →
    ofName? name = some (.primitive p)
  bracket : ∀ name, type.element = .object name → '[' ∈ name.toList →
    ofName? name = if name.toList.head? = some '[' then ofDescriptor? name else none

theorem plain_wrap_succ (type : FieldType) (n : Nat) : (type.wrap (n + 1)).Plain := trivial

theorem ofName?_component_iff {type : FieldType} (hlegible : type.element.Legible)
    (hdepth : type.depth ≤ maxDimensions) {component : FieldType}
    (h : component ∈ type.components) :
    ofName? component.name = some component ↔ component.Plain := by
  obtain ⟨n, hn, rfl⟩ := mem_components.mp h
  cases n with
  | succ n =>
    have hread := ofDescriptor?_iff.mpr (hlegible.describes (Nat.le_trans (Nat.le_of_lt hn) hdepth))
    exact iff_of_true ((ofName?_array _).trans hread) (plain_wrap_succ type.element n)
  | zero =>
    cases helement : type.element with
    | primitive p =>
      refine iff_of_true ?_ trivial
      cases p <;> rfl
    | object name =>
      rw [helement] at hlegible
      exact hlegible.ofName?_iff
    | array inner =>
      rw [helement] at hlegible
      exact hlegible.elim

/-- An array type that is accepted has components that are accepted under their names, down to the
element: that one is so if it is no class, or a class with a plain name. -/
theorem components_read_back {text : String} {component : FieldType}
    (h : ofName? text = some (.array component)) : (array component).NamesComponents := by
  obtain ⟨hlegible, hdepth⟩ :=
    legible_of_describes (ofDescriptor?_iff.mp (ofDescriptor?_of_ofName? h))
  have heach : ∀ {c}, c ∈ (array component).components → (ofName? c.name = some c ↔ c.Plain) :=
    fun hc => ofName?_component_iff hlegible hdepth hc
  refine ⟨fun c => heach, ⟨fun hall => ?_, fun hplain c hc => ?_⟩, fun _ _ _ => ofName?_of_keyword,
    fun _ _ => ofName?_of_bracket⟩
  · have helement := element_mem_components component
    exact (heach helement).mp (hall _ helement)
  · refine (heach hc).mpr ?_
    obtain ⟨n, -, rfl⟩ := mem_components.mp hc
    cases n with
    | zero => exact hplain
    | succ n => exact plain_wrap_succ _ n

/-- Over a class with a plain name all components are found again. Over one that is named like a
primitive type the inner array is, and the class is mistaken for that type. -/
theorem nested_components_read_back :
    (∀ component ∈ ((object "a.B").wrap 2).components,
      ofName? component.name = some component) ∧
    ofName? ((object "int").wrap 1).name = some ((object "int").wrap 1) ∧
    ofName? (object "int").name = some (.primitive .int) := by
  have hplain : ofName? "[[La.B;" = some (.array ((object "a.B").wrap 1)) := by decide
  have hkeyword : ofName? "[[Lint;" = some (.array ((object "int").wrap 1)) := by decide
  have hnames := components_read_back hkeyword
  refine ⟨(components_read_back hplain).all.mpr ⟨by decide, by decide⟩, ?_, ?_⟩
  · exact (hnames.each _ (by simp [components])).mpr trivial
  · exact hnames.keyword "int" .int rfl (by decide)

/-- Inside a descriptor a class may be named by a bracket or by a keyword. The bracket alone names
nothing, and the keyword alone names another type. -/
theorem bracket_component_refused :
    ofName? "[L[;" = some (.array (.object "[")) ∧
      object "[" ∈ (array (.object "[")).components ∧ ofName? (object "[").name = none ∧
    ofName? "[Lint;" = some (.array (.object "int")) ∧
      object "int" ∈ (array (.object "int")).components ∧
      ofName? (object "int").name ≠ some (.object "int") := by
  decide

end Metaspace.FieldType
