import Metaspace.FieldType.Parser

/-!
The grammar of descriptors. A descriptor is up to 255 opening brackets before the text of an element
type, which is a primitive letter or `L`, a name that is not empty and has no `;`, and `;`. Reading
finds exactly the descriptors at the front of a text, and no text has two of them.
-/

set_option autoImplicit false

namespace Metaspace

theorem utf8Length_append (a b : List Char) :
    utf8Length (a ++ b) = utf8Length a + utf8Length b := by
  unfold utf8Length
  simp only [← List.sum_eq_foldl, List.map_append, List.sum_append]

theorem utf8Length_cons (c : Char) (cs : List Char) :
    utf8Length (c :: cs) = c.utf8Size + utf8Length cs := by
  unfold utf8Length
  simp only [← List.sum_eq_foldl, List.map_cons, List.sum_cons]

theorem utf8Length_brackets (n : Nat) : utf8Length (List.replicate n '[') = n := by
  simp [utf8Length, Char.utf8Size, ← List.sum_eq_foldl]

theorem utf8Length_eq_zero {cs : List Char} : utf8Length cs = 0 ↔ cs = [] := by
  cases cs with
  | nil => simp [utf8Length]
  | cons c cs =>
    have hsize := c.utf8Size_pos
    rw [utf8Length_cons]
    simp only [reduceCtorEq, iff_false]
    omega

theorem utf8ByteSize_ofList (cs : List Char) :
    (String.ofList cs).utf8ByteSize = utf8Length cs := by
  induction cs with
  | nil => rfl
  | cons c cs ih =>
    rw [String.ofList_cons, String.utf8ByteSize_append, String.utf8ByteSize_singleton, ih,
      utf8Length_cons]

theorem utf8ByteSize_eq (text : String) : text.utf8ByteSize = utf8Length text.toList := by
  rw [← utf8ByteSize_ofList, String.ofList_toList]

theorem eq_of_prefix_of_utf8Length {a b cs : List Char} (ha : a <+: cs) (hb : b <+: cs)
    (hlength : utf8Length a = utf8Length b) : a = b := by
  have same {front whole : List Char} (h : front <+: whole)
      (heq : utf8Length front = utf8Length whole) : front = whole := by
    obtain ⟨more, rfl⟩ := h
    have hnone : more = [] := by
      rw [← utf8Length_eq_zero]
      rw [utf8Length_append] at heq
      omega
    rw [hnone, List.append_nil]
  rcases List.prefix_or_prefix_of_prefix ha hb with hab | hba
  · exact same hab hlength
  · exact (same hba hlength.symm).symm

namespace Descriptor

def dotted (c : Char) : Char :=
  if c = '/' then '.' else c

theorem map_dotted_eq_self {cs : List Char} (h : '/' ∉ cs) : cs.map dotted = cs :=
  (List.map_congr_left fun _ hc => if_neg (ne_of_mem_of_not_mem hc h)).trans (List.map_id' cs)

inductive ElementText : List Char → FieldType → Prop where
  | primitive (p : Primitive) : ElementText [p.letter] (.primitive p)
  | object {body : List Char} : body ≠ [] → ';' ∉ body →
      ElementText ('L' :: (body ++ [';'])) (.object (String.ofList (body.map dotted)))

inductive Describes : List Char → FieldType → Prop where
  | brackets {text : List Char} {type : FieldType} {n : Nat} :
      ElementText text type → n ≤ FieldType.maxDimensions →
      Describes (List.replicate n '[' ++ text) (type.wrap n)

theorem exists_body {cs : List Char} (h : ';' ∈ cs) :
    ∃ body rest, cs = body ++ ';' :: rest ∧ ';' ∉ body := by
  induction cs with
  | nil => simp at h
  | cons c cs ih =>
    by_cases hc : c = ';'
    · exact ⟨[], cs, by rw [hc, List.nil_append], List.not_mem_nil⟩
    · obtain ⟨body, rest, rfl, hbody⟩ := ih ((List.mem_cons.mp h).resolve_left (Ne.symm hc))
      exact ⟨c :: body, rest, rfl, by simp [Ne.symm hc, hbody]⟩

theorem takeWhile_body {body : List Char} (h : ';' ∉ body) (rest : List Char) :
    (body ++ ';' :: rest).takeWhile (· ≠ ';') = body := by
  rw [List.takeWhile_append_of_pos fun c hc => by simpa using ne_of_mem_of_not_mem hc h,
    List.takeWhile_cons_of_neg (by simp), List.append_nil]

theorem readObject?_body {body : List Char} (h : ';' ∉ body) (rest : List Char) :
    readObject? ('L' :: (body ++ ';' :: rest)) =
      if body = [] then none
      else some (.object (String.ofList (body.map dotted)), utf8Length body + 2) := by
  have hshort : body.length < (body ++ ';' :: rest).length := by simp
  simp only [readObject?, takeWhile_body h, hshort, and_true, ne_eq, ite_not]
  rfl

theorem readObject?_endless {cs : List Char} (h : ';' ∉ cs) : readObject? ('L' :: cs) = none := by
  have hall : (cs ++ []).takeWhile (· ≠ ';') = cs ++ [].takeWhile (· ≠ ';') :=
    List.takeWhile_append_of_pos fun c hc => by simpa using ne_of_mem_of_not_mem hc h
  rw [List.takeWhile_nil, List.append_nil] at hall
  simp only [readObject?, hall, Nat.lt_irrefl, and_false, if_false]

theorem readObject?_eq_none {cs : List Char} (h : cs.head? ≠ some 'L') : readObject? cs = none := by
  unfold readObject?
  split
  · exact absurd rfl h
  · rfl

theorem utf8Length_object (body : List Char) :
    utf8Length ('L' :: (body ++ [';'])) = utf8Length body + 2 := by
  simp only [utf8Length_cons, utf8Length_append]
  simp [utf8Length, Char.utf8Size]
  omega

theorem ElementText.readElement? {text : List Char} {type : FieldType} (h : ElementText text type)
    (rest : List Char) : readElement? (text ++ rest) = some (type, utf8Length text) := by
  cases h with
  | primitive p => cases p <;> rfl
  | @object body hne hbody =>
    have htext : 'L' :: (body ++ [';']) ++ rest = 'L' :: (body ++ ';' :: rest) := by simp
    rw [htext, Descriptor.readElement?, if_pos (List.head?_cons ..), readObject?_body hbody,
      if_neg hne, utf8Length_object]

theorem elementText_of_readElement? {cs : List Char} {type : FieldType} {n : Nat}
    (h : readElement? cs = some (type, n)) :
    ∃ text, text <+: cs ∧ utf8Length text = n ∧ ElementText text type := by
  unfold readElement? at h
  split at h
  · rename_i hL
    obtain ⟨cs, rfl⟩ := List.head?_eq_some_iff.mp hL
    by_cases hend : ';' ∈ cs
    · obtain ⟨body, rest, rfl, hbody⟩ := exists_body hend
      rw [readObject?_body hbody] at h
      obtain ⟨hne, hread⟩ := Option.ite_none_left_eq_some.mp h
      obtain ⟨rfl, rfl⟩ := Prod.mk.inj (Option.some.inj hread)
      exact ⟨'L' :: (body ++ [';']), ⟨rest, by simp⟩, utf8Length_object body, .object hne hbody⟩
    · rw [readObject?_endless hend] at h
      contradiction
  · cases cs with
    | nil => contradiction
    | cons c cs =>
      obtain ⟨p, hp, hread⟩ := Option.map_eq_some_iff.mp h
      obtain ⟨rfl, rfl⟩ := Prod.mk.inj hread
      have hc : p.letter = c := by simpa using List.find?_some hp
      exact ⟨[c], ⟨cs, rfl⟩, by rw [← hc]; cases p <;> rfl, hc ▸ .primitive p⟩

theorem ElementText.depth {text : List Char} {type : FieldType} (h : ElementText text type) :
    type.depth = 0 := by
  cases h <;> rfl

theorem ElementText.ne_bracket {text : List Char} {type : FieldType} (h : ElementText text type)
    (cs : List Char) : text ≠ '[' :: cs := by
  cases h with
  | primitive p => cases p <;> simp [Primitive.letter]
  | object => simp

theorem ElementText.takeWhile_brackets {text : List Char} {type : FieldType}
    (h : ElementText text type) (n : Nat) (rest : List Char) :
    (List.replicate n '[' ++ text ++ rest).takeWhile (· = '[') = List.replicate n '[' := by
  have hnone : (text ++ rest).takeWhile (· = '[') = [] := by
    cases h with
    | primitive p => cases p <;> rfl
    | object => rfl
  rw [List.append_assoc, List.takeWhile_append_of_pos (by simp), hnone, List.append_nil]

theorem Describes.read? {text : List Char} {type : FieldType} (h : Describes text type)
    (rest : List Char) : read? (text ++ rest) = some (type, utf8Length text) := by
  obtain @⟨text, type, n, hitem, hn⟩ := h
  have hdrop : (List.replicate n '[' ++ text ++ rest).drop n = text ++ rest := by
    rw [List.append_assoc, List.drop_left' (List.length_replicate ..)]
  simp only [Descriptor.read?, hitem.takeWhile_brackets, List.length_replicate, hn, if_true, hdrop,
    hitem.readElement?, Option.map_some, utf8Length_append, utf8Length_brackets, Nat.add_comm]

theorem takeWhile_bracket (cs : List Char) :
    cs.takeWhile (· = '[') = List.replicate (cs.takeWhile (· = '[')).length '[' :=
  List.eq_replicate_of_mem fun c hc => by
    simpa using List.all_eq_true.mp (List.all_takeWhile (p := (· = '['))) c hc

theorem describes_of_read? {cs : List Char} {type : FieldType} {n : Nat}
    (h : read? cs = some (type, n)) :
    ∃ text, text <+: cs ∧ utf8Length text = n ∧ Describes text type := by
  obtain ⟨hcount, hread⟩ := Option.ite_none_right_eq_some.mp h
  obtain ⟨⟨element, length⟩, helement, hresult⟩ := Option.map_eq_some_iff.mp hread
  obtain ⟨rfl, rfl⟩ := Prod.mk.inj hresult
  obtain ⟨text, ⟨rest, hrest⟩, rfl, hitem⟩ := elementText_of_readElement? helement
  generalize hbrackets : (cs.takeWhile (· = '[')).length = brackets at *
  have hfront : cs.take brackets = List.replicate brackets '[' := by
    rw [← hbrackets, ← List.prefix_iff_eq_take.mp (List.takeWhile_prefix _), hbrackets,
      takeWhile_bracket, hbrackets]
  refine ⟨List.replicate brackets '[' ++ text, ⟨rest, ?_⟩, ?_, .brackets hitem hcount⟩
  · rw [List.append_assoc, hrest, ← hfront, List.take_append_drop]
  · rw [utf8Length_append, utf8Length_brackets, Nat.add_comm]

/-- Reading gives a type and a length exactly if the text starts with a descriptor of that type and
length. -/
theorem read?_iff {cs : List Char} {type : FieldType} {n : Nat} :
    read? cs = some (type, n) ↔
      ∃ text, text <+: cs ∧ utf8Length text = n ∧ Describes text type := by
  refine ⟨describes_of_read?, ?_⟩
  rintro ⟨text, ⟨rest, rfl⟩, rfl, hdescribes⟩
  exact hdescribes.read? rest

theorem Describes.unique {cs text other : List Char} {type otherType : FieldType}
    (h : Describes text type) (hother : Describes other otherType) (hfront : text <+: cs)
    (hfront' : other <+: cs) : text = other ∧ type = otherType := by
  have hread := read?_iff.mpr ⟨text, hfront, rfl, h⟩
  rw [read?_iff.mpr ⟨other, hfront', rfl, hother⟩] at hread
  obtain ⟨htype, hlength⟩ := Prod.mk.inj (Option.some.inj hread)
  exact ⟨eq_of_prefix_of_utf8Length hfront hfront' hlength.symm, htype.symm⟩

end Descriptor

theorem FieldType.ofDescriptor?_iff {text : String} {type : FieldType} :
    ofDescriptor? text = some type ↔ Descriptor.Describes text.toList type := by
  constructor
  · intro h
    unfold ofDescriptor? at h
    split at h
    · rename_i read length hread
      obtain ⟨hlength, htype⟩ := Option.ite_none_right_eq_some.mp h
      obtain rfl := Option.some.inj htype
      obtain ⟨front, hfront, hsize, hdescribes⟩ := Descriptor.read?_iff.mp hread
      have hwhole : front = text.toList :=
        eq_of_prefix_of_utf8Length hfront List.prefix_rfl (by
          rw [hsize, hlength, utf8ByteSize_eq])
      exact hwhole ▸ hdescribes
    · contradiction
  · intro h
    have hread := h.read? []
    rw [List.append_nil] at hread
    simp only [ofDescriptor?, hread, utf8ByteSize_eq, if_true]

end Metaspace
