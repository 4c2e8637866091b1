import Metaspace.Proofs.FieldType.Grammar

/-!
Reading descriptors by their bytes. Three functions that call each other look at the first byte of
a text, slice it at byte offsets and add up lengths. The offsets they slice at always lie between
two characters, and what the functions give is what reading by characters gives, so that they accept
the grammar and nothing else.
-/

set_option autoImplicit false

namespace Metaspace.Descriptor

/-- A slice of a text that starts or ends inside a character or beyond the text. -/
structure BadSlice where
  text : List Char
  offset : Nat

def cutAt : List Char → Nat → Except BadSlice (List Char × List Char)
  | cs, 0 => .ok ([], cs)
  | [], n + 1 => .error ⟨[], n + 1⟩
  | c :: cs, n + 1 =>
    if c.utf8Size ≤ n + 1 then do
      let (front, rest) ← cutAt cs (n + 1 - c.utf8Size)
      return (c :: front, rest)
    else .error ⟨c :: cs, n + 1⟩

def slice (cs : List Char) (start stop : Nat) : Except BadSlice (List Char) := do
  let (front, _) ← cutAt cs stop
  let (_, middle) ← cutAt front start
  return middle

def firstByte? (cs : List Char) : Option UInt8 :=
  (cs.flatMap String.utf8EncodeChar).head?

def offset? (x : Char) : List Char → Option Nat
  | [] => none
  | c :: cs => if c = x then some 0 else (offset? x cs).map (· + c.utf8Size)

def bytePrimitive? (byte : UInt8) : Option Primitive :=
  Primitive.all.find? (·.letter.toUInt8 = byte)

/-- Looks for the `;` from the start of the text, and needs a byte between `L` and it. -/
def byteObject? (cs : List Char) : Except BadSlice (Option Reading) :=
  if firstByte? cs = some 'L'.toUInt8 then
    match offset? ';' cs with
    | none => .ok none
    | some stop =>
      if stop < 2 then .ok none
      else do
        let body ← slice cs 1 stop
        return some (.object (String.ofList (body.map dotted)), stop + 1)
  else .ok none

theorem cutAt_zero (cs : List Char) : cutAt cs 0 = .ok ([], cs) := by
  cases cs <;> rfl

theorem cutAt_append (front rest : List Char) :
    cutAt (front ++ rest) (utf8Length front) = .ok (front, rest) := by
  induction front with
  | nil => exact cutAt_zero rest
  | cons c front ih =>
    obtain ⟨k, hk⟩ := Nat.exists_eq_succ_of_ne_zero (Nat.ne_of_gt c.utf8Size_pos)
    have hsize : c.utf8Size + utf8Length front = k + utf8Length front + 1 := by omega
    have hfits : c.utf8Size ≤ k + utf8Length front + 1 := by omega
    have hleft : k + utf8Length front + 1 - c.utf8Size = utf8Length front := by omega
    rw [utf8Length_cons, hsize, List.cons_append, cutAt, if_pos hfits, hleft, ih]
    rfl

theorem cutAt_eq_ok {cs front rest : List Char} {n : Nat} :
    cutAt cs n = .ok (front, rest) ↔ cs = front ++ rest ∧ utf8Length front = n := by
  refine ⟨fun h => ?_, fun ⟨hcs, hn⟩ => hcs ▸ hn ▸ cutAt_append front rest⟩
  induction cs generalizing front n with
  | nil =>
    cases n with
    | zero => cases h; exact ⟨rfl, rfl⟩
    | succ n => cases h
  | cons c cs ih =>
    cases n with
    | zero => cases h; exact ⟨rfl, rfl⟩
    | succ n =>
      rw [cutAt] at h
      split at h
      · rename_i hfits
        cases hcut : cutAt cs (n + 1 - c.utf8Size) with
        | error bad => rw [hcut] at h; cases h
        | ok parts =>
          obtain ⟨front', rest'⟩ := parts
          rw [hcut] at h
          cases h
          obtain ⟨rfl, hlength⟩ := ih hcut
          refine ⟨rfl, ?_⟩
          rw [utf8Length_cons, hlength]
          omega
      · cases h

theorem slice_body (front body rest : List Char) :
    slice (front ++ body ++ rest) (utf8Length front) (utf8Length (front ++ body)) = .ok body := by
  simp only [slice, cutAt_append, bind, Except.bind]
  rfl

theorem offset?_body {body : List Char} {x : Char} (h : x ∉ body) (rest : List Char) :
    offset? x (body ++ x :: rest) = some (utf8Length body) := by
  induction body with
  | nil => simp [offset?, utf8Length]
  | cons c body ih =>
    simp only [List.mem_cons, not_or] at h
    obtain ⟨hc, hbody⟩ := h
    rw [List.cons_append, offset?, if_neg (Ne.symm hc), ih hbody, Option.map_some,
      utf8Length_cons, Nat.add_comm]

theorem offset?_eq_none {cs : List Char} {x : Char} (h : x ∉ cs) : offset? x cs = none := by
  induction cs with
  | nil => rfl
  | cons c cs ih =>
    simp only [List.mem_cons, not_or] at h
    obtain ⟨hc, hcs⟩ := h
    rw [offset?, if_neg (Ne.symm hc), ih hcs, Option.map_none]

/-- Only the encoding of an ASCII character starts with its byte: all others start with a byte over
127. -/
theorem firstByte?_cons {c x : Char} (cs : List Char) (hx : x.toNat < 128) :
    firstByte? (c :: cs) = some x.toUInt8 ↔ c = x := by
  have hbyte (n : Nat) : some (UInt8.ofNat n) = some x.toUInt8 ↔ n % 256 = x.toNat := by
    have hsmall : x.toUInt8.toNat = x.toNat := Nat.mod_eq_of_lt (Nat.lt_trans hx (by decide))
    rw [Option.some.injEq, ← UInt8.toNat_inj, hsmall, UInt8.toNat_ofNat']
  have hval : c.val.toNat = c.toNat := rfl
  rw [firstByte?, List.flatMap_cons, String.utf8EncodeChar, ← Char.toNat_inj, hval]
  split
  · simp only [List.cons_append, List.head?_cons, hbyte]
    omega
  · split
    · simp only [List.cons_append, List.head?_cons, hbyte]
      omega
    · split
      all_goals
        simp only [List.cons_append, List.head?_cons, hbyte]
        omega

theorem firstByte?_ne_none (c : Char) (cs : List Char) : firstByte? (c :: cs) ≠ none := by
  rw [firstByte?, List.flatMap_cons, Ne, List.head?_eq_none_iff, List.append_eq_nil_iff]
  exact fun h => String.utf8EncodeChar_ne_nil h.1

theorem byteObject?_eq (cs : List Char) : byteObject? cs = .ok (readObject? cs) := by
  cases cs with
  | nil => rfl
  | cons c cs =>
    by_cases hc : c = 'L'
    · subst hc
      rw [byteObject?, if_pos ((firstByte?_cons cs (by decide)).mpr rfl), offset?,
        if_neg (by decide)]
      by_cases hend : ';' ∈ cs
      · obtain ⟨body, rest, rfl, hbody⟩ := exists_body hend
        have hslice : slice ('L' :: (body ++ ';' :: rest)) 1 (utf8Length body + 1) = .ok body := by
          rw [Nat.add_comm]
          exact utf8Length_cons 'L' body ▸ slice_body ['L'] body (';' :: rest)
        have hL : Char.utf8Size 'L' = 1 := rfl
        have hempty : utf8Length body + 1 < 2 ↔ body = [] := by
          rw [← utf8Length_eq_zero]
          omega
        rw [offset?_body hbody, readObject?_body hbody, Option.map_some, hL]
        simp only [hempty, hslice]
        split <;> rfl
      · rw [offset?_eq_none hend, readObject?_endless hend]
        rfl
    · rw [byteObject?, if_neg (mt (firstByte?_cons cs (by decide)).mp hc),
        readObject?_eq_none (by simpa using hc)]

/-- What is read behind a bracket is the component of an array, unless that has 255 dimensions
already. -/
def underBracket : Option Reading → Option Reading
  | none => none
  | some (component, length) =>
    if FieldType.maxDimensions ≤ component.dimensions then none
    else some (.array component, length + 1)

theorem length_lt_of_cutAt {cs front rest : List Char} {n : Nat}
    (h : cutAt cs (n + 1) = .ok (front, rest)) : rest.length < cs.length := by
  obtain ⟨rfl, hfront⟩ := cutAt_eq_ok.mp h
  have hne : front ≠ [] := mt utf8Length_eq_zero.mpr (by omega)
  have hpos := List.length_pos_iff.mpr hne
  rw [List.length_append]
  omega

-- The component is read before it is known how many dimensions it has, so the recursion goes as deep
-- as there are brackets. Each one it goes past shortens the text.
mutual

def byteRead? (cs : List Char) : Except BadSlice (Option Reading) :=
  match firstByte? cs with
  | none => .ok none
  | some byte =>
    if byte = 'L'.toUInt8 then byteObject? cs
    else if byte = '['.toUInt8 then byteArray? cs
    else .ok ((bytePrimitive? byte).map fun p => (.primitive p, 1))
termination_by (cs.length, 1)

def byteArray? (cs : List Char) : Except BadSlice (Option Reading) :=
  if firstByte? cs = some '['.toUInt8 then
    match _ : cutAt cs 1 with
    | .error bad => .error bad
    | .ok (_, rest) => (byteRead? rest).map underBracket
  else .ok none
termination_by (cs.length, 0)
decreasing_by exact .left _ _ (length_lt_of_cutAt ‹_›)

end

theorem byteArray?_bracket (cs : List Char) :
    byteArray? ('[' :: cs) = (byteRead? cs).map underBracket := by
  have hcut : cutAt ('[' :: cs) 1 = .ok (['['], cs) := cutAt_append ['['] cs
  rw [byteArray?, if_pos ((firstByte?_cons cs (by decide)).mpr rfl)]
  split
  · rename_i hbad
    rw [hcut] at hbad
    cases hbad
  · rename_i hok
    rw [hcut] at hok
    cases hok
    rfl

theorem byteArray?_of_not_bracket {c : Char} (h : c ≠ '[') (cs : List Char) :
    byteArray? (c :: cs) = .ok none := by
  rw [byteArray?, if_neg (mt (firstByte?_cons cs (by decide)).mp h)]

theorem bytePrimitive?_eq {c : Char} {cs : List Char} {byte : UInt8}
    (h : firstByte? (c :: cs) = some byte) : bytePrimitive? byte = Primitive.ofLetter? c := by
  have hsame (p : Primitive) : p.letter.toUInt8 = byte ↔ p.letter = c := by
    have hsmall : p.letter.toNat < 128 := by cases p <;> decide
    rw [eq_comm, ← Option.some.injEq, ← h, firstByte?_cons cs hsmall, eq_comm]
  simp only [bytePrimitive?, Primitive.ofLetter?, hsame]

theorem read?_bracket (cs : List Char) : read? ('[' :: cs) = underBracket (read? cs) := by
  have hcount : (('[' :: cs).takeWhile (· = '[')).length = (cs.takeWhile (· = '[')).length + 1 := by
    simp
  simp only [read?, hcount, List.drop_succ_cons]
  generalize (cs.takeWhile (· = '[')).length = brackets
  cases helement : readElement? (cs.drop brackets) with
  | none => simp [underBracket]
  | some reading =>
    obtain ⟨element, length⟩ := reading
    obtain ⟨text, -, -, hitem⟩ := elementText_of_readElement? helement
    have hdim : (element.wrap brackets).dimensions = min brackets FieldType.maxDimensions := by
      rw [FieldType.dimensions, FieldType.depth_wrap, hitem.depth, Nat.zero_add]
    by_cases hfits : brackets + 1 ≤ FieldType.maxDimensions
    · have hless : ¬ FieldType.maxDimensions ≤ (element.wrap brackets).dimensions := by
        rw [hdim]
        omega
      rw [if_pos hfits, if_pos (by omega)]
      simp only [Option.map_some, underBracket, if_neg hless]
      rfl
    · rw [if_neg hfits]
      by_cases hlast : brackets ≤ FieldType.maxDimensions
      · have hfull : FieldType.maxDimensions ≤ (element.wrap brackets).dimensions := by
          rw [hdim]
          omega
        rw [if_pos hlast]
        simp only [Option.map_some, underBracket, if_pos hfull]
      · rw [if_neg hlast]
        rfl

theorem read?_of_not_bracket {cs : List Char} (h : cs.head? ≠ some '[') :
    read? cs = readElement? cs := by
  have hnone : cs.takeWhile (· = '[') = [] := by
    cases cs with
    | nil => rfl
    | cons c cs => exact List.takeWhile_cons_of_neg (by simpa using h)
  simp only [read?, hnone, List.length_nil, Nat.zero_le, if_true, List.drop_zero,
    FieldType.wrap_zero, Nat.add_zero]
  exact Option.map_id'

theorem byteRead?_eq (cs : List Char) : byteRead? cs = .ok (read? cs) := by
  induction cs with
  | nil =>
    rw [byteRead?]
    rfl
  | cons c cs ih =>
    have hL := firstByte?_cons (c := c) (x := 'L') cs (by decide)
    have hbracket := firstByte?_cons (c := c) (x := '[') cs (by decide)
    rw [byteRead?]
    split
    · rename_i hnone
      exact absurd hnone (firstByte?_ne_none c cs)
    · rename_i byte hbyte
      have hletter := bytePrimitive?_eq hbyte
      rw [hbyte, Option.some.injEq] at hL hbracket
      simp only [hL, hbracket, hletter]
      split
      · rename_i hc
        rw [byteObject?_eq, read?_of_not_bracket (by simp [hc]), readElement?,
          if_pos (by simp [hc])]
      · rename_i hobject
        split
        · rename_i hc
          rw [hc, byteArray?_bracket, ih, read?_bracket]
          rfl
        · rename_i harray
          rw [read?_of_not_bracket (by simpa using harray), readElement?,
            if_neg (by simpa using hobject)]
          rfl

theorem byteArray?_eq (cs : List Char) : byteArray? cs = .ok (readArray? cs) := by
  cases cs with
  | nil =>
    rw [byteArray?]
    rfl
  | cons c cs =>
    by_cases hc : c = '['
    · subst hc
      rw [byteArray?_bracket, byteRead?_eq, readArray?, if_pos (List.head?_cons ..), read?_bracket]
      rfl
    · rw [byteArray?_of_not_bracket hc, readArray?, if_neg (by simpa using hc)]

structure Recognizes (text : String) : Prop where
  /-- What is read is a descriptor at the front of the text, and such a one is read. -/
  grammar : ∀ type n, read? text.toList = some (type, n) ↔
    ∃ front, front <+: text.toList ∧ utf8Length front = n ∧ Describes front type
  unique : ∀ front other type otherType, front <+: text.toList → other <+: text.toList →
    Describes front type → Describes other otherType → front = other ∧ type = otherType
  whole : ∀ type, FieldType.ofDescriptor? text = some type ↔ Describes text.toList type
  sliced : byteRead? text.toList = .ok (read? text.toList) ∧
    byteObject? text.toList = .ok (readObject? text.toList) ∧
    byteArray? text.toList = .ok (readArray? text.toList)
  objects : readObject? text.toList =
    if text.toList.head? = some 'L' then read? text.toList else none
  arrays : readArray? text.toList =
    if text.toList.head? = some '[' then read? text.toList else none

/-- Descriptors are read exactly as the grammar has them, whatever characters the text has. -/
theorem recognizes (text : String) : Recognizes text where
  grammar _ _ := read?_iff
  unique _ _ _ _ hfront hother h h' := h.unique h' hfront hother
  whole _ := FieldType.ofDescriptor?_iff
  sliced := ⟨byteRead?_eq _, byteObject?_eq _, byteArray?_eq _⟩
  objects := by
    by_cases hL : text.toList.head? = some 'L'
    · rw [if_pos hL, read?_of_not_bracket (by simp [hL]), readElement?, if_pos hL]
    · rw [if_neg hL, readObject?_eq_none hL]
  arrays := rfl

end Metaspace.Descriptor
