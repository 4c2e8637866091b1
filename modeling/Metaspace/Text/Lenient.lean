set_option autoImplicit false

namespace Metaspace.Lenient

def replacement : Char := '\uFFFD'

/-- What a first byte announces: its share of the code point, how many bytes follow, and the range
of the next one. -/
structure Lead where
  value : Nat
  following : Nat
  low : Nat
  high : Nat

def Lead.ofByte? (b : Nat) : Option Lead :=
  if 0xC2 ≤ b ∧ b ≤ 0xDF then some ⟨b - 0xC0, 1, 0x80, 0xBF⟩
  else if b = 0xE0 then some ⟨0, 2, 0xA0, 0xBF⟩
  else if b = 0xED then some ⟨0xD, 2, 0x80, 0x9F⟩
  else if 0xE1 ≤ b ∧ b ≤ 0xEF then some ⟨b - 0xE0, 2, 0x80, 0xBF⟩
  else if b = 0xF0 then some ⟨0, 3, 0x90, 0xBF⟩
  else if 0xF1 ≤ b ∧ b ≤ 0xF3 then some ⟨b - 0xF0, 3, 0x80, 0xBF⟩
  else if b = 0xF4 then some ⟨4, 3, 0x80, 0x8F⟩
  else none

def follow : Nat → Nat → Nat → Nat → List UInt8 → Char × List UInt8
  | value, 0, _, _, bytes => (Char.ofNat value, bytes)
  | _, _ + 1, _, _, [] => (replacement, [])
  | value, n + 1, low, high, byte :: bytes =>
    if low ≤ byte.toNat ∧ byte.toNat ≤ high then
      follow (64 * value + byte.toNat % 64) n 0x80 0xBF bytes
    else (replacement, byte :: bytes)

theorem length_follow_le (value n low high : Nat) (bytes : List UInt8) :
    (follow value n low high bytes).2.length ≤ bytes.length := by
  induction bytes generalizing value n low high with
  | nil => cases n <;> simp [follow]
  | cons byte bytes ih =>
    cases n with
    | zero => simp [follow]
    | succ n =>
      simp only [follow]
      split
      · exact Nat.le_trans (ih ..) (Nat.le_succ _)
      · simp

def decode : List UInt8 → List Char
  | [] => []
  | byte :: bytes =>
    if byte < 128 then Char.ofNat byte.toNat :: decode bytes
    else
      match Lead.ofByte? byte.toNat with
      | none => replacement :: decode bytes
      | some lead =>
        (follow lead.value lead.following lead.low lead.high bytes).1 ::
          decode (follow lead.value lead.following lead.low lead.high bytes).2
  termination_by bytes => bytes.length
  decreasing_by
    · simp
    · simp
    · simpa using Nat.lt_succ_of_le (length_follow_le ..)

end Metaspace.Lenient
