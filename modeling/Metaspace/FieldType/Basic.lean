set_option autoImplicit false

namespace Metaspace

inductive Primitive where
  | boolean | byte | short | int | long | char | float | double
  deriving DecidableEq, Repr, Ord

namespace Primitive

def all : List Primitive :=
  [.boolean, .byte, .short, .int, .long, .char, .float, .double]

def letter : Primitive → Char
  | .boolean => 'Z'
  | .byte => 'B'
  | .short => 'S'
  | .int => 'I'
  | .long => 'J'
  | .char => 'C'
  | .float => 'F'
  | .double => 'D'

def keyword : Primitive → String
  | .boolean => "boolean"
  | .byte => "byte"
  | .short => "short"
  | .int => "int"
  | .long => "long"
  | .char => "char"
  | .float => "float"
  | .double => "double"

def ofLetter? (c : Char) : Option Primitive :=
  all.find? (·.letter = c)

def ofKeyword? (word : String) : Option Primitive :=
  all.find? (·.keyword = word)

theorem ofLetter?_letter (p : Primitive) : ofLetter? p.letter = some p := by
  cases p <;> decide

theorem ofKeyword?_keyword (p : Primitive) : ofKeyword? p.keyword = some p := by
  cases p <;> decide

end Primitive

inductive FieldType where
  | primitive (type : Primitive)
  | object (name : String)
  | array (component : FieldType)
  deriving DecidableEq, Repr, Ord

def internalName (name : String) : String :=
  name.map fun c => if c = '.' then '/' else c

namespace FieldType

/-- The most dimensions that a descriptor may write and that are counted. -/
def maxDimensions : Nat := 255

def depth : FieldType → Nat
  | .array component => component.depth + 1
  | _ => 0

def dimensions (type : FieldType) : Nat :=
  min type.depth maxDimensions

def isArray : FieldType → Bool
  | .array _ => true
  | _ => false

def element : FieldType → FieldType
  | .array component => component.element
  | type => type

def wrap (type : FieldType) : Nat → FieldType
  | 0 => type
  | n + 1 => .array (type.wrap n)

def descriptor : FieldType → String
  | .primitive type => type.letter.toString
  | .object name => "L" ++ name ++ ";"
  | .array component => "[" ++ component.descriptor

def name : FieldType → String
  | .primitive type => type.keyword
  | .object name => name
  | .array component => (array component).descriptor

@[simp] theorem wrap_zero (type : FieldType) : type.wrap 0 = type := rfl

@[simp] theorem wrap_succ (type : FieldType) (n : Nat) :
    type.wrap (n + 1) = .array (type.wrap n) := rfl

theorem wrap_wrap (type : FieldType) (m n : Nat) : (type.wrap m).wrap n = type.wrap (m + n) := by
  induction n with
  | zero => rfl
  | succ n ih => simp [ih, ← Nat.add_assoc]

@[simp] theorem depth_wrap (type : FieldType) (n : Nat) : (type.wrap n).depth = type.depth + n := by
  induction n with
  | zero => rfl
  | succ n ih => simp [depth, ih, Nat.add_assoc]

@[simp] theorem element_wrap (type : FieldType) (n : Nat) :
    (type.wrap n).element = type.element := by
  induction n with
  | zero => rfl
  | succ n ih => simp [element, ih]

end FieldType
end Metaspace
