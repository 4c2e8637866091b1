set_option autoImplicit false

namespace Metaspace

structure Options where
  className : String := "test.Empty"
  classPath : Option String := none
  length : Nat := 10
  heapSize : UInt64 := 1048576
  classUnloading : Bool := true
  deriving DecidableEq, Repr

inductive Invocation where
  | run (options : Options)
  | help
  | version
  | misuse
  deriving DecidableEq, Repr

namespace Options

def digits? (cs : List Char) : Option Nat :=
  if cs ≠ [] ∧ cs.all Char.isDigit then
    some (cs.foldl (fun n c => 10 * n + (c.toNat - '0'.toNat)) 0)
  else none

def length? (text : String) : Option Nat :=
  match text.toList with
  | '+' :: cs => (digits? cs).filter (· < 0x100000000)
  | '-' :: cs => (digits? cs).filter (· = 0)
  | cs => (digits? cs).filter (· < 0x100000000)

def heapSize? (text : String) : Option UInt64 :=
  let number? := match text.toList with
    | '+' :: cs => digits? cs
    | cs => digits? cs
  (number?.filter (· < 0x10000000000000000)).map UInt64.ofNat

inductive Setting where
  | className | classPath | length | heapSize | noClassUnloading
  deriving DecidableEq, Repr

structure Reading where
  options : Options := {}
  given : List Setting := []
  deriving DecidableEq, Repr

namespace Reading

/-- Takes in one setting, unless it was given before or the value is wrong. -/
def set? (reading : Reading) (setting : Setting) (value : String) : Option Reading :=
  if reading.given.contains setting then none
  else
    let given := setting :: reading.given
    let options := reading.options
    match setting with
    | .className => some ⟨{ options with className := value }, given⟩
    | .classPath =>
      if value.isEmpty then none else some ⟨{ options with classPath := some value }, given⟩
    | .length => (length? value).map fun n => ⟨{ options with length := n }, given⟩
    | .heapSize => (heapSize? value).map fun n => ⟨{ options with heapSize := n }, given⟩
    | .noClassUnloading => some ⟨{ options with classUnloading := false }, given⟩

end Reading

/-- What an argument that starts with a dash stands for. -/
inductive Flag where
  | help
  | version
  | noClassUnloading
  /-- A setting whose value is attached or comes in the next argument. -/
  | valued (setting : Setting) (attached : Option String)
  | unknown
  deriving DecidableEq, Repr

def longFlag (text : List Char) : Flag :=
  let name := String.ofList (text.takeWhile (· ≠ '='))
  let attached := (text.dropWhile (· ≠ '=')).tail?.map String.ofList
  match name, attached with
  | "help", none => .help
  | "version", none => .version
  | "no-class-unloading", none => .noClassUnloading
  | "classpath", attached => .valued .classPath attached
  | "length", attached => .valued .length attached
  | "heap-size", attached => .valued .heapSize attached
  | _, _ => .unknown

def attachedValue : List Char → Option String
  | [] => none
  | '=' :: cs => some (String.ofList cs)
  | cs => some (String.ofList cs)

def shortFlag : List Char → Flag
  | 'h' :: _ => .help
  | 'V' :: _ => .version
  | 'c' :: cs => .valued .classPath (attachedValue cs)
  | 'l' :: cs => .valued .length (attachedValue cs)
  | _ => .unknown

/-- The flag an argument stands for; none for arguments that are values. -/
def flag? (arg : String) : Option Flag :=
  match arg.toList with
  | '-' :: '-' :: cs => some (longFlag cs)
  | ['-'] => none
  | '-' :: cs => some (shortFlag cs)
  | _ => none

def readValues : Reading → List String → Invocation
  | reading, [] => .run reading.options
  | reading, arg :: args =>
    match reading.set? .className arg with
    | some reading => readValues reading args
    | none => .misuse

def readArguments : Reading → List String → Invocation
  | reading, [] => .run reading.options
  | reading, arg :: args =>
    if arg = "--" then readValues reading args
    else
      match flag? arg with
      | none =>
        match reading.set? .className arg with
        | some reading => readArguments reading args
        | none => .misuse
      | some .help => .help
      | some .version => .version
      | some .unknown => .misuse
      | some .noClassUnloading =>
        match reading.set? .noClassUnloading "" with
        | some reading => readArguments reading args
        | none => .misuse
      | some (.valued setting (some value)) =>
        match reading.set? setting value with
        | some reading => readArguments reading args
        | none => .misuse
      | some (.valued setting none) =>
        match args with
        | [] => .misuse
        | value :: args =>
          if (flag? value).isSome then .misuse
          else
            match reading.set? setting value with
            | some reading => readArguments reading args
            | none => .misuse

end Options

namespace Invocation

def ofArguments (args : List String) : Invocation :=
  Options.readArguments {} args

def usage : String :=
  "Usage: metaspace [OPTIONS] [CLASS]\n\n"
    ++ "Loads a class through a loader of its own, keeps one array of it alive, and checks that\n"
    ++ "the class and its array class are unloaded only once the array is gone.\n\n"
    ++ "  CLASS                    name of the component class [default: test.Empty]\n"
    ++ "  -c, --classpath PATH     directory or jar to load the class from\n"
    ++ "  -l, --length LENGTH      length of the array [default: 10]\n"
    ++ "      --heap-size BYTES    capacity of the heap [default: 1048576]\n"
    ++ "      --no-class-unloading\n"
    ++ "  -h, --help\n"
    ++ "  -V, --version"

end Invocation
end Metaspace
