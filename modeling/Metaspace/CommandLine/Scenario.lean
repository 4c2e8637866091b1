import Metaspace.CommandLine.Options
import Metaspace.LogFilter
import Metaspace.Machine.Instances
import Metaspace.Source.Basic
import Metaspace.Text.Harmless

/-!
The scenario of the command line. A class is loaded through a loader of its own and an array of it
is made; then the loader and the class are let go, and after a collection both classes have to be
alive, since the array is. Then the array is let go, and after another collection both have to be
unloaded.
-/

set_option autoImplicit false

namespace Metaspace

def Source.ask {ω : Type} : Asking Source ω := fun source name state => (source.load name, state)

structure LogLine where
  level : LogLevel
  text : String
  deriving DecidableEq, Repr

namespace Options

/-- The bytes of the class that stands in when there is no class path. -/
def standIn (name : String) : ByteArray :=
  ⟨#[0xCA, 0xFE, 0xBA, 0xBE]⟩ ++ name.toUTF8

def isJar (path : String) : Bool := Path.extension? path.toList = some "jar".toList

def file? (options : Options) : Option String :=
  options.classPath.map fun path =>
    if isJar path then path else Path.ofClass path options.className

def source (options : Options) (tree : FileTree) : Except Failure Source :=
  match options.classPath with
  | none => .ok (.memory [(options.className, standIn options.className)])
  | some path =>
    if isJar path then
      match tree.read path with
      | .error e => .error ((Failure.of (.file e)).within (.reading path))
      | .ok bytes => Source.ofJarBytes bytes
    else .ok (.directory tree path)

def config (options : Options) : Config :=
  { heapSize := options.heapSize, classUnloading := options.classUnloading }

end Options

namespace Scenario

structure State where
  machine : Machine Source
  log : List LogLine

abbrev Step (α : Type) := ExceptT Failure (StateM State) α

def onMachine {α : Type} (f : Machine Source → Except Failure α × Machine Source) : Step α := do
  let state ← get
  let (outcome, machine) := f state.machine
  set { state with machine }
  match outcome with
  | .ok a => return a
  | .error failure => throw failure

/-- Logs a line, which cannot move the cursor of the terminal that shows it. -/
def say (level : LogLevel) (text : String) : Step Unit :=
  modify fun state => { state with log := ⟨level, harmless text⟩ :: state.log }

def release (roots : List Root) : Step Unit :=
  modify fun state => { state with machine := state.machine.dropAll roots }

def check (name : String) (expected : Bool) : Step Unit := do
  let alive := (← get).machine.isAlive name
  if alive ≠ expected then throw (.of (.liveness name alive))
  say .info (name ++ " is " ++ livenessWord alive)

def takeEvents (subscriber : Nat) : Step (List UnloadEvent) := do
  let state ← get
  let engine := state.machine.engine
  let (events, publisher) := engine.publisher.take subscriber
  set { state with machine := { state.machine with engine := { engine with publisher } } }
  return events

def sayReport (report : CycleReport Source) : Step Unit :=
  let s := report.statistics
  say .info ("Cycle " ++ toString s.cycle ++ " unloaded " ++ toString s.ordinary ++ " classes, "
    ++ toString s.arrays ++ " array classes, " ++ toString s.loaders ++ " loaders")

def steps (options : Options) (source : Except Failure Source) (subscriber : Nat) : Step Unit := do
  let name := options.className
  let arrayName := "[L" ++ name ++ ";"
  let source ← source
  let loader ← onMachine (·.newLoader "unload" [source])
  let c ← onMachine fun m =>
    let (outcome, m, _) := Machine.load Source.ask loader.id name (m, ())
    (outcome, m)
  let array ← onMachine (·.newArray c.descriptor options.length)
  check name true
  check arrayName true
  release [loader.holder, c.mirror]
  let _ ← onMachine (·.collect)
  check name true
  check arrayName true
  release [array]
  let report ← onMachine (·.collect)
  check name (!options.classUnloading)
  check arrayName (!options.classUnloading)
  for event in ← takeEvents subscriber do
    say .info ("Unloaded " ++ event.name ++ " (" ++ event.kind ++ ") in cycle "
      ++ toString event.cycle)
  sayReport report
  if !options.classUnloading then say .warn "Class unloading is disabled, classes stay loaded"

end Scenario

/-- How the scenario ends, what it logs and the machine it leaves. -/
structure ScenarioResult where
  outcome : Except Failure Unit
  log : List LogLine
  machine : Machine Source

/-- Runs the scenario on a new machine, with the files that it may need. -/
def runScenario (options : Options) (tree : FileTree) : ScenarioResult :=
  let machine : Machine Source := .new options.config []
  let (subscriber, publisher) := machine.engine.publisher.subscribe
  let machine := { machine with engine := { machine.engine with publisher } }
  let (outcome, state) :=
    (Scenario.steps options (options.source tree) subscriber).run.run ⟨machine, []⟩
  ⟨outcome, state.log.reverse, state.machine⟩

/-- The lines that report a failure: the outermost message and its causes, which are numbered when
there is more than one. -/
def Failure.report (failure : Failure) : List String :=
  match failure.messages with
  | [] => ["Error: "]
  | outermost :: causes =>
    ("Error: " ++ outermost) ::
      if causes.length ≤ 1 then causes
      else causes.zipIdx.map fun (cause, n) => toString n ++ ": " ++ cause

/-- What is left when the command is done: the exit code, what was logged and, if the scenario
failed, the lines that report it. -/
structure Completion where
  exitCode : Nat
  log : List LogLine
  report : List String
  deriving DecidableEq, Repr

/-- The exit code when there cannot be as much memory as an archive asks for. Nothing is reported
then. -/
def abortCode : Nat := 101

/-- Carries out what a command line asks for. Misuse and failure have exit codes of their own. -/
def Invocation.complete (invocation : Invocation) (tree : FileTree) : Completion :=
  match invocation with
  | .run options =>
    let result := runScenario options tree
    match result.outcome with
    | .ok () => ⟨0, result.log, []⟩
    | .error failure =>
      if failure.cause = .archive .oversized then ⟨abortCode, result.log, []⟩
      else ⟨1, result.log, failure.report⟩
  | .help => ⟨0, [], []⟩
  | .version => ⟨0, [], []⟩
  | .misuse => ⟨2, [], []⟩

end Metaspace
