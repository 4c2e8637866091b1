set_option autoImplicit false

namespace Metaspace

inductive LogLevel where
  | error | warn | info | debug | trace
  deriving DecidableEq, Repr

namespace LogLevel

def verbosity : LogLevel → Nat
  | .error => 1
  | .warn => 2
  | .info => 3
  | .debug => 4
  | .trace => 5

def name : LogLevel → String
  | .error => "ERROR"
  | .warn => "WARN"
  | .info => "INFO"
  | .debug => "DEBUG"
  | .trace => "TRACE"

end LogLevel

structure LogDirective where
  target : String
  level : LogLevel
  deriving DecidableEq, Repr

structure LogFilter where
  fallback : LogLevel
  directives : List LogDirective
  deriving DecidableEq, Repr

namespace LogFilter

def default : LogFilter where
  fallback := .debug
  directives := [⟨"gc", .info⟩, ⟨"class_unload", .debug⟩]

def directive? (filter : LogFilter) (target : String) : Option LogDirective :=
  (filter.directives.filter fun d => d.target.toList.isPrefixOf target.toList).foldl
    (fun best d =>
      match best with
      | some b => if b.target.length < d.target.length then some d else best
      | none => some d)
    none

def threshold (filter : LogFilter) (target : String) : LogLevel :=
  ((filter.directive? target).map (·.level)).getD filter.fallback

def allows (filter : LogFilter) (target : String) (level : LogLevel) : Bool :=
  level.verbosity ≤ (filter.threshold target).verbosity

end LogFilter
end Metaspace
