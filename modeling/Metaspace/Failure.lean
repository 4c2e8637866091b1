import Metaspace.Class.Descriptor
import Metaspace.Coding.Packing
import Metaspace.Heap.Basic

set_option autoImplicit false

namespace Metaspace

inductive ClassError where
  | duplicateClass (name : String) (loader : LoaderId)
  | componentNotLoaded (name : String)
  | invalidDimensions (dimensions : Nat) (max : Nat)
  | classNotFound (name : String) (loader : LoaderId)
  | invalidName (name : String)
  | unknownLoader (loader : LoaderId)
  | classUnloaded (name : String)
  | loaderUnloading (loader : LoaderId)
  | idsExhausted
  | dimensionsOverflow
  deriving DecidableEq

namespace ClassError

def exhaustedMessage : String := "Id space exhausted"

def message : ClassError → String
  | duplicateClass name loader => "Class " ++ name ++ " is already defined by " ++ loader.display
  | componentNotLoaded name => "Component class " ++ name ++ " is not loaded"
  | invalidDimensions dimensions max =>
    "Array dimensions " ++ toString dimensions ++ " out of range (1..=" ++ toString max ++ ")"
  | classNotFound name loader => "Class " ++ name ++ " could not be found by " ++ loader.display
  | invalidName name => "Invalid class name " ++ quoted name
  | unknownLoader loader => "Unknown class loader " ++ loader.display
  | classUnloaded name => "Class " ++ name ++ " has been unloaded"
  | loaderUnloading loader => "Class loader " ++ loader.display ++ " is unloading"
  | idsExhausted => exhaustedMessage
  | dimensionsOverflow => overflowMessage

end ClassError

inductive FileError where
  | notFound
  | notDirectory
  | isDirectory
  | nameTooLong
  deriving DecidableEq, Repr

def FileError.message : FileError → String
  | .notFound => "No such file or directory (os error 2)"
  | .notDirectory => "Not a directory (os error 20)"
  | .isDirectory => "Is a directory (os error 21)"
  | .nameTooLong => "File name too long (os error 36)"

inductive ArchiveFault where
  | noEnd
  | longComment
  | directoryAfterEnd
  | noDirectory
  | wideEndAfterLocator
  | manyDisks
  | noWideEnd
  | shortWideEnd
  | longWideEnd
  | wideEndElsewhere
  | wideEndLength
  | wideEndCount
  | badEntry
  deriving DecidableEq, Repr

def ArchiveFault.message : ArchiveFault → String
  | .noEnd => "Could not find EOCD"
  | .longComment => "EOCD comment exceeds file boundary"
  | .directoryAfterEnd => "Invalid CDFH offset in EOCD"
  | .noDirectory => "No CDFH found"
  | .wideEndAfterLocator => "Invalid EOCD64 Locator CD offset"
  | .manyDisks => "Multi-disk ZIP files are not supported"
  | .noWideEnd => "Could not find EOCD64"
  | .shortWideEnd => "Low EOCD64 record size"
  | .longWideEnd => "EOCD64 extends beyond EOCD64 locator"
  | .wideEndElsewhere => "Invalid EOCD64: inconsistency with Locator data"
  | .wideEndLength => "Invalid EOCD64: inconsistent length"
  | .wideEndCount => "Invalid EOCD64: inconsistent number of files"
  | .badEntry => "Invalid local file header"

inductive ArchiveError where
  | truncated
  | malformed (fault : ArchiveFault)
  | unsupportedMethod
  | encrypted
  | wrongPassword
  | badData (fault : UnpackingFault)
  | badChecksum
  | oversized
  deriving DecidableEq, Repr

def oversizedMessage : String := "capacity overflow"

def ArchiveError.messages : ArchiveError → List String
  | .truncated => ["i/o error", "failed to fill whole buffer"]
  | .malformed fault => ["invalid Zip archive: " ++ fault.message]
  | .unsupportedMethod => ["unsupported Zip archive: Compression method not supported"]
  | .encrypted => ["unsupported Zip archive: Password required to decrypt file"]
  | .wrongPassword => ["provided password is incorrect"]
  | .badData fault => [fault.message]
  | .badChecksum => ["Invalid checksum"]
  | .oversized => [oversizedMessage]

inductive OracleError where
  | unavailable (text : String)
  | unknownClass (text : String)
  deriving DecidableEq, Repr

def OracleError.message : OracleError → String
  | .unavailable text => "Reachability is unavailable: " ++ text
  | .unknownClass text => text ++ " was not part of the prepared snapshot"

inductive UnloadError where
  | oracle (cycle : Nat) (source : OracleError)
  | panicked (cycle : Nat)
  deriving DecidableEq, Repr

def UnloadError.messages : UnloadError → List String
  | .oracle cycle source =>
    ["Unload cycle " ++ toString cycle ++ " aborted by the reachability oracle", source.message]
  | .panicked cycle => ["Unload cycle " ++ toString cycle ++ " panicked"]

inductive Cause where
  | classError (e : ClassError)
  | allocation (e : AllocationError)
  | unload (e : UnloadError)
  | file (e : FileError)
  | archive (e : ArchiveError)
  | source (text : String)
  | vanished (name : String)
  | arrayInstance (name : String)
  | unstorable (target : Ref) (index : Nat)
  | liveness (name : String) (alive : Bool)
  deriving DecidableEq

def livenessWord (alive : Bool) : String :=
  if alive then "alive" else "unloaded"

def Cause.messages : Cause → List String
  | .classError e => [e.message]
  | .allocation e => [e.message]
  | .unload e => e.messages
  | .file e => [e.message]
  | .archive e => e.messages
  | .source text => [text]
  | .vanished name => ["Class " ++ name ++ " vanished while being defined"]
  | .arrayInstance name => [name ++ " is an array class"]
  | .unstorable target index => ["Cannot store into " ++ target.display ++ " at " ++ toString index]
  | .liveness name alive =>
    [name ++ " is " ++ livenessWord alive ++ " but should be " ++ livenessWord (!alive)]

def Cause.panic? : Cause → Option String
  | .classError .idsExhausted => some ClassError.exhaustedMessage
  | .classError .dimensionsOverflow | .allocation .overflow => some overflowMessage
  | .archive .oversized => some oversizedMessage
  | _ => none

inductive Context where
  | loadingClass (name : String)
  | loading (name : String)
  | askingSource (name : String)
  | reading (path : String)
  | openingJar
  | allocatingHolder (name : String)
  | allocatingMirror (name : String)
  | allocatingArray (name : String) (length : Nat)
  | allocatingArrays (name : String) (lengths : List Nat)
  | allocatingInstance (name : String)
  | collecting
  deriving DecidableEq, Repr

def Context.message : Context → String
  | .loadingClass name => "Loading class " ++ name
  | .loading name => "Loading " ++ name
  | .askingSource name => "Failed to load " ++ name ++ " from source"
  | .reading path => "Reading " ++ path
  | .openingJar => "Failed to open jar"
  | .allocatingHolder name => "Allocating the holder of class loader " ++ name
  | .allocatingMirror name => "Allocating the mirror of " ++ name
  | .allocatingArray name length => "Allocating " ++ name ++ "[" ++ toString length ++ "]"
  | .allocatingArrays name lengths =>
    "Allocating " ++ name ++ " [" ++ ", ".intercalate (lengths.map toString) ++ "]"
  | .allocatingInstance name => "Allocating an instance of " ++ name
  | .collecting => "Full collection failed"

structure Failure where
  context : List Context
  cause : Cause
  deriving DecidableEq

namespace Failure

def of (cause : Cause) : Failure := ⟨[], cause⟩

def within (failure : Failure) (context : Context) : Failure :=
  { failure with context := context :: failure.context }

def messages (failure : Failure) : List String :=
  failure.context.map Context.message ++ failure.cause.messages

def message (failure : Failure) : String :=
  ": ".intercalate failure.messages

end Failure
end Metaspace
