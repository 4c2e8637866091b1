import Metaspace.Bisection
import Metaspace.Class.Descriptor
import Metaspace.Coding.BlockSorting
import Metaspace.Coding.Bytes
import Metaspace.Coding.Checksum
import Metaspace.Coding.Digest
import Metaspace.Coding.Inflate
import Metaspace.Coding.Lzma
import Metaspace.Coding.LzmaAlone
import Metaspace.Coding.Packing
import Metaspace.Coding.PrefixCode
import Metaspace.Coding.Reader
import Metaspace.Coding.Scrambling
import Metaspace.Coding.StateCode
import Metaspace.Coding.WideInflate
import Metaspace.Coding.Xz.Chunks
import Metaspace.Coding.Xz.Filter
import Metaspace.Coding.Xz.Stream
import Metaspace.Coding.Zstandard.Block
import Metaspace.Coding.Zstandard.Checksum
import Metaspace.Coding.Zstandard.Destination
import Metaspace.Coding.Zstandard.Fault
import Metaspace.Coding.Zstandard.Frame
import Metaspace.Coding.Zstandard.Literals
import Metaspace.Coding.Zstandard.PrefixTable
import Metaspace.Coding.Zstandard.Sequences
import Metaspace.CommandLine.Options
import Metaspace.CommandLine.Scenario
import Metaspace.Failure
import Metaspace.FieldType.Basic
import Metaspace.FieldType.Order
import Metaspace.FieldType.Parser
import Metaspace.Heap.Basic
import Metaspace.Heap.Mark
import Metaspace.Heap.RootTable
import Metaspace.Heap.Sweep
import Metaspace.Id.Basic
import Metaspace.Id.Table
import Metaspace.LogFilter
import Metaspace.Machine.Basic
import Metaspace.Machine.Instances
import Metaspace.Machine.Metadata
import Metaspace.Machine.Object
import Metaspace.Machine.ObjectHeap
import Metaspace.Machine.Reachability
import Metaspace.Main
import Metaspace.Proofs.Bisection
import Metaspace.Proofs.CommandLine.Scenario
import Metaspace.Proofs.FieldType.Components
import Metaspace.Proofs.FieldType.Descriptors
import Metaspace.Proofs.FieldType.Grammar
import Metaspace.Proofs.FieldType.Slices
import Metaspace.Proofs.Heap.Accounts
import Metaspace.Proofs.Heap.Cells
import Metaspace.Proofs.Heap.Freeing
import Metaspace.Proofs.Heap.Handles
import Metaspace.Proofs.Heap.Inventory
import Metaspace.Proofs.Heap.Marking
import Metaspace.Proofs.Heap.Naming
import Metaspace.Proofs.Heap.Overflow
import Metaspace.Proofs.Heap.Roots
import Metaspace.Proofs.Heap.Sweeping
import Metaspace.Proofs.Heap.Tracing
import Metaspace.Proofs.Id.History
import Metaspace.Proofs.Id.Table
import Metaspace.Proofs.Machine.Admission
import Metaspace.Proofs.Machine.ArrayTrees
import Metaspace.Proofs.Machine.Attempts
import Metaspace.Proofs.Machine.Budget
import Metaspace.Proofs.Machine.Collection
import Metaspace.Proofs.Machine.Course
import Metaspace.Proofs.Machine.Dealings
import Metaspace.Proofs.Machine.Departure
import Metaspace.Proofs.Machine.Exhaustion
import Metaspace.Proofs.Machine.Hosting
import Metaspace.Proofs.Machine.Linkage
import Metaspace.Proofs.Machine.Liveness
import Metaspace.Proofs.Machine.MetadataGraph
import Metaspace.Proofs.Machine.Mirrors
import Metaspace.Proofs.Machine.NestedArrays
import Metaspace.Proofs.Machine.Operations
import Metaspace.Proofs.Machine.Passage
import Metaspace.Proofs.Machine.Permanence
import Metaspace.Proofs.Machine.Remnants
import Metaspace.Proofs.Machine.Secured
import Metaspace.Proofs.Machine.Session
import Metaspace.Proofs.Machine.Shading
import Metaspace.Proofs.Machine.SharedCycle
import Metaspace.Proofs.Machine.Survival
import Metaspace.Proofs.Machine.Underway
import Metaspace.Proofs.Machine.Unloading
import Metaspace.Proofs.Machine.Upkeep
import Metaspace.Proofs.Machine.Verdict
import Metaspace.Proofs.Places
import Metaspace.Proofs.Registry.Canonical
import Metaspace.Proofs.Registry.Closure
import Metaspace.Proofs.Registry.Coherence
import Metaspace.Proofs.Registry.Composition
import Metaspace.Proofs.Registry.Defining
import Metaspace.Proofs.Registry.Derivation
import Metaspace.Proofs.Registry.Evolution
import Metaspace.Proofs.Registry.Growth
import Metaspace.Proofs.Registry.Reentrance
import Metaspace.Proofs.Registry.Refusal
import Metaspace.Proofs.Registry.Removal
import Metaspace.Proofs.Registry.Snapshots
import Metaspace.Proofs.Registry.Stocked
import Metaspace.Proofs.Registry.Views
import Metaspace.Proofs.Saturation
import Metaspace.Proofs.Source.Directory
import Metaspace.Proofs.Source.Jar
import Metaspace.Proofs.Source.Path
import Metaspace.Proofs.Unload.Coalescing
import Metaspace.Proofs.Unload.Conduct
import Metaspace.Proofs.Unload.Eviction
import Metaspace.Proofs.Unload.Hearing
import Metaspace.Proofs.Unload.Lifecycle
import Metaspace.Proofs.Unload.Nesting
import Metaspace.Proofs.Unload.Stream
import Metaspace.Registry.Basic
import Metaspace.Registry.Derivation
import Metaspace.Registry.Loading
import Metaspace.Registry.Removal
import Metaspace.Registry.Snapshot
import Metaspace.Saturation
import Metaspace.Source.Archive
import Metaspace.Source.Basic
import Metaspace.Source.FileTree
import Metaspace.Source.Path
import Metaspace.Source.Zip.Ending
import Metaspace.Source.Zip.Layout
import Metaspace.Source.Zip.Listing
import Metaspace.Source.Zip.Writer
import Metaspace.Text.Harmless
import Metaspace.Text.Lenient
import Metaspace.Text.Printable
import Metaspace.Text.Quoted
import Metaspace.Unload.Coordinator
import Metaspace.Unload.Cycle
import Metaspace.Unload.Event
import Metaspace.Unload.Oracle
