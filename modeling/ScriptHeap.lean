import ScriptHeap.Host.Sample
import ScriptHeap.Main
import ScriptHeap.Proofs.Files.Loading
import ScriptHeap.Proofs.Heap.Bounds
import ScriptHeap.Proofs.Number.Word
import ScriptHeap.Proofs.Packed.Streaming
import ScriptHeap.Proofs.Pool.Tenancy
import ScriptHeap.Proofs.Queue
import ScriptHeap.Proofs.Session.ArrayMethods
import ScriptHeap.Proofs.Session.Attached
import ScriptHeap.Proofs.Session.Blank
import ScriptHeap.Proofs.Session.Decoding
import ScriptHeap.Proofs.Session.ElementWriting
import ScriptHeap.Proofs.Session.Equality
import ScriptHeap.Proofs.Session.Expressions
import ScriptHeap.Proofs.Session.Interning
import ScriptHeap.Proofs.Session.ObjectKinds
import ScriptHeap.Proofs.Session.Searching
import ScriptHeap.Proofs.Session.Shared
import ScriptHeap.Proofs.Session.Shortage
import ScriptHeap.Proofs.Session.Sinks
import ScriptHeap.Proofs.Session.Sorting
import ScriptHeap.Proofs.Session.StructWriting
import ScriptHeap.Proofs.Session.Walking
import ScriptHeap.Proofs.Settings.Directories
import ScriptHeap.Proofs.Settings.Values
import ScriptHeap.Session.Pool
import ScriptHeap.Session.Queue
import ScriptHeap.Session.Run
import ScriptHeap.Session.Single
