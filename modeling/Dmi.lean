import Dmi.Capture.Conservation
import Dmi.Catalog.Lease.Exclusion
import Dmi.Catalog.Publish.Snapshot
import Dmi.Catalog.Allocation.Unique
import Dmi.Capture.Key
import Dmi.Ring.LegacyRoom
import Dmi.Ring.Reclaim
import Dmi.Ring.Refund
import Dmi.Ring.RecordPairing
import Dmi.Ring.RecordProducer
import Dmi.P2PThread.StepContexts
import Dmi.Native.Conformance
import Dmi.Native.FilterHash
import Dmi.Native.ObjectKey
import Dmi.Rows.Planner
import Dmi.Rows.GatherPlan
import Dmi.Adapter.Attach
import Dmi.HuggingFace.Slices
import Dmi.Toggle.Current
import Dmi.Objects.Reconcile
import Dmi.Spool.Intents
import Dmi.Ownership.Nested
import Dmi.Storage.Flush
import Dmi.Capture.Pack.Capacity
import Dmi.Internals.Reassembly
import Dmi.Engine.Enqueue
import Dmi.Configuration.Stages
