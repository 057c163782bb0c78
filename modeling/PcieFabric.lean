import PcieFabric.Reservation.Accounting
import PcieFabric.Topology.Acyclic
import PcieFabric.Codec.Codec
import PcieFabric.Codec.Layout
import PcieFabric.Snapshot.Measurement
import PcieFabric.Snapshot.Path
import PcieFabric.Snapshot.Snapshot
import PcieFabric.Persist.Records
import PcieFabric.Persist.Images
import PcieFabric.Persist.Stream
import PcieFabric.Persist.Validity
import PcieFabric.Persist.RoundTrip
import PcieFabric.Codec.Bounds
import PcieFabric.Persist.ReadBounds
import PcieFabric.Lib.FileSystem
import PcieFabric.Persist.Save
import PcieFabric.Coordinator.Coordinator
import PcieFabric.Coordinator.Requests
import PcieFabric.Coordinator.Fencing
import PcieFabric.Coordinator.Supersession
import PcieFabric.Wire.Framing
import PcieFabric.Lib.ChunkedStream
import PcieFabric.Wire.Socket
import PcieFabric.Coordinator.HandleConnection
import PcieFabric.Coordinator.Authority
import PcieFabric.Coordinator.Replies
import PcieFabric.Lib.RequestReply
import PcieFabric.Lib.Unambiguous
import PcieFabric.Persist.ReadBack
import PcieFabric.Worker.Session
import PcieFabric.Worker.Snapshots
import PcieFabric.Lib.MapWrites
import PcieFabric.Runtime.BuildPath
import PcieFabric.Runtime.Numbering
import PcieFabric.Runtime.PathIdentity
import PcieFabric.Lib.Binary64
import PcieFabric.Lib.Incarnation
import PcieFabric.Lib.Ranking
import PcieFabric.Reservation.Releasable
import PcieFabric.Runtime.Authority
import PcieFabric.Runtime.Rebuild
import PcieFabric.Topology.Incarnations
import PcieFabric.Lib.Newest
import PcieFabric.Reservation.Fences
import PcieFabric.Snapshot.Ingestion
import PcieFabric.Topology.Addresses
import PcieFabric.Topology.Children
import PcieFabric.Topology.Validate
import PcieFabric.Persist.Stability
import PcieFabric.Runtime.BuildOrder
import PcieFabric.Codec.RoundTrip
import PcieFabric.Coordinator.WholePayload
import PcieFabric.Lib.CheckedSort
import PcieFabric.Lib.TreePath
import PcieFabric.Persist.FileImage
import PcieFabric.Runtime.TreePaths
import PcieFabric.Selection.Recoded
import PcieFabric.Topology.Removal
import PcieFabric.Base.BdfGrammar
import PcieFabric.Base.BdfOrder
import PcieFabric.Codec.Checksum
import PcieFabric.Coordinator.DeadConnection
import PcieFabric.Lib.Framing
import PcieFabric.Lib.Latch
import PcieFabric.Persist.Corruption
import PcieFabric.Reservation.Checker
import PcieFabric.Reservation.Lifecycle
import PcieFabric.Reservation.Returnable
import PcieFabric.Snapshot.DigestInput
import PcieFabric.Lib.Occurrence
import PcieFabric.Runtime.Aging
import PcieFabric.Selection.Explanation
import PcieFabric.Topology.AncestorChain
import PcieFabric.Topology.DiscoveredParents
import PcieFabric.Lib.Component
import PcieFabric.Lib.Cell
import PcieFabric.Coordinator.Stores
import PcieFabric.Coordinator.Workers
import PcieFabric.Runtime.Evidence
import PcieFabric.Runtime.Served
import PcieFabric.Persist.History
import PcieFabric.Persist.Settled
import PcieFabric.Coordinator.Persistence
import PcieFabric.Runtime.SaveAndLoad
import PcieFabric.Lib.Log
import PcieFabric.Worker.Told
import PcieFabric.Worker.Rounds
import PcieFabric.Lib.Search
import PcieFabric.Topology.Enumeration
import PcieFabric.Topology.HostTree
import PcieFabric.Lib.ChunkedSend
import PcieFabric.Wire.Sending
import PcieFabric.Lib.MapDiff
import PcieFabric.Snapshot.Diff
import PcieFabric.Runtime.Changes
import PcieFabric.Coordinator.Threads
import PcieFabric.Coordinator.Fabric
