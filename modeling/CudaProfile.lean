import CudaProfile.Component.ClusteringTree
import CudaProfile.Component.Registry
import CudaProfile.Cuda.Collector
import CudaProfile.Cuda.Staging
import CudaProfile.Main
import CudaProfile.SpinLock
import CudaProfile.Proofs.AddressBuffer
import CudaProfile.Proofs.AddressSet.Algebra
import CudaProfile.Proofs.AddressSet.Canonical
import CudaProfile.Proofs.AddressSet.Counting
import CudaProfile.Proofs.AddressSet.Equality
import CudaProfile.Proofs.AddressSet.Partition
import CudaProfile.Proofs.AddressSet.Policy
import CudaProfile.Proofs.AddressSet.RangeList
import CudaProfile.Proofs.AddressSet.Storage
import CudaProfile.Proofs.AddressSet.Tiling
import CudaProfile.Proofs.AddressSpaces.Agreement
import CudaProfile.Proofs.AddressSpaces.Closing
import CudaProfile.Proofs.AddressSpaces.Exchanging
import CudaProfile.Proofs.AddressSpaces.Loading
import CudaProfile.Proofs.AddressSpaces.Rebuilding
import CudaProfile.Proofs.AddressSpaces.Stopping
import CudaProfile.Proofs.AddressSpaces.Unloading
import CudaProfile.Proofs.Component.Aggregation
import CudaProfile.Proofs.Component.Clustering
import CudaProfile.Proofs.Component.Collecting
import CudaProfile.Proofs.Component.Idempotence
import CudaProfile.Proofs.Component.Merging
import CudaProfile.Proofs.Component.Observing
import CudaProfile.Proofs.Component.Replay
import CudaProfile.Proofs.Component.Scheduling
import CudaProfile.Proofs.Component.TerminalSequence
import CudaProfile.Proofs.Crc64
import CudaProfile.Proofs.Cuda.Acceptance
import CudaProfile.Proofs.Cuda.Alternation
import CudaProfile.Proofs.Cuda.Bookkeeping
import CudaProfile.Proofs.Cuda.CallSites
import CudaProfile.Proofs.Cuda.Devices
import CudaProfile.Proofs.Cuda.Format
import CudaProfile.Proofs.Cuda.Isolation
import CudaProfile.Proofs.Cuda.Overflow
import CudaProfile.Proofs.Cuda.Pairing
import CudaProfile.Proofs.Cuda.Payload
import CudaProfile.Proofs.Cuda.Periodic
import CudaProfile.Proofs.Cuda.Spans
import CudaProfile.Proofs.Feature
import CudaProfile.Proofs.Order.OrderedMap
import CudaProfile.Proofs.Order.Overlap
import CudaProfile.Proofs.Sampling.Rates
import CudaProfile.Proofs.Symbols.Copying
import CudaProfile.Proofs.Symbols.Equivalence
import CudaProfile.Proofs.Symbols.Queries
import CudaProfile.Proofs.Wire.Log
import CudaProfile.Proofs.Wire.ThreadName
